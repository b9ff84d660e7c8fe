import SymCalc.Polynomial.Text
import SymCalc.Proofs.Expr.Equality

/-!
# Coefficients and terms

Polynomials compare their coefficients as doubles, so that the two zeros are the same coefficient.
`Polynomial.constants` forgets which zero it is: polynomials are equal if their constants are
(`beq_iff_constants_eq`), and then they have the same terms (`terms_eq_of_constants_eq`).

**Theorem (`constants_ofTerms_reverse`).** The terms of a polynomial, added up again in the order
in which they are written, give a polynomial with the same constants.

A polynomial has at most one term of each power, so nothing is rounded in the sums. The terms are
followed along the coefficients by `termsFrom`.
-/

namespace SymCalc

open Double

/-- Nothing is dropped if there is no zero at the end. -/
theorem dropZeros_eq_self {cs : List Float} (h : ∀ c ∈ cs.getLast?, (c == 0.0) = false) :
    dropZeros cs = cs := by
  induction cs with
  | nil => rfl
  | cons c cs ih =>
    cases cs with
    | nil =>
      have hc : (c == 0.0) = false := h c rfl
      simp [dropZeros, hc]
    | cons d ds => rw [dropZeros, ih h]

/-- Dropping zeros at the end leaves the beginning of the list. -/
theorem dropZeros_isPrefix (cs : List Float) : dropZeros cs <+: cs := by
  induction cs with
  | nil => exact List.nil_prefix
  | cons c cs ih =>
    rw [dropZeros]
    cases hcs : dropZeros cs with
    | nil =>
      dsimp only
      split_ifs
      · exact List.nil_prefix
      · exact ⟨cs, rfl⟩
    | cons d ds =>
      rw [hcs] at ih
      exact (List.prefix_cons_inj c).mpr ih

namespace Polynomial

variable {p q : Polynomial} {cs ds : List Float} {c : Float} {t : ℕ × Float} {k n : ℕ}

/-- Every coefficient is finite. -/
def IsFinite (p : Polynomial) : Prop :=
  ∀ c ∈ p.coefficients, c.isFinite

/-- The coefficients, with the positive zero for either zero. -/
def constants (p : Polynomial) : List Constant :=
  p.coefficients.map .ofFloat

/-! ## Equality -/

theorem beq_iff_map_ofFloat_eq (hcs : ∀ c ∈ cs, c.isNaN = false) :
    (cs == ds) = true ↔ cs.map Constant.ofFloat = ds.map Constant.ofFloat := by
  induction cs generalizing ds with
  | nil => cases ds <;> simp
  | cons c cs ih =>
    obtain ⟨hc, hcs⟩ := List.forall_mem_cons.mp hcs
    cases ds with
    | nil => simp
    | cons d ds =>
      rw [List.cons_beq_cons, Bool.and_eq_true, ih hcs, beq_iff_agree hc, ← Constant.ofFloat_eq_iff,
        List.map_cons, List.map_cons, List.cons.injEq]

/-- **Polynomials are equal if their constants are the same.** -/
theorem beq_iff_constants_eq (hp : p.IsFinite) :
    (p == q) = true ↔ p.constants = q.constants :=
  beq_iff_map_ofFloat_eq fun c hc => isNaN_of_finite (hp c hc)

theorem isFinite_of_constants_eq (hp : p.IsFinite) (h : q.constants = p.constants) :
    q.IsFinite := by
  intro c hc
  have hmem : Constant.ofFloat c ∈ p.constants := by
    rw [← h]
    exact List.mem_map_of_mem hc
  obtain ⟨d, hd, heq⟩ := List.mem_map.mp hmem
  exact isFinite_of_agree (Constant.ofFloat_eq_iff.mp heq) (hp d hd)

/-! ## Terms -/

/-- The terms with these coefficients, the first of which belongs to the power `n`. -/
def termsFrom (n : ℕ) : List Float → List (ℕ × Float)
  | [] => []
  | c :: cs => if c == 0.0 then termsFrom (n + 1) cs else (n, c) :: termsFrom (n + 1) cs

theorem filter_mapIdx (n : ℕ) (cs : List Float) :
    (cs.mapIdx fun i c => (n + i, c)).filter (fun t => t.2 != 0.0) = termsFrom n cs := by
  induction cs generalizing n with
  | nil => rfl
  | cons c cs ih =>
    have hshift : (fun i (c : Float) => (n + (i + 1), c)) = fun i c => (n + 1 + i, c) := by
      funext i c
      rw [Nat.add_right_comm, Nat.add_assoc]
    rw [List.mapIdx_cons, hshift, List.filter_cons, ih, termsFrom]
    by_cases hc : (c == 0.0) = true <;> simp [bne, hc]

theorem terms_eq (p : Polynomial) : p.terms = termsFrom 0 p.coefficients := by
  rw [← filter_mapIdx, terms]
  simp

theorem termsFrom_congr (h : cs.map Constant.ofFloat = ds.map Constant.ofFloat) (n : ℕ) :
    termsFrom n cs = termsFrom n ds := by
  induction cs generalizing ds n with
  | nil => rw [List.map_eq_nil_iff.mp h.symm]
  | cons c cs ih =>
    cases ds with
    | nil => cases h
    | cons d ds =>
      obtain ⟨hcd, hrest⟩ := List.cons.inj h
      rw [termsFrom, termsFrom, ih hrest]
      rcases Constant.ofFloat_eq_iff.mp hcd with rfl | ⟨hc, hd⟩
      · rfl
      · rw [if_pos hc, if_pos hd]

/-- **Equal polynomials have the same terms.** -/
theorem terms_eq_of_constants_eq (h : p.constants = q.constants) : p.terms = q.terms := by
  rw [terms_eq, terms_eq, termsFrom_congr h]

theorem of_mem_termsFrom (h : t ∈ termsFrom n cs) :
    n ≤ t.1 ∧ t.1 < n + cs.length ∧ t.2 ∈ cs ∧ (t.2 == 0.0) = false := by
  induction cs generalizing n with
  | nil => cases h
  | cons c cs ih =>
    have hrest : t ∈ termsFrom (n + 1) cs → n ≤ t.1 ∧ t.1 < n + (c :: cs).length ∧ t.2 ∈ c :: cs ∧
        (t.2 == 0.0) = false := by
      intro h
      obtain ⟨hle, hlt, hmem, hne⟩ := ih h
      rw [List.length_cons]
      exact ⟨by omega, by omega, List.mem_cons_of_mem c hmem, hne⟩
    rw [termsFrom] at h
    split_ifs at h with hc
    · exact hrest h
    · rcases List.mem_cons.mp h with rfl | h
      · simp [Bool.eq_false_iff.mpr hc]
      · exact hrest h

theorem filter_termsFrom (n k : ℕ) (cs : List Float) :
    (termsFrom n cs).filter (·.1 = n + k) =
      match cs[k]? with
      | some c => if c == 0.0 then [] else [(n + k, c)]
      | none => [] := by
  induction cs generalizing n k with
  | nil => rfl
  | cons c cs ih =>
    cases k with
    | zero =>
      -- the coefficients after the first belong to higher powers
      have hrest : (termsFrom (n + 1) cs).filter (·.1 = n) = [] := by
        rw [List.filter_eq_nil_iff]
        intro t ht
        have hle := (of_mem_termsFrom ht).1
        simp only [decide_eq_true_eq]
        omega
      rw [Nat.add_zero, termsFrom, List.getElem?_cons_zero]
      split_ifs with hc
      · simp only [hrest, if_pos hc]
      · rw [List.filter_cons_of_pos (by simp), hrest]
        simp only [if_neg hc]
    | succ k =>
      have hrest := ih (n + 1) k
      rw [Nat.add_right_comm, Nat.add_assoc] at hrest
      rw [List.getElem?_cons_succ, ← hrest, termsFrom]
      split_ifs
      · rfl
      · rw [List.filter_cons_of_neg (by simp)]

theorem of_mem_terms (h : t ∈ p.terms) :
    t.1 ≤ p.degree ∧ t.2 ∈ p.coefficients ∧ (t.2 == 0.0) = false := by
  rw [terms_eq] at h
  obtain ⟨-, hlt, hmem, hne⟩ := of_mem_termsFrom h
  rw [coefficients, List.length_cons] at hlt
  rw [degree]
  exact ⟨by omega, hmem, hne⟩

/-- **A polynomial has at most one term of a power**: that of its coefficient. -/
theorem filter_terms (p : Polynomial) (hc : p.coefficients[k]? = some c) :
    p.terms.filter (·.1 = k) = if c == 0.0 then [] else [(k, c)] := by
  have hfilter := filter_termsFrom 0 k p.coefficients
  simp only [hc, Nat.zero_add] at hfilter
  rw [terms_eq, hfilter]

/-! ## Sums of terms -/

theorem foldl_max_le_iff {ts : List (ℕ × Float)} {m d : ℕ} :
    ts.foldl (fun m t => max m t.1) m ≤ d ↔ m ≤ d ∧ ∀ t ∈ ts, t.1 ≤ d := by
  induction ts generalizing m with
  | nil => simp
  | cons t ts ih => rw [List.foldl_cons, ih, max_le_iff, List.forall_mem_cons, and_assoc]

theorem coefficients_getElem_degree (p : Polynomial) (hne : p.higher ≠ []) :
    ∃ c, p.coefficients[p.degree]? = some c ∧ (c == 0.0) = false := by
  obtain ⟨c, hc⟩ := Option.isSome_iff_exists.mp (List.getLast?_isSome.mpr hne)
  refine ⟨c, ?_, p.trimmed c hc⟩
  have hlast : p.coefficients.getLast? = some c := by
    rw [coefficients, List.getLast?_cons, hc]
    rfl
  rw [List.getLast?_eq_getElem?] at hlast
  exact hlast

/-- The highest coefficient belongs to a term. -/
theorem exists_mem_terms_degree (p : Polynomial) (hne : p.higher ≠ []) :
    ∃ c, (p.degree, c) ∈ p.terms := by
  obtain ⟨c, hc, hzero⟩ := p.coefficients_getElem_degree hne
  refine ⟨c, List.mem_of_mem_filter (p := (·.1 = p.degree)) ?_⟩
  rw [p.filter_terms hc]
  simp [hzero]

/-- Only the zero polynomial has no terms. -/
theorem constants_of_terms_eq_nil (h : p.terms = []) : p.constants = [.ofFloat 0.0] := by
  have hhigher : p.higher = [] := by
    by_contra hne
    obtain ⟨c, hmem⟩ := p.exists_mem_terms_degree hne
    rw [h] at hmem
    cases hmem
  rw [terms_eq, coefficients, hhigher, termsFrom] at h
  split_ifs at h with hzero
  have hconstant : Constant.ofFloat p.constant = .ofFloat 0.0 :=
    Constant.ofFloat_eq_iff.mpr (Or.inr ⟨hzero, zero_beq_zero⟩)
  rw [constants, coefficients, hhigher, List.map_singleton, hconstant]

/-- The highest power of a term is the degree. -/
theorem foldl_max_terms (p : Polynomial) :
    p.terms.reverse.foldl (fun m t => max m t.1) 0 = p.degree := by
  apply le_antisymm
  · refine foldl_max_le_iff.mpr ⟨Nat.zero_le _, ?_⟩
    intro t ht
    exact (of_mem_terms (List.mem_reverse.mp ht)).1
  · by_cases hne : p.higher = []
    · simp [degree, hne]
    · obtain ⟨c, hmem⟩ := p.exists_mem_terms_degree hne
      exact (foldl_max_le_iff.mp le_rfl).2 _ (List.mem_reverse.mpr hmem)

theorem foldl_terms_of_power (p : Polynomial)
    (hc : p.coefficients[k]? = some c) :
    (p.terms.reverse.filter (·.1 = k)).foldl (fun sum t => sum + t.2) 0.0 =
      (Constant.ofFloat c).value := by
  rw [List.filter_reverse, p.filter_terms hc, Constant.ofFloat]
  split_ifs with hzero
  · rfl
  · exact (eq_of_agree (zero_add zero_beq_zero c).symm hzero).symm

theorem ofTerms_reverse (p : Polynomial) :
    ofTerms p.terms.reverse =
      ofCoefficients (p.coefficients.map fun c => (Constant.ofFloat c).value) := by
  rw [ofTerms, foldl_max_terms]
  refine congrArg ofCoefficients (List.ext_getElem (by simp [coefficients, degree]) ?_)
  intro k hk hk'
  rw [List.getElem_map, List.getElem_map, List.getElem_range]
  exact p.foldl_terms_of_power (List.getElem?_eq_getElem _)

/-- **The sum of the terms of a polynomial** is the polynomial, with the positive zero for either
zero. -/
theorem constants_ofTerms_reverse (p : Polynomial) :
    (ofTerms p.terms.reverse).constants = p.constants := by
  have hlast : ∀ c ∈ (p.higher.map fun c => (Constant.ofFloat c).value).getLast?,
      (c == 0.0) = false := by
    intro c hc
    rw [List.getLast?_map] at hc
    obtain ⟨d, hd, rfl⟩ := Option.map_eq_some_iff.mp hc
    have hne := p.trimmed d hd
    rw [Constant.ofFloat, dif_neg (by simp [hne])]
    exact hne
  have hcoefficients : (ofTerms p.terms.reverse).coefficients =
      p.coefficients.map fun c => (Constant.ofFloat c).value := by
    rw [ofTerms_reverse]
    exact congrArg _ (dropZeros_eq_self hlast)
  rw [constants, hcoefficients, List.map_map]
  exact List.map_congr_left fun c _ => Constant.ofFloat_value _

end Polynomial

end SymCalc
