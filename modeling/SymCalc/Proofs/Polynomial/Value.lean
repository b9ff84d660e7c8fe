import SymCalc.Proofs.Expr.RationalValue
import SymCalc.Proofs.Polynomial.Coefficients

/-!
# Exact values of polynomials

`Polynomial.value` is the sum of the exact coefficients times the powers of a rational number.

A polynomial drops zeros at its end, and its terms leave out the other zeros. Neither changes a sum
in which a zero counts for nothing (`sum_terms`, `value_ofCoefficients`). Expressions for the terms,
added up from left to right, have the sum as their value (`rational_sum`).

**Theorem (`value_ofTerms`).** If no power occurs twice among some terms, the value of the
polynomial with these terms is the sum of their exact values. Nothing is rounded, since each
coefficient is added to a zero only.
-/

namespace SymCalc

open Finset
open Double (Agree exact exact_of_agree exact_of_beq_zero zero_beq_zero)

/-- Dropping zeros at the end changes no coefficient but the sign of a zero. -/
theorem agree_getD_dropZeros (cs : List Float) (k : ℕ) :
    Agree ((dropZeros cs).getD k 0.0) (cs.getD k 0.0) := by
  induction cs generalizing k with
  | nil => exact Agree.refl _
  | cons c cs ih =>
    rw [dropZeros]
    cases hcs : dropZeros cs with
    | nil =>
      rw [hcs] at ih
      dsimp only
      split_ifs with hc
      · cases k with
        | zero => exact Or.inr ⟨zero_beq_zero, hc⟩
        | succ k => exact ih k
      · cases k with
        | zero => exact Agree.refl c
        | succ k => exact ih k
    | cons d ds =>
      rw [hcs] at ih
      cases k with
      | zero => exact Agree.refl c
      | succ k => exact ih k

namespace Polynomial

variable {p : Polynomial} {cs : List Float} {ts : List (ℕ × Float)} {F : ℕ → Float → ℚ} {k n : ℕ}

/-- The coefficient of the power `k`, zero beyond the degree. -/
def coefficient (p : Polynomial) (k : ℕ) : Float :=
  p.coefficients.getD k 0.0

/-- The exact value at a rational number. -/
def value (p : Polynomial) (x : ℚ) : ℚ :=
  ∑ k ∈ range (p.degree + 1), exact (p.coefficient k) * x ^ k

theorem length_coefficients (p : Polynomial) : p.coefficients.length = p.degree + 1 := rfl

/-! ## Sums over terms -/

theorem sum_termsFrom (hF : ∀ k c, (c == 0.0) = true → F k c = 0) (n : ℕ) (cs : List Float) :
    ((termsFrom n cs).map fun t => F t.1 t.2).sum =
      ∑ k ∈ range cs.length, F (n + k) (cs.getD k 0.0) := by
  induction cs generalizing n with
  | nil => rfl
  | cons c cs ih =>
    have hrest : ((termsFrom (n + 1) cs).map fun t => F t.1 t.2).sum =
        ∑ k ∈ range cs.length, F (n + (k + 1)) ((c :: cs).getD (k + 1) 0.0) := by
      rw [ih]
      refine sum_congr rfl fun k _ => ?_
      rw [List.getD_cons_succ, Nat.add_right_comm, Nat.add_assoc]
    rw [termsFrom, List.length_cons, sum_range_succ', ← hrest, List.getD_cons_zero]
    split_ifs with hc
    · rw [hF (n + 0) c hc, add_zero]
    · exact add_comm _ _

/-- **A sum over the terms is a sum over all powers**, if a zero counts for nothing. -/
theorem sum_terms (hF : ∀ k c, (c == 0.0) = true → F k c = 0) (p : Polynomial) :
    (p.terms.map fun t => F t.1 t.2).sum =
      ∑ k ∈ range (p.degree + 1), F k (p.coefficient k) := by
  rw [terms_eq, sum_termsFrom hF, length_coefficients]
  refine sum_congr rfl fun k _ => ?_
  rw [Nat.zero_add, coefficient]

section

variable {g : ℕ × Float → Expr} {G : ℕ × Float → ℚ} {x v : ℚ} {e : Expr}

theorem rational_foldl_add (hts : ∀ t ∈ ts, (g t).rational x = some (G t))
    (he : e.rational x = some v) :
    ((ts.map g).foldl (.binary .add) e).rational x = some (v + (ts.map G).sum) := by
  induction ts generalizing e v with
  | nil => rw [List.map_nil, List.foldl_nil, he, List.map_nil, List.sum_nil, add_zero]
  | cons t ts ih =>
    obtain ⟨ht, hts⟩ := List.forall_mem_cons.mp hts
    have hadd := Expr.rational_binary he ht .add
    rw [List.map_cons, List.foldl_cons, ih hts hadd, List.map_cons, List.sum_cons, add_assoc]

/-- **An expression for each term, added up**, has the sum of their values. The sum has no zero to
begin with, unless there are no terms. -/
theorem rational_sum (hts : ∀ t ∈ ts, (g t).rational x = some (G t)) :
    (match ts.map g with
      | [] => .number 0.0
      | e :: es => es.foldl (.binary .add) e : Expr).rational x = some (ts.map G).sum := by
  cases ts with
  | nil => exact (Expr.rational_number rfl).trans (congrArg some (exact_of_beq_zero zero_beq_zero))
  | cons t ts =>
    obtain ⟨ht, hts⟩ := List.forall_mem_cons.mp hts
    rw [List.map_cons, List.map_cons, List.sum_cons]
    exact rational_foldl_add hts ht

end

/-! ## Coefficients that are given -/

theorem agree_coefficient_ofCoefficients (cs : List Float) (k : ℕ) :
    Agree ((ofCoefficients cs).coefficient k) (cs.getD k 0.0) := by
  cases cs with
  | nil => cases k <;> exact Agree.refl _
  | cons c cs =>
    cases k with
    | zero => exact Agree.refl c
    | succ k => exact agree_getD_dropZeros cs k

/-- A coefficient up to the degree is the one that is given. -/
theorem coefficient_ofCoefficients {cs : List Float} (hk : k ≤ (ofCoefficients cs).degree) :
    (ofCoefficients cs).coefficient k = cs.getD k 0.0 := by
  cases cs with
  | nil =>
    obtain rfl : k = 0 := Nat.le_zero.mp hk
    rfl
  | cons c cs =>
    cases k with
    | zero => rfl
    | succ k =>
      have hk : k < (dropZeros cs).length := hk
      obtain ⟨rest, hrest⟩ := dropZeros_isPrefix cs
      have hget : cs[k]? = (dropZeros cs)[k]? := by
        rw [← List.getElem?_append_left hk, hrest]
      rw [List.getD_cons_succ, List.getD_eq_getElem?_getD, hget, ← List.getD_eq_getElem?_getD]
      rfl

theorem coefficient_degree_ne_zero (h : 0 < p.degree) : (p.coefficient p.degree == 0.0) = false := by
  obtain ⟨c, hc, hne⟩ := p.coefficients_getElem_degree (List.length_pos_iff.mp h)
  rw [coefficient, List.getD_eq_getElem?_getD, hc]
  exact hne

theorem coefficient_of_degree_lt (hk : p.degree < k) : p.coefficient k = 0.0 :=
  List.getD_eq_default _ _ (by rw [length_coefficients]; exact hk)

/-- Powers beyond the degree may be counted as well. -/
theorem value_eq_sum (hn : p.degree < n) (x : ℚ) :
    p.value x = ∑ k ∈ range n, exact (p.coefficient k) * x ^ k := by
  refine sum_subset (range_subset_range.mpr hn) fun k _ hk => ?_
  rw [mem_range, not_lt] at hk
  rw [coefficient_of_degree_lt hk, exact_of_beq_zero zero_beq_zero, zero_mul]

/-- **The value of a polynomial with given coefficients** is their sum. -/
theorem value_ofCoefficients (cs : List Float) (x : ℚ) :
    (ofCoefficients cs).value x = ∑ k ∈ range cs.length, exact (cs.getD k 0.0) * x ^ k := by
  cases cs with
  | nil =>
    rw [value_eq_sum (Nat.zero_lt_one : (ofCoefficients []).degree < 1), List.length_nil,
      sum_range_one, sum_range_zero]
    exact mul_eq_zero_of_left (exact_of_beq_zero zero_beq_zero) _
  | cons c cs =>
    have hdegree : (ofCoefficients (c :: cs)).degree < (c :: cs).length :=
      Nat.lt_succ_of_le (dropZeros_isPrefix cs).length_le
    rw [value_eq_sum hdegree]
    refine sum_congr rfl fun k _ => ?_
    rw [exact_of_agree (agree_coefficient_ofCoefficients (c :: cs) k)]

/-! ## Terms that are given -/

/-- At most one of the terms has the power. -/
theorem length_filter_le_one (hts : (ts.map Prod.fst).Nodup) (k : ℕ) :
    (ts.filter (·.1 = k)).length ≤ 1 := by
  have hsub : ((ts.filter (·.1 = k)).map Prod.fst).Nodup :=
    hts.sublist (List.filter_sublist.map _)
  have hall : (ts.filter (·.1 = k)).map Prod.fst =
      List.replicate (ts.filter (·.1 = k)).length k := by
    rw [List.eq_replicate_iff, List.length_map]
    refine ⟨rfl, fun b hb => ?_⟩
    obtain ⟨t, ht, rfl⟩ := List.mem_map.mp hb
    exact of_decide_eq_true (List.mem_filter.mp ht).2
  rw [hall] at hsub
  exact List.nodup_replicate.mp hsub

/-- Adding up at most one coefficient rounds nothing. -/
theorem exact_foldl_of_length_le_one (hts : ts.length ≤ 1) :
    exact (ts.foldl (fun sum t => sum + t.2) 0.0) = (ts.map fun t => exact t.2).sum := by
  match ts with
  | [] => exact exact_of_beq_zero zero_beq_zero
  | [t] =>
    rw [List.map_singleton, List.sum_singleton]
    exact exact_of_agree (Double.zero_add zero_beq_zero t.2)

/-- Sorting terms by their powers does not change the sum of their exact values. -/
theorem sum_filter (hts : ∀ t ∈ ts, t.1 < n) (x : ℚ) :
    ∑ k ∈ range n, ((ts.filter (·.1 = k)).map fun t => exact t.2).sum * x ^ k =
      (ts.map fun t => exact t.2 * x ^ t.1).sum := by
  induction ts with
  | nil => simp
  | cons t ts ih =>
    obtain ⟨ht, hts⟩ := List.forall_mem_cons.mp hts
    have hsplit (k : ℕ) : (((t :: ts).filter (·.1 = k)).map fun t => exact t.2).sum =
        (if k = t.1 then exact t.2 else 0) +
          ((ts.filter (·.1 = k)).map fun t => exact t.2).sum := by
      rw [List.filter_cons]
      by_cases hk : k = t.1
      · simp [hk]
      · simp [hk, Ne.symm hk]
    simp only [hsplit, add_mul, sum_add_distrib, ih hts, List.map_cons, List.sum_cons, ite_mul,
      zero_mul, sum_ite_eq', mem_range, if_pos ht]

/-- **The value of a polynomial with given terms** is the sum of their values, if no power occurs
twice. -/
theorem value_ofTerms (hts : (ts.map Prod.fst).Nodup) (x : ℚ) :
    (ofTerms ts).value x = (ts.map fun t => exact t.2 * x ^ t.1).sum := by
  have htop : ∀ t ∈ ts, t.1 < ts.foldl (fun m t => max m t.1) 0 + 1 := fun t ht =>
    Nat.lt_succ_of_le ((foldl_max_le_iff.mp le_rfl).2 t ht)
  rw [ofTerms, value_ofCoefficients, List.length_map, List.length_range,
    ← sum_filter htop]
  refine sum_congr rfl fun k hk => ?_
  rw [← exact_foldl_of_length_le_one (length_filter_le_one hts k), List.getD_eq_getElem?_getD,
    List.getElem?_map, List.getElem?_range (mem_range.mp hk)]
  rfl

end Polynomial

end SymCalc
