import SymCalc.Proofs.Expr.Failures
import SymCalc.Proofs.Expr.Preservation
import SymCalc.Proofs.Expr.SimplifiedValue
import SymCalc.Proofs.Expr.Soundness

/-!
# Bases of logarithms

No expression that is read has a logarithm with a base that is below zero or too long to be written
(`short_of_parse`), and neither differentiating nor simplifying brings one about
(`natural_derivative`, `isPreserved_hasShortBase`). That is what evaluation needs to fail in the
documented ways only.

**Theorem (`fails_of_derivative`).** Differentiating fails because of a call that has no derivative,
or because a logarithm has a base beyond the doubles: the base becomes a constant of the derivative.
-/

namespace SymCalc.Expr

variable {t d e : Expr} {name : String} {base : Option ℤ}

/-! ## Bases that are not below zero -/

theorem hasNaturalBase_of_isProperCall (h : IsProperCall t) : HasNaturalBase t := by
  cases t with
  | call name base e =>
    rintro - b hb
    obtain rfl : base = some b := hb
    exact h.2.2.1
  | _ => trivial

theorem natural_of_isProperCall (h : t.Everywhere IsProperCall) : t.Everywhere HasNaturalBase :=
  fun node hnode => hasNaturalBase_of_isProperCall (h node hnode)

theorem isPreserved_hasNaturalBase : IsPreserved HasNaturalBase where
  const _ _ := trivial
  unary _ _ := trivial
  binary _ _ _ := trivial
  function _ _ _ := nofun
  argument _ _ _ _ h := h

theorem natural_derivative (ht : t.Everywhere HasNaturalBase) (h : t.derivative = .ok d) :
    d.Everywhere HasNaturalBase :=
  everywhere_derivative isPreserved_hasNaturalBase ht h

/-! ## Bases that can be written -/

/-- If it is a logarithm with a base, the base is neither below zero nor too long to be written. -/
def HasShortBase (t : Expr) : Prop :=
  HasNaturalBase t ∧ HasWritableBase t

theorem natural_of_short (h : t.Everywhere HasShortBase) : t.Everywhere HasNaturalBase :=
  fun node hnode => (h node hnode).1

theorem isWritable_of_short (h : t.Everywhere HasShortBase) : t.isWritable :=
  isWritable_iff.mpr fun node hnode => (h node hnode).2

theorem short_of_parse {limit : ℤ} {text : String} (hlimit : 0 ≤ limit)
    (h : Expr.parse limit text = .ok t) : t.Everywhere HasShortBase := by
  obtain ⟨L, rfl⟩ := Int.eq_ofNat_of_zero_le hlimit
  obtain ⟨n, -, hd⟩ := parse_eq_ok_iff.mp h
  intro node hnode
  have hproper : IsProperCall node := hd.isProperCall node hnode
  exact ⟨hasNaturalBase_of_isProperCall hproper, hproper.hasWritableBase⟩

theorem isPreserved_hasShortBase : IsPreserved HasShortBase where
  const _ _ := ⟨trivial, trivial⟩
  unary _ _ := ⟨trivial, trivial⟩
  binary _ _ _ := ⟨trivial, trivial⟩
  function _ _ _ := ⟨nofun, nofun⟩
  argument _ _ _ _ h := h

/-! ## Failures of differentiation -/

/-- How differentiating `t` may fail: because of a call, or of the base of a logarithm. -/
inductive DerivativeFails (t : Expr) : Error → Prop
  | raised (e : EvaluationError) : DerivativeFails t e.raised
  | integerTooLarge {b : ℤ} {e : Expr} (hnode : call "log" (some b) e ∈ t.nodes)
      (hlarge : (Float.ofInt b).isInf) : DerivativeFails t .integerTooLarge

theorem DerivativeFails.mono {err : Error} (hsub : e.nodes ⊆ t.nodes) (h : DerivativeFails e err) :
    DerivativeFails t err := by
  cases h with
  | raised e => exact .raised e
  | integerTooLarge hnode hlarge => exact .integerTooLarge (hsub hnode) hlarge

theorem fails_of_outerDerivative {err : Error}
    (h : outerDerivative (call name base e) name base e = .error err) :
    DerivativeFails (call name base e) err := by
  rw [outerDerivative] at h
  split_ifs at h with hlog
  · subst hlog
    rcases bind_eq_error.mp h with hchecked | ⟨b, hchecked, hrest⟩
    · cases base with
      | none =>
        rw [checkedBase, Except.error.injEq] at hchecked
        exact hchecked ▸ .raised _
      | some b =>
        rw [checkedBase] at hchecked
        split_ifs at hchecked
        rw [Except.error.injEq] at hchecked
        exact hchecked ▸ .raised _
    · obtain ⟨rfl, -⟩ := checkedBase_eq_ok.mp hchecked
      rcases bind_eq_error.mp hrest with hint | ⟨c, -, hrest⟩
      · rw [ofInt?] at hint
        split_ifs at hint with hlarge
        cases hint
        exact .integerTooLarge List.mem_cons_self hlarge
      · cases hrest
  · cases h
    exact .raised _

/-- **Differentiating fails because of a call that has no derivative, or because a logarithm has a
base beyond the doubles.** -/
theorem fails_of_derivative {err : Error} (h : t.derivative = .error err) :
    DerivativeFails t err := by
  induction t with
  | const c => cases h
  | var => cases h
  | unary op e ih =>
    have hsub : e.nodes ⊆ (unary op e).nodes := List.subset_cons_self _ _
    cases op with
    | negate =>
      rcases bind_eq_error.mp h with h | ⟨e', -, h⟩
      · exact (ih h).mono hsub
      · cases h
    | keep => exact (ih h).mono hsub
  | binary op l r ihl ihr =>
    rcases bind_eq_error.mp h with h | ⟨l', -, h⟩
    · exact (ihl h).mono fun n hn => by simp [nodes, hn]
    · rcases bind_eq_error.mp h with h | ⟨r', -, h⟩
      · exact (ihr h).mono fun n hn => by simp [nodes, hn]
      · cases h
  | call name base e ih =>
    rcases bind_eq_error.mp h with h | ⟨e', -, h⟩
    · exact (ih h).mono (List.subset_cons_self _ _)
    · rcases bind_eq_error.mp h with h | ⟨outer, -, h⟩
      · exact fails_of_outerDerivative h
      · cases h

end SymCalc.Expr
