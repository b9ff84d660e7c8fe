import SymCalc.Proofs.Expr.Equality
import SymCalc.Proofs.Expr.SimplifiedValue

/-!
# Normal forms

**Theorem (`isNormal_simplify`).** If an expression can be simplified, its simplified form is
normal. The form is the expression itself exactly if that is normal, so simplifying twice is the
same as simplifying once.

An expression is normal if no law of zero and one, or of signs, applies to any of its nodes, and if
no operation or call over constants in it has a finite value (`IsNormal`). One pass from the leaves
to the root is enough, because a law gives an operand of its node, the operand of that operand, or
a constant. The first two were simplified before, and on them nothing is left to do.

The induction needs more than normality. Folding can also fail with an error that ends the
simplification, and simplifying once more must not run into it. So the invariant is that each node
is a fixed point of its own simplification (`IsStable`): simplified forms are stable
(`isStable_simplify`), and what is stable is a fixed point (`simplify_of_isStable`).
-/

namespace SymCalc.Expr

open Double

variable {ε : Float} {e l r s t node : Expr}

/-! ## Normal expressions -/

/-- No law of zero and one applies at the root, nor a law of signs. -/
def IsIrreducible : Expr → Prop
  | unary .keep _ => False
  | unary .negate e => ∀ e', e ≠ unary .negate e'
  | binary .add l r => l ≠ number 0.0 ∧ r ≠ number 0.0
  | binary .sub _ r => r ≠ number 0.0
  | binary .mul l r => (l ≠ number 0.0 ∧ r ≠ number 0.0) ∧ l ≠ number 1.0 ∧ r ≠ number 1.0
  | binary .div _ r => r ≠ number 1.0
  | binary .pow _ r => r ≠ number 0.0 ∧ r ≠ number 1.0
  | const _ | var | call _ _ _ => True

/-- An operation or call over constants that has a finite value. -/
structure IsFoldable (ε : Float) (node : Expr) : Prop where
  children_ne_nil : node.children ≠ []
  constants : node.children.all isConst
  value : ∃ x, node.HasFiniteValueAt ε x

/-- Nothing can be simplified at the root. -/
structure IsNormalAt (ε : Float) (node : Expr) : Prop where
  irreducible : node.IsIrreducible
  not_foldable : ¬node.IsFoldable ε

/-- Nothing can be simplified at any node. -/
def IsNormal (ε : Float) (t : Expr) : Prop :=
  t.Everywhere (IsNormalAt ε)

/-! ## The laws -/

theorem reduce_of_isIrreducible (h : node.IsIrreducible) : node.reduce = node := by
  cases node with
  | unary op e =>
    cases op with
    | keep => cases h
    | negate =>
      cases e with
      | unary op e' =>
        cases op with
        | negate => exact absurd rfl (h e')
        | keep => rfl
      | _ => rfl
  | binary op l r => cases op <;> simp_all [IsIrreducible, reduce]
  | _ => rfl

/-- What a law may put in the place of a node: a constant, an operand, or what a sign stands before
in an operand. -/
inductive IsReduct (node : Expr) : Expr → Prop
  | constant (c : Constant) : IsReduct node (const c)
  | operand {e : Expr} (h : e ∈ node.children) : IsReduct node e
  | signed {op : UnaryOp} {e : Expr} (h : unary op e ∈ node.children) : IsReduct node e

/-- Where a law applies, it puts such an expression in the place of the node. -/
theorem isReduct_reduce (h : ¬node.IsIrreducible) : node.IsReduct node.reduce := by
  cases node with
  | const c => exact absurd trivial h
  | var => exact absurd trivial h
  | call name base e => exact absurd trivial h
  | unary op e =>
    have he : e ∈ (unary op e).children := by simp [children]
    cases op with
    | keep => exact .operand he
    | negate =>
      cases e with
      | unary op e' =>
        cases op with
        | negate => exact .signed he
        | keep => simp [IsIrreducible] at h
      | _ => simp [IsIrreducible] at h
  | binary op l r =>
    have hl : l ∈ (binary op l r).children := by simp [children]
    have hr : r ∈ (binary op l r).children := by simp [children]
    cases op with
    | add =>
      rw [reduce]
      split_ifs with hl0 hr0
      · exact .operand hr
      · exact .operand hl
      · exact absurd ⟨by simpa using hl0, by simpa using hr0⟩ h
    | sub =>
      rw [reduce]
      split_ifs with hr0
      · exact .operand hl
      · exact absurd (by simpa [IsIrreducible] using hr0) h
    | mul =>
      rw [reduce]
      split_ifs with h0 hl1 hr1
      · exact .constant _
      · exact .operand hr
      · exact .operand hl
      · exact absurd ⟨by simpa using h0, by simpa using hl1, by simpa using hr1⟩ h
    | div =>
      rw [reduce]
      split_ifs with hr1
      · exact .operand hl
      · exact absurd (by simpa [IsIrreducible] using hr1) h
    | pow =>
      rw [reduce]
      split_ifs with hr0 hr1
      · exact .constant _
      · exact .operand hl
      · exact absurd ⟨by simpa using hr0, by simpa using hr1⟩ h

/-- A reduct keeps a property of all nodes that constants have. -/
theorem IsReduct.everywhere {P : Expr → Prop} (h : node.IsReduct s) (hconst : ∀ c, P (const c))
    (hchildren : ∀ e ∈ node.children, e.Everywhere P) : s.Everywhere P := by
  cases h with
  | constant c => exact everywhere_const.mpr (hconst c)
  | operand h => exact hchildren s h
  | signed h => exact (everywhere_unary.mp (hchildren _ h)).2

theorem depth_lt_of_mem_children (h : e ∈ node.children) : e.depth < node.depth := by
  cases node with
  | const c => simp [children] at h
  | var => simp [children] at h
  | unary op e' =>
    simp only [children, List.mem_singleton] at h
    subst h
    rw [depth]
    omega
  | binary op l r =>
    simp only [children, List.mem_cons, List.not_mem_nil, or_false] at h
    rw [depth]
    rcases h with rfl | rfl <;> omega
  | call name base e' =>
    simp only [children, List.mem_singleton] at h
    subst h
    rw [depth]
    omega

/-- **The laws leave a node alone exactly if none applies**, since a reduct is not the node. -/
theorem reduce_eq_self_iff : node.reduce = node ↔ node.IsIrreducible := by
  refine ⟨?_, reduce_of_isIrreducible⟩
  intro h
  by_contra hnot
  have hreduct := isReduct_reduce hnot
  rw [h] at hreduct
  cases hreduct with
  | constant c => exact hnot trivial
  | operand hmem => exact (depth_lt_of_mem_children hmem).false
  | @signed op _ hmem =>
    have hdepth := depth_lt_of_mem_children hmem
    rw [depth] at hdepth
    omega

/-! ## One node -/

/-- A node over operands is simplified to its value, or else by the laws. -/
theorem simplifyNode_cases (h : simplifyNode ε node = .ok s) :
    (∃ v, s = number v ∧ node.children.all isConst ∧ node.evaluate ε 0.0 = .ok v ∧ v.isFinite) ∨
      (s = node.reduce ∧ (node.children.all isConst → ¬node.HasFiniteValueAt ε 0.0)) := by
  rw [simplifyNode] at h
  split_ifs at h with hconst
  · obtain ⟨folded, hfold, h⟩ := bind_eq_ok.mp h
    rw [fold?] at hfold
    cases hv : node.evaluate ε 0.0 with
    | ok v =>
      rw [hv] at hfold
      cases hfold
      by_cases hfin : v.isFinite
      · rw [if_pos hfin] at h
        cases h
        exact Or.inl ⟨v, rfl, hconst, rfl, hfin⟩
      · rw [if_neg hfin] at h
        cases h
        refine Or.inr ⟨rfl, ?_⟩
        rintro - ⟨w, hw, hwfin⟩
        cases hv.symm.trans hw
        exact hfin hwfin
    | error err =>
      have hnone : ¬node.HasFiniteValueAt ε 0.0 := by
        rintro ⟨w, hw, -⟩
        cases hv.symm.trans hw
      rw [hv] at hfold
      cases err with
      | evaluation err =>
        cases hfold
        cases h
        exact Or.inr ⟨rfl, fun _ => hnone⟩
      | _ => cases hfold
  · cases h
    exact Or.inr ⟨rfl, fun h => absurd h hconst⟩

/-- It does not matter where a node over constants is evaluated. -/
theorem isFoldable_iff (hne : node.children ≠ []) (hconst : node.children.all isConst) :
    node.IsFoldable ε ↔ node.HasFiniteValueAt ε 0.0 := by
  constructor
  · rintro ⟨-, -, x, v, hv, hfin⟩
    rw [evaluate_of_children hne hconst x 0.0] at hv
    exact ⟨v, hv, hfin⟩
  · intro h
    exact ⟨hne, hconst, 0.0, h⟩

/-- If it has operands, it is not changed by simplifying it once they are simplified. -/
def IsStable (ε : Float) (node : Expr) : Prop :=
  node.children ≠ [] → simplifyNode ε node = .ok node

theorem isStable_of_children_eq_nil (h : node.children = []) : IsStable ε node :=
  fun hne => absurd h hne

theorem everywhere_iff {P : Expr → Prop} :
    t.Everywhere P ↔ P t ∧ ∀ e ∈ t.children, e.Everywhere P := by
  cases t <;> simp [children]

/-- **One step**: over stable operands, a node becomes stable. -/
theorem isStable_simplifyNode (hchildren : ∀ e ∈ node.children, e.Everywhere (IsStable ε))
    (h : simplifyNode ε node = .ok s) : s.Everywhere (IsStable ε) := by
  have hconst (c : Constant) : IsStable ε (const c) := isStable_of_children_eq_nil rfl
  rcases simplifyNode_cases h with ⟨v, rfl, -⟩ | ⟨rfl, -⟩
  · exact everywhere_const.mpr (hconst _)
  by_cases hirreducible : node.IsIrreducible
  · rw [reduce_of_isIrreducible hirreducible] at h ⊢
    exact everywhere_iff.mpr ⟨fun _ => h, hchildren⟩
  · exact (isReduct_reduce hirreducible).everywhere hconst hchildren

/-- A stable node is normal. -/
theorem isNormalAt_of_isStable (h : IsStable ε node) : IsNormalAt ε node := by
  by_cases hne : node.children = []
  · refine ⟨?_, fun hfold => hfold.children_ne_nil hne⟩
    cases node with
    | const c => trivial
    | var => trivial
    | _ => simp [children] at hne
  rcases simplifyNode_cases (h hne) with ⟨v, hv, -⟩ | ⟨hreduce, hvalue⟩
  · rw [hv] at hne
    exact absurd rfl hne
  · refine ⟨reduce_eq_self_iff.mp hreduce.symm, ?_⟩
    intro hfold
    have hconst := hfold.constants
    exact hvalue hconst ((isFoldable_iff hne hconst).mp hfold)

/-- A normal node is not changed. -/
theorem simplifyNode_of_isNormalAt (hne : node.children ≠ []) (hnode : IsNormalAt ε node)
    (h : simplifyNode ε node = .ok s) : s = node := by
  rcases simplifyNode_cases h with ⟨v, -, hconst, hv, hfin⟩ | ⟨rfl, -⟩
  · have hfold := (isFoldable_iff hne hconst).mpr ⟨v, hv, hfin⟩
    exact absurd hfold hnode.not_foldable
  · exact reduce_of_isIrreducible hnode.irreducible

/-! ## Whole expressions -/

/-- **Simplified forms are stable.** -/
theorem isStable_simplify (h : t.simplify ε = .ok s) : s.Everywhere (IsStable ε) := by
  induction t generalizing s with
  | const c =>
    cases h
    exact everywhere_const.mpr (isStable_of_children_eq_nil rfl)
  | var =>
    cases h
    exact everywhere_var.mpr (isStable_of_children_eq_nil rfl)
  | unary op e ih =>
    obtain ⟨e', he', h⟩ := bind_eq_ok.mp h
    exact isStable_simplifyNode (by simpa [children] using ih he') h
  | binary op l r ihl ihr =>
    obtain ⟨l', hl', h⟩ := bind_eq_ok.mp h
    obtain ⟨r', hr', h⟩ := bind_eq_ok.mp h
    exact isStable_simplifyNode (by simpa [children] using ⟨ihl hl', ihr hr'⟩) h
  | call name base e ih =>
    obtain ⟨e', he', h⟩ := bind_eq_ok.mp h
    exact isStable_simplifyNode (by simpa [children] using ih he') h

/-- **Stable expressions are fixed points.** -/
theorem simplify_of_isStable (h : s.Everywhere (IsStable ε)) : s.simplify ε = .ok s := by
  induction s with
  | const c => rfl
  | var => rfl
  | unary op e ih =>
    obtain ⟨hnode, he⟩ := everywhere_unary.mp h
    rw [simplify, ih he]
    exact hnode (by simp [children])
  | binary op l r ihl ihr =>
    obtain ⟨hnode, hl, hr⟩ := everywhere_binary.mp h
    rw [simplify, ihl hl, ihr hr]
    exact hnode (by simp [children])
  | call name base e ih =>
    obtain ⟨hnode, he⟩ := everywhere_call.mp h
    rw [simplify, ih he]
    exact hnode (by simp [children])

/-- What can be simplified can be simplified again, and that changes nothing. -/
theorem simplify_simplified (h : t.simplify ε = .ok s) : s.simplify ε = .ok s :=
  simplify_of_isStable (isStable_simplify h)

/-- **Normal expressions are not changed.** -/
theorem eq_of_isNormal (ht : t.IsNormal ε) (h : t.simplify ε = .ok s) : s = t := by
  induction t generalizing s with
  | const c =>
    cases h
    rfl
  | var =>
    cases h
    rfl
  | unary op e ih =>
    obtain ⟨hnode, he⟩ := everywhere_unary.mp ht
    obtain ⟨e', he', h⟩ := bind_eq_ok.mp h
    rw [ih he he'] at h
    exact simplifyNode_of_isNormalAt (by simp [children]) hnode h
  | binary op l r ihl ihr =>
    obtain ⟨hnode, hl, hr⟩ := everywhere_binary.mp ht
    obtain ⟨l', hl', h⟩ := bind_eq_ok.mp h
    obtain ⟨r', hr', h⟩ := bind_eq_ok.mp h
    rw [ihl hl hl', ihr hr hr'] at h
    exact simplifyNode_of_isNormalAt (by simp [children]) hnode h
  | call name base e ih =>
    obtain ⟨hnode, he⟩ := everywhere_call.mp ht
    obtain ⟨e', he', h⟩ := bind_eq_ok.mp h
    rw [ih he he'] at h
    exact simplifyNode_of_isNormalAt (by simp [children]) hnode h

/-- **Simplification reaches normal form.** If an expression can be simplified, its simplified form
is normal, it is the expression itself exactly if that is normal, and simplifying it once more gives
the same form. -/
theorem isNormal_simplify (h : t.simplify ε = .ok s) :
    s.IsNormal ε ∧ (s = t ↔ t.IsNormal ε) ∧ s.simplify ε = .ok s := by
  have hnormal : s.IsNormal ε := fun n hn => isNormalAt_of_isStable (isStable_simplify h n hn)
  refine ⟨hnormal, ⟨?_, fun ht => eq_of_isNormal ht h⟩, simplify_simplified h⟩
  intro hst
  rw [← hst]
  exact hnormal

/-- A quotient of constants that cannot be folded, and two laws above it. -/
theorem isNormal_simplify_quotient_by_zero :
    let quotient := binary .div (number 1.0) (number 0.0)
    let t := unary .negate (unary .negate (binary .add quotient (binary .mul var (number 0.0))))
    quotient.IsNormal 1e-10 ∧ (quotient = t ↔ t.IsNormal 1e-10) ∧
      quotient.simplify 1e-10 = .ok quotient := by
  intro quotient t
  exact isNormal_simplify (t := t) (by rfl)

end SymCalc.Expr
