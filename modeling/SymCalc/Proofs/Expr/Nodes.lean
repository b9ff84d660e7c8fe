import SymCalc.Decimal.Numeral
import SymCalc.Expr.Render
import SymCalc.Proofs.Double.Comparison

/-!
# Nodes of an expression

What is asked of an expression is mostly asked of every node in it.

* `Everywhere` — a property holds of an expression and of everything below it.
* `WellFormed` — every constant is finite, and every call can be written: its name is a run of
  letters, and it has a base exactly if it is a logarithm.
* `HasWritableBase` — of every node exactly if the text of the expression can be written.
* `canonical` — the same expression with a sign before the magnitude of each negative constant.
-/

namespace SymCalc

open Double Text

theorem Constant.ofFloat_value (c : Constant) : Constant.ofFloat c.value = c := by
  obtain ⟨x, hne⟩ := c
  show Constant.ofFloat x = _
  rw [Constant.ofFloat]
  split_ifs with h
  · obtain ⟨s, hs⟩ := beq_zero_iff.mp h
    cases s with
    | positive =>
      have : x = 0.0 := parts_injective hs
      subst this
      rfl
    | negative => exact absurd (parts_injective hs) hne
  · rfl

theorem Constant.agree_ofFloat (x : Float) : Agree x (Constant.ofFloat x).value := by
  rw [Constant.ofFloat]
  split_ifs with h
  · exact Or.inr ⟨h, by decide⟩
  · exact Agree.refl x

theorem Constant.isFinite_ofFloat {x : Float} (h : x.isFinite) :
    (Constant.ofFloat x).value.isFinite := by
  rw [Constant.ofFloat]
  split_ifs
  · decide
  · exact h

theorem bind_eq_ok {ε α β : Type} {x : Except ε α} {f : α → Except ε β} {b : β} :
    (x >>= f) = .ok b ↔ ∃ a, x = .ok a ∧ f a = .ok b := by
  cases x with
  | ok a =>
    constructor
    · intro h
      exact ⟨a, rfl, h⟩
    · rintro ⟨a', ha, h⟩
      cases ha
      exact h
  | error e =>
    constructor
    · intro h
      cases h
    · rintro ⟨a', ha, -⟩
      cases ha

theorem bind_eq_error {ε α β : Type} {x : Except ε α} {f : α → Except ε β} {e : ε} :
    (x >>= f) = .error e ↔ x = .error e ∨ ∃ a, x = .ok a ∧ f a = .error e := by
  cases x <;> simp [bind, Except.bind]

theorem eq_ok_of_toOption {ε α : Type} {y : Except ε α} {r : α} (h : y.toOption = some r) :
    y = .ok r := by
  cases y <;> cases h
  rfl

namespace Expr

/-! ## All nodes -/

/-- An expression and all expressions in it. -/
def nodes : Expr → List Expr
  | const c => [const c]
  | var => [var]
  | unary op e => unary op e :: e.nodes
  | binary op l r => binary op l r :: (l.nodes ++ r.nodes)
  | call name base e => call name base e :: e.nodes

/-- Every node has the property. -/
def Everywhere (P : Expr → Prop) (t : Expr) : Prop :=
  ∀ n ∈ t.nodes, P n

section

variable {P : Expr → Prop} {e l r : Expr}

@[simp] theorem everywhere_const {c : Constant} : (const c).Everywhere P ↔ P (const c) := by
  simp [Everywhere, nodes]

@[simp] theorem everywhere_var : var.Everywhere P ↔ P var := by
  simp [Everywhere, nodes]

@[simp] theorem everywhere_unary {op : UnaryOp} :
    (unary op e).Everywhere P ↔ P (unary op e) ∧ e.Everywhere P := by
  simp [Everywhere, nodes]

@[simp] theorem everywhere_binary {op : BinaryOp} :
    (binary op l r).Everywhere P ↔
      P (binary op l r) ∧ l.Everywhere P ∧ r.Everywhere P := by
  simp [Everywhere, nodes, or_imp, forall_and]

@[simp] theorem everywhere_call {name : String} {base : Option ℤ} :
    (call name base e).Everywhere P ↔ P (call name base e) ∧ e.Everywhere P := by
  simp [Everywhere, nodes]

theorem Everywhere.root (h : e.Everywhere P) : P e := by
  apply h
  cases e <;> exact List.mem_cons_self

end

/-! ## Expressions that can be written -/

/-- A name that a call can be written with. -/
structure ProperName (name : String) : Prop where
  ne_nil : name.toList ≠ []
  letters : ∀ c ∈ name.toList, isAsciiLetter c
  head_ne : name.toList.head? ≠ some 'x'

theorem properName_log : ProperName "log" where
  ne_nil := by decide
  letters := by
    show ∀ c ∈ ['l', 'o', 'g'], isAsciiLetter c
    simp only [List.forall_mem_cons, List.not_mem_nil, false_imp_iff, implies_true]
    decide
  head_ne := by decide

/-- Logarithms have a base that can be written, and other calls have none. -/
def ProperBase (name : String) : Option ℤ → Prop
  | none => name ≠ "log"
  | some b => name = "log" ∧ 0 ≤ b ∧ b < 10 ^ digitLimit

/-- If it is a call, it can be written. -/
def IsProperCall : Expr → Prop
  | call name base _ => ProperName name ∧ ProperBase name base
  | _ => True

/-- If it is a constant, it is finite. -/
def HasFiniteValue : Expr → Prop
  | const c => c.value.isFinite
  | _ => True

/-- Every constant is finite and every call can be written. -/
structure WellFormed (t : Expr) : Prop where
  finite : t.Everywhere HasFiniteValue
  proper : t.Everywhere IsProperCall

/-! ## Texts with numbers that can be written -/

/-- If it is a logarithm with a base, the base can be written. -/
def HasWritableBase : Expr → Prop
  | call name base _ => name = "log" → ∀ b ∈ base, withinDigitLimit b
  | _ => True

@[simp] theorem isWritable_const {c : Constant} : (const c).isWritable = true := rfl

@[simp] theorem isWritable_var : var.isWritable = true := rfl

@[simp] theorem isWritable_unary {op : UnaryOp} {e : Expr} :
    (unary op e).isWritable = e.isWritable := rfl

@[simp] theorem isWritable_binary {op : BinaryOp} {l r : Expr} :
    (binary op l r).isWritable = (l.isWritable && r.isWritable) := rfl

theorem isWritable_call {name : String} {base : Option ℤ} {e : Expr} :
    (call name base e).isWritable ↔ HasWritableBase (call name base e) ∧ e.isWritable := by
  show ((!(name == "log") || base.all withinDigitLimit) && e.isWritable) = true ↔ _
  cases base with
  | none => simp [HasWritableBase]
  | some b => by_cases hlog : name = "log" <;> simp [HasWritableBase, hlog]

theorem isWritable_iff {t : Expr} : t.isWritable ↔ t.Everywhere HasWritableBase := by
  induction t with
  | const c => simp [HasWritableBase]
  | var => simp [HasWritableBase]
  | unary op e ih => simp [HasWritableBase, ih]
  | binary op l r ihl ihr => simp [HasWritableBase, ihl, ihr]
  | call name base e ih => rw [isWritable_call, everywhere_call, ih]

theorem withinDigitLimit_iff {n : ℤ} : withinDigitLimit n ↔ |n| < 10 ^ digitLimit := by
  rw [withinDigitLimit, decide_eq_true_iff, Nat.pow_eq, Int.abs_eq_natAbs, ← Int.ofNat_lt,
    Nat.cast_pow, Nat.cast_ofNat]

/-- A single digit is not too long. -/
theorem withinDigitLimit_of_lt_ten {n : ℤ} (h : |n| < 10) : withinDigitLimit n :=
  withinDigitLimit_iff.mpr (h.trans_le (le_self_pow₀ (by norm_num) (by decide)))

/-- A call that can be read back shows no number that is too long. -/
theorem IsProperCall.hasWritableBase {t : Expr} (h : IsProperCall t) : HasWritableBase t := by
  cases t with
  | call name base e =>
    rintro - b hb
    obtain rfl : base = some b := hb
    obtain ⟨-, -, hnonneg, hlt⟩ := h
    rw [withinDigitLimit_iff, abs_of_nonneg hnonneg]
    exact hlt
  | _ => trivial

/-! ## Negative constants -/

/-- Every negative constant becomes a sign before its magnitude. -/
def canonical : Expr → Expr
  | const c => if c.value < 0.0 then unary .negate (number (-c.value)) else const c
  | var => var
  | unary op e => unary op e.canonical
  | binary op l r => binary op l.canonical r.canonical
  | call name base e => call name base e.canonical

/-- Without negative constants there is nothing to change. -/
theorem canonical_of_nonnegative {t : Expr} (h : t.Everywhere (isNegative · = false)) :
    t.canonical = t := by
  induction t with
  | const c =>
    have : ¬c.value < 0.0 := by simpa [isNegative] using h
    rw [canonical, if_neg this]
  | var => rfl
  | unary op e ih => rw [canonical, ih (everywhere_unary.mp h).2]
  | binary o l r ihl ihr =>
    obtain ⟨-, hl, hr⟩ := everywhere_binary.mp h
    rw [canonical, ihl hl, ihr hr]
  | call name base e ih => rw [canonical, ih (everywhere_call.mp h).2]

end Expr

end SymCalc
