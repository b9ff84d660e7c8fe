import SymCalc.Expr.Equality
import SymCalc.Proofs.Double.Agreement
import SymCalc.Proofs.Expr.Nodes

/-!
# Equal expressions are the same

**Theorem (`eq_of_beq`).** Expressions that compare as equal are the same expression.

Constants are compared as doubles, and two different doubles compare as equal: the two zeros. But
the negative one is no constant, so equal constants are the same (`Constant.eq_of_agree`). The
comparison goes through a list of pairs, and its induction is on that list.

For the same reason the constants equal to a number are all one constant (`isNumber_iff`).
-/

namespace SymCalc

open Double

/-- **Constants that agree are the same.** -/
theorem Constant.eq_of_agree {c d : Constant} (h : Agree c.value d.value) : c = d := by
  obtain ⟨x, hx⟩ := c
  obtain ⟨y, hy⟩ := d
  rcases h with rfl | ⟨hzero, hzero'⟩
  · rfl
  · obtain rfl : x = 0.0 := (eq_of_beq_zero hzero).resolve_right hx
    obtain rfl : y = 0.0 := (eq_of_beq_zero hzero').resolve_right hy
    rfl

theorem Constant.eq_of_beq {c d : Constant} (h : (c.value == d.value) = true) : c = d :=
  eq_of_agree (agree_of_beq h)

/-- Doubles give the same constant if they agree. -/
theorem Constant.ofFloat_eq_iff {x y : Float} : ofFloat x = ofFloat y ↔ Agree x y := by
  constructor
  · intro h
    have hy : Agree (ofFloat x).value y := h ▸ (agree_ofFloat y).symm
    exact (agree_ofFloat x).trans hy
  · intro h
    exact eq_of_agree ((agree_ofFloat x).symm.trans (h.trans (agree_ofFloat y)))

namespace Expr

variable {a b e : Expr} {pending : List (Expr × Expr)}

/-- Nodes that agree, over the same operands. -/
theorem eq_of_agrees (h : a.agrees b) (hchildren : ∀ p ∈ a.children.zip b.children, p.1 = p.2) :
    a = b := by
  cases a with
  | const c => cases b with
    | const d => rw [Constant.eq_of_beq h]
    | _ => cases h
  | var => cases b with
    | var => rfl
    | _ => cases h
  | unary op e => cases b with
    | unary op' e' => simp_all [agrees, children]
    | _ => cases h
  | binary op l r => cases b with
    | binary op' l' r' => simp_all [agrees, children]
    | _ => cases h
  | call name base e => cases b with
    | call name' base' e' => simp_all [agrees, children]
    | _ => cases h

theorem eq_of_allEqual (h : allEqual pending) : ∀ p ∈ pending, p.1 = p.2 := by
  induction pending using allEqual.induct with
  | case1 => nofun
  | case2 a b pending ih =>
    rw [allEqual, Bool.and_eq_true] at h
    obtain ⟨hagrees, hrest⟩ := h
    obtain ⟨hchildren, hpending⟩ := List.forall_mem_append.mp (ih hrest)
    exact List.forall_mem_cons.mpr ⟨eq_of_agrees hagrees hchildren, hpending⟩

/-- **Expressions that compare as equal are the same.** -/
theorem eq_of_beq (h : (a == b) = true) : a = b :=
  eq_of_allEqual h (a, b) List.mem_cons_self

/-! ## Zero and one -/

/-- The constants equal to a number are all the same constant. -/
theorem isNumber_iff {x : Float} (hx : x.isNaN = false) : e.isNumber x = true ↔ e = number x := by
  have hagree : Agree x (Constant.ofFloat x).value := Constant.agree_ofFloat x
  constructor
  · intro h
    cases e with
    | const c =>
      have hc : Agree c.value x := agree_of_beq h
      rw [number, Constant.eq_of_agree (hc.trans hagree)]
    | _ => cases h
  · intro h
    subst h
    show ((Constant.ofFloat x).value == x) = true
    have hnan : (Constant.ofFloat x).value.isNaN = false := by
      rw [Constant.ofFloat]
      split_ifs
      · rfl
      · exact hx
    exact (beq_iff_agree hnan).mpr hagree.symm

@[simp] theorem isNumber_zero_iff : e.isNumber 0.0 = true ↔ e = number 0.0 :=
  isNumber_iff rfl

@[simp] theorem isNumber_one_iff : e.isNumber 1.0 = true ↔ e = number 1.0 :=
  isNumber_iff rfl

end Expr

end SymCalc
