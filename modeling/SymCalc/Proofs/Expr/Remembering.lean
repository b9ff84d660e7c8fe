import SymCalc.Expr.Memo
import SymCalc.Proofs.Expr.Equality

/-!
# What is remembered makes no difference

**Theorem (`simplifyEach_empty`).** Simplify any expressions one after the other, remembering each
simplified form. Every call gives what it would give if nothing was remembered.

The invariant is `Memo.Faithful`: what is remembered for an expression is what simplifying that
expression gives. A form is looked up for an expression that only compares as equal, so the step
needs that such an expression is the same one (`Expr.eq_of_beq`).

Computations made from such calls are not affected either (`IgnoresMemo`): they give what a
computation gives that simplifies and remembers nothing (`Computes`).
-/

namespace SymCalc

variable {ε : Float} {m : Memo} {e s : Expr}

/-! ## Computations that change a state -/

section

variable {σ α β : Type}

theorem lift_apply (x : Except Error α) (s : σ) :
    (liftM x : ExceptT Error (StateM σ) α) s = (x, s) := rfl

theorem bind_apply (x : ExceptT Error (StateM σ) α) (f : α → ExceptT Error (StateM σ) β) (s : σ) :
    (x >>= f) s =
      match x s with
      | (.ok a, s') => f a s'
      | (.error e, s') => (.error e, s') := by
  show ExceptT.bindCont f (x s).1 (x s).2 = _
  rcases x s with ⟨_ | _, s'⟩ <;> rfl

/-- Computations one after the other, also after a failure. -/
theorem mapM_run_cons (f : α → ExceptT Error (StateM σ) β) (a : α) (as : List α) (s : σ) :
    (a :: as).mapM (fun a => (f a).run) s =
      ((f a s).1 :: (as.mapM (fun a => (f a).run) (f a s).2).1,
        (as.mapM (fun a => (f a).run) (f a s).2).2) := by
  rw [List.mapM_cons]
  rfl

end

/-! ## The invariant -/

/-- Each remembered form is the simplified form of its expression. -/
def Memo.Faithful (ε : Float) (m : Memo) : Prop :=
  ∀ entry ∈ m.entries, entry.1.simplify ε = .ok entry.2

theorem Memo.faithful_empty (ε : Float) : Memo.empty.Faithful ε :=
  nofun

theorem Memo.Faithful.insert (hm : m.Faithful ε) (h : e.simplify ε = .ok s) :
    (m.insert e s).Faithful ε :=
  List.forall_mem_cons.mpr ⟨h, hm⟩

theorem Memo.Faithful.simplify_eq (hm : m.Faithful ε) (h : m.find? e = some s) :
    e.simplify ε = .ok s := by
  obtain ⟨entry, hfind, rfl⟩ := Option.map_eq_some_iff.mp h
  have hentry := hm entry (List.mem_of_find?_eq_some hfind)
  have hequal := List.find?_some hfind
  rwa [Expr.eq_of_beq hequal] at hentry

/-! ## One call -/

/-- **A call gives the simplified form**, whether it is remembered or not, and what is remembered
stays faithful. -/
theorem simplifyRemembering_of_faithful (hm : m.Faithful ε) (e : Expr) :
    (e.simplifyRemembering ε m).1 = e.simplify ε ∧ (e.simplifyRemembering ε m).2.Faithful ε := by
  rw [Expr.simplifyRemembering]
  cases hfind : m.find? e with
  | some s => exact ⟨(hm.simplify_eq hfind).symm, hm⟩
  | none =>
    cases hs : e.simplify ε with
    | ok s => exact ⟨rfl, hm.insert hs⟩
    | error err => exact ⟨rfl, hm⟩

/-! ## Computations -/

/-- Whatever is remembered, this is the result, and what is remembered stays faithful. -/
def Computes {α : Type} (ε : Float) (x : Remembering α) (y : Except Error α) : Prop :=
  ∀ m : Memo, m.Faithful ε → (x m).1 = y ∧ (x m).2.Faithful ε

/-- What is remembered does not affect the result, and stays faithful. -/
def IgnoresMemo {α : Type} (ε : Float) (x : Remembering α) : Prop :=
  ∀ m : Memo, m.Faithful ε → (x m).1 = (x .empty).1 ∧ (x m).2.Faithful ε

section

variable {α β : Type}

theorem computes_lift (x : Except Error α) : Computes ε (liftM x : Remembering α) x :=
  fun _ hm => ⟨rfl, hm⟩

theorem computes_pure (a : α) : Computes ε (pure a : Remembering α) (.ok a) :=
  fun _ hm => ⟨rfl, hm⟩

theorem computes_simplifyRemembering (e : Expr) :
    Computes ε (e.simplifyRemembering ε) (e.simplify ε) :=
  fun _ hm => simplifyRemembering_of_faithful hm e

theorem Computes.bind {x : Remembering α} {y : Except Error α} {f : α → Remembering β}
    {g : α → Except Error β} (hx : Computes ε x y) (hf : ∀ a, Computes ε (f a) (g a)) :
    Computes ε (x >>= f) (y >>= g) := by
  intro m hm
  obtain ⟨hresult, hm'⟩ := hx m hm
  rw [bind_apply]
  rcases hxm : x m with ⟨r, m'⟩
  rw [hxm] at hresult hm'
  obtain rfl : r = y := hresult
  cases r with
  | error err => exact ⟨rfl, hm'⟩
  | ok a => exact hf a m' hm'

theorem Computes.ignoresMemo {x : Remembering α} {y : Except Error α} (h : Computes ε x y) :
    IgnoresMemo ε x := by
  intro m hm
  obtain ⟨hresult, hm'⟩ := h m hm
  obtain ⟨hempty, -⟩ := h .empty (Memo.faithful_empty ε)
  exact ⟨hresult.trans hempty.symm, hm'⟩

end

/-! ## Many calls -/

/-- Simplifies expressions one after the other, also after a failure. -/
def simplifyEach (ε : Float) (es : List Expr) : StateM Memo (List (Except Error Expr)) :=
  es.mapM fun e => (e.simplifyRemembering ε).run

theorem simplifyEach_of_faithful (hm : m.Faithful ε) (es : List Expr) :
    (simplifyEach ε es m).1 = es.map (Expr.simplify ε) ∧ (simplifyEach ε es m).2.Faithful ε := by
  induction es generalizing m with
  | nil => exact ⟨rfl, hm⟩
  | cons e es ih =>
    obtain ⟨hresult, hm'⟩ := simplifyRemembering_of_faithful hm e
    obtain ⟨hresults, hm''⟩ := ih hm'
    rw [simplifyEach] at hresults hm'' ⊢
    rw [mapM_run_cons, List.map_cons, hresult, hresults]
    exact ⟨rfl, hm''⟩

/-- What is remembered after simplifying these expressions, if nothing was before. -/
def Memo.after (ε : Float) (es : List Expr) : Memo :=
  (simplifyEach ε es .empty).2

theorem Memo.faithful_after (ε : Float) (es : List Expr) : (Memo.after ε es).Faithful ε :=
  (simplifyEach_of_faithful (faithful_empty ε) es).2

/-- **What is remembered makes no difference.** Whatever expressions are simplified one after the
other, starting with nothing remembered, each call gives the same form, or fails with the same
error, as if nothing was remembered then. -/
theorem simplifyEach_empty (ε : Float) (es : List Expr) :
    (simplifyEach ε es .empty).1 = es.map fun e => (e.simplifyRemembering ε .empty).1 := by
  rw [(simplifyEach_of_faithful (Memo.faithful_empty ε) es).1]
  apply List.map_congr_left
  intro e _
  exact (simplifyRemembering_of_faithful (Memo.faithful_empty ε) e).1.symm

end SymCalc
