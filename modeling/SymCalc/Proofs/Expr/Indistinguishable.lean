import SymCalc.Expr.Render
import SymCalc.Proofs.Expr.Equality
import SymCalc.Proofs.Expr.NormalForm
import SymCalc.Proofs.Expr.Preservation

/-!
# Equal expressions are indistinguishable

Comparing expressions looks at doubles with `==`, takes shortcuts, and stops at the first
difference. None of it shows: on expressions whose constants are numbers, the comparison says that
two of them have the same shape and equal constants, and two such expressions share everything
that can be computed from them.

* `compareWithin` — the comparison in rounds, as it runs: over a stack of pairs, with the hashes
  compared first, and skipping a pair that is one object twice.
* `Same` — expressions built alike, from doubles that are equal.
* `compareWithin_eq` — the comparison ends with the right answer, after no more rounds than the
  left expression has nodes and one.
* `Indistinguishable` — what equal expressions share.

All of it comes down to `eq_iff_agrees`, the step of the comparison: two nodes are the same exactly
if they agree and their operands are the same. It needs the constants to be numbers, since a
constant that is none differs from itself. And it needs the constants to have one zero: the other
one is equal to it, but has other powers and another text.
-/

namespace SymCalc.Expr

open Double

variable {a b : Expr} {pending : List (Expr × Expr)}

/-! ## Expressions built alike -/

/-- A constant is a number. -/
def HasNumberValue : Expr → Prop
  | const c => c.value.isNaN = false
  | _ => True

theorem isPreserved_hasNumberValue : IsPreserved HasNumberValue where
  const _ h := isNaN_of_finite h
  unary _ _ := trivial
  binary _ _ _ := trivial
  function _ _ _ := trivial
  argument _ _ _ _ _ := trivial

/-- Expressions of the same shape, with the same nodes, names and bases, made from doubles that are
equal. -/
inductive Same : Expr → Expr → Prop
  | number {x y : Float} (h : (x == y) = true) : Same (number x) (number y)
  | var : Same var var
  | unary (op : UnaryOp) {e e' : Expr} (h : Same e e') : Same (unary op e) (unary op e')
  | binary (op : BinaryOp) {l r l' r' : Expr} (hl : Same l l') (hr : Same r r') :
      Same (binary op l r) (binary op l' r')
  | call (name : String) (base : Option ℤ) {e e' : Expr} (h : Same e e') :
      Same (call name base e) (call name base e')

theorem Same.eq (h : Same a b) : a = b := by
  induction h with
  | number h => exact congrArg const (Constant.ofFloat_eq_iff.mpr (agree_of_beq h))
  | var => rfl
  | unary op _ ih => rw [ih]
  | binary op _ _ ihl ihr => rw [ihl, ihr]
  | call name base _ ih => rw [ih]

theorem beq_self_of_hasNumberValue {c : Constant} (h : (const c).HasNumberValue) :
    (c.value == c.value) = true :=
  (beq_iff_agree h).mpr (Agree.refl c.value)

theorem Same.refl (ha : a.Everywhere HasNumberValue) : Same a a := by
  induction a with
  | const c =>
    have hbeq := beq_self_of_hasNumberValue (everywhere_const.mp ha)
    have h : Same (Expr.number c.value) (Expr.number c.value) := .number hbeq
    rwa [Expr.number, Constant.ofFloat_value] at h
  | var => exact .var
  | unary op e ih => exact .unary op (ih (everywhere_unary.mp ha).2)
  | binary op l r ihl ihr =>
    obtain ⟨-, hl, hr⟩ := everywhere_binary.mp ha
    exact .binary op (ihl hl) (ihr hr)
  | call name base e ih => exact .call name base (ih (everywhere_call.mp ha).2)

/-! ## The step of the comparison -/

theorem agrees_self (ha : a.HasNumberValue) : a.agrees a := by
  cases a with
  | const c => exact beq_self_of_hasNumberValue ha
  | _ => simp [agrees]

/-- **One step**: nodes are the same exactly if they agree and so do the operands. -/
theorem eq_iff_agrees (ha : a.HasNumberValue) :
    a = b ↔ a.agrees b ∧ ∀ p ∈ a.children.zip b.children, p.1 = p.2 := by
  constructor
  · rintro rfl
    refine ⟨agrees_self ha, fun p hp => ?_⟩
    obtain ⟨i, hi, rfl⟩ := List.mem_iff_getElem.mp hp
    rw [List.getElem_zip]
  · rintro ⟨hagrees, hchildren⟩
    exact eq_of_agrees hagrees hchildren

/-- The left parts of a list of pairs have constants that are numbers. -/
def LeftsAreNumbers (pending : List (Expr × Expr)) : Prop :=
  ∀ p ∈ pending, p.1.Everywhere HasNumberValue

theorem leftsAreNumbers_zip_children (ha : a.Everywhere HasNumberValue) (b : Expr) :
    LeftsAreNumbers (a.children.zip b.children) :=
  fun _ hp => (everywhere_iff.mp ha).2 _ (List.of_mem_zip hp).1

theorem allEqual_iff (h : LeftsAreNumbers pending) :
    allEqual pending = true ↔ ∀ p ∈ pending, p.1 = p.2 := by
  induction pending using allEqual.induct with
  | case1 => simp [allEqual]
  | case2 a b pending ih =>
    obtain ⟨ha, hpending⟩ := List.forall_mem_cons.mp h
    have hrest := List.forall_mem_append.mpr ⟨leftsAreNumbers_zip_children ha b, hpending⟩
    rw [allEqual, Bool.and_eq_true, ih hrest, List.forall_mem_append, List.forall_mem_cons,
      eq_iff_agrees (everywhere_iff.mp ha).1, and_assoc]

/-- Expressions whose constants are numbers compare as equal exactly if they are the same. -/
theorem beq_iff_eq_of_hasNumberValue (ha : a.Everywhere HasNumberValue) :
    (a == b) = true ↔ a = b := by
  have hsingle : LeftsAreNumbers [(a, b)] := List.forall_mem_singleton.mpr ha
  exact (allEqual_iff hsingle).trans List.forall_mem_singleton

/-! ## The comparison as it runs -/

/-- The comparison of the pairs on a stack, given a number of rounds. Each takes a pair off the
stack: if both are one object, which only `identical` knows, there is nothing to do; if their
hashes or the nodes differ, the answer is found; otherwise their operands go onto the stack, the
last ones on top. No answer means that the rounds did not suffice. -/
def compareWithin {β : Type} [DecidableEq β] (hash : Expr → β) (identical : ℕ → Bool) :
    ℕ → List (Expr × Expr) → Option Bool
  | 0, _ => none
  | _ + 1, [] => some true
  | n + 1, (a, b) :: pending =>
    if a = b ∧ identical n then compareWithin hash identical n pending
    else if hash a ≠ hash b ∨ ¬a.agrees b then some false
    else compareWithin hash identical n ((a.children.zip b.children).reverse ++ pending)

theorem leftSize_reverse (pending : List (Expr × Expr)) :
    leftSize pending.reverse = leftSize pending := by
  induction pending with
  | nil => rfl
  | cons p pending ih =>
    obtain ⟨a, b⟩ := p
    rw [List.reverse_cons, leftSize_append, ih, leftSize, leftSize, leftSize, Nat.add_comm]
    rfl

/-- **The comparison ends with the right answer**: it finds whether all pairs on the stack are
equal, within one round more than there are nodes on the left. -/
theorem compareWithin_eq {β : Type} [DecidableEq β] (hash : Expr → β) (identical : ℕ → Bool)
    {n : ℕ} (h : LeftsAreNumbers pending) (hn : leftSize pending < n) :
    compareWithin hash identical n pending = some (decide (∀ p ∈ pending, p.1 = p.2)) := by
  induction n generalizing pending with
  | zero => omega
  | succ n ih =>
    match pending with
    | [] => simp [compareWithin]
    | (a, b) :: pending =>
      obtain ⟨ha, hpending⟩ := List.forall_mem_cons.mp h
      have hstep := eq_iff_agrees (b := b) (everywhere_iff.mp ha).1
      have hsize := leftSize_zip_children a b
      rw [leftSize] at hn
      have hsmaller : leftSize pending < n := by omega
      rw [compareWithin]
      split_ifs with hidentical hdiffer
      · rw [ih hpending hsmaller]
        simp [hidentical.1]
      · have hne : a ≠ b := by
          rintro rfl
          exact hdiffer.elim (fun hhash => hhash rfl) fun hagrees => hagrees (hstep.mp rfl).1
        simp [hne]
      · have hagrees : a.agrees b := by simpa using (not_or.mp hdiffer).2
        have hlefts : LeftsAreNumbers ((a.children.zip b.children).reverse ++ pending) := by
          intro p hp
          rcases List.mem_append.mp hp with hchild | hrest
          · exact leftsAreNumbers_zip_children ha b p (List.mem_reverse.mp hchild)
          · exact hpending p hrest
        have hleft : leftSize ((a.children.zip b.children).reverse ++ pending) < n := by
          rw [leftSize_append, leftSize_reverse]
          omega
        rw [ih hlefts hleft]
        simp only [List.forall_mem_append, List.mem_reverse, List.forall_mem_cons, hstep, hagrees,
          true_and]

/-! ## What equal expressions share -/

/-- Both end with equal expressions, or both with the same error. -/
inductive EqualOutcome : Except Error Expr → Except Error Expr → Prop
  | ok {d d' : Expr} (h : (d == d') = true) : EqualOutcome (.ok d) (.ok d')
  | error (e : Error) : EqualOutcome (.error e) (.error e)

theorem EqualOutcome.refl {x : Except Error Expr}
    (h : ∀ d, x = .ok d → d.Everywhere HasNumberValue) : EqualOutcome x x := by
  cases x with
  | ok d => exact .ok ((beq_iff_eq_of_hasNumberValue (h d rfl)).mpr rfl)
  | error e => exact .error e

/-- Expressions with the same texts, the same depth and everywhere the same value or the same
error, and with equal derivatives and equal simplified forms. -/
structure Indistinguishable (a b : Expr) : Prop where
  render : a.render = b.render
  describe : a.describe = b.describe
  depth : a.depth = b.depth
  evaluate (ε x : Float) : a.evaluate ε x = b.evaluate ε x
  derivative : EqualOutcome a.derivative b.derivative
  simplify (ε : Float) : EqualOutcome (a.simplify ε) (b.simplify ε)

theorem Indistinguishable.refl (ha : a.Everywhere HasNumberValue) : Indistinguishable a a where
  render := rfl
  describe := rfl
  depth := rfl
  evaluate _ _ := rfl
  derivative := EqualOutcome.refl fun _ => everywhere_derivative isPreserved_hasNumberValue ha
  simplify _ := EqualOutcome.refl fun _ => everywhere_simplify isPreserved_hasNumberValue ha

/-- The equality of expressions whose constants are numbers is an equivalence. -/
theorem equivalence_beq :
    Equivalence fun s t : {e : Expr // e.Everywhere HasNumberValue} => (s.1 == t.1) = true where
  refl s := (beq_iff_eq_of_hasNumberValue s.2).mpr rfl
  symm {s t} h := (beq_iff_eq_of_hasNumberValue t.2).mpr (eq_of_beq h).symm
  trans h h' := by rwa [← eq_of_beq h']

/-- **Equal expressions are indistinguishable.** Let the constants be numbers. Then the comparison
ends, whatever it hashes expressions to and whichever of them are one object; it says that two
expressions are built alike; it is an equivalence; and equal expressions are indistinguishable. -/
theorem equal_indistinguishable {β : Type} [DecidableEq β] (hash : Expr → β)
    (identical : ℕ → Bool) (ha : a.Everywhere HasNumberValue) (b : Expr) :
    (∀ n, a.size < n → compareWithin hash identical n [(a, b)] = some (a == b))
      ∧ ((a == b) = true ↔ Same a b)
      ∧ (Equivalence fun s t : {e : Expr // e.Everywhere HasNumberValue} => (s.1 == t.1) = true)
      ∧ ((a == b) = true → Indistinguishable a b) := by
  have hbeq := beq_iff_eq_of_hasNumberValue (b := b) ha
  refine ⟨fun n hn => ?ends, ?same, equivalence_beq, ?indistinguishable⟩
  case ends =>
    rw [compareWithin_eq hash identical (List.forall_mem_singleton.mpr ha) (by simpa [leftSize]),
      Option.some_inj, Bool.eq_iff_iff, hbeq]
    simp
  case same =>
    rw [hbeq]
    constructor
    · rintro rfl
      exact Same.refl ha
    · exact Same.eq
  case indistinguishable =>
    intro h
    obtain rfl := hbeq.mp h
    exact Indistinguishable.refl ha

/-- The two zeros are different doubles, but no expression over them can be told apart. -/
theorem equal_indistinguishable_zeros :
    (-0.0 : Float) ≠ 0.0
      ∧ Indistinguishable (binary .pow (number (-0.0)) var) (binary .pow (number 0.0) var) := by
  have hnumbers : (binary .pow (number (-0.0)) var).Everywhere HasNumberValue :=
    everywhere_binary.mpr
      ⟨trivial, isPreserved_hasNumberValue.number (by decide), everywhere_var.mpr trivial⟩
  obtain ⟨-, hsame, -, hshare⟩ := equal_indistinguishable size (fun _ => false) hnumbers
    (binary .pow (number 0.0) var)
  exact ⟨by decide, hshare (hsame.mpr (.binary .pow (.number (by decide)) .var))⟩

end SymCalc.Expr
