import SymCalc.Expr.Simplify
import SymCalc.Proofs.Expr.Equality

/-!
# Simplification preserves values

**Theorem (`evaluate_simplify`).** Where every node of an expression has a finite value, the
simplified expression has a value too, and the two values are equal as doubles compare.

They need not be the same: folding turns a negative zero into a positive one, and the laws of zero
and one lose signs of zeros. So the proof follows the two evaluations side by side, with values
that agree up to the sign of zero.

Infinities and not-a-number take part in this, with two exceptions (`LawsHoldAt`). The law that a
product with zero is zero holds for finite factors only, and the reciprocals of the two zeros are
different infinities. Where all values are finite, neither can occur.

* `operate_agree` and `apply_agree` — nodes keep up agreement, but for the reciprocals of zeros.
* `reduce_binary` and `reduce_unary` — the laws give values that agree.
* `simplifyNode_yields` — so does folding.
* `keeps_unary`, `keeps_binary` and `keeps_call` — a node keeps its value if its operands do.
-/

namespace SymCalc

open Double

namespace Expr

variable {ε x v w a b : Float} {e l r node : Expr}

/-! ## Values of nodes -/

/-- The expression has a finite value. -/
def HasFiniteValueAt (ε x : Float) (e : Expr) : Prop :=
  ∃ v, e.evaluate ε x = .ok v ∧ v.isFinite

theorem HasFiniteValueAt.isFinite (h : e.HasFiniteValueAt ε x) (hv : e.evaluate ε x = .ok v) :
    v.isFinite := by
  obtain ⟨w, hw, hfin⟩ := h
  cases hv.symm.trans hw
  exact hfin

/-- The expression has a value that agrees with `v`. -/
def Yields (ε x : Float) (e : Expr) (v : Float) : Prop :=
  ∃ w, e.evaluate ε x = .ok w ∧ Agree v w

theorem evaluate_unary [PowerLibrary] {op : UnaryOp} :
    (unary op e).evaluate ε x = .ok v ↔ ∃ a, e.evaluate ε x = .ok a ∧ op.apply a = v := by
  rw [evaluate, bind_eq_ok]
  simp [pure, Except.pure]

theorem evaluate_binary [PowerLibrary] {op : BinaryOp} :
    (binary op l r).evaluate ε x = .ok v ↔
      ∃ a b, l.evaluate ε x = .ok a ∧ r.evaluate ε x = .ok b ∧
        operate ε (binary op l r) op a b = .ok v := by
  simp [evaluate, bind_eq_ok]

theorem evaluate_call [PowerLibrary] {name : String} {base : Option ℤ} :
    (call name base e).evaluate ε x = .ok v ↔
      ∃ a, e.evaluate ε x = .ok a ∧ apply (call name base e) name base a = .ok v := by
  rw [evaluate, bind_eq_ok]

/-! ## The sign of zero does not matter -/

theorem divide_eq_ok : divide ε node a b = .ok v ↔
    ¬b.abs < ε ∧ ¬(b == 0.0) = true ∧ a / b = v := by
  rw [divide]
  split_ifs with hε hzero <;> simp [*]

theorem operate_agree {op : BinaryOp} {a' b' : Float} (h : operate ε node op a b = .ok v)
    (ha : Agree a a') (hb : Agree b b')
    (hsign : op = .pow → (a == 0.0) = true → b < 0.0 → isOdd b → a' = a) (node' : Expr) :
    ∃ w, operate ε node' op a' b' = .ok w ∧ Agree v w := by
  cases op with
  | add =>
    cases h
    exact ⟨_, rfl, ha.add hb⟩
  | sub =>
    cases h
    exact ⟨_, rfl, ha.sub hb⟩
  | mul =>
    cases h
    exact ⟨_, rfl, ha.mul hb⟩
  | div =>
    obtain ⟨hε, hne, rfl⟩ := divide_eq_ok.mp h
    have hquotient := ha.div hb hne
    obtain rfl := eq_of_agree hb hne
    exact ⟨_, divide_eq_ok.mpr ⟨hε, hne, rfl⟩, hquotient⟩
  | pow =>
    cases h
    exact ⟨_, rfl, ha.pow hb (hsign rfl)⟩

theorem function?_agree {name : String} {f : Float → Float} {a' : Float}
    (h : function? name = some f) (ha : Agree a a') : Agree (f a) (f a') := by
  rw [function?] at h
  split_ifs at h
  · cases h
    exact ha.sin
  · cases h
    exact ha.cos
  · cases h
    exact ha.tan
  · cases h
    exact Or.inl (ln_eq_of_agree ha)

theorem checkedBase_eq_ok {base : Option ℤ} {b : ℤ} :
    checkedBase node base = .ok b ↔ base = some b ∧ ¬(b = 0 ∨ b = 1) := by
  cases base with
  | none => simp [checkedBase]
  | some c =>
    rw [checkedBase, Option.some_inj]
    constructor
    · intro h
      split_ifs at h with hc
      cases h
      exact ⟨rfl, hc⟩
    · rintro ⟨rfl, hc⟩
      rw [if_neg hc]

/-- **What a call can do**: divide a logarithm by that of the base, or apply a function. -/
theorem apply_eq_ok {name : String} {base : Option ℤ} : apply node name base a = .ok v ↔
    (name = "log" ∧ ∃ b d, base = some b ∧ ¬(b = 0 ∨ b = 1) ∧ lnOfInt b = .ok d ∧
        Double.ln a / d = v) ∨
      (name ≠ "log" ∧ ∃ f, function? name = some f ∧ f a = v) := by
  rw [apply]
  by_cases hlog : name = "log"
  · rw [if_pos hlog, bind_eq_ok]
    constructor
    · rintro ⟨b, hchecked, h⟩
      obtain ⟨hbase, hb⟩ := checkedBase_eq_ok.mp hchecked
      cases hln : lnOfInt b with
      | ok d =>
        rw [hln] at h
        exact Or.inl ⟨hlog, b, d, hbase, hb, hln, Except.ok.inj h⟩
      | error e =>
        rw [hln] at h
        cases h
    · rintro (⟨-, b, d, hbase, hb, hln, rfl⟩ | ⟨hne, -⟩)
      · exact ⟨b, checkedBase_eq_ok.mpr ⟨hbase, hb⟩, by rw [hln]; rfl⟩
      · exact absurd hlog hne
  · cases hf : function? name with
    | none => simp [hlog]
    | some f => simp [hlog]

theorem apply_agree {name : String} {base : Option ℤ} {a' : Float}
    (h : apply node name base a = .ok v) (ha : Agree a a') (node' : Expr) :
    ∃ w, apply node' name base a' = .ok w ∧ Agree v w := by
  rcases apply_eq_ok.mp h with ⟨hlog, b, d, hbase, hb, hd, rfl⟩ | ⟨hlog, f, hf, rfl⟩
  · rw [ln_eq_of_agree ha]
    exact ⟨_, apply_eq_ok.mpr (Or.inl ⟨hlog, b, d, hbase, hb, hd, rfl⟩), Agree.refl _⟩
  · exact ⟨_, apply_eq_ok.mpr (Or.inr ⟨hlog, f, hf, rfl⟩), function?_agree hf ha⟩

/-! ## The laws of zero and one -/

theorem value_of_isNumber {y : Float} (h : e.isNumber y = true) (he : e.evaluate ε x = .ok a) :
    (a == y) = true := by
  cases e with
  | const c =>
    cases he
    exact h
  | _ => cases h

theorem yields_self (h : e.evaluate ε x = .ok v) : e.Yields ε x v :=
  ⟨v, h, Agree.refl v⟩

theorem yields_number (v : Float) : (number v).Yields ε x v :=
  ⟨_, rfl, Constant.agree_ofFloat v⟩

theorem reduce_add (hl : l.evaluate ε x = .ok a) (hr : r.evaluate ε x = .ok b) :
    (binary .add l r).reduce.Yields ε x (a + b) := by
  rw [reduce]
  split_ifs with hl0 hr0
  · exact ⟨b, hr, zero_add (value_of_isNumber hl0 hl) b⟩
  · exact ⟨a, hl, add_zero a (value_of_isNumber hr0 hr)⟩
  · exact yields_self (evaluate_binary.mpr ⟨a, b, hl, hr, rfl⟩)

theorem reduce_sub (hl : l.evaluate ε x = .ok a) (hr : r.evaluate ε x = .ok b) :
    (binary .sub l r).reduce.Yields ε x (a - b) := by
  rw [reduce]
  split_ifs with hr0
  · exact ⟨a, hl, sub_zero a (value_of_isNumber hr0 hr)⟩
  · exact yields_self (evaluate_binary.mpr ⟨a, b, hl, hr, rfl⟩)

theorem reduce_mul (hl : l.evaluate ε x = .ok a) (hr : r.evaluate ε x = .ok b)
    (hb : l = number 0.0 → b.isFinite) (ha : r = number 0.0 → a.isFinite) :
    (binary .mul l r).reduce.Yields ε x (a * b) := by
  rw [reduce]
  split_ifs with h0 hl1 hr1
  · refine ⟨0.0, rfl, Or.inr ⟨?_, zero_beq_zero⟩⟩
    rcases Bool.or_eq_true_iff.mp h0 with hl0 | hr0
    · exact zero_mul (value_of_isNumber hl0 hl) (hb (isNumber_zero_iff.mp hl0))
    · exact mul_zero (ha (isNumber_zero_iff.mp hr0)) (value_of_isNumber hr0 hr)
  · obtain rfl := eq_of_beq_one (value_of_isNumber hl1 hl)
    rw [one_mul]
    exact yields_self hr
  · obtain rfl := eq_of_beq_one (value_of_isNumber hr1 hr)
    rw [mul_one]
    exact yields_self hl
  · exact yields_self (evaluate_binary.mpr ⟨a, b, hl, hr, rfl⟩)

theorem reduce_div (hl : l.evaluate ε x = .ok a) (hr : r.evaluate ε x = .ok b)
    (h : (binary .div l r).evaluate ε x = .ok (a / b)) :
    (binary .div l r).reduce.Yields ε x (a / b) := by
  rw [reduce]
  split_ifs with hr1
  · obtain rfl := eq_of_beq_one (value_of_isNumber hr1 hr)
    rw [div_one]
    exact yields_self hl
  · exact yields_self h

theorem reduce_pow (hl : l.evaluate ε x = .ok a) (hr : r.evaluate ε x = .ok b) :
    (binary .pow l r).reduce.Yields ε x (pow a b) := by
  rw [reduce]
  split_ifs with hr0 hr1
  · rw [pow_zero a (value_of_isNumber hr0 hr)]
    exact yields_self rfl
  · obtain rfl := eq_of_beq_one (value_of_isNumber hr1 hr)
    rw [pow_one]
    exact yields_self hl
  · exact yields_self (evaluate_binary.mpr ⟨a, b, hl, hr, rfl⟩)

theorem reduce_binary {op : BinaryOp} (hl : l.evaluate ε x = .ok a) (hr : r.evaluate ε x = .ok b)
    (hzero : op = .mul → (l = number 0.0 → b.isFinite) ∧ (r = number 0.0 → a.isFinite))
    (h : (binary op l r).evaluate ε x = .ok v) : (binary op l r).reduce.Yields ε x v := by
  obtain ⟨a', b', hl', hr', hv⟩ := evaluate_binary.mp h
  cases hl.symm.trans hl'
  cases hr.symm.trans hr'
  cases op with
  | add =>
    cases hv
    exact reduce_add hl hr
  | sub =>
    cases hv
    exact reduce_sub hl hr
  | mul =>
    cases hv
    obtain ⟨hb, ha⟩ := hzero rfl
    exact reduce_mul hl hr hb ha
  | div =>
    obtain ⟨-, -, rfl⟩ := divide_eq_ok.mp hv
    exact reduce_div hl hr h
  | pow =>
    cases hv
    exact reduce_pow hl hr

theorem reduce_unary {op : UnaryOp} (h : (unary op e).evaluate ε x = .ok v) :
    (unary op e).reduce.Yields ε x v := by
  obtain ⟨a, ha, rfl⟩ := evaluate_unary.mp h
  cases op with
  | keep => exact yields_self ha
  | negate =>
    cases e with
    | unary op e =>
      cases op with
      | keep => exact yields_self h
      | negate =>
        obtain ⟨b, hb, rfl⟩ := evaluate_unary.mp ha
        show e.Yields ε x (- -b)
        rw [neg_neg]
        exact yields_self hb
    | _ => exact yields_self h

/-! ## Folding -/

theorem evaluate_of_isConst (h : e.isConst) (x y : Float) : e.evaluate ε x = e.evaluate ε y := by
  cases e with
  | const c => rfl
  | _ => cases h

/-- A node over constants has the same value everywhere. -/
theorem evaluate_of_children (hne : node.children ≠ []) (h : node.children.all isConst)
    (x y : Float) : node.evaluate ε x = node.evaluate ε y := by
  simp only [List.all_eq_true] at h
  cases node with
  | const c => rfl
  | var => exact absurd rfl hne
  | unary op e =>
    rw [evaluate, evaluate, evaluate_of_isConst (h e (by simp [children])) x y]
  | binary op l r =>
    rw [evaluate, evaluate, evaluate_of_isConst (h l (by simp [children])) x y,
      evaluate_of_isConst (h r (by simp [children])) x y]
  | call name base e =>
    rw [evaluate, evaluate, evaluate_of_isConst (h e (by simp [children])) x y]

theorem Yields.of_agree (hvw : Agree v w) (h : e.Yields ε x w) : e.Yields ε x v := by
  obtain ⟨w', hw', hagree⟩ := h
  exact ⟨w', hw', hvw.trans hagree⟩

/-- A node over constants that has a finite value is folded. -/
theorem simplifyNode_of_value (hconst : node.children.all isConst)
    (h : node.evaluate ε 0.0 = .ok v) (hv : v.isFinite) :
    simplifyNode ε node = .ok (number v) := by
  have hfold : fold? ε node = .ok (some (number v)) := by
    rw [fold?, h]
    simp [hv]
  rw [simplifyNode, if_pos hconst, hfold]
  rfl

/-- A node that has a value is simplified to it if that is finite, or else by the laws. -/
theorem simplifyNode_of_hasValue (hne : node.children ≠ []) (h : node.evaluate ε x = .ok w) :
    w.isFinite ∧ simplifyNode ε node = .ok (number w) ∨
      simplifyNode ε node = .ok node.reduce := by
  by_cases hconst : node.children.all isConst
  · rw [← evaluate_of_children hne hconst 0.0 x] at h
    by_cases hw : w.isFinite
    · exact Or.inl ⟨hw, simplifyNode_of_value hconst h hw⟩
    · have hfold : fold? ε node = .ok none := by
        rw [fold?, h]
        simp [hw]
      rw [simplifyNode, if_pos hconst, hfold]
      exact Or.inr rfl
  · rw [simplifyNode, if_neg hconst]
    exact Or.inr rfl

theorem simplifyNode_yields (hne : node.children ≠ []) (h : node.evaluate ε x = .ok w)
    (hvw : Agree v w) (hreduce : node.reduce.Yields ε x w) :
    ∃ s, simplifyNode ε node = .ok s ∧ s.Yields ε x v := by
  rcases simplifyNode_of_hasValue hne h with ⟨-, hs⟩ | hs
  · exact ⟨_, hs, (yields_number w).of_agree hvw⟩
  · exact ⟨_, hs, hreduce.of_agree hvw⟩

/-! ## Whole expressions -/

/-- The simplified expression has a value that agrees with `v`. -/
def Keeps (ε x : Float) (e : Expr) (v : Float) : Prop :=
  ∃ s, e.simplify ε = .ok s ∧ s.Yields ε x v

/-- The laws of zero and one hold at the node, up to the sign of zero: a product that simplifies to
zero has no factor that is infinite or not a number, and the reciprocal of a power of zero keeps the
sign of the zero. -/
def LawsHoldAt (ε x : Float) : Expr → Prop
  | binary .mul l r =>
    (l.simplify ε = .ok (number 0.0) → r.HasFiniteValueAt ε x) ∧
      (r.simplify ε = .ok (number 0.0) → l.HasFiniteValueAt ε x)
  | binary .pow l r =>
    ∀ s a b, l.simplify ε = .ok s → l.evaluate ε x = .ok a → r.evaluate ε x = .ok b →
      (a == 0.0) = true → b < 0.0 → isOdd b → s.evaluate ε x = .ok a
  | _ => True

theorem keeps_unary {op : UnaryOp} (he : e.Keeps ε x a) : (unary op e).Keeps ε x (op.apply a) := by
  obtain ⟨s, hs, a', ha', hagree⟩ := he
  have hnode : Agree (op.apply a) (op.apply a') := by
    cases op with
    | negate => exact hagree.neg
    | keep => exact hagree
  have heval : (unary op s).evaluate ε x = .ok (op.apply a') := evaluate_unary.mpr ⟨a', ha', rfl⟩
  rw [Keeps, simplify, hs]
  exact simplifyNode_yields (by simp [children]) heval hnode (reduce_unary heval)

theorem keeps_binary {op : BinaryOp} (hla : l.evaluate ε x = .ok a) (hrb : r.evaluate ε x = .ok b)
    (hl : l.Keeps ε x a) (hr : r.Keeps ε x b) (hlaws : LawsHoldAt ε x (binary op l r))
    (h : operate ε (binary op l r) op a b = .ok v) : (binary op l r).Keeps ε x v := by
  obtain ⟨sl, hsl, a', ha', hagreel⟩ := hl
  obtain ⟨sr, hsr, b', hb', hagreer⟩ := hr
  have hsign : op = .pow → (a == 0.0) = true → b < 0.0 → isOdd b → a' = a := by
    intro hop hzero hneg hodd
    subst hop
    cases ha'.symm.trans (hlaws sl a b hsl hla hrb hzero hneg hodd)
    rfl
  have hzero : op = .mul → (sl = number 0.0 → b'.isFinite) ∧ (sr = number 0.0 → a'.isFinite) := by
    intro hop
    subst hop
    obtain ⟨hleft, hright⟩ := hlaws
    constructor
    · intro hzero
      exact isFinite_of_agree hagreer ((hleft (hzero ▸ hsl)).isFinite hrb)
    · intro hzero
      exact isFinite_of_agree hagreel ((hright (hzero ▸ hsr)).isFinite hla)
  obtain ⟨w, hw, hnode⟩ := operate_agree h hagreel hagreer hsign (binary op sl sr)
  have heval : (binary op sl sr).evaluate ε x = .ok w :=
    evaluate_binary.mpr ⟨a', b', ha', hb', hw⟩
  rw [Keeps, simplify, hsl, hsr]
  exact simplifyNode_yields (by simp [children]) heval hnode (reduce_binary ha' hb' hzero heval)

theorem keeps_call {name : String} {base : Option ℤ} (he : e.Keeps ε x a)
    (h : apply (call name base e) name base a = .ok v) : (call name base e).Keeps ε x v := by
  obtain ⟨s, hs, a', ha', hagree⟩ := he
  obtain ⟨w, hw, hnode⟩ := apply_agree h hagree (call name base s)
  have heval : (call name base s).evaluate ε x = .ok w := evaluate_call.mpr ⟨a', ha', hw⟩
  rw [Keeps, simplify, hs]
  exact simplifyNode_yields (by simp [children]) heval hnode (yields_self heval)

/-- **Simplifying keeps the value where the laws hold**, up to the sign of zero. -/
theorem keeps_of_lawsHold {t : Expr} (h : t.Everywhere (LawsHoldAt ε x))
    (hv : t.evaluate ε x = .ok v) : t.Keeps ε x v := by
  induction t generalizing v with
  | const c => exact ⟨const c, rfl, yields_self hv⟩
  | var => exact ⟨var, rfl, yields_self hv⟩
  | unary op e ih =>
    obtain ⟨-, he⟩ := everywhere_unary.mp h
    obtain ⟨a, ha, rfl⟩ := evaluate_unary.mp hv
    exact keeps_unary (ih he ha)
  | binary op l r ihl ihr =>
    obtain ⟨hnode, hl, hr⟩ := everywhere_binary.mp h
    obtain ⟨a, b, ha, hb, hop⟩ := evaluate_binary.mp hv
    exact keeps_binary ha hb (ihl hl ha) (ihr hr hb) hnode hop
  | call name base e ih =>
    obtain ⟨-, he⟩ := everywhere_call.mp h
    obtain ⟨a, ha, happ⟩ := evaluate_call.mp hv
    exact keeps_call (ih he ha) happ

/-- The reciprocal of a power of zero is infinite. -/
theorem lawsHoldAt_of_finite {op : BinaryOp} (hl : l.HasFiniteValueAt ε x)
    (hr : r.HasFiniteValueAt ε x) (h : (binary op l r).HasFiniteValueAt ε x) :
    LawsHoldAt ε x (binary op l r) := by
  cases op with
  | mul => exact ⟨fun _ => hr, fun _ => hl⟩
  | pow =>
    intro s a b _ ha hb hzero hneg _
    have hpow : (pow a b).isFinite := h.isFinite (evaluate_binary.mpr ⟨a, b, ha, hb, rfl⟩)
    exact absurd hneg (nonneg_of_isFinite_pow hzero (hr.isFinite hb) hpow)
  | _ => trivial

/-- **The laws hold where all values are finite.** -/
theorem lawsHold_of_finite {t : Expr} (h : t.Everywhere (HasFiniteValueAt ε x)) :
    t.Everywhere (LawsHoldAt ε x) := by
  induction t with
  | const c => exact everywhere_const.mpr trivial
  | var => exact everywhere_var.mpr trivial
  | unary op e ih => exact everywhere_unary.mpr ⟨trivial, ih (everywhere_unary.mp h).2⟩
  | binary op l r ihl ihr =>
    obtain ⟨hnode, hl, hr⟩ := everywhere_binary.mp h
    exact everywhere_binary.mpr ⟨lawsHoldAt_of_finite hl.root hr.root hnode, ihl hl, ihr hr⟩
  | call name base e ih => exact everywhere_call.mpr ⟨trivial, ih (everywhere_call.mp h).2⟩

/-- **Simplifying keeps all values**, up to the sign of zero. -/
theorem keeps_value {t : Expr} (h : t.Everywhere (HasFiniteValueAt ε x))
    (hv : t.evaluate ε x = .ok v) : t.Keeps ε x v :=
  keeps_of_lawsHold (lawsHold_of_finite h) hv

/-- **Simplification preserves values.** Where every node of an expression has a finite value, the
simplified expression has a value, which equals that of the expression as doubles compare. -/
theorem evaluate_simplify {t : Expr} (h : t.Everywhere (HasFiniteValueAt ε x)) :
    ∃ s v w, t.simplify ε = .ok s ∧ t.evaluate ε x = .ok v ∧ s.evaluate ε x = .ok w ∧
      (w == v) = true := by
  obtain ⟨v, hv, hfin⟩ := h.root
  obtain ⟨s, hs, w, hw, hagree⟩ := keeps_value h hv
  have hnan : w.isNaN = false := isNaN_of_finite (isFinite_of_agree hagree hfin)
  exact ⟨s, v, w, hs, hv, hw, (beq_iff_agree hnan).mpr hagree.symm⟩

/-- `0 * -x` is a negative zero where `x` is positive, and becomes a positive one. -/
theorem evaluate_simplify_zero_product :
    ∃ s v w, (binary .mul (number 0.0) (unary .negate var)).simplify 1e-10 = .ok s ∧
      (binary .mul (number 0.0) (unary .negate var)).evaluate 1e-10 3.0 = .ok v ∧
      s.evaluate 1e-10 3.0 = .ok w ∧ (w == v) = true := by
  apply evaluate_simplify
  simp only [everywhere_binary, everywhere_unary, everywhere_var, number, everywhere_const]
  exact ⟨⟨_, rfl, by decide⟩, ⟨_, rfl, by decide⟩, ⟨_, rfl, by decide⟩, _, rfl, by decide⟩

end Expr

end SymCalc
