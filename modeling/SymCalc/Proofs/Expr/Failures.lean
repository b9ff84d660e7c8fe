import SymCalc.Expr.Simplify
import SymCalc.Proofs.Double.Faults
import SymCalc.Proofs.Expr.Nodes

/-!
# How evaluation fails

**Theorem (`evaluate_settled`).** If the division epsilon is above zero and no logarithm has a base
below zero, an expression has a value unless one of its nodes offends. The first node that does,
operands before their node and from left to right, gives the error. Simplification never fails.

A node offends if it is a quotient whose divisor nearly vanishes, a call of an unknown function,
or a logarithm whose base is missing, zero or one (`Offends`).

The error has a message that shows the node, written when the node offends. If a logarithm below the
node has a base that is too long to be written, this fails, and what is raised is no error of
evaluation (`evaluate_number_too_long`). It cannot happen where the expression itself can be
written, nor while simplifying: nodes are folded over constants (`FirstOffence.isWritable`).

Underneath are operations that can fail in other ways. `compute` evaluates with those operations
and their guards, and has the same outcome, so no such fault gets out.

The proof is an induction over the expression: its outcome is settled by its nodes (`Settled`), and
a node settles its own once its operands have values (`settledAt_operation`, `settledAt_call`).
-/

namespace SymCalc

open Double

/-- Why a computation has no value: an error of evaluation, a number that is too long for the
message of one, or a fault underneath. -/
inductive Failure where
  | evaluation (e : EvaluationError)
  | numberTooLong
  | fault (f : Fault)

/-- An error of evaluation is raised with its message. -/
def Failure.raised (e : EvaluationError) : Failure :=
  if e.isWritable then .evaluation e else .numberTooLong

/-- A fault underneath is passed on. -/
def passFault {α : Type} : Except Fault α → Except Failure α
  | .ok a => .ok a
  | .error f => .error (.fault f)

theorem EvaluationError.raised_of_isWritable {e : EvaluationError} (h : e.isWritable) :
    e.raised = .evaluation e :=
  if_pos h

theorem EvaluationError.raised_of_not_isWritable {e : EvaluationError} (h : ¬e.isWritable) :
    e.raised = .value .numberTooLong :=
  if_neg h

namespace Expr

/-! ## Evaluation with operations that can fail -/

/-- The base of the logarithm `node`. -/
def computeBase (node : Expr) : Option ℤ → Except Failure ℤ
  | none => .error (.raised (.missingBase node))
  | some b => if b = 0 ∨ b = 1 then .error (.raised (.invalidBase node b)) else .ok b

/-- The value of an operation at the node `node`. -/
def computeOperation (ε : Float) (node : Expr) (op : BinaryOp) (a b : Float) :
    Except Failure Float :=
  match op with
  | .add => .ok (a + b)
  | .sub => .ok (a - b)
  | .mul => .ok (a * b)
  | .div =>
    if b.abs < ε then .error (.raised (.divisionByZero b node)) else passFault (quotient a b)
  | .pow => passFault (guardedPower a b)

/-- The value of a call at the node `node`. -/
def computeCall (node : Expr) (name : String) (base : Option ℤ) (v : Float) :
    Except Failure Float :=
  if name = "log" then do
    let a ← passFault (guardedLogarithm v)
    let b ← computeBase node base
    passFault (overLogarithm a b)
  else if name = "sin" then passFault (guardedPeriodic sin v)
  else if name = "cos" then passFault (guardedPeriodic cos v)
  else if name = "tan" then passFault (guardedPeriodic tan v)
  else if name = "ln" then passFault (guardedLogarithm v)
  else .error (.raised (.unknownFunction name))

/-- The value of an expression at `x`, computed with operations that can fail. -/
def compute (ε x : Float) : Expr → Except Failure Float
  | const c => .ok c.value
  | var => .ok x
  | unary op e => do
    let v ← e.compute ε x
    return op.apply v
  | binary op l r => do
    let a ← l.compute ε x
    let b ← r.compute ε x
    computeOperation ε (binary op l r) op a b
  | call name base e => do
    let v ← e.compute ε x
    computeCall (call name base e) name base v

/-! ## Nodes that offend -/

/-- All nodes, operands before their node and from left to right. -/
def postOrder : Expr → List Expr
  | const c => [const c]
  | var => [var]
  | unary op e => e.postOrder ++ [unary op e]
  | binary op l r => l.postOrder ++ r.postOrder ++ [binary op l r]
  | call name base e => e.postOrder ++ [call name base e]

/-- If it is a logarithm with a base, the base is not below zero. -/
def HasNaturalBase : Expr → Prop
  | call name base _ => name = "log" → ∀ b ∈ base, 0 ≤ b
  | _ => True

/-- The node is why there is no value, with this error. -/
inductive Offends (ε x : Float) : Expr → EvaluationError → Prop
  | divisor {l r : Expr} {b : Float} (hr : r.evaluate ε x = .ok b) (hb : b.abs < ε) :
      Offends ε x (binary .div l r) (.divisionByZero b (binary .div l r))
  | unknown {name : String} {base : Option ℤ} {e : Expr} (hlog : name ≠ "log")
      (hname : name ∉ ["sin", "cos", "tan", "ln"]) :
      Offends ε x (call name base e) (.unknownFunction name)
  | missing {e : Expr} : Offends ε x (call "log" none e) (.missingBase (call "log" none e))
  | invalid {b : ℤ} {e : Expr} (hb : b = 0 ∨ b = 1) :
      Offends ε x (call "log" (some b) e) (.invalidBase (call "log" (some b) e) b)

/-- None of the nodes offends. -/
def Inoffensive (ε x : Float) (nodes : List Expr) : Prop :=
  ∀ n ∈ nodes, ∀ e, ¬Offends ε x n e

/-- The first of the nodes that offends does so with this error. -/
def FirstOffence (ε x : Float) (nodes : List Expr) (e : EvaluationError) : Prop :=
  ∃ before n after, nodes = before ++ n :: after ∧ Inoffensive ε x before ∧ Offends ε x n e

/-- The nodes of an expression settle how its evaluation ends. -/
def Settled (ε x : Float) (t : Expr) : Prop :=
  (Inoffensive ε x t.postOrder ∧ ∃ v, t.evaluate ε x = .ok v ∧ t.compute ε x = .ok v) ∨
    ∃ e, FirstOffence ε x t.postOrder e ∧ t.evaluate ε x = .error e.raised ∧
      t.compute ε x = .error (.raised e)

variable {ε x v a b : Float} {e l r t node : Expr} {nodes others : List Expr}
  {err : EvaluationError}

theorem Inoffensive.append (h : Inoffensive ε x nodes) (h' : Inoffensive ε x others) :
    Inoffensive ε x (nodes ++ others) := by
  intro n hn
  rcases List.mem_append.mp hn with hn | hn
  · exact h n hn
  · exact h' n hn

theorem inoffensive_singleton : Inoffensive ε x [node] ↔ ∀ e, ¬Offends ε x node e := by
  simp [Inoffensive]

theorem FirstOffence.append (h : FirstOffence ε x nodes err) (others : List Expr) :
    FirstOffence ε x (nodes ++ others) err := by
  obtain ⟨before, n, after, rfl, hbefore, hn⟩ := h
  exact ⟨before, n, after ++ others, by simp, hbefore, hn⟩

theorem Inoffensive.firstOffence_append (h : Inoffensive ε x nodes)
    (h' : FirstOffence ε x others err) : FirstOffence ε x (nodes ++ others) err := by
  obtain ⟨before, n, after, rfl, hbefore, hn⟩ := h'
  exact ⟨nodes ++ before, n, after, by simp, h.append hbefore, hn⟩

theorem firstOffence_singleton (h : Offends ε x node err) : FirstOffence ε x [node] err :=
  ⟨[], node, [], rfl, by simp [Inoffensive], h⟩

/-! ## Single nodes -/

/-- The outcome of the node itself, where its operands have values. -/
def SettledAt (ε x : Float) (node : Expr) (outcome : Except Error Float)
    (computed : Except Failure Float) : Prop :=
  ((∀ e, ¬Offends ε x node e) ∧ ∃ v, outcome = .ok v ∧ computed = .ok v) ∨
    ∃ e, Offends ε x node e ∧ outcome = .error e.raised ∧ computed = .error (.raised e)

theorem ne_zero_of_not_lt (hε : 0.0 < ε) (hb : ¬b.abs < ε) : ¬(b == 0.0) = true := by
  intro hzero
  have habs : b.abs = 0.0 := by
    rcases eq_of_beq_zero hzero with rfl | rfl
    · decide
    · decide
  rw [habs] at hb
  exact hb hε

theorem settledAt_div (hε : 0.0 < ε) (hr : r.evaluate ε x = .ok b) :
    SettledAt ε x (binary .div l r) (operate ε (binary .div l r) .div a b)
      (computeOperation ε (binary .div l r) .div a b) := by
  rw [operate, divide, computeOperation]
  by_cases hb : b.abs < ε
  · rw [if_pos hb, if_pos hb]
    exact Or.inr ⟨_, .divisor hr hb, rfl, rfl⟩
  · have hne := ne_zero_of_not_lt hε hb
    rw [if_neg hb, if_neg hb, if_neg hne, quotient_eq hne]
    refine Or.inl ⟨?_, _, rfl, rfl⟩
    rintro e (⟨hr', hb'⟩)
    cases hr.symm.trans hr'
    exact hb hb'

theorem settledAt_operation (op : BinaryOp) (hε : 0.0 < ε) (hr : r.evaluate ε x = .ok b) :
    SettledAt ε x (binary op l r) (operate ε (binary op l r) op a b)
      (computeOperation ε (binary op l r) op a b) := by
  cases op with
  | div => exact settledAt_div hε hr
  | pow =>
    rw [computeOperation, guardedPower_eq]
    exact Or.inl ⟨nofun, _, rfl, rfl⟩
  | _ => exact Or.inl ⟨nofun, _, rfl, rfl⟩

theorem settledAt_logarithm {base : Option ℤ} (hbase : HasNaturalBase (call "log" base e)) :
    SettledAt ε x (call "log" base e) (apply (call "log" base e) "log" base v)
      (computeCall (call "log" base e) "log" base v) := by
  rw [apply, computeCall, if_pos rfl, if_pos rfl, guardedLogarithm_eq]
  cases base with
  | none => exact Or.inr ⟨_, .missing, rfl, rfl⟩
  | some b =>
    rw [checkedBase, computeBase]
    by_cases hb : b = 0 ∨ b = 1
    · rw [if_pos hb, if_pos hb]
      exact Or.inr ⟨_, .invalid hb, rfl, rfl⟩
    · obtain ⟨d, hd, hover⟩ := exists_overLogarithm (Double.ln v) (hbase rfl b rfl) hb
      have hnode : ∀ e', ¬Offends ε x (call "log" (some b) e) e' := by
        intro e' h
        cases h with
        | unknown hlog _ => exact hlog rfl
        | invalid hb' => exact hb hb'
      rw [if_neg hb, if_neg hb]
      refine Or.inl ⟨hnode, Double.ln v / d, ?_, ?_⟩
      · simp only [bind, Except.bind, hd]
        rfl
      · simp only [passFault, bind, Except.bind, hover]

/-- The functions of one argument that have a value everywhere. -/
theorem settledAt_function {name : String} {base : Option ℤ} {f : Float → Float}
    (hname : name ∈ ["sin", "cos", "tan", "ln"]) (hf : function? name = some f)
    (hcompute : computeCall (call name base e) name base v = .ok (f v)) :
    SettledAt ε x (call name base e) (apply (call name base e) name base v)
      (computeCall (call name base e) name base v) := by
  have hlog : ¬name = "log" := by
    rintro rfl
    exact absurd hname (by decide)
  have hnode : ∀ e', ¬Offends ε x (call name base e) e' := by
    intro e' h
    cases h with
    | unknown _ hname' => exact hname' hname
    | missing => exact hlog rfl
    | invalid _ => exact hlog rfl
  rw [apply, if_neg hlog, hf]
  exact Or.inl ⟨hnode, f v, rfl, hcompute⟩

theorem settledAt_call {name : String} {base : Option ℤ}
    (hbase : HasNaturalBase (call name base e)) :
    SettledAt ε x (call name base e) (apply (call name base e) name base v)
      (computeCall (call name base e) name base v) := by
  by_cases hlog : name = "log"
  · subst hlog
    exact settledAt_logarithm hbase
  by_cases hname : name ∈ ["sin", "cos", "tan", "ln"]
  · have hcases := hname
    simp only [List.mem_cons, List.not_mem_nil, or_false] at hcases
    rcases hcases with rfl | rfl | rfl | rfl
    · refine settledAt_function hname rfl ?_
      show passFault (guardedPeriodic sin v) = _
      rw [guardedPeriodic_sin, passFault]
    · refine settledAt_function hname rfl ?_
      show passFault (guardedPeriodic cos v) = _
      rw [guardedPeriodic_cos, passFault]
    · refine settledAt_function hname rfl ?_
      show passFault (guardedPeriodic tan v) = _
      rw [guardedPeriodic_tan, passFault]
    · refine settledAt_function hname rfl ?_
      show passFault (guardedLogarithm v) = _
      rw [guardedLogarithm_eq, passFault]
  · have hother := hname
    simp only [List.mem_cons, List.not_mem_nil, or_false, not_or] at hother
    obtain ⟨hsin, hcos, htan, hln⟩ := hother
    rw [apply, computeCall, function?]
    simp only [if_neg hlog, if_neg hsin, if_neg hcos, if_neg htan, if_neg hln]
    exact Or.inr ⟨_, .unknown hlog hname, rfl, rfl⟩

/-! ## Whole expressions -/

theorem settled_unary {op : UnaryOp} (h : e.Settled ε x) : (unary op e).Settled ε x := by
  rw [Settled, postOrder, evaluate, compute]
  rcases h with ⟨hgood, v, hv, hc⟩ | ⟨err, hfirst, hv, hc⟩
  · rw [hv, hc]
    exact Or.inl ⟨hgood.append (inoffensive_singleton.mpr nofun), _, rfl, rfl⟩
  · rw [hv, hc]
    exact Or.inr ⟨err, hfirst.append _, rfl, rfl⟩

theorem settled_binary {op : BinaryOp} (hε : 0.0 < ε) (hl : l.Settled ε x) (hr : r.Settled ε x) :
    (binary op l r).Settled ε x := by
  rw [Settled, postOrder, evaluate, compute]
  rcases hl with ⟨hgoodl, a, ha, hca⟩ | ⟨err, hfirst, ha, hca⟩
  · rcases hr with ⟨hgoodr, b, hb, hcb⟩ | ⟨err, hfirst, hb, hcb⟩
    · rw [ha, hca, hb, hcb]
      have hgood := hgoodl.append hgoodr
      rcases settledAt_operation (l := l) (a := a) op hε hb with
        ⟨hnode, v, hv, hc⟩ | ⟨err, hnode, hv, hc⟩
      · exact Or.inl ⟨hgood.append (inoffensive_singleton.mpr hnode), v, hv, hc⟩
      · exact Or.inr ⟨err, hgood.firstOffence_append (firstOffence_singleton hnode), hv, hc⟩
    · rw [ha, hca, hb, hcb]
      exact Or.inr ⟨err, (hgoodl.firstOffence_append hfirst).append _, rfl, rfl⟩
  · rw [ha, hca]
    exact Or.inr ⟨err, (hfirst.append _).append _, rfl, rfl⟩

theorem settled_call {name : String} {base : Option ℤ} (hbase : HasNaturalBase (call name base e))
    (h : e.Settled ε x) : (call name base e).Settled ε x := by
  rw [Settled, postOrder, evaluate, compute]
  rcases h with ⟨hgood, v, hv, hc⟩ | ⟨err, hfirst, hv, hc⟩
  · rw [hv, hc]
    rcases settledAt_call (ε := ε) (x := x) (v := v) hbase with
      ⟨hnode, w, hw, hcw⟩ | ⟨err, hnode, hw, hcw⟩
    · exact Or.inl ⟨hgood.append (inoffensive_singleton.mpr hnode), w, hw, hcw⟩
    · exact Or.inr ⟨err, hgood.firstOffence_append (firstOffence_singleton hnode), hw, hcw⟩
  · rw [hv, hc]
    exact Or.inr ⟨err, hfirst.append _, rfl, rfl⟩

theorem settled (hε : 0.0 < ε) (x : Float) {t : Expr} (h : t.Everywhere HasNaturalBase) :
    t.Settled ε x := by
  induction t with
  | const c => exact Or.inl ⟨inoffensive_singleton.mpr nofun, c.value, rfl, rfl⟩
  | var => exact Or.inl ⟨inoffensive_singleton.mpr nofun, x, rfl, rfl⟩
  | unary op e ih => exact settled_unary (ih (everywhere_unary.mp h).2)
  | binary op l r ihl ihr =>
    obtain ⟨-, hl, hr⟩ := everywhere_binary.mp h
    exact settled_binary hε (ihl hl) (ihr hr)
  | call name base e ih =>
    obtain ⟨hbase, he⟩ := everywhere_call.mp h
    exact settled_call hbase (ih he)

/-! ## Messages -/

theorem isWritable_children (h : t.isWritable) : ∀ c ∈ t.children, c.isWritable := by
  cases t with
  | const c => nofun
  | var => nofun
  | unary op e => simpa [children] using h
  | binary op l r => simpa [children] using h
  | call name base e => simpa [children] using (isWritable_call.mp h).2

theorem isWritable_of_mem_postOrder (ht : t.isWritable) (h : node ∈ t.postOrder) :
    node.isWritable := by
  induction t with
  | const c => simp_all [postOrder]
  | var => simp_all [postOrder]
  | unary op e ih =>
    rcases List.mem_append.mp h with h | h
    · exact ih ht h
    · rwa [List.mem_singleton.mp h]
  | binary op l r ihl ihr =>
    obtain ⟨hl, hr⟩ : l.isWritable ∧ r.isWritable := by simpa using ht
    rcases List.mem_append.mp h with h | h
    · exact (List.mem_append.mp h).elim (ihl hl) (ihr hr)
    · rwa [List.mem_singleton.mp h]
  | call name base e ih =>
    rcases List.mem_append.mp h with h | h
    · exact ih (isWritable_call.mp ht).2 h
    · rwa [List.mem_singleton.mp h]

theorem mem_postOrder_cases (h : node ∈ t.postOrder) :
    node = t ∨ ∃ c ∈ t.children, node ∈ c.postOrder := by
  cases t with
  | binary op l r => simpa [postOrder, children, ← or_assoc, or_comm (b := node = _)] using h
  | _ => simpa [postOrder, children, or_comm] using h

/-- The message shows the node with its operands. A logarithm that offends has a short base. -/
theorem Offends.isWritable (h : Offends ε x node err) (hc : ∀ c ∈ node.children, c.isWritable) :
    err.isWritable := by
  cases h with
  | divisor _ _ => simpa [EvaluationError.isWritable, children] using hc
  | unknown _ _ => rfl
  | @missing e =>
    have he : e.isWritable := hc e List.mem_cons_self
    exact isWritable_call.mpr ⟨nofun, he⟩
  | @invalid b e hb =>
    have he : e.isWritable := hc e List.mem_cons_self
    refine isWritable_call.mpr ⟨?_, he⟩
    rintro - c ⟨⟩
    refine withinDigitLimit_of_lt_ten ?_
    rcases hb with rfl | rfl
    · decide
    · decide

theorem FirstOffence.isWritable (h : FirstOffence ε x t.postOrder err)
    (hc : ∀ c ∈ t.children, c.isWritable) : err.isWritable := by
  obtain ⟨before, node, after, heq, -, hoffends⟩ := h
  have hmem : node ∈ t.postOrder := by simp [heq]
  refine hoffends.isWritable ?_
  rcases mem_postOrder_cases hmem with rfl | ⟨c, hct, hnode⟩
  · exact hc
  · exact isWritable_children (isWritable_of_mem_postOrder (hc c hct) hnode)

/-- Where the text of an expression can be written, only errors of evaluation are raised. -/
theorem Settled.of_isWritable (h : t.Settled ε x) (ht : t.isWritable) :
    (Inoffensive ε x t.postOrder ∧ ∃ v, t.evaluate ε x = .ok v) ∨
      ∃ e, FirstOffence ε x t.postOrder e ∧ t.evaluate ε x = .error (.evaluation e) := by
  rcases h with ⟨hgood, v, hv, -⟩ | ⟨e, hfirst, hv, -⟩
  · exact Or.inl ⟨hgood, v, hv⟩
  · have he : e.isWritable := hfirst.isWritable (isWritable_children ht)
    rw [EvaluationError.raised_of_isWritable he] at hv
    exact Or.inr ⟨e, hfirst, hv⟩

/-! ## Simplification -/

theorem isWritable_of_isConst (h : e.isConst) : e.isWritable := by
  cases e with
  | const c => rfl
  | _ => cases h

/-- Folding fails only if evaluating fails with a fault or with a message that cannot be written. -/
theorem exists_fold? (h : node.Settled ε 0.0) (hconst : node.children.all isConst) :
    ∃ c, fold? ε node = .ok c := by
  rw [fold?]
  rcases h with ⟨-, v, hv, -⟩ | ⟨err, hfirst, hv, -⟩
  · rw [hv]
    exact ⟨_, rfl⟩
  · have hwritable : ∀ c ∈ node.children, c.isWritable :=
      fun c hc => isWritable_of_isConst (List.all_eq_true.mp hconst c hc)
    rw [hv, EvaluationError.raised_of_isWritable (hfirst.isWritable hwritable)]
    exact ⟨_, rfl⟩

theorem exists_simplifyNode (h : node.children.all isConst → node.Settled ε 0.0) :
    ∃ s, simplifyNode ε node = .ok s := by
  rw [simplifyNode]
  by_cases hconst : node.children.all isConst
  · obtain ⟨c, hc⟩ := exists_fold? (h hconst) hconst
    rw [if_pos hconst, hc]
    cases c with
    | none => exact ⟨_, rfl⟩
    | some c => exact ⟨_, rfl⟩
  · rw [if_neg hconst]
    exact ⟨_, rfl⟩

theorem settled_of_isConst (h : e.isConst) : e.Settled ε x := by
  cases e with
  | const c => exact Or.inl ⟨inoffensive_singleton.mpr nofun, c.value, rfl, rfl⟩
  | _ => cases h

/-- **Simplification never fails.** A node that is folded has constants below it, so its own base
is all that matters. -/
theorem exists_simplify (hε : 0.0 < ε) {t : Expr} (h : t.Everywhere HasNaturalBase) :
    ∃ s, t.simplify ε = .ok s := by
  induction t with
  | const c => exact ⟨_, rfl⟩
  | var => exact ⟨_, rfl⟩
  | unary op e ih =>
    obtain ⟨s, hs⟩ := ih (everywhere_unary.mp h).2
    rw [simplify, hs]
    refine exists_simplifyNode fun hconst => ?_
    exact settled_unary (settled_of_isConst (by simpa [children] using hconst))
  | binary op l r ihl ihr =>
    obtain ⟨-, hl, hr⟩ := everywhere_binary.mp h
    obtain ⟨sl, hsl⟩ := ihl hl
    obtain ⟨sr, hsr⟩ := ihr hr
    rw [simplify, hsl, hsr]
    refine exists_simplifyNode fun hconst => ?_
    obtain ⟨hcl, hcr⟩ : sl.isConst ∧ sr.isConst := by simpa [children] using hconst
    exact settled_binary hε (settled_of_isConst hcl) (settled_of_isConst hcr)
  | call name base e ih =>
    obtain ⟨hbase, he⟩ := everywhere_call.mp h
    obtain ⟨s, hs⟩ := ih he
    have hbase' : HasNaturalBase (call name base s) := hbase
    rw [simplify, hs]
    refine exists_simplifyNode fun hconst => ?_
    exact settled_call hbase' (settled_of_isConst (by simpa [children] using hconst))

/-! ## The outcome of an expression -/

/-- **Evaluation fails only because of a node that offends**, and no fault underneath gets out. The
first one gives the error, which is an error of evaluation unless its message cannot be written. If
the text of the expression can be, so can the message. Simplification never fails. -/
theorem evaluate_settled (hε : 0.0 < ε) {t : Expr} (ht : t.Everywhere HasNaturalBase) :
    (∀ x, t.Settled ε x) ∧
    (t.isWritable → ∀ x, (Inoffensive ε x t.postOrder ∧ ∃ v, t.evaluate ε x = .ok v) ∨
      ∃ e, FirstOffence ε x t.postOrder e ∧ t.evaluate ε x = .error (.evaluation e)) ∧
    ∃ s, t.simplify ε = .ok s := by
  have hsettled : ∀ x, t.Settled ε x := fun x => settled hε x ht
  exact ⟨hsettled, fun hwritable x => (hsettled x).of_isWritable hwritable, exists_simplify hε ht⟩

/-- Two nodes that offend: the divisor comes before the logarithm. -/
theorem evaluate_settled_two_offences :
    let divisor := binary .sub var var
    let t := binary .add (binary .div var divisor) (call "log" (some 1) var)
    t.evaluate 1e-10 2.0 = .error (.evaluation (.divisionByZero 0.0 (binary .div var divisor))) ∧
    (∀ x, t.Settled 1e-10 x) ∧ (∃ s, t.simplify 1e-10 = .ok s) ∧
    ∀ x, (Inoffensive 1e-10 x t.postOrder ∧ ∃ v, t.evaluate 1e-10 x = .ok v) ∨
      ∃ e, FirstOffence 1e-10 x t.postOrder e ∧ t.evaluate 1e-10 x = .error (.evaluation e) := by
  intro divisor t
  have hnatural : t.Everywhere HasNaturalBase := by simp [t, divisor, HasNaturalBase]
  have hwritable : t.isWritable := by
    have hbase : HasWritableBase (call "log" (some 1) var) := by
      rintro - b ⟨⟩
      exact withinDigitLimit_of_lt_ten (by decide)
    simp [t, divisor, isWritable_call, hbase]
  obtain ⟨hsettled, hvalue, hsimplify⟩ := evaluate_settled (ε := 1e-10) (by decide) hnatural
  exact ⟨rfl, hsettled, hsimplify, hvalue hwritable⟩

/-! ## Bases that are too long for a message -/

/-- A whole number with one digit more than can be written. -/
def longNumber : ℤ :=
  10 ^ digitLimit

theorem not_withinDigitLimit_longNumber : ¬withinDigitLimit longNumber := by
  rw [withinDigitLimit_iff, longNumber, abs_of_nonneg (by positivity)]
  exact lt_irrefl _

theorem two_le_longNumber : 2 ≤ longNumber := by
  have hten : (10 : ℤ) ≤ longNumber := le_self_pow₀ (by norm_num) (by decide)
  omega

/-- A logarithm has values whatever the length of its base. -/
theorem exists_evaluate_logarithm (ε x : Float) {b : ℤ} (hb : 2 ≤ b) :
    ∃ v, (call "log" (some b) var).evaluate ε x = .ok v := by
  have hnatural : HasNaturalBase (call "log" (some b) var) := by
    rintro - c ⟨⟩
    omega
  rcases settledAt_logarithm (ε := ε) (x := x) (v := x) hnatural with ⟨-, v, hv, -⟩ | ⟨e, hnode, -⟩
  · exact ⟨v, hv⟩
  · cases hnode with
    | unknown hlog _ => exact absurd rfl hlog
    | invalid hb' => omega

/-- A quotient by zero whose text cannot be written. -/
def longQuotient : Expr :=
  binary .div (call "log" (some longNumber) var) (number 0.0)

theorem natural_longQuotient : longQuotient.Everywhere HasNaturalBase := by
  have hlong : 0 ≤ longNumber := zero_le_two.trans two_le_longNumber
  simp [longQuotient, HasNaturalBase, number, hlong]

/-- A quotient by zero offends. If its text cannot be written, that is no error of evaluation. -/
theorem evaluate_longQuotient (hε : 0.0 < ε) (x : Float) :
    longQuotient.evaluate ε x = .error (.value .numberTooLong) := by
  obtain ⟨a, ha⟩ := exists_evaluate_logarithm ε x two_le_longNumber
  have hzero : (number 0.0).evaluate ε x = .ok 0.0 := rfl
  have hsmall : (0.0 : Float).abs < ε := hε
  have hwritable : ¬(EvaluationError.divisionByZero 0.0 longQuotient).isWritable := by
    rw [EvaluationError.isWritable, longQuotient, isWritable_binary, Bool.and_eq_true,
      isWritable_call]
    rintro ⟨⟨hbase, -⟩, -⟩
    exact not_withinDigitLimit_longNumber (hbase rfl _ rfl)
  rw [longQuotient, evaluate, ha, hzero]
  show divide ε longQuotient a 0.0 = _
  rw [divide, if_pos hsmall, EvaluationError.raised_of_not_isWritable hwritable]

/-- A quotient that divides by zero, with a base that its message cannot show. -/
theorem evaluate_number_too_long :
    longQuotient.Everywhere HasNaturalBase ∧
      longQuotient.evaluate 1e-10 2.0 = .error (.value .numberTooLong) :=
  ⟨natural_longQuotient, evaluate_longQuotient (by decide) 2.0⟩

end Expr

end SymCalc
