import SymCalc.Expr.Derivative
import SymCalc.Expr.Shared
import SymCalc.Expr.Simplify
import SymCalc.Proofs.Expr.Nodes

/-!
# Functions on expressions as folds

A fold combines an expression from its leaves to its root: a visit gets a node with the results of
its operands, and the first visit that fails ends the fold.

* Values, derivatives, texts, descriptions and simplified forms are folds. Each has a function for
  one node (`evaluateNode`, `derivativeNode`, `renderNode`, `describeNode`, `simplifyRebuilt`), and
  the fold of that function is the function itself (`fold_evaluateNode` and so on).
* `ExprGraph.expr` unfolds the nodes below a node of a graph into an expression, and
  `ExprGraph.fold` is the fold over what is unfolded, with a visit that may look at identities. If it
  looks at the expressions only, then this is the fold over the expression (`fold_expr`).
-/

namespace SymCalc

theorem mapM_congr {α β ε : Type} {f g : α → Except ε β} {as : List α}
    (h : ∀ a ∈ as, f a = g a) : as.mapM f = as.mapM g := by
  induction as with
  | nil => rfl
  | cons a as ih =>
    obtain ⟨ha, has⟩ := List.forall_mem_cons.mp h
    rw [List.mapM_cons, List.mapM_cons, ha, ih has]

namespace Expr

variable {β ε : Type}

/-- Combines an expression from its leaves to its root. The operands of a node come before it, from
left to right. -/
def fold (visit : Expr → List β → Except ε β) : Expr → Except ε β
  | const c => visit (const c) []
  | var => visit var []
  | unary op e => do
    let r ← e.fold visit
    visit (unary op e) [r]
  | binary op l r => do
    let a ← l.fold visit
    let b ← r.fold visit
    visit (binary op l r) [a, b]
  | call name base e => do
    let r ← e.fold visit
    visit (call name base e) [r]

theorem fold_eq (visit : Expr → List β → Except ε β) (e : Expr) :
    e.fold visit = e.children.mapM (fold visit) >>= visit e := by
  cases e <;> simp [fold, children]

/-- A function that combines each node from the results of its operands is a fold. -/
theorem fold_eq_of_children {visit : Expr → List β → Except ε β} {f : Expr → Except ε β}
    (h : ∀ e, f e = e.children.mapM f >>= visit e) (e : Expr) : e.fold visit = f e := by
  induction e with
  | const c => exact (h (const c)).symm
  | var => exact (h var).symm
  | unary op e ih =>
    rw [fold, ih, h (unary op e)]
    simp [children]
  | binary op l r ihl ihr =>
    rw [fold, ihl, ihr, h (binary op l r)]
    simp [children]
  | call name base e ih =>
    rw [fold, ih, h (call name base e)]
    simp [children]

/-! ## One node

A node is only ever visited with as many results as it has operands. -/

/-- The value of a node at `x`, given those of its operands. -/
def evaluateNode (ε x : Float) : Expr → List Float → Except Error Float
  | const c, _ => .ok c.value
  | var, _ => .ok x
  | unary op _, [v] => return op.apply v
  | binary op l r, [a, b] => operate ε (binary op l r) op a b
  | call name base e, [v] => apply (call name base e) name base v
  | _, _ => .ok Double.notANumber

/-- The derivative of a node, given those of its operands. -/
def derivativeNode : Expr → List Expr → Except Error Expr
  | const _, _ => .ok (number 0.0)
  | var, _ => .ok (number 1.0)
  | unary .negate _, [e'] => return unary .negate e'
  | unary .keep _, [e'] => return e'
  | binary op l r, [l', r'] => return operationDerivative op l r l' r'
  | call name base e, [e'] => do
    let outer ← outerDerivative (call name base e) name base e
    return binary .mul outer e'
  | e, _ => .ok e

/-- The text of a node, given those of its operands. -/
def renderNode : Expr → List String → String
  | const c, _ => numberText c.value
  | var, _ => "x"
  | unary op e, [s] => String.singleton op.symbol ++ grouped s e.groupedBySign
  | binary op l r, [s, t] =>
    grouped s (groupedOnLeft op l) ++ String.singleton op.symbol ++ grouped t (groupedOnRight op r)
  | call name base _, [s] => callHead name base ++ s ++ ")"
  | _, _ => ""

/-- The description of a node, given those of its operands. -/
def describeNode : Expr → List String → String
  | const c, _ => "Value(" ++ numberText c.value ++ ")"
  | call name base _, [s] =>
    "FunctionCall(" ++ Text.quoted name ++ ", " ++ s
      ++ (match base with
        | some b => ", base=" ++ intText b
        | none => "")
      ++ ")"
  | e, ss => e.kindName ++ "(" ++ String.intercalate ", " ss ++ ")"

/-- The simplified form of a node, given those of its operands. A leaf stays as it is. -/
def simplifyRebuilt (ε : Float) (e : Expr) (es : List Expr) : Except Error Expr :=
  if e.children.isEmpty then .ok e else simplifyNode ε (e.withChildren es)

theorem fold_evaluateNode (ε x : Float) (e : Expr) :
    e.fold (evaluateNode ε x) = e.evaluate ε x := by
  refine fold_eq_of_children (fun e => ?_) e
  cases e <;> simp [children, evaluate, evaluateNode]

theorem fold_derivativeNode (e : Expr) : e.fold derivativeNode = e.derivative := by
  refine fold_eq_of_children (fun e => ?_) e
  cases e with
  | unary op e => cases op <;> simp [children, derivative, derivativeNode]
  | _ => simp [children, derivative, derivativeNode]

theorem fold_renderNode (e : Expr) :
    e.fold (fun e ss => (.ok (e.renderNode ss) : Except ε String)) = .ok e.render := by
  refine fold_eq_of_children (f := fun e => .ok e.render) (fun e => ?_) e
  cases e <;> rfl

theorem describeNode_binary (op : BinaryOp) (l r : Expr) :
    (binary op l r).describeNode [l.describe, r.describe] = (binary op l r).describe := by
  show (binary op l r).kindName ++ "(" ++ (l.describe ++ ", " ++ r.describe) ++ ")" =
    (binary op l r).kindName ++ "(" ++ l.describe ++ ", " ++ r.describe ++ ")"
  simp only [String.append_assoc]

theorem fold_describeNode (e : Expr) :
    e.fold (fun e ss => (.ok (e.describeNode ss) : Except ε String)) = .ok e.describe := by
  refine fold_eq_of_children (f := fun e => .ok e.describe) (fun e => ?_) e
  cases e with
  | binary op l r => exact congrArg Except.ok (describeNode_binary op l r).symm
  | _ => rfl

theorem fold_simplifyRebuilt (ε : Float) (e : Expr) :
    e.fold (simplifyRebuilt ε) = e.simplify ε := by
  refine fold_eq_of_children (fun e => ?_) e
  cases e <;> simp [children, withChildren, simplify, simplifyRebuilt]

end Expr

namespace ExprGraph

variable {ι β ε : Type} {g : ExprGraph ι} {i : ι}

/-! ## Unfolding a graph -/

/-- A node is an operand of another one. -/
def IsOperand (g : ExprGraph ι) (c i : ι) : Prop :=
  c ∈ g.operands i

/-- A node is reached from another one through operands. -/
def Below (g : ExprGraph ι) : ι → ι → Prop :=
  Relation.TransGen g.IsOperand

theorem wellFounded_isOperand [Finite ι] (g : ExprGraph ι) : WellFounded g.IsOperand := by
  have : IsTrans ι g.Below := ⟨fun _ _ _ => Relation.TransGen.trans⟩
  have : Std.Irrefl g.Below := ⟨g.acyclic⟩
  exact Subrelation.wf Relation.TransGen.single (Finite.wellFounded_of_trans_of_irrefl g.Below)

/-- The expression that a node stands for, with everything below it. -/
def expr [Finite ι] (g : ExprGraph ι) (i : ι) : Expr :=
  match _ : g.node i with
  | .const c => .const c
  | .var => .var
  | .unary op e => .unary op (g.expr e)
  | .binary op l r => .binary op (g.expr l) (g.expr r)
  | .call name base e => .call name base (g.expr e)
termination_by g.wellFounded_isOperand.wrap i
decreasing_by
  all_goals
    show g.IsOperand _ i
    simp [IsOperand, operands, ExprNode.operands, *]

/-- Combines what a node unfolds into, from the leaves up. A node is visited once for each place
where it occurs. -/
def fold [Finite ι] (g : ExprGraph ι) (visit : ι → List β → Except ε β) (i : ι) : Except ε β := do
  let results ← (g.operands i).attach.mapM fun c => g.fold visit c.1
  visit i results
termination_by g.wellFounded_isOperand.wrap i
decreasing_by exact c.2

theorem fold_eq [Finite ι] (g : ExprGraph ι) (visit : ι → List β → Except ε β) (i : ι) :
    g.fold visit i = (g.operands i).mapM (g.fold visit) >>= visit i := by
  rw [fold, List.mapM_subtype fun c hc => rfl, List.unattach_attach]

theorem children_expr [Finite ι] (g : ExprGraph ι) (i : ι) :
    (g.expr i).children = (g.operands i).map g.expr := by
  rw [expr, operands]
  cases h : g.node i <;> simp [ExprNode.operands, Expr.children]

/-- **A visit that looks at expressions only folds the expression** that is unfolded. -/
theorem fold_expr [Finite ι] (g : ExprGraph ι) (visit : Expr → List β → Except ε β) (i : ι) :
    g.fold (fun j => visit (g.expr j)) i = (g.expr i).fold visit := by
  induction i using g.wellFounded_isOperand.induction with
  | _ i ih =>
    rw [fold_eq, Expr.fold_eq, children_expr, List.mapM_map]
    rw [mapM_congr ih]
    rfl

end ExprGraph

end SymCalc
