import SymCalc.Expr.Basic

/-!
# Shared expressions

An expression as it lies in memory: nodes with an identity, whose operands are given by theirs. A
node can be an operand of several others, and more than once of the same one.

* `ExprGraph` holds such nodes; none of them lies below itself.
* `ExprGraph.walkWithin` combines the nodes below a root from the leaves up. It keeps a stack of
  tasks, so it needs no stack as deep as the expression, and a table of the results found so far, so
  that a shared node is visited once.
-/

namespace SymCalc

/-- A node over operands of any kind. -/
inductive ExprNode (α : Type) where
  | const (c : Constant)
  | var
  | unary (op : UnaryOp) (operand : α)
  | binary (op : BinaryOp) (left right : α)
  | call (name : String) (base : Option Int) (argument : α)

/-- The operands of a node, from left to right. -/
def ExprNode.operands {α : Type} : ExprNode α → List α
  | const _ | var => []
  | unary _ e => [e]
  | binary _ l r => [l, r]
  | call _ _ e => [e]

/-- Nodes with identities. Following operands never leads back to the same node. -/
structure ExprGraph (ι : Type) where
  node : ι → ExprNode ι
  acyclic : ∀ i, ¬Relation.TransGen (fun c i => c ∈ (node i).operands) i i

/-- Nodes that are made one after the other, each from operands that were there before. -/
def ExprGraph.ofOrdered {n : Nat} (node : Fin n → ExprNode (Fin n))
    (h : ∀ i, ∀ c ∈ (node i).operands, c < i) : ExprGraph (Fin n) where
  node := node
  acyclic i hi := by
    have hlt {c i : Fin n} (h' : Relation.TransGen (fun c i => c ∈ (node i).operands) c i) :
        c < i := by
      induction h' with
      | single hc => exact h _ _ hc
      | tail _ hc ih => exact Nat.lt_trans ih (h _ _ hc)
    exact Nat.lt_irrefl i (hlt hi)

/-- What a walk still has to do. -/
inductive Task (ι : Type) where
  /-- Find the result of a node. -/
  | enter (i : ι)
  /-- Visit a node; the results of its operands were found last. -/
  | leave (i : ι)
deriving DecidableEq

/-- Why a walk ends without a result. -/
inductive WalkError (ε : Type) where
  /-- A visit failed. -/
  | raised (e : ε)
  /-- There are fewer results than are to be taken. -/
  | noResult

/-- The state of a walk. -/
structure WalkState (ι β : Type) where
  /-- The tasks, the next one first. -/
  tasks : List (Task ι)
  /-- The results that were not taken yet, the latest last. -/
  results : List β
  /-- The results of the nodes visited so far. -/
  done : ι → Option β
  /-- The visits so far: the nodes and what they were visited with. Nothing depends on them. -/
  visits : List (ι × List β)

/-- What a round of a walk leads to. -/
inductive Round (ι β ε : Type) where
  | next (s : WalkState ι β)
  | ended (result : Except (WalkError ε) β) (visits : List (ι × List β))

/-- A walk begins with the task to find the result of the root. -/
def WalkState.start {ι β : Type} (root : ι) : WalkState ι β :=
  ⟨[.enter root], [], fun _ => none, []⟩

/-- The state after a node was visited with the results `taken`, which followed the results `first`.
The visit returned `b`. -/
def WalkState.visited {ι β : Type} [DecidableEq ι] (s : WalkState ι β) (i : ι)
    (tasks : List (Task ι)) (first taken : List β) (b : β) : WalkState ι β where
  tasks := tasks
  results := first ++ [b]
  done j := if j = i then some b else s.done j
  visits := s.visits ++ [(i, taken)]

namespace ExprGraph

variable {ι β ε : Type}

/-- The operands of a node, from left to right. -/
def operands (g : ExprGraph ι) (i : ι) : List ι :=
  (g.node i).operands

variable [DecidableEq ι]

/-- Visits a node with the latest results, which are taken. -/
def leave (g : ExprGraph ι) (visit : ι → List β → Except ε β) (s : WalkState ι β) (i : ι)
    (tasks : List (Task ι)) : Round ι β ε :=
  let arity := (g.operands i).length
  if s.results.length < arity then .ended (.error .noResult) s.visits
  else
    let start := s.results.length - arity
    let taken := s.results.drop start
    match visit i taken with
    | .ok b => .next (s.visited i tasks (s.results.take start) taken b)
    | .error e => .ended (.error (.raised e)) (s.visits ++ [(i, taken)])

/-- One round of a walk: the next task, or the end if there is none. A node that is entered for the
first time gives way to its operands, and is left after them. -/
def step (g : ExprGraph ι) (visit : ι → List β → Except ε β) (s : WalkState ι β) : Round ι β ε :=
  match s.tasks with
  | [] =>
    match s.results with
    | [] => .ended (.error .noResult) s.visits
    | b :: _ => .ended (.ok b) s.visits
  | .enter i :: tasks =>
    match s.done i with
    | some b => .next { s with tasks, results := s.results ++ [b] }
    | none => .next { s with tasks := (g.operands i).map .enter ++ .leave i :: tasks }
  | .leave i :: tasks => g.leave visit s i tasks

/-- A walk of at most so many rounds: how it ends, and the visits that were made. Nothing means
that the rounds did not suffice. -/
def walkWithin (g : ExprGraph ι) (visit : ι → List β → Except ε β) :
    Nat → WalkState ι β → Option (Except (WalkError ε) β × List (ι × List β))
  | 0, _ => none
  | n + 1, s =>
    match g.step visit s with
    | .next s' => g.walkWithin visit n s'
    | .ended result visits => some (result, visits)

end ExprGraph

end SymCalc
