import SymCalc.Error

/-!
# Outcomes

Two computations that stop may be told apart by the message of their error although they stop for
the same kind of reason: the message shows the node to blame, and the same function can be written
with different nodes. The outcome of a computation leaves such differences out.

* `Error.Kind` — the kinds of errors.
* `outcome` — a view of the result, or the kind of the error.
* `outcome_bind` — computations with equal outcomes, followed by computations with equal outcomes.
-/

namespace SymCalc

/-- The kinds of errors. -/
inductive Error.Kind where
  | unexpectedEnd
  | trailingInput
  | missingParenthesis
  | malformedLogarithm
  | unexpectedCharacter
  | malformedNumber
  | nestedTooDeep
  | missingSign
  | divisionByZero
  | unsupportedOperation
  | invalidState
  | unusableValue
  | zeroDivisor
  | integerTooLarge
  | immutable
  | noSuchFunction
deriving DecidableEq

/-- The kind of an error of reading. -/
def ParseError.Cause.kind : ParseError.Cause → Error.Kind
  | endOfInput | emptyPolynomial => .unexpectedEnd
  | trailingInput => .trailingInput
  | unclosedGroup | unclosedCall _ => .missingParenthesis
  | unclosedLogarithm | missingLogarithmBase | missingLogarithmComma => .malformedLogarithm
  | unexpectedCharacter _ | unexpectedInPolynomial _ => .unexpectedCharacter
  | malformedNumber _ => .malformedNumber
  | nestedTooDeep _ => .nestedTooDeep
  | missingTermSign => .missingSign

/-- The kind of an error of evaluation or differentiation. -/
def EvaluationError.kind : EvaluationError → Error.Kind
  | divisionByZero _ _ => .divisionByZero
  | unknownFunction _ | unknownDerivative _ => .unsupportedOperation
  | missingBase _ | invalidBase _ _ => .invalidState

/-- The kind of an error. -/
def Error.kind : Error → Error.Kind
  | parse e => e.cause.kind
  | evaluation e => e.kind
  | value _ => .unusableValue
  | zeroDivisor => .zeroDivisor
  | integerTooLarge => .integerTooLarge
  | immutable _ => .immutable
  | noSuchFunction _ => .noSuchFunction

/-- Errors of one kind are raised as errors of one kind, if both messages can be written or
neither. -/
theorem EvaluationError.kind_raised {e e' : EvaluationError} (hkind : e.kind = e'.kind)
    (hwritable : e.isWritable = e'.isWritable) : e.raised.kind = e'.raised.kind := by
  rw [raised, raised, hwritable]
  cases e'.isWritable with
  | true => exact hkind
  | false => rfl

variable {α β α' β' : Type}

/-- A view of the result, or the kind of the error. -/
def outcome (view : α → β) : Except Error α → Except Error.Kind β
  | .ok a => .ok (view a)
  | .error e => .error e.kind

variable {view : α → β} {view' : α' → β'} {x y : Except Error α}

/-- **Outcomes are compositional**: equal ones stay equal, if what follows treats results that
look the same alike. -/
theorem outcome_bind {f g : α → Except Error α'} (h : outcome view x = outcome view y)
    (hfg : ∀ a b, view a = view b → outcome view' (f a) = outcome view' (g b)) :
    outcome view' (x >>= f) = outcome view' (y >>= g) := by
  cases x with
  | ok a => cases y with
    | ok b => exact hfg a b (Except.ok.inj h)
    | error e => cases h
  | error e => cases y with
    | ok b => cases h
    | error e' => exact congrArg Except.error (Except.error.inj h)

end SymCalc
