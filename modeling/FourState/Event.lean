import FourState.Failure

/-!
# Log events

What an operation reports besides its answer.  An outcome is the answer
together with the events in the order they happened.
-/

namespace FourState

/-- Something worth logging. -/
inductive Event
  | recordWritten (width : Nat) (kind : Kind) (withData : Bool)
  | recordRead (width : Nat) (kind : Kind)
  | recordMerged (width : Nat) (kind : Kind)
  | recordSkipped (found width : Nat)
  | recordFailed (error : RecordError)
  | literalTooWide (width : Nat)
  /-- A division by zero, with the operands as displayed. -/
  | dividedByZero (division : Division) (left right : String)
  deriving DecidableEq

/-- How serious an event is. -/
inductive Level
  | debug
  | warning
  | error
  deriving DecidableEq

namespace Event

/-- The level of an event. -/
def level : Event → Level
  | recordWritten _ _ _ => .debug
  | recordRead _ _ => .debug
  | recordMerged _ _ => .debug
  | recordSkipped _ _ => .warning
  | recordFailed _ => .error
  | literalTooWide _ => .warning
  | dividedByZero _ _ _ => .error

/-- The wording of an event. -/
def message : Event → String
  | recordWritten width kind withData =>
      s!"wrote {width}-bit " ++ kind.name ++ s!" vector record (data: {withData})"
  | recordRead width kind => s!"read {width}-bit " ++ kind.name ++ " vector record"
  | recordMerged width kind => s!"merged {width}-bit " ++ kind.name ++ " vector record"
  | recordSkipped found width => s!"skipping merge of {found}-bit record into {width}-bit vector"
  | recordFailed error => error.message
  | literalTooWide width => s!"literal width {width} exceeds maximum of {maxWidth}"
  | dividedByZero division left right => division.message ++ s!": {left} by {right}"

end Event

/-- The answer of an operation and what it logged. -/
structure Outcome (answer : Type) where
  /-- The answer, or why there is none. -/
  result : Except Failure answer
  /-- The events, oldest first. -/
  log : List Event

namespace Outcome

variable {answer other : Type}

/-- An outcome that logs nothing. -/
def quiet (result : Except Failure answer) : Outcome answer where
  result
  log := []

/-- Change the answer, if there is one. -/
def map (change : answer → other) (outcome : Outcome answer) : Outcome other where
  result := outcome.result.map change
  log := outcome.log

theorem result_map_eq_ok_iff
    {outcome : Outcome answer}
    {change : answer → other}
    {value : other} :
    (outcome.map change).result = .ok value ↔
      ∃ between, outcome.result = .ok between ∧ change between = value := by
  unfold map
  cases outcome.result with
  | error failure => simp [Except.map]
  | ok between => simp [Except.map]

end Outcome

/-- The events of reading a literal: only an excessive width is logged. -/
def LiteralError.log : LiteralError → List Event
  | zeroWidth => []
  | tooWide width => [.literalTooWide width]
  | malformed _ => []

end FourState
