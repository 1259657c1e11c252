import FourState.Buffer.Basic

/-!
# Evaluation coverage

An expression records in its evaluation planes which combinations of known
operand values occurred.  Which plane stands for which combination depends on
the operator the expression stands for.
-/

namespace FourState

/-- The combinations that the evaluation planes tell apart. -/
inductive Evaluation
  /-- Left 0, right 0, both 1. -/
  | and
  /-- Left 1, right 1, both 0. -/
  | or
  /-- 0 and 0, 0 and 1, 1 and 0, 1 and 1. -/
  | table
  deriving DecidableEq

namespace Evaluation

/-- The bits of word `index` where a plane's combination occurs. -/
def marks (evaluation : Evaluation) (left right : Buffer) (index : Nat) (plane : Plane) : Word :=
  let left0 := left.knownZeros index
  let left1 := left.knownOnes index
  let right0 := right.knownZeros index
  let right1 := right.knownOnes index
  match evaluation with
  | and =>
      if plane = Plane.evalA then left0
      else if plane = Plane.evalB then right0
      else if plane = Plane.evalC then left1 &&& right1
      else 0
  | or =>
      if plane = Plane.evalA then left1
      else if plane = Plane.evalB then right1
      else if plane = Plane.evalC then left0 &&& right0
      else 0
  | table =>
      if plane = Plane.evalA then left0 &&& right0
      else if plane = Plane.evalB then left0 &&& right1
      else if plane = Plane.evalC then left1 &&& right0
      else if plane = Plane.evalD then left1 &&& right1
      else 0

end Evaluation

namespace LogicVector

/-- Add marks to the planes of an expression, word by word. -/
def markEvaluations (vector : LogicVector) (marks : Nat → Plane → Word) :
    Except Fault LogicVector := do
  require (vector.kind = Kind.expression) Fault.evaluationKind
  let block ← vector.block
  return vector.withBlock (block.mapIdx fun index slice => slice.mark (marks index))

/-- Record where the expression's own value is a known 0 and a known 1. -/
def evaluateUnary (vector : LogicVector) : Except Fault LogicVector := do
  let value ← Buffer.ofVector vector
  vector.markEvaluations fun index plane =>
    if plane = Plane.evalA then value.knownZeros index
    else if plane = Plane.evalB then value.knownOnes index
    else 0

/-- Record the combinations that two operands show. -/
def evaluate (vector : LogicVector) (evaluation : Evaluation) (left right : LogicVector) :
    Except Fault LogicVector := do
  let leftValue ← Buffer.ofVector left
  let rightValue ← Buffer.ofVector right
  vector.markEvaluations (evaluation.marks leftValue rightValue)

end LogicVector
end FourState
