import FourState.Event
import FourState.LogicVector.Commit
import FourState.LogicVector.Display
import FourState.Operator.Arithmetic
import FourState.Operator.Comparison
import FourState.Operator.Division
import FourState.Operator.Rearrangement
import FourState.Operator.Reduction
import FourState.Operator.Shift

/-!
# Operations

An operation is an operator with its operands.  Carrying it out on a target
computes a value buffer from the operands as they are, and then assigns that
buffer to the target, to the whole of it except for a part-assign.
-/

namespace FourState

/-- An operator applied to operands. -/
inductive Operation (operand : Type)
  | add (left right : operand)
  | subtract (left right : operand)
  | multiply (left right : operand)
  | negate (source : operand)
  /-- Add one to the target. -/
  | increment
  /-- Take one from the target. -/
  | decrement
  | divide (division : Division) (left right : operand)
  | bitwise (function : BitFunction) (left right : operand)
  | invert (source : operand)
  | compare (relation : Relation) (left right : operand)
  | caseCompare (operator : CaseMatch) (left right : operand)
  | logical (connective : Connective) (left right : operand)
  | reduce (reduction : Reduction) (source : operand)
  | shift (kind : Shift) (source amount : operand)
  | partSelect (source : operand) (lsb msb : Nat)
  | partAssign (source : operand) (lsb msb : Nat)
  | expand (count value : operand)
  | concat (left right : operand)

namespace Operation

variable {operand other : Type}

/-- Exchange the operands, where each of them can be. -/
def traverse {error : Type} (resolve : operand → Except error other) :
    Operation operand → Except error (Operation other)
  | add left right => return add (← resolve left) (← resolve right)
  | subtract left right => return subtract (← resolve left) (← resolve right)
  | multiply left right => return multiply (← resolve left) (← resolve right)
  | negate source => return negate (← resolve source)
  | increment => return increment
  | decrement => return decrement
  | divide division left right => return divide division (← resolve left) (← resolve right)
  | bitwise function left right => return bitwise function (← resolve left) (← resolve right)
  | invert source => return invert (← resolve source)
  | compare relation left right => return compare relation (← resolve left) (← resolve right)
  | caseCompare operator left right =>
      return caseCompare operator (← resolve left) (← resolve right)
  | logical connective left right => return logical connective (← resolve left) (← resolve right)
  | reduce reduction source => return reduce reduction (← resolve source)
  | shift kind source amount => return shift kind (← resolve source) (← resolve amount)
  | partSelect source lsb msb => return partSelect (← resolve source) lsb msb
  | partAssign source lsb msb => return partAssign (← resolve source) lsb msb
  | expand count value => return expand (← resolve count) (← resolve value)
  | concat left right => return concat (← resolve left) (← resolve right)

/-- The value an operation computes for a target. -/
def compute (target : LogicVector) : Operation LogicVector → Except Failure Buffer
  | add left right => Operator.add target.width left right
  | subtract left right => Operator.subtract target.width left right
  | multiply left right => Operator.multiply target.width left right
  | negate source => Operator.negate target.width source
  | increment => Operator.increment target
  | decrement => Operator.decrement target
  | divide division left right => Operator.divide division target.width left right
  | bitwise function left right => Operator.bitwise function target.width left right
  | invert source => Operator.invert target.width source
  | compare relation left right => Operator.compare relation target.width left right
  | caseCompare operator left right => Operator.caseCompare operator target.width left right
  | logical connective left right => Operator.logical connective target.width left right
  | reduce reduction source => Operator.reduce reduction target.width source
  | shift kind source amount => Operator.shift kind target.width source amount
  | partSelect source lsb msb => Operator.partSelect source lsb msb
  | partAssign source lsb msb => Operator.partAssign target source lsb msb
  | expand count value => Operator.expand target.width count value
  | concat left right => Operator.concat target.width left right

/-- The lowest and the highest position an operation assigns. -/
def range (width : Nat) : Operation operand → Nat × Nat
  | partAssign _ lsb msb => (lsb, msb)
  | _ => (0, width - 1)

/-- What an operation logs when it fails: a division by zero shows its operands. -/
def log (failure : Failure) : Operation LogicVector → List Event
  | divide _ left right =>
      match failure with
      | .divisionByZero division =>
          [.dividedByZero division (String.ofList left.display) (String.ofList right.display)]
      | _ => []
  | _ => []

end Operation

namespace LogicVector

/-- Compute an operation and assign its value.  The answer says whether a value
bit changed. -/
def operate (target : LogicVector) (operation : Operation LogicVector) :
    Outcome (LogicVector × Bool) :=
  match operation.compute target with
  | .error failure => { result := .error failure, log := operation.log failure }
  | .ok value =>
      let (lsb, msb) := operation.range target.width
      Outcome.quiet (target.assignBuffer value lsb msb)

end LogicVector
end FourState
