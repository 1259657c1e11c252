import FourState.Operator.Operand

/-!
# Comparisons

Relations between whole operands, answered in one bit.  The relational
operators compare integers and answer `x` when a bit is unknown; the case
operators compare the four states and always answer; the connectives combine
the truth of their operands.
-/

namespace FourState

/-- The relations between two integers. -/
inductive Relation
  | less
  | lessEqual
  | greater
  | greaterEqual
  | equal
  | notEqual
  deriving DecidableEq

/-- A relation holds for an ordering of its operands. -/
def Relation.holds : Relation → Ordering → Bool
  | less, ordering => ordering.isLT
  | lessEqual, ordering => ordering.isLE
  | greater, ordering => ordering.isGT
  | greaterEqual, ordering => ordering.isGE
  | equal, ordering => ordering.isEq
  | notEqual, ordering => ordering.isNe

/-- The ways to match two values bit by bit. -/
inductive CaseMatch
  /-- The bits are the same. -/
  | same
  /-- Some bits differ. -/
  | different
  /-- The bits are the same wherever both are known. -/
  | ignoreUnknown
  /-- The bits are the same wherever neither is `z`. -/
  | ignoreHighZ
  deriving DecidableEq

/-- The positions that a match leaves out of account. -/
def CaseMatch.wildcards (operator : CaseMatch) (left right : Word × Word) : Word :=
  match operator with
  | same => 0
  | different => 0
  | ignoreUnknown => left.2 ||| right.2
  | ignoreHighZ => (left.1 &&& left.2) ||| (right.1 &&& right.2)

/-- The positions of a word where two values differ in a way that counts. -/
def CaseMatch.mismatches (operator : CaseMatch) (left right : Word × Word) : Word :=
  ((left.1 ^^^ right.1) ||| (left.2 ^^^ right.2)) &&& ~~~operator.wildcards left right

/-- The connectives of conditions. -/
inductive Connective
  | and
  | or
  deriving DecidableEq

/-- Combine the truth of two operands. -/
def Connective.apply : Connective → Truth → Truth → Bit
  | and, .false, _ => .zero
  | and, _, .false => .zero
  | and, .true, .true => .one
  | and, _, _ => .x
  | or, .true, _ => .one
  | or, _, .true => .one
  | or, .false, .false => .zero
  | or, _, _ => .x

namespace Operator

/-- Compare two operands as integers. -/
def compare (relation : Relation) (width : Nat) (left right : LogicVector) :
    Except Fault Buffer := do
  let signed := bothSigned left right
  let common := max left.width right.width
  let leftValue ← left.operand common signed
  let rightValue ← right.operand common signed
  let answer :=
    if leftValue.hasUnknown || rightValue.hasUnknown then Bit.x
    else Bit.ofBool (relation.holds (leftValue.order rightValue signed))
  return Buffer.ofBit width answer

/-- Match two operands bit by bit, zero-extended to the wider one. -/
def caseCompare (operator : CaseMatch) (width : Nat) (left right : LogicVector) :
    Except Fault Buffer := do
  let common := max left.width right.width
  let leftValue ← left.operand common false
  let rightValue ← right.operand common false
  let matching := (List.range (wordCount common)).all fun index =>
    decide (operator.mismatches (leftValue.word index) (rightValue.word index) = 0)
  return Buffer.ofBit width (Bit.ofBool (matching != decide (operator = CaseMatch.different)))

/-- Combine two operands as conditions. -/
def logical (connective : Connective) (width : Nat) (left right : LogicVector) :
    Except Fault Buffer := do
  let leftValue ← Buffer.ofVector left
  let rightValue ← Buffer.ofVector right
  return Buffer.ofBit width (connective.apply leftValue.truth rightValue.truth)

end Operator
end FourState
