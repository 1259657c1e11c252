import FourState.Event
import FourState.Record.Descriptor
import FourState.Record.Options

/-!
# Writing records

A record is written with single spaces and without a line end.  Words are
written only for a vector that owns them.
-/

namespace FourState
namespace LogicVector

/-- The word a record shows for a plane: without data, a value plane shows what
a new vector holds, all `x` or, for a two-state vector, zeros. -/
def recordWord (vector : LogicVector) (block : Block) (options : RecordOptions)
    (index : Nat) (plane : Plane) : Word :=
  if options.writeData || plane.isCoverage then block.word plane index
  else if plane = Plane.valueLow || vector.twoState then 0
  else Mask.inside vector.width index

/-- The tokens of the words of a record. -/
def recordWords (vector : LogicVector) (options : RecordOptions) : List (List Char) :=
  match vector.storage with
  | .owned block =>
      (List.range block.size).flatMap fun index =>
        vector.kind.planes.map fun plane =>
          Numeral.hexadecimal (vector.recordWord block options index plane).toNat
  | .borrowed _ => []
  | .absent => []

/-- The text of a record. -/
def recordText (vector : LogicVector) (options : RecordOptions) : List Char :=
  Numeral.decimal vector.width ++ ' ' :: Numeral.decimal (Descriptor.ofVector vector).encode ++
    (vector.recordWords options).flatMap fun word => ' ' :: word

/-- Write a record, into limited room if there is a limit. -/
def writeRecord (vector : LogicVector) (options : RecordOptions) (limit? : Option Nat) :
    Outcome (List Char) :=
  let text := vector.recordText options
  let room := limit?.getD text.length
  if text.length ≤ room then
    { result := .ok text
      log := [.recordWritten vector.width vector.kind options.writeData] }
  else Outcome.quiet (.error (.truncated (text.take room)))

end LogicVector
end FourState
