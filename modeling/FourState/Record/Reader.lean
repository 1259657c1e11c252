import FourState.Event
import FourState.Record.Descriptor
import FourState.Text.Blank

/-!
# Reading records

A record is a run of tokens: width, descriptor, and, if it holds words, one
hexadecimal word for every live plane of every word position.  Reading keeps
the text behind the last token taken, also when it fails.
-/

namespace FourState

/-- A computation that takes tokens from the front of a text. -/
abbrev Reader :=
  EStateM RecordError (List Char)

namespace Reader

/-- Take the next token. -/
def token (item : RecordItem) : Reader (List Char) := fun text =>
  match Text.splitToken text with
  | ([], rest) => .error (.unexpectedEnd item) rest
  | (char :: chars, rest) => .ok (char :: chars) rest

/-- Take a token that is a number below a bound. -/
def number (item : RecordItem) (radix bound : Nat) : Reader Nat := do
  let text ← token item
  match Numeral.below? radix bound text with
  | some value => return value
  | none => throw (.malformed item (String.ofList text))

/-- Take the width. -/
def width : Reader Nat := do
  let width ← number .width 10 (modulus 64)
  if width = 0 then
    throw .zeroWidth
  if maxWidth < width then
    throw (.tooWide width)
  return width

/-- Take the descriptor. -/
def descriptor : Reader Descriptor := do
  let byte ← number .descriptor 10 256
  match Descriptor.decode? byte with
  | some descriptor => return descriptor
  | none => throw (.invalidDescriptor byte)

/-- Take width and descriptor. -/
def header : Reader (Nat × Descriptor) := do
  let width ← Reader.width
  let descriptor ← Reader.descriptor
  return (width, descriptor)

/-- Take one plane word. -/
def plane : Reader Word := do
  let value ← number .plane 16 (modulus 32)
  return BitVec.ofNat 32 value

/-- Take the same thing a number of times. -/
def times {item : Type} (take : Reader item) : Nat → Reader (List item)
  | 0 => return []
  | count + 1 => do
      let first ← take
      let rest ← times take count
      return first :: rest

/-- Take the live planes of one word position; the others stay clear. -/
def slice (kind : Kind) : Reader (Slice 32) := do
  let words ← times plane kind.planeCount
  return Slice.ofPlanes fun plane => words.getD plane.val 0

/-- Take the words a record with this header holds. -/
def words (width : Nat) (descriptor : Descriptor) : Reader Block := do
  if descriptor.ownsStorage then
    let slices ← times (slice descriptor.kind) (wordCount width)
    return slices.toArray
  else
    return #[]

/-- Take the word tokens behind a header in one run. -/
def planes (width : Nat) (descriptor : Descriptor) : Reader (List Word) :=
  times plane (descriptor.tokenCount width)

/-- Take a whole record; bits past the width are dropped. -/
def record : Reader LogicVector := do
  let (width, descriptor) ← header
  let block ← words width descriptor
  return {
    width
    kind := descriptor.kind
    format := descriptor.format
    signed := descriptor.signed
    twoState := descriptor.twoState
    storage := if descriptor.ownsStorage then .owned (block.restrict width) else .absent }

end Reader

/-- A record error that is logged. -/
def Outcome.recordFailed {answer : Type} (error : RecordError) (rest : List Char) :
    Outcome answer where
  result := .error (.record error rest)
  log := [.recordFailed error]

/-- Read a vector from the front of a text, and tell what remains unread. -/
def LogicVector.readRecord (text : List Char) : Outcome (LogicVector × List Char) :=
  match Reader.record text with
  | .ok vector rest =>
      { result := .ok (vector, rest), log := [.recordRead vector.width vector.kind] }
  | .error error rest => Outcome.recordFailed error rest

end FourState
