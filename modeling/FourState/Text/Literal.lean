import FourState.Event
import FourState.LogicVector.Commit
import FourState.Text.Blank
import FourState.Text.Radix

/-!
# Literals

A literal is a quoted text, a decimal number, or a size, an apostrophe, an
optional sign mark, a radix letter and digits.  It denotes a plain vector.  The
size is looked at before the radix, and the radix before the digits.
-/

namespace FourState

/-- What a literal denotes. -/
structure Literal where
  /-- The way it was written. -/
  radix : Radix
  /-- The vector is signed. -/
  signed : Bool
  /-- The bits of the vector. -/
  value : Buffer

namespace Literal

/-- A width must be one a vector can have. -/
def checkWidth (width : Nat) : Except LiteralError Unit := do
  require (width ≠ 0) LiteralError.zeroWidth
  require (width ≤ maxWidth) (LiteralError.tooWide width)

/-- The unknown bit a digit stands for. -/
def unknownDigit? : Char → Option Bit
  | 'x' => some .x
  | 'X' => some .x
  | 'z' => some .z
  | 'Z' => some .z
  | '?' => some .z
  | _ => none

/-- The bits of one digit, least significant first. -/
def digitBits? (count : Nat) (digit : Char) : Option (List Bit) :=
  match unknownDigit? digit with
  | some bit => some (List.replicate count bit)
  | none =>
      (Numeral.digit? (modulus count) digit).map fun value =>
        (List.range count).map fun index => Bit.ofBool (value.testBit index)

/-- The bits of one digit of a literal with the given digits. -/
def readDigit (count : Nat) (digits : List Char) (digit : Char) : Except LiteralError (List Bit) :=
  match digitBits? count digit with
  | some bits => return bits
  | none => throw (.malformed (.invalidDigit digit (String.ofList digits)))

/-- The bits of all digits, least significant first; of several bad digits the
least significant is complained about. -/
def digitsBits (count : Nat) (digits : List Char) : Except LiteralError (List Bit) := do
  let groups ← digits.reverse.mapM (readDigit count digits)
  return groups.flatten

/-- The bit above the most significant digit: an unknown digit repeats itself. -/
def extension (digits : List Char) : Bit :=
  (digits.head?.bind unknownDigit?).getD Bit.zero

/-- The value of digits of a fixed number of bits. -/
def ofDigits (width : Nat) (radix : DigitRadix) (digits : List Char) :
    Except LiteralError Buffer := do
  let bits ← digitsBits radix.bits digits
  let stored := bits.toArray
  return Buffer.ofBits width fun position => stored.getD position (extension digits)

/-- The value of decimal digits, or of a single unknown digit. -/
def ofDecimal (width : Nat) (digits : List Char) : Except LiteralError Buffer :=
  match digits with
  | [digit] =>
      match unknownDigit? digit with
      | some bit => return Buffer.ofBits width fun _ => bit
      | none => ofNumeral digits
  | _ => ofNumeral digits
where
  /-- The value of a decimal number. -/
  ofNumeral (digits : List Char) : Except LiteralError Buffer :=
    match Numeral.natural? 10 digits with
    | some value => return Buffer.ofNat width value
    | none => throw (.malformed (.invalidDecimal (String.ofList digits)))

/-- The bytes of a text, each character in UTF-8. -/
def bytes (text : List Char) : List UInt8 :=
  text.flatMap String.utf8EncodeChar

/-- A text as a value of eight bits a byte, the first byte most significant. -/
def ofQuoted (text : List Char) : Except LiteralError Literal := do
  let width := 8 * (bytes text).length
  checkWidth width
  let number := (bytes text).foldl (fun number byte => number * 256 + byte.toNat) 0
  return { radix := .quoted, signed := false, value := Buffer.ofNat width number }

/-- What stands between the quotation marks of a quoted text. -/
def quotedBody? : List Char → Option (List Char)
  | '\x22' :: rest => if rest.getLast? = some '\x22' then some rest.dropLast else none
  | _ => none

/-- Underscores only set digits apart. -/
def dropUnderscores (text : List Char) : List Char :=
  text.filter fun char => char != '_'

/-- The width a size says; `text` is the whole literal.  No size means 32. -/
def readSize (text size : List Char) : Except LiteralError Nat :=
  match dropUnderscores (Text.trim size) with
  | [] => return 32
  | char :: rest =>
      match Numeral.below? 10 (modulus 64) (char :: rest) with
      | some width => return width
      | none => throw (.malformed (.invalidSize (String.ofList text)))

/-- Split off the sign mark. -/
def splitSign : List Char → Bool × List Char
  | 's' :: rest => (true, rest)
  | 'S' :: rest => (true, rest)
  | rest => (false, rest)

/-- The radix a text starts with and its digits; `text` is the whole literal. -/
def readRadix (text : List Char) : List Char → Except LiteralError (Radix × List Char)
  | [] => throw (.malformed (.missingRadix (String.ofList text)))
  | letter :: digits =>
      match Radix.ofLetter? letter with
      | some radix => return (radix, digits)
      | none => throw (.malformed (.missingRadix (String.ofList text)))

/-- The value of the digits of a literal; `text` is the whole literal. -/
def readDigits (text : List Char) (width : Nat) (radix : Radix) (digits : List Char) :
    Except LiteralError Buffer :=
  match dropUnderscores (Text.trim digits) with
  | [] => throw (.malformed (.noDigits (String.ofList text)))
  | first :: rest =>
      match radix with
      | .digits radix => ofDigits width radix (first :: rest)
      | _ => ofDecimal width (first :: rest)

/-- Read a literal, without blanks around it, that is not quoted. -/
def readNumber (text : List Char) : Except LiteralError Literal :=
  match Text.splitAt? '\x27' text with
  | some (size, rest) => do
      let width ← readSize text size
      checkWidth width
      let (signed, rest) := splitSign rest
      let (radix, digits) ← readRadix text rest
      let value ← readDigits text width radix digits
      return { radix, signed, value }
  | none => do
      let value ← readDigits text 32 .decimal text
      return { radix := .decimal, signed := true, value }

/-- Read a literal; blanks around it do not count. -/
def read (text : List Char) : Except LiteralError Literal :=
  let text := Text.trim text
  match quotedBody? text with
  | some body => ofQuoted body
  | none => readNumber text

/-- The vector a literal denotes. -/
def toVector (literal : Literal) : Except Fault LogicVector := do
  let fresh ← LogicVector.create literal.value.width .plain true
  let (vector, _) ← (fresh.setSigned literal.signed).commit literal.value
  return vector

end Literal

namespace LogicVector

/-- The vector of a literal, and the way the literal was written. -/
def ofLiteral (text : List Char) : Except Failure (LogicVector × Radix) := do
  let literal ← Literal.read text
  let vector ← literal.toVector
  return (vector, literal.radix)

/-- The vector of a text, eight bits a byte. -/
def ofQuoted (text : List Char) : Except Failure LogicVector := do
  let literal ← Literal.ofQuoted text
  literal.toVector

end LogicVector
end FourState
