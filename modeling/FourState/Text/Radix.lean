import FourState.Buffer.Integer
import FourState.Text.Numeral

/-!
# Radices and rendering

A value is written in digits of one, three or four bits, in decimal, or as
quoted text.  Digits are written without leading zeros; a digit with unknown
bits is written as a letter, in lower case when all its bits are the same.
-/

namespace FourState

/-- The radices whose digits stand for a fixed number of bits. -/
inductive DigitRadix
  | binary
  | octal
  | hexadecimal
  deriving DecidableEq

/-- The ways to write a value. -/
inductive Radix
  | digits (radix : DigitRadix)
  | decimal
  | quoted
  deriving DecidableEq

namespace DigitRadix

/-- The number of bits in a digit. -/
def bits : DigitRadix → Nat
  | binary => 1
  | octal => 3
  | hexadecimal => 4

/-- The letter that announces the radix. -/
def letter : DigitRadix → Char
  | binary => 'b'
  | octal => 'o'
  | hexadecimal => 'h'

end DigitRadix

/-- The radix that a letter of either case announces. -/
def Radix.ofLetter? : Char → Option Radix
  | 'b' => some (.digits .binary)
  | 'B' => some (.digits .binary)
  | 'o' => some (.digits .octal)
  | 'O' => some (.digits .octal)
  | 'h' => some (.digits .hexadecimal)
  | 'H' => some (.digits .hexadecimal)
  | 'd' => some .decimal
  | 'D' => some .decimal
  | _ => none

namespace Bit

/-- The letter for a group of bits of which some are unknown. -/
def groupLetter? (bits : List Bit) : Option Char :=
  if bits.all isKnown then none
  else if bits.all (· == x) then some 'x'
  else if bits.all (· == z) then some 'z'
  else if bits.any (· == x) then some 'X'
  else some 'Z'

/-- The number whose known ones are given, least significant bit first. -/
def groupValue : List Bit → Nat
  | [] => 0
  | bit :: bits => (if bit = one then 1 else 0) + 2 * groupValue bits

/-- The digit for a group of bits. -/
def groupDigit (bits : List Bit) : Char :=
  (groupLetter? bits).getD (Nat.digitChar (groupValue bits))

end Bit

/-- Drop leading zero digits, but keep the last digit. -/
def stripZeros : List Char → List Char
  | [] => []
  | [digit] => [digit]
  | first :: second :: rest =>
      if first = '0' then stripZeros (second :: rest) else first :: second :: rest

namespace Buffer

/-- At most `count` bits from a position on, without those past the width. -/
def group (buffer : Buffer) (start count : Nat) : List Bit :=
  (List.range (min count (buffer.width - start))).map fun offset => buffer.bit (start + offset)

/-- All bits, least significant first. -/
def bits (buffer : Buffer) : List Bit :=
  buffer.group 0 buffer.width

/-- The digits of a radix, most significant first. -/
def renderDigits (buffer : Buffer) (radix : DigitRadix) : List Char :=
  stripZeros <| (List.range (wordsFor radix.bits buffer.width)).reverse.map fun index =>
    Bit.groupDigit (buffer.group (index * radix.bits) radix.bits)

/-- The decimal numeral, or one letter for a value with unknown bits. -/
def renderDecimal (buffer : Buffer) (signed : Bool) : List Char :=
  if buffer.hasUnknown then [(Bit.groupLetter? buffer.bits).getD 'x']
  else if signed then Numeral.integer buffer.toInt
  else Numeral.decimal buffer.toNat

/-- The known ones as bytes, most significant first, without leading zero
bytes, each as the character with its number. -/
def renderQuoted (buffer : Buffer) : List Char :=
  let bytes := (List.range (wordsFor 8 buffer.width)).reverse.map fun index =>
    Bit.groupValue (buffer.group (index * 8) 8)
  (bytes.dropWhile fun byte => byte == 0).map Char.ofNat

end Buffer

/-- Write a vector in a radix.  Digits are preceded by the width, the sign mark
of a signed vector, and the letter of the radix. -/
def LogicVector.render (vector : LogicVector) (radix : Radix) : Except Fault (List Char) := do
  let value ← Buffer.ofVector vector
  match radix with
  | .digits radix =>
      let mark := if vector.signed then ['s'] else []
      return Numeral.decimal vector.width ++ '\x27' :: mark ++ radix.letter ::
        value.renderDigits radix
  | .decimal => return value.renderDecimal vector.signed
  | .quoted => return value.renderQuoted

end FourState
