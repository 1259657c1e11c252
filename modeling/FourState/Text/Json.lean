/-!
# JSON text

Just as much of JSON as is needed to read an object or an array of switches and
to pass over values that are of no interest.  The grammar is strict: no comma
before a closing bracket, no leading zero in a number, no control character in
a string.  A string that is passed over may name half a surrogate pair; one
that is read may not.

The module stands in for a general JSON library.  Only the outer program reads record
options with it, and no theorem is about it.
-/

namespace FourState
namespace Json

/-- The blanks between JSON tokens. -/
def isBlank (char : Char) : Bool :=
  char == ' ' || char == '\t' || char == '\n' || char == '\r'

/-- Drop the blanks in front. -/
def trim (text : List Char) : List Char :=
  text.dropWhile isBlank

/-- The value of a hexadecimal digit. -/
def hexDigit? (char : Char) : Option Nat :=
  if '0' ≤ char ∧ char ≤ '9' then some (char.toNat - '0'.toNat)
  else if 'a' ≤ char ∧ char ≤ 'f' then some (char.toNat - 'a'.toNat + 10)
  else if 'A' ≤ char ∧ char ≤ 'F' then some (char.toNat - 'A'.toNat + 10)
  else none

/-- The number that four hexadecimal digits spell, and the text behind them. -/
def hexQuad? : List Char → Option (Nat × List Char)
  | a :: b :: c :: d :: rest => do
      let a ← hexDigit? a
      let b ← hexDigit? b
      let c ← hexDigit? c
      let d ← hexDigit? d
      return (((a * 16 + b) * 16 + c) * 16 + d, rest)
  | _ => none

/-- What a backslash and a letter stand for. -/
def simpleEscape? : Char → Option Char
  | '\x22' => some '\x22'
  | '\\' => some '\\'
  | '/' => some '/'
  | 'b' => some '\x08'
  | 'f' => some '\x0c'
  | 'n' => some '\n'
  | 'r' => some '\r'
  | 't' => some '\t'
  | _ => none

/-- The character of a Unicode escape, whose second half may have to follow. -/
def unicodeEscape? (text : List Char) : Option (Char × List Char) := do
  let (unit, rest) ← hexQuad? text
  if 0xdc00 ≤ unit ∧ unit ≤ 0xdfff then none
  else if 0xd800 ≤ unit ∧ unit ≤ 0xdbff then
    match rest with
    | '\\' :: 'u' :: rest => do
        let (second, rest) ← hexQuad? rest
        if 0xdc00 ≤ second ∧ second ≤ 0xdfff then
          some (Char.ofNat (0x10000 + (unit - 0xd800) * 0x400 + (second - 0xdc00)), rest)
        else none
    | _ => none
  else some (Char.ofNat unit, rest)

/-- Read a string behind its opening quotation mark; `fuel` bounds its length. -/
def string? : Nat → List Char → Option (List Char × List Char)
  | 0, _ => none
  | _, [] => none
  | _ + 1, '\x22' :: rest => some ([], rest)
  | fuel + 1, '\\' :: 'u' :: rest => do
      let (char, rest) ← unicodeEscape? rest
      let (chars, rest) ← string? fuel rest
      return (char :: chars, rest)
  | fuel + 1, '\\' :: letter :: rest => do
      let char ← simpleEscape? letter
      let (chars, rest) ← string? fuel rest
      return (char :: chars, rest)
  | fuel + 1, char :: rest =>
      if char.toNat < 0x20 ∨ char = '\\' then none
      else do
        let (chars, rest) ← string? fuel rest
        return (char :: chars, rest)

/-- Pass over a string behind its opening quotation mark. -/
def skipString? : Nat → List Char → Option (List Char)
  | 0, _ => none
  | _, [] => none
  | _ + 1, '\x22' :: rest => some rest
  | fuel + 1, '\\' :: 'u' :: rest =>
      match hexQuad? rest with
      | some (_, rest) => skipString? fuel rest
      | none => none
  | fuel + 1, '\\' :: letter :: rest =>
      match simpleEscape? letter with
      | some _ => skipString? fuel rest
      | none => none
  | fuel + 1, char :: rest =>
      if char.toNat < 0x20 ∨ char = '\\' then none else skipString? fuel rest

/-- Pass over at least one digit. -/
def skipDigits? : List Char → Option (List Char)
  | [] => none
  | first :: rest => if first.isDigit then some (rest.dropWhile Char.isDigit) else none

/-- Pass over the exponent of a number, if there is one. -/
def skipExponent? : List Char → Option (List Char)
  | first :: rest =>
      if first = 'e' ∨ first = 'E' then
        match rest with
        | '+' :: rest => skipDigits? rest
        | '-' :: rest => skipDigits? rest
        | rest => skipDigits? rest
      else some (first :: rest)
  | [] => some []

/-- Pass over the fraction and the exponent of a number, if there are any. -/
def skipFraction? : List Char → Option (List Char)
  | '.' :: rest => (skipDigits? rest).bind skipExponent?
  | rest => skipExponent? rest

/-- Pass over a number without its minus sign. -/
def skipUnsigned? : List Char → Option (List Char)
  | '0' :: rest =>
      match rest with
      | [] => some []
      | next :: _ => if next.isDigit then none else skipFraction? rest
  | rest => (skipDigits? rest).bind skipFraction?

mutual

/-- Pass over a value; `fuel` bounds the length of the text. -/
def skipValue? : Nat → List Char → Option (List Char)
  | 0, _ => none
  | fuel + 1, text =>
      match trim text with
      | '\x22' :: rest => skipString? fuel rest
      | '[' :: rest =>
          match trim rest with
          | ']' :: rest => some rest
          | rest => skipElements? fuel rest
      | '\x7b' :: rest =>
          match trim rest with
          | '\x7d' :: rest => some rest
          | rest => skipMembers? fuel rest
      | 't' :: 'r' :: 'u' :: 'e' :: rest => some rest
      | 'f' :: 'a' :: 'l' :: 's' :: 'e' :: rest => some rest
      | 'n' :: 'u' :: 'l' :: 'l' :: rest => some rest
      | '-' :: rest => skipUnsigned? rest
      | rest => skipUnsigned? rest

/-- Pass over the elements of an array and its closing bracket. -/
def skipElements? : Nat → List Char → Option (List Char)
  | 0, _ => none
  | fuel + 1, text =>
      match skipValue? fuel text with
      | some rest =>
          match trim rest with
          | ',' :: rest => skipElements? fuel rest
          | ']' :: rest => some rest
          | _ => none
      | none => none

/-- Pass over the members of an object and its closing bracket. -/
def skipMembers? : Nat → List Char → Option (List Char)
  | 0, _ => none
  | fuel + 1, text =>
      match trim text with
      | '\x22' :: rest =>
          match (skipString? fuel rest).map trim with
          | some (':' :: rest) =>
              match (skipValue? fuel rest).map trim with
              | some (',' :: rest) => skipMembers? fuel rest
              | some ('\x7d' :: rest) => some rest
              | _ => none
          | _ => none
      | _ => none

end

/-- Read `true` or `false`. -/
def switch? (text : List Char) : Option (Bool × List Char) :=
  match trim text with
  | 't' :: 'r' :: 'u' :: 'e' :: rest => some (true, rest)
  | 'f' :: 'a' :: 'l' :: 's' :: 'e' :: rest => some (false, rest)
  | _ => none

end Json
end FourState
