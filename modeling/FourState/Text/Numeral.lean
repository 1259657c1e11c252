/-!
# Numerals

Natural numbers in decimal and hexadecimal, as characters.  Reading accepts one
leading plus sign and leading zeros; writing uses neither.
-/

namespace FourState
namespace Numeral

/-- The decimal digits of a number. -/
def decimal (value : Nat) : List Char :=
  Nat.toDigits 10 value

/-- The lower-case hexadecimal digits of a number. -/
def hexadecimal (value : Nat) : List Char :=
  Nat.toDigits 16 value

/-- The decimal numeral of an integer. -/
def integer : Int → List Char
  | .ofNat value => decimal value
  | .negSucc value => '-' :: decimal (value + 1)

/-- The value of a digit of a radix up to sixteen, in either case. -/
def digit? (radix : Nat) (char : Char) : Option Nat :=
  let code := char.toNat
  let value? :=
    if '0'.toNat ≤ code ∧ code ≤ '9'.toNat then some (code - '0'.toNat)
    else if 'a'.toNat ≤ code ∧ code ≤ 'f'.toNat then some (code - 'a'.toNat + 10)
    else if 'A'.toNat ≤ code ∧ code ≤ 'F'.toNat then some (code - 'A'.toNat + 10)
    else none
  value?.filter fun value => decide (value < radix)

/-- The number that digits continue, or nothing if one is no digit. -/
def continue? (radix : Nat) : Nat → List Char → Option Nat
  | value, [] => some value
  | value, char :: rest =>
      match digit? radix char with
      | some digit => continue? radix (value * radix + digit) rest
      | none => none

/-- Read a number: at least one digit, after one optional plus sign. -/
def natural? (radix : Nat) : List Char → Option Nat
  | '+' :: char :: rest => continue? radix 0 (char :: rest)
  | '+' :: [] => none
  | [] => none
  | char :: rest => continue? radix 0 (char :: rest)

/-- Read a number below a bound. -/
def below? (radix bound : Nat) (text : List Char) : Option Nat :=
  (natural? radix text).filter fun value => decide (value < bound)

end Numeral
end FourState
