/-!
# Blanks and tokens

A blank is a character with the White_Space property.  Tokens are the longest
runs without one.
-/

namespace FourState
namespace Text

/-- The White_Space characters. -/
def isBlank (char : Char) : Bool :=
  let code := char.toNat
  (0x09 ≤ code && code ≤ 0x0d) || code == 0x20 || code == 0x85 || code == 0xa0 ||
    code == 0x1680 || (0x2000 ≤ code && code ≤ 0x200a) || code == 0x2028 || code == 0x2029 ||
    code == 0x202f || code == 0x205f || code == 0x3000

/-- Drop the blanks in front. -/
def trimStart (text : List Char) : List Char :=
  text.dropWhile isBlank

/-- Drop the blanks at the end. -/
def trimEnd (text : List Char) : List Char :=
  (trimStart text.reverse).reverse

/-- Drop the blanks at both ends. -/
def trim (text : List Char) : List Char :=
  trimEnd (trimStart text)

/-- The first token, empty if there is none, and the text behind it. -/
def splitToken (text : List Char) : List Char × List Char :=
  (trimStart text).span fun char => !isBlank char

/-- The text up to the first occurrence of a character, and the text behind it. -/
def splitAt? (separator : Char) (text : List Char) : Option (List Char × List Char) :=
  match text.span fun char => char != separator with
  | (_, []) => none
  | (before, _ :: rest) => some (before, rest)

@[simp] theorem splitToken_nil : splitToken [] = ([], []) :=
  rfl

end Text
end FourState
