import FourState.LogicVector.Basic
import FourState.Text.Numeral

/-!
# Display text

The display text of a vector is its width and its value bits in binary, most
significant bit first.  A width-only vector shows its width alone.
-/

namespace FourState
namespace LogicVector

/-- The letters of the value bits, most significant first. -/
def digits (vector : LogicVector) : List Char :=
  match vector.storage.content? with
  | some block => (List.range vector.width).reverse.map fun index => (block.value index).toChar
  | none => []

/-- The display text. -/
def display (vector : LogicVector) : List Char :=
  Numeral.decimal vector.width ++ '\x27' :: 'b' :: vector.digits

@[simp] theorem length_digits (vector : LogicVector)
    (allocated : vector.storage.isAllocated = true) : vector.digits.length = vector.width := by
  cases stored : vector.storage with
  | absent => simp [stored, Storage.isAllocated] at allocated
  | owned words => simp [digits, stored, Storage.content?]
  | borrowed words => simp [digits, stored, Storage.content?]

end LogicVector
end FourState
