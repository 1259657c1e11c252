import FourState.Checked
import FourState.Words

/-!
# Arithmetic on word sequences

Addition, multiplication and comparison of numbers given as words, least
significant first.  Intermediate sums and products are 64-bit machine integers;
one that did not fit would be a fault.
-/

namespace FourState
namespace Words

/-- Add two numbers of equally many words and a carry; the last carry is dropped. -/
def add : List Word → List Word → Nat → Except Fault (List Word)
  | left :: lefts, right :: rights, carry => do
      let both ← Checked.add left.toNat right.toNat
      let sum ← Checked.add both carry
      let rest ← add lefts rights (sum / modulus 32)
      return BitVec.ofNat 32 sum :: rest
  | _, _, _ => return []

/-- Add a multiple of a number to a sum; words past the end of the sum are dropped. -/
def addMultiple (factor : Word) : List Word → List Word → Nat → Except Fault (List Word)
  | sum :: sums, word :: words, carry => do
      let product ← Checked.mul factor.toNat word.toNat
      let increased ← Checked.add sum.toNat product
      let current ← Checked.add increased carry
      let rest ← addMultiple factor sums words (current / modulus 32)
      return BitVec.ofNat 32 current :: rest
  | _, _, _ => return []

/-- Add the product of two numbers to a sum, one row for every word of the first.
Each row finishes the lowest word of the sum. -/
def addProduct : List Word → List Word → List Word → Except Fault (List Word)
  | [], _, _ => return []
  | factor :: factors, words, sums => do
      match ← addMultiple factor sums words 0 with
      | [] => return []
      | finished :: sums =>
          let rest ← addProduct factors words sums
          return finished :: rest

/-- Multiply two numbers of equally many words; the upper half is dropped. -/
def multiply (left right : List Word) : Except Fault (List Word) :=
  addProduct left right (List.replicate left.length 0)

/-- Compare two numbers of equally many words, most significant word first. -/
def order : List Word → List Word → Ordering
  | left :: lefts, right :: rights =>
      (order lefts rights).then (compare left.toNat right.toNat)
  | _, _ => .eq

end Words
end FourState
