/-!
# Machine words and bit masks

Planes are packed into 32-bit words, least significant word first.  The masks
here select low bits, ranges of bits, and the part of a word that a vector of
a given width covers; each is pinned down by the bits it holds.  They are
stated for words of any size.  `modulus` counts the values of a width.
-/

namespace FourState

/-- One word of a plane. -/
abbrev Word := BitVec 32

/-- The number of words of `size` bits that `width` bits occupy. -/
def wordsFor (size width : Nat) : Nat :=
  (width + size - 1) / size

/-- The number of 32-bit words that `width` bits occupy. -/
def wordCount (width : Nat) : Nat :=
  wordsFor 32 width

/-- The number of values that `width` bits tell apart: two to the width. -/
def modulus (width : Nat) : Nat :=
  1 <<< width

@[simp] theorem modulus_zero : modulus 0 = 1 :=
  rfl

theorem modulus_succ (width : Nat) : modulus (width + 1) = 2 * modulus width :=
  Nat.shiftLeft_succ 1 width

theorem modulus_pos (width : Nat) : 0 < modulus width := by
  induction width with
  | zero => decide
  | succ width inductionHypothesis =>
      rw [modulus_succ]
      omega

namespace Mask

/-- The lowest `count` bits, all of them when the word has no more. -/
def low {size : Nat} (count : Nat) : BitVec size :=
  BitVec.allOnes size >>> (size - count)

/-- The bits from `first` up to and including `last`. -/
def range {size : Nat} (first last : Nat) : BitVec size :=
  low (last + 1) &&& ~~~low first

/-- The bits of the most significant word that lie inside `width`. -/
def top {size : Nat} (width : Nat) : BitVec size :=
  low ((width - 1) % size + 1)

/-- The bits of word `index` that lie inside `width`. -/
def inside (width index : Nat) : Word :=
  low (width - 32 * index)

/-- The bits of word `index` whose positions are at least `first` and below `stop`. -/
def span (first stop index : Nat) : Word :=
  inside stop index &&& ~~~inside first index

@[simp] theorem getLsbD_low {size : Nat} (count i : Nat) :
    (low count : BitVec size).getLsbD i = decide (i < size ∧ i < count) := by
  simp only [low, BitVec.getLsbD_ushiftRight, BitVec.getLsbD_allOnes, decide_eq_decide]
  omega

theorem low_of_size_le {size count : Nat} (enough : size ≤ count) :
    (low count : BitVec size) = BitVec.allOnes size := by
  rw [low, Nat.sub_eq_zero_of_le enough, BitVec.ushiftRight_zero]

/-- In the last word that a width needs, the bits inside the width are the top ones. -/
theorem inside_of_last {width index : Nat} (isLast : index + 1 = wordCount width) :
    inside width index = top width := by
  unfold wordCount wordsFor at isLast
  rw [inside, top, show width - 32 * index = (width - 1) % 32 + 1 by omega]

/-- The words before the last one lie inside the width as a whole. -/
theorem inside_of_not_last {width index : Nat} (notLast : index + 1 < wordCount width) :
    inside width index = BitVec.allOnes 32 := by
  unfold wordCount wordsFor at notLast
  exact low_of_size_le (by omega)

theorem getLsbD_inside (width index : Nat) {i : Nat} (inWord : i < 32) :
    (inside width index).getLsbD i = decide (32 * index + i < width) := by
  simp only [inside, getLsbD_low, decide_eq_decide]
  omega

theorem getLsbD_span (first stop index : Nat) {i : Nat} (inWord : i < 32) :
    (span first stop index).getLsbD i =
      decide (first ≤ 32 * index + i ∧ 32 * index + i < stop) := by
  simp only [span, BitVec.getLsbD_and, BitVec.getLsbD_not, getLsbD_inside _ _ inWord, inWord]
  by_cases below : 32 * index + i < first <;> by_cases under : 32 * index + i < stop <;>
    simp [below, under]
  all_goals omega

end Mask

namespace BitWord

variable {size : Nat}

/-- The word with bit `index` set to `value`. -/
def withBit (word : BitVec size) (index : Nat) (value : Bool) : BitVec size :=
  if value then word ||| BitVec.twoPow size index else word &&& ~~~BitVec.twoPow size index

/-- The number of bits that are set. -/
def countOnes (word : BitVec size) : Nat :=
  (List.range size).countP fun index => word.getLsbD index

/-- The word whose bit at each position is given by a function. -/
def ofBits (bitAt : Nat → Bool) : (size : Nat) → BitVec size
  | 0 => 0#0
  | size + 1 => BitVec.cons (bitAt size) (ofBits bitAt size)

@[simp] theorem getLsbD_ofBits (bitAt : Nat → Bool) (size i : Nat) :
    (ofBits bitAt size).getLsbD i = (decide (i < size) && bitAt i) := by
  induction size with
  | zero => simp [ofBits]
  | succ size inductionHypothesis =>
      simp only [ofBits, BitVec.getLsbD_cons, inductionHypothesis]
      by_cases last : i = size
      · subst last
        simp
      · have same : decide (i < size) = decide (i < size + 1) := by
          simp only [decide_eq_decide]
          omega
        simp [last, same]

/-- Replacing the bits under a mask takes every bit from one of two words. -/
theorem getLsbD_replace
    (old new mask : BitVec size)
    {i : Nat}
    (inWord : i < size) :
    ((old &&& ~~~mask) ||| (new &&& mask)).getLsbD i =
      if mask.getLsbD i then new.getLsbD i else old.getLsbD i := by
  simp only [BitVec.getLsbD_or, BitVec.getLsbD_and, BitVec.getLsbD_not, inWord, decide_true,
    Bool.true_and]
  cases mask.getLsbD i <;> simp

/-- The 32 bits of a word sequence that start at bit `start`.  They come from one
word if the start is a word boundary, and else from two neighbours; no shift is
as long as a word. -/
def window (wordAt : Nat → Word) (start : Nat) : Word :=
  if start % 32 = 0 then wordAt (start / 32)
  else wordAt (start / 32) >>> (start % 32) ||| wordAt (start / 32 + 1) <<< (32 - start % 32)

/-- Bit `i` of a window is bit `start + i` of the sequence. -/
theorem getLsbD_window (wordAt : Nat → Word) (start : Nat) {i : Nat} (inWord : i < 32) :
    (window wordAt start).getLsbD i =
      (wordAt ((start + i) / 32)).getLsbD ((start + i) % 32) := by
  unfold window
  split
  · have sameWord : (start + i) / 32 = start / 32 := by omega
    have offset : (start + i) % 32 = i := by omega
    rw [sameWord, offset]
  · simp only [BitVec.getLsbD_or, BitVec.getLsbD_ushiftRight, BitVec.getLsbD_shiftLeft,
      inWord, decide_true, Bool.true_and]
    by_cases crosses : start % 32 + i < 32
    · have sameWord : (start + i) / 32 = start / 32 := by omega
      have offset : (start + i) % 32 = start % 32 + i := by omega
      have early : i < 32 - start % 32 := by omega
      simp [sameWord, offset, early]
    · have nextWord : (start + i) / 32 = start / 32 + 1 := by omega
      have offset : (start + i) % 32 = i - (32 - start % 32) := by omega
      have late : ¬i < 32 - start % 32 := by omega
      have empty : (wordAt (start / 32)).getLsbD (start % 32 + i) = false :=
        BitVec.getLsbD_of_ge _ _ (by omega)
      simp [nextWord, offset, late, empty]

end BitWord
end FourState
