import FourState.Mask

/-!
# Word sequences

A plane of a buffer is a sequence of 32-bit words, least significant first.
Words past the end read as zero.  Every operation here is described by the bits
of its result.
-/

namespace FourState
namespace Words

/-- Word `index`, zero past the end. -/
def word (words : Array Word) (index : Nat) : Word :=
  words.getD index 0

/-- Bit `position`, counted over the whole sequence. -/
def bit (words : Array Word) (position : Nat) : Bool :=
  (word words (position / 32)).getLsbD (position % 32)

/-- The sequence for `width` bits that are given by a function. -/
def ofBits (width : Nat) (bitAt : Nat → Bool) : Array Word :=
  Array.ofFn fun index : Fin (wordCount width) =>
    BitWord.ofBits (fun offset =>
      decide (32 * index.val + offset < width) && bitAt (32 * index.val + offset)) 32

/-- Cut or zero-extend to `count` words. -/
def fit (words : Array Word) (count : Nat) : Array Word :=
  Array.ofFn fun index : Fin count => word words index

/-- Clear the bits from `width` on in the word that holds position `width`. -/
def trim (words : Array Word) (width : Nat) : Array Word :=
  words.modify (width / 32) (· &&& Mask.low (width % 32))

/-- Give all bits from `first` up to, but not including, `stop` one value. -/
def fill (words : Array Word) (first stop : Nat) (value : Bool) : Array Word :=
  words.mapIdx fun index word =>
    if value then word ||| Mask.span first stop index
    else word &&& ~~~Mask.span first stop index

/-- Set one bit. -/
def setBit (words : Array Word) (position : Nat) (value : Bool) : Array Word :=
  words.modify (position / 32) (BitWord.withBit · (position % 32) value)

/-- Add the bits of `source` from position `offset` on.  Each source word falls
into one word if the offset is a word boundary, and else into two neighbours. -/
def deposit (words : Array Word) (offset : Nat) : List Word → Array Word
  | [] => words
  | first :: rest =>
      let lower := words.modify (offset / 32) (· ||| first <<< (offset % 32))
      let both :=
        if offset % 32 = 0 then lower
        else lower.modify (offset / 32 + 1) (· ||| first >>> (32 - offset % 32))
      deposit both (offset + 32) rest

/-- Move every bit down by `amount`. -/
def shiftRight (words : Array Word) (amount : Nat) : Array Word :=
  Array.ofFn fun index : Fin words.size =>
    BitWord.window (word words) (32 * index.val + amount)

/-- The lowest `count` words of a number. -/
def ofNat (count value : Nat) : Array Word :=
  Array.ofFn fun index : Fin count => BitVec.ofNat 32 (value >>> (32 * index.val))

/-- The number whose words, least significant first, are given. -/
def value : List Word → Nat
  | [] => 0
  | first :: rest => first.toNat + modulus 32 * value rest

/-- Some word is not zero. -/
def anyBit (words : Array Word) : Bool :=
  words.any fun word => decide (word ≠ 0)

@[simp] theorem size_fit (words : Array Word) (count : Nat) : (fit words count).size = count := by
  simp [fit]

@[simp] theorem size_trim (words : Array Word) (width : Nat) :
    (trim words width).size = words.size := by
  simp [trim]

@[simp] theorem size_fill (words : Array Word) (first stop : Nat) (value : Bool) :
    (fill words first stop value).size = words.size := by
  simp [fill]

@[simp] theorem size_setBit (words : Array Word) (position : Nat) (value : Bool) :
    (setBit words position value).size = words.size := by
  simp [setBit]

@[simp] theorem size_deposit (words : Array Word) (offset : Nat) (source : List Word) :
    (deposit words offset source).size = words.size := by
  induction source generalizing words offset with
  | nil => rfl
  | cons first rest inductionHypothesis =>
      rw [deposit, inductionHypothesis]
      split
      · simp
      · simp

@[simp] theorem size_shiftRight (words : Array Word) (amount : Nat) :
    (shiftRight words amount).size = words.size := by
  simp [shiftRight]

@[simp] theorem size_ofBits (width : Nat) (bitAt : Nat → Bool) :
    (ofBits width bitAt).size = wordCount width := by
  simp [ofBits]

@[simp] theorem size_ofNat (count value : Nat) : (ofNat count value).size = count := by
  simp [ofNat]

theorem word_of_lt (words : Array Word) {index : Nat} (inBounds : index < words.size) :
    word words index = words[index] := by
  simp [word, inBounds]

theorem word_of_size_le (words : Array Word) {index : Nat} (outside : words.size ≤ index) :
    word words index = 0 := by
  simp [word, outside]

/-- A bit of a word is a bit of the sequence. -/
theorem getLsbD_word (words : Array Word) (index : Nat) {offset : Nat} (inWord : offset < 32) :
    (word words index).getLsbD offset = bit words (32 * index + offset) := by
  have sameWord : (32 * index + offset) / 32 = index := by omega
  have sameOffset : (32 * index + offset) % 32 = offset := by omega
  rw [bit, sameWord, sameOffset]

/-- A sequence has no bits past its words. -/
theorem bit_of_size_le (words : Array Word) {position : Nat}
    (outside : 32 * words.size ≤ position) : bit words position = false := by
  rw [bit, word_of_size_le words (by omega)]
  simp

theorem word_modify (words : Array Word) (index other : Nat) (change : Word → Word)
    (keepsZero : change 0 = 0) :
    word (words.modify index change) other =
      if other = index then change (word words other) else word words other := by
  by_cases inBounds : other < words.size
  · rw [word_of_lt _ (by simpa using inBounds), word_of_lt _ inBounds]
    simp [Array.getElem_modify, eq_comm]
  · rw [word_of_size_le _ (by simpa using inBounds), word_of_size_le _ (by simpa using inBounds),
      keepsZero]
    simp

/-- Trimming clears the positions at and above the width, as far as the word
that holds position `width` reaches. -/
theorem bit_trim (words : Array Word) {width position : Nat}
    (near : position < 32 * (width / 32 + 1)) :
    bit (trim words width) position = (bit words position && decide (position < width)) := by
  rw [bit, trim, word_modify _ _ _ _ (by simp)]
  by_cases sameWord : position / 32 = width / 32
  · simp only [sameWord, ↓reduceIte, BitVec.getLsbD_and, Mask.getLsbD_low, bit]
    congr 1
    simp only [decide_eq_decide]
    omega
  · have below : position < width := by omega
    simp [sameWord, below, bit]

/-- Filling overwrites exactly the chosen positions of the sequence. -/
theorem bit_fill (words : Array Word) (first stop : Nat) (value : Bool) {position : Nat}
    (inBounds : position < 32 * words.size) :
    bit (fill words first stop value) position =
      if first ≤ position ∧ position < stop then value else bit words position := by
  have wordInBounds : position / 32 < words.size := by omega
  have joined : 32 * (position / 32) + position % 32 = position := Nat.div_add_mod position 32
  rw [bit, word_of_lt _ (by simpa using wordInBounds)]
  simp only [fill, Array.getElem_mapIdx, bit, word_of_lt _ wordInBounds]
  have offsetInWord := Nat.mod_lt position (by decide : 0 < 32)
  have selected := Mask.getLsbD_span first stop (position / 32) offsetInWord
  rw [joined] at selected
  cases value with
  | false =>
      simp only [Bool.false_eq_true, ↓reduceIte, BitVec.getLsbD_and, BitVec.getLsbD_not,
        selected, offsetInWord, decide_true, Bool.true_and]
      by_cases inside : first ≤ position ∧ position < stop <;> simp only [inside] <;> simp
  | true =>
      simp only [↓reduceIte, BitVec.getLsbD_or, selected]
      by_cases inside : first ≤ position ∧ position < stop <;> simp only [inside] <;> simp

/-- A shift to the right reads every bit `amount` positions higher. -/
theorem bit_shiftRight (words : Array Word) (amount : Nat) {position : Nat}
    (inBounds : position < 32 * words.size) :
    bit (shiftRight words amount) position = bit words (position + amount) := by
  have wordInBounds : position / 32 < words.size := by omega
  have joined : 32 * (position / 32) + amount + position % 32 = position + amount := by omega
  rw [bit, word_of_lt _ (by simpa using wordInBounds)]
  simp only [shiftRight, Array.getElem_ofFn]
  rw [BitWord.getLsbD_window _ _ (Nat.mod_lt _ (by decide)), joined]
  rfl

/-- The bits of a constructed sequence are the given ones below the width. -/
@[simp] theorem bit_ofBits (width : Nat) (bitAt : Nat → Bool) (position : Nat) :
    bit (ofBits width bitAt) position = (decide (position < width) && bitAt position) := by
  have joined : 32 * (position / 32) + position % 32 = position := Nat.div_add_mod position 32
  by_cases inBounds : position / 32 < wordCount width
  · rw [bit, word_of_lt _ (by simpa using inBounds)]
    simp only [ofBits, Array.getElem_ofFn, BitWord.getLsbD_ofBits, joined,
      Nat.mod_lt position (by decide : 0 < 32), decide_true, Bool.true_and]
  · have outside : ¬position < width := by
      intro inside
      apply inBounds
      unfold wordCount wordsFor
      omega
    rw [bit_of_size_le _ (by rw [size_ofBits]; omega)]
    simp [outside]

end Words
end FourState
