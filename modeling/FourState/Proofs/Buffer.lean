import FourState.Buffer.Arithmetic
import FourState.Proofs.Cell

/-!
# Bits of buffers

A buffer with the words its width needs is canonical once it has been trimmed.
For the buffers that operators compute with, this module says which bit stands
at each position: constants, numbers, copies of vectors, cut and extended
copies, and buffers given word by word.
-/

namespace FourState

/-! ## Word counts -/

/-- The words of a width hold all its positions. -/
theorem le_wordCount (width : Nat) : width ≤ 32 * wordCount width := by
  unfold wordCount wordsFor
  omega

/-- The last word of a width is at least partly inside. -/
theorem wordCount_lt (width : Nat) : 32 * wordCount width < width + 32 := by
  unfold wordCount wordsFor
  omega

/-- A position inside the width lies in one of its words. -/
theorem div_lt_wordCount {position width : Nat} (inside : position < width) :
    position / 32 < wordCount width := by
  have := le_wordCount width
  omega

/-- A word that is not zero has a set bit. -/
theorem BitWord.ne_zero_iff {size : Nat} {word : BitVec size} :
    word ≠ 0 ↔ ∃ offset, offset < size ∧ word.getLsbD offset = true := by
  constructor
  · intro differs
    apply Classical.byContradiction
    intro none
    apply differs
    apply BitVec.eq_of_getLsbD_eq
    intro offset inWord
    simpa using fun set => none ⟨offset, inWord, set⟩
  · rintro ⟨offset, -, set⟩ rfl
    simp at set

/-- Setting a bit of a word changes that bit only. -/
theorem BitWord.getLsbD_withBit
    (word : Word)
    {index : Nat}
    (inWord : index < 32)
    (value : Bool)
    (other : Nat) :
    (withBit word index value).getLsbD other =
      if other = index then value else word.getLsbD other := by
  by_cases same : other = index
  · subst same
    cases value <;> simp [withBit, inWord]
  · have differs : ¬index = other := fun equal => same equal.symm
    cases value with
    | true => simp [withBit, BitVec.getLsbD_twoPow, same, differs]
    | false =>
        cases set : word.getLsbD other with
        | false => simp [withBit, set, same]
        | true => simp [withBit, set, same, BitVec.lt_of_getLsbD set]

namespace Words

/-! ## Bits of word sequences -/

/-- A sequence given word by word has the bits of its words. -/
theorem bit_ofFn (count : Nat) (wordAt : Nat → Word) (position : Nat) :
    bit (Array.ofFn fun index : Fin count => wordAt index.val) position =
      (decide (position < 32 * count) && (wordAt (position / 32)).getLsbD (position % 32)) := by
  by_cases inBounds : position < 32 * count
  · have wordInBounds : position / 32 < count := by omega
    rw [bit, word_of_lt _ (by simpa using wordInBounds)]
    simp [inBounds]
  · rw [bit_of_size_le _ (by simpa using inBounds)]
    simp [inBounds]

theorem bit_replicate (count : Nat) (value : Word) (position : Nat) :
    bit (Array.replicate count value) position =
      (decide (position < 32 * count) && value.getLsbD (position % 32)) := by
  have constant : Array.replicate count value =
      Array.ofFn fun _ : Fin count => value := by
    apply Array.ext (by simp)
    intro index inReplicate inOfFn
    simp
  rw [constant, bit_ofFn count fun _ => value]

theorem bit_fit (words : Array Word) (count position : Nat) :
    bit (fit words count) position = (decide (position < 32 * count) && bit words position) :=
  bit_ofFn count (word words) position

/-- The words of a number have its bits. -/
theorem bit_ofNat (count value position : Nat) :
    bit (ofNat count value) position =
      (decide (position < 32 * count) && value.testBit position) := by
  have joined : 32 * (position / 32) + position % 32 = position := Nat.div_add_mod position 32
  rw [ofNat, bit_ofFn count fun index => BitVec.ofNat 32 (value >>> (32 * index)),
    BitVec.getLsbD_ofNat, Nat.testBit_shiftRight, joined]
  simp [Nat.mod_lt position (by decide : 0 < 32)]

/-- Setting a bit of a sequence changes that bit only. -/
theorem bit_setBit
    (words : Array Word)
    {position : Nat}
    (inBounds : position / 32 < words.size)
    (value : Bool)
    (other : Nat) :
    bit (setBit words position value) other =
      if other = position then value else bit words other := by
  have inWord : position % 32 < 32 := Nat.mod_lt _ (by decide)
  by_cases otherInBounds : other / 32 < words.size
  · rw [bit, bit, word_of_lt _ (by simpa using otherInBounds), word_of_lt _ otherInBounds]
    simp only [setBit, Array.getElem_modify]
    by_cases sameWord : position / 32 = other / 32
    · have same : other % 32 = position % 32 ↔ other = position := by omega
      simp only [sameWord, if_true, BitWord.getLsbD_withBit _ inWord, same]
    · have differs : ¬other = position := by
        rintro rfl
        exact sameWord rfl
      simp only [sameWord, differs, if_false]
  · have differs : ¬other = position := by
      rintro rfl
      exact otherInBounds inBounds
    rw [if_neg differs, bit_of_size_le _ (by simp; omega), bit_of_size_le _ (by omega)]

/-- Trimming the words of a width clears exactly the positions past it. -/
theorem bit_trim_of_size
    {words : Array Word}
    {width : Nat}
    (sized : words.size = wordCount width)
    (position : Nat) :
    bit (trim words width) position = (bit words position && decide (position < width)) := by
  by_cases inBounds : position < 32 * words.size
  · apply bit_trim
    have := wordCount_lt width
    omega
  · rw [bit_of_size_le _ (by simpa using inBounds), bit_of_size_le _ (by omega),
      Bool.false_and]

/-- The bits of a plane of a block, taken as a word sequence. -/
theorem bit_map_get (block : Block) (plane : Plane) (position : Nat) :
    bit (block.map fun slice => slice.get plane) position = block.bit plane position := by
  by_cases inBounds : position / 32 < block.size
  · rw [bit, word_of_lt _ (by simpa using inBounds), Array.getElem_map, Block.bit,
      block.slice_of_lt inBounds]
    rfl
  · rw [bit_of_size_le _ (by simp; omega), Block.bit, block.slice_of_size_le (by omega)]
    simp [Slice.bit]

/-- A word sequence has a set word exactly when it has a set bit. -/
theorem anyBit_eq_true_iff (words : Array Word) :
    anyBit words = true ↔ ∃ position, bit words position = true := by
  unfold anyBit
  rw [Array.any_eq_true]
  constructor
  · rintro ⟨index, inBounds, nonzero⟩
    obtain ⟨offset, inWord, set⟩ := BitWord.ne_zero_iff.1 (of_decide_eq_true nonzero)
    refine ⟨32 * index + offset, ?_⟩
    rwa [← getLsbD_word _ _ inWord, word_of_lt _ inBounds]
  · rintro ⟨position, set⟩
    by_cases inBounds : position / 32 < words.size
    · refine ⟨position / 32, inBounds, ?_⟩
      rw [bit, word_of_lt _ inBounds] at set
      exact decide_eq_true (BitWord.ne_zero_iff.2 ⟨_, Nat.mod_lt _ (by decide), set⟩)
    · rw [bit_of_size_le _ (by omega)] at set
      contradiction

end Words

namespace Buffer

/-! ## Canonical buffers -/

theorem bit_of_lt
    (buffer : Buffer)
    {position : Nat}
    (inside : position < buffer.width) :
    buffer.bit position =
      Bit.ofPlanes (Words.bit buffer.low position) (Words.bit buffer.high position) := by
  simp [bit, inside]

theorem bit_of_width_le
    (buffer : Buffer)
    {position : Nat}
    (outside : buffer.width ≤ position) :
    buffer.bit position = Bit.zero := by
  simp [bit, Nat.not_lt.2 outside]

/-- Trimming makes a buffer canonical once it has the right number of words. -/
theorem canonical_trim
    {buffer : Buffer}
    (lowSized : buffer.low.size = wordCount buffer.width)
    (highSized : buffer.high.size = wordCount buffer.width) :
    buffer.trim.Canonical where
  size_low := by simpa [trim] using lowSized
  size_high := by simpa [trim] using highSized
  low_outside := by
    intro position outside
    have notInside : ¬position < buffer.width := Nat.not_lt.2 outside
    simp [trim, Words.bit_trim_of_size lowSized, notInside]
  high_outside := by
    intro position outside
    have notInside : ¬position < buffer.width := Nat.not_lt.2 outside
    simp [trim, Words.bit_trim_of_size highSized, notInside]

/-- Trimming keeps the bits inside the width. -/
theorem bit_trim
    {buffer : Buffer}
    (lowSized : buffer.low.size = wordCount buffer.width)
    (highSized : buffer.high.size = wordCount buffer.width)
    (position : Nat) :
    buffer.trim.bit position = buffer.bit position := by
  by_cases inside : position < buffer.width
  · rw [bit_of_lt _ (by simpa using inside), bit_of_lt _ inside]
    simp [trim, Words.bit_trim_of_size lowSized, Words.bit_trim_of_size highSized, inside]
  · rw [bit_of_width_le _ (by simpa using inside), bit_of_width_le _ (by simpa using inside)]

/-- The low plane of a canonical buffer holds the low halves of its bits. -/
theorem Canonical.low_eq
    {buffer : Buffer}
    (canonical : buffer.Canonical)
    (position : Nat) :
    Words.bit buffer.low position = (buffer.bit position).low := by
  by_cases inside : position < buffer.width
  · simp [bit, inside]
  · simp [bit, inside, canonical.low_outside position (Nat.not_lt.1 inside), Bit.low]

/-- The high plane of a canonical buffer holds the high halves of its bits. -/
theorem Canonical.high_eq
    {buffer : Buffer}
    (canonical : buffer.Canonical)
    (position : Nat) :
    Words.bit buffer.high position = (buffer.bit position).high := by
  by_cases inside : position < buffer.width
  · simp [bit, inside]
  · simp [bit, inside, canonical.high_outside position (Nat.not_lt.1 inside), Bit.high]

/-- Both planes of a canonical buffer have a word for every position inside the width. -/
theorem Canonical.has_word
    {buffer : Buffer}
    (canonical : buffer.Canonical)
    {position : Nat}
    (inside : position < buffer.width) :
    position / 32 < buffer.low.size ∧ position / 32 < buffer.high.size := by
  rw [canonical.size_low, canonical.size_high]
  exact ⟨div_lt_wordCount inside, div_lt_wordCount inside⟩

/-! ## Single bits -/

theorem canonical_setBit
    {buffer : Buffer}
    (canonical : buffer.Canonical)
    {position : Nat}
    (inside : position < buffer.width)
    (bit : Bit) :
    (buffer.setBit position bit).Canonical where
  size_low := by simpa [setBit] using canonical.size_low
  size_high := by simpa [setBit] using canonical.size_high
  low_outside := by
    intro other outside
    have otherOutside : buffer.width ≤ other := outside
    exact (Words.bit_setBit _ (canonical.has_word inside).1 _ _).trans
      ((if_neg (by omega)).trans (canonical.low_outside other outside))
  high_outside := by
    intro other outside
    have otherOutside : buffer.width ≤ other := outside
    exact (Words.bit_setBit _ (canonical.has_word inside).2 _ _).trans
      ((if_neg (by omega)).trans (canonical.high_outside other outside))

/-! ## Constants and numbers -/

theorem canonical_zero (width : Nat) : (zero width).Canonical where
  size_low := by simp [zero]
  size_high := by simp [zero]
  low_outside := by simp [zero, Words.bit_replicate]
  high_outside := by simp [zero, Words.bit_replicate]

@[simp] theorem bit_zero (width position : Nat) : (zero width).bit position = Bit.zero := by
  simp only [bit, zero, Words.bit_replicate]
  split <;> simp [Bit.ofPlanes]

theorem canonical_unknown (width : Nat) : (unknown width).Canonical :=
  canonical_trim (by simp [zero]) (by simp [zero])

/-- Every bit inside the width is `x`. -/
theorem bit_unknown (width position : Nat) :
    (unknown width).bit position = if position < width then Bit.x else Bit.zero := by
  have inWords := le_wordCount width
  rw [unknown, bit_trim (by simp [zero]) (by simp [zero])]
  simp only [bit, zero, Words.bit_replicate]
  split
  · rename_i inside
    have inBounds : position < 32 * wordCount width := by omega
    have inWord : position % 32 < 32 := Nat.mod_lt _ (by decide)
    simp only [BitVec.ofNat_eq_ofNat, BitVec.getLsbD_zero, Bool.and_false,
      BitVec.getLsbD_allOnes, inBounds, inWord, decide_true, Bool.true_and]
    rfl
  · rfl

theorem canonical_ofNat (width value : Nat) : (ofNat width value).Canonical :=
  canonical_trim (by simp [zero]) (by simp [zero])

/-- The bits of a stored number are its binary digits, cut at the width. -/
theorem bit_ofNat (width value position : Nat) :
    (ofNat width value).bit position =
      if position < width then Bit.ofBool (value.testBit position) else Bit.zero := by
  have inWords := le_wordCount width
  rw [ofNat, bit_trim (by simp [zero]) (by simp [zero])]
  simp only [bit, zero, Words.bit_replicate, Words.bit_ofNat]
  split
  · rename_i inside
    have inBounds : position < 32 * wordCount width := by omega
    simp only [BitVec.ofNat_eq_ofNat, BitVec.getLsbD_zero, Bool.and_false, inBounds, decide_true,
      Bool.true_and]
    cases value.testBit position <;> rfl
  · rfl

/-! ## Buffers given word by word -/

theorem canonical_tabulate (width : Nat) (wordAt : Nat → Word × Word) :
    (tabulate width wordAt).Canonical :=
  canonical_trim (by simp) (by simp)

/-- A buffer given word by word has the bits of its words, cut at the width. -/
theorem bit_tabulate (width : Nat) (wordAt : Nat → Word × Word) (position : Nat) :
    (tabulate width wordAt).bit position =
      if position < width then
        Bit.ofPlanes ((wordAt (position / 32)).1.getLsbD (position % 32))
          ((wordAt (position / 32)).2.getLsbD (position % 32))
      else Bit.zero := by
  have inWords := le_wordCount width
  rw [tabulate, bit_trim (by simp) (by simp)]
  simp only [bit]
  split
  · rename_i inside
    have inBounds : position < 32 * wordCount width := by omega
    rw [Words.bit_ofFn _ fun index => (wordAt index).1,
      Words.bit_ofFn _ fun index => (wordAt index).2]
    simp [inBounds]
  · rfl

/-! ## Filling, cutting and extending -/

/-- Filling overwrites the chosen positions inside the width. -/
theorem bit_fill
    {buffer : Buffer}
    (canonical : buffer.Canonical)
    (first stop : Nat)
    (filler : Bit)
    (position : Nat) :
    (buffer.fill first stop filler).bit position =
      if first ≤ position ∧ position < min stop buffer.width then filler
      else buffer.bit position := by
  have inWords := le_wordCount buffer.width
  by_cases inside : position < buffer.width
  · have inLow : position < 32 * buffer.low.size := by
      rw [canonical.size_low]
      omega
    have inHigh : position < 32 * buffer.high.size := by
      rw [canonical.size_high]
      omega
    simp only [bit, fill, inside, if_true, Words.bit_fill _ _ _ _ inLow,
      Words.bit_fill _ _ _ _ inHigh]
    split <;> simp
  · have notFilled : ¬(first ≤ position ∧ position < min stop buffer.width) := by omega
    rw [if_neg notFilled, bit_of_width_le _ (by simpa using inside),
      bit_of_width_le _ (Nat.not_lt.1 inside)]

theorem canonical_resized (buffer : Buffer) (width : Nat) (signExtend : Bool) :
    (buffer.resized width signExtend).Canonical := by
  unfold resized
  cases signExtend with
  | false => exact canonical_trim (by simp) (by simp)
  | true => exact canonical_trim (by simp [fill]) (by simp [fill])

/-- Cutting keeps the bits below the new width; extending repeats the most
significant bit or adds zeros. -/
theorem bit_resized
    {buffer : Buffer}
    (canonical : buffer.Canonical)
    (width : Nat)
    (signExtend : Bool)
    (position : Nat) :
    (buffer.resized width signExtend).bit position =
      if position < width then
        if position < buffer.width then buffer.bit position
        else if signExtend then buffer.msb
        else Bit.zero
      else Bit.zero := by
  by_cases inside : position < width
  · have inBounds : position < 32 * wordCount width :=
      Nat.lt_of_lt_of_le inside (le_wordCount width)
    have fittedLow : Words.bit (Words.fit buffer.low (wordCount width)) position =
        (buffer.bit position).low := by
      simp [Words.bit_fit, inBounds, canonical.low_eq]
    have fittedHigh : Words.bit (Words.fit buffer.high (wordCount width)) position =
        (buffer.bit position).high := by
      simp [Words.bit_fit, inBounds, canonical.high_eq]
    rw [if_pos inside]
    cases signExtend with
    | false =>
        simp only [resized, Bool.false_eq_true, if_false]
        rw [bit_trim (by simp) (by simp), bit_of_lt _ inside, fittedLow, fittedHigh,
          Bit.ofPlanes_low_high]
        split
        · rfl
        · rename_i past
          exact bit_of_width_le buffer (Nat.not_lt.1 past)
    | true =>
        simp only [resized, if_true]
        rw [bit_trim (by simp [fill]) (by simp [fill]), bit_of_lt _ inside]
        simp only [fill, Nat.min_self]
        rw [Words.bit_fill _ _ _ _ (by simpa using inBounds),
          Words.bit_fill _ _ _ _ (by simpa using inBounds), fittedLow, fittedHigh]
        by_cases inBuffer : position < buffer.width
        · have notFilled : ¬(buffer.width ≤ position ∧ position < width) := by omega
          simp [notFilled, inBuffer]
        · have filled : buffer.width ≤ position ∧ position < width := by omega
          simp [filled, inBuffer]
  · rw [if_neg inside, bit_of_width_le _ (by simpa using inside)]

end Buffer

/-! ## Bits that exist -/

/-- The bit at a position inside the width. -/
def Buffer.bit? (buffer : Buffer) (position : Nat) : Option Bit :=
  if position < buffer.width then some (buffer.bit position) else none

/-- The value bit at a position inside the width of an allocated vector. -/
def LogicVector.bit? (vector : LogicVector) (position : Nat) : Option Bit :=
  if position < vector.width then
    vector.storage.content?.map fun block => block.value position
  else none

theorem LogicVector.lt_width_of_bit?
    {vector : LogicVector}
    {position : Nat}
    {bit : Bit}
    (shows : vector.bit? position = some bit) :
    position < vector.width := by
  unfold LogicVector.bit? at shows
  split at shows
  · assumption
  · contradiction

/-- A vector with words shows their value at the positions inside its width. -/
theorem LogicVector.bit?_eq_some_iff
    {vector : LogicVector}
    {block : Block}
    (stored : vector.block = .ok block)
    (position : Nat)
    (bit : Bit) :
    vector.bit? position = some bit ↔ position < vector.width ∧ block.value position = bit := by
  rw [block_eq_ok_iff] at stored
  unfold LogicVector.bit?
  split
  · rename_i inside
    simp [stored, inside]
  · rename_i outside
    simp [outside]

namespace Buffer

/-- A buffer read from a vector has the bits of the vector. -/
theorem bit?_ofVector
    {vector : LogicVector}
    {value : Buffer}
    (reads : ofVector vector = .ok value)
    (position : Nat) :
    value.bit? position = vector.bit? position := by
  unfold ofVector at reads
  obtain ⟨block, stored, reads⟩ := bind_eq_ok_iff.1 reads
  cases reads
  rw [LogicVector.block_eq_ok_iff] at stored
  simp only [bit?, LogicVector.bit?, stored, Option.map_some, bit, Words.bit_map_get]
  split
  · rfl
  · rfl

theorem bit?_eq_some_iff (buffer : Buffer) (position : Nat) (bit : Bit) :
    buffer.bit? position = some bit ↔
      position < buffer.width ∧
        Bit.ofPlanes (Words.bit buffer.low position) (Words.bit buffer.high position) = bit := by
  unfold bit?
  split
  · rename_i inside
    rw [bit_of_lt _ inside]
    simp [inside]
  · rename_i outside
    simp [outside]

end Buffer
end FourState
