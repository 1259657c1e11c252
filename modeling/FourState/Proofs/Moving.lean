import FourState.Operator.Shift
import FourState.Proofs.Buffer

/-!
# Bits of moved buffers

Inserting a buffer into a wider one and shifting a buffer up or down keep it
canonical, and give each position the bit of one position of one operand, or a
known zero.
-/

namespace FourState

/-- The set planes of two bits, put on top of each other. -/
def Bit.overlay (first second : Bit) : Bit :=
  ofPlanes (first.low || second.low) (first.high || second.high)

@[simp] theorem Bit.zero_overlay (bit : Bit) : zero.overlay bit = bit := by
  cases bit <;> rfl

/-! ## Depositing words -/

namespace Words

/-- The bits of a sequence are those of its first word, and then those of the rest. -/
theorem bit_cons (first : Word) (rest : List Word) (position : Nat) :
    bit (first :: rest).toArray position =
      if position < 32 then first.getLsbD position else bit rest.toArray (position - 32) := by
  split
  · rename_i inFirst
    have sameWord : position / 32 = 0 := by omega
    have sameOffset : position % 32 = position := by omega
    rw [bit, sameWord, sameOffset]
    rfl
  · rename_i pastFirst
    have nextWord : position / 32 = (position - 32) / 32 + 1 := by omega
    have sameOffset : position % 32 = (position - 32) % 32 := by omega
    rw [bit, bit, nextWord, sameOffset]
    simp [word]

/-- Adding bits to one word adds them at its positions. -/
theorem bit_modify_or
    (words : Array Word)
    (index : Nat)
    (added : Word)
    {position : Nat}
    (inBounds : position < 32 * words.size) :
    bit (words.modify index (· ||| added)) position =
      (bit words position ||
        (decide (position / 32 = index) && added.getLsbD (position % 32))) := by
  have wordInBounds : position / 32 < words.size := by omega
  rw [bit, bit, word_of_lt _ (by simpa using wordInBounds), word_of_lt _ wordInBounds,
    Array.getElem_modify]
  by_cases sameWord : position / 32 = index
  · simp [sameWord]
  · simp [sameWord, Ne.symm sameWord]

/-- A single word is added from the offset on, across a word boundary if need be. -/
theorem bit_deposit_singleton
    (words : Array Word)
    (offset : Nat)
    (added : Word)
    {position : Nat}
    (inBounds : position < 32 * words.size) :
    bit (deposit words offset [added]) position =
      (bit words position ||
        (decide (offset ≤ position) && added.getLsbD (position - offset))) := by
  have inLower : position < 32 * (words.modify (offset / 32)
      (· ||| added <<< (offset % 32))).size := by simpa using inBounds
  have inWord : position % 32 < 32 := Nat.mod_lt _ (by decide)
  simp only [deposit]
  split
  · rename_i aligned
    rw [bit_modify_or _ _ _ inBounds, BitVec.getLsbD_shiftLeft]
    congr 1
    by_cases sameWord : position / 32 = offset / 32
    · have distance : position % 32 - offset % 32 = position - offset := by omega
      have above : offset ≤ position := by omega
      have notBelow : ¬position % 32 < offset % 32 := by omega
      rw [distance]
      simp only [sameWord, above, notBelow, inWord, decide_true, decide_false, Bool.not_false,
        Bool.true_and]
    · by_cases above : offset ≤ position
      · have past : added.getLsbD (position - offset) = false :=
          BitVec.getLsbD_of_ge _ _ (by omega)
        simp [sameWord, past]
      · simp [sameWord, above]
  · rename_i crossing
    rw [bit_modify_or _ _ _ inLower, bit_modify_or _ _ _ inBounds, Bool.or_assoc,
      BitVec.getLsbD_shiftLeft, BitVec.getLsbD_ushiftRight]
    congr 1
    by_cases sameWord : position / 32 = offset / 32
    · have notNext : ¬position / 32 = offset / 32 + 1 := by omega
      by_cases above : offset ≤ position
      · have distance : position % 32 - offset % 32 = position - offset := by omega
        have aboveInWord : ¬position % 32 < offset % 32 := by omega
        simp [sameWord, distance, above, aboveInWord, inWord]
      · have belowInWord : position % 32 < offset % 32 := by omega
        simp [sameWord, above, belowInWord]
    · by_cases nextWord : position / 32 = offset / 32 + 1
      · have above : offset ≤ position := by omega
        have distance : 32 - offset % 32 + position % 32 = position - offset := by omega
        simp [nextWord, distance, above]
      · by_cases above : offset ≤ position
        · have past : added.getLsbD (position - offset) = false :=
            BitVec.getLsbD_of_ge _ _ (by omega)
          simp [sameWord, nextWord, past]
        · simp [sameWord, nextWord, above]

/-- A sequence is added from the offset on; what reaches past the words is dropped. -/
theorem bit_deposit
    (words : Array Word)
    (offset : Nat)
    (source : List Word)
    {position : Nat}
    (inBounds : position < 32 * words.size) :
    bit (deposit words offset source) position =
      (bit words position ||
        (decide (offset ≤ position) && bit source.toArray (position - offset))) := by
  induction source generalizing words offset with
  | nil => simp [deposit, bit_of_size_le]
  | cons first rest inductionHypothesis =>
      have inFirst : position < 32 * (deposit words offset [first]).size := by
        simpa using inBounds
      change bit (deposit (deposit words offset [first]) (offset + 32) rest) position = _
      rw [inductionHypothesis _ _ inFirst, bit_deposit_singleton _ _ _ inBounds, Bool.or_assoc,
        bit_cons]
      congr 1
      by_cases above : offset ≤ position
      · split
        · rename_i inWord
          have below : ¬offset + 32 ≤ position := by omega
          simp [above, below]
        · rename_i pastWord
          have pastFirst : offset + 32 ≤ position := by omega
          have distance : position - offset - 32 = position - (offset + 32) := by omega
          have past : first.getLsbD (position - offset) = false :=
            BitVec.getLsbD_of_ge _ _ (Nat.not_lt.1 pastWord)
          simp [above, pastFirst, distance, past]
      · have below : ¬offset + 32 ≤ position := by omega
        simp [above, below]

/-- Filling leaves the positions from its end on as they are. -/
theorem bit_fill_of_stop_le
    (words : Array Word)
    (first : Nat)
    {stop position : Nat}
    (value : Bool)
    (past : stop ≤ position) :
    bit (fill words first stop value) position = bit words position := by
  by_cases inBounds : position < 32 * words.size
  · have notFilled : ¬(first ≤ position ∧ position < stop) := by omega
    rw [bit_fill _ _ _ _ inBounds, if_neg notFilled]
  · rw [bit_of_size_le _ (by simpa using inBounds), bit_of_size_le _ (by simpa using inBounds)]

end Words

namespace Buffer

/-! ## Insertion -/

theorem canonical_insert
    {buffer : Buffer}
    (canonical : buffer.Canonical)
    (offset : Nat)
    (source : Buffer) :
    (buffer.insert offset source).Canonical := by
  unfold insert
  split
  · exact canonical_trim (by simpa using canonical.size_low) (by simpa using canonical.size_high)
  · exact canonical

/-- Inserting adds the planes of the source to those of the buffer, from the offset on and as
far as the buffer reaches. -/
theorem bit_insert_overlay
    {buffer source : Buffer}
    (canonical : buffer.Canonical)
    (sourceCanonical : source.Canonical)
    (offset : Nat)
    {position : Nat}
    (inside : position < buffer.width) :
    (buffer.insert offset source).bit position =
      if offset ≤ position then (buffer.bit position).overlay (source.bit (position - offset))
      else buffer.bit position := by
  unfold insert
  split
  · have inLow : position < 32 * buffer.low.size := by
      rw [canonical.size_low]
      exact Nat.lt_of_lt_of_le inside (le_wordCount _)
    have inHigh : position < 32 * buffer.high.size := by
      rw [canonical.size_high]
      exact Nat.lt_of_lt_of_le inside (le_wordCount _)
    rw [bit_trim (by simpa using canonical.size_low) (by simpa using canonical.size_high),
      bit_of_lt _ (by exact inside), Words.bit_deposit _ _ _ inLow,
      Words.bit_deposit _ _ _ inHigh, Array.toArray_toList, Array.toArray_toList,
      canonical.low_eq, canonical.high_eq, sourceCanonical.low_eq, sourceCanonical.high_eq]
    split
    · rename_i above
      simp only [above, decide_true, Bool.true_and]
      rfl
    · rename_i below
      simp [below]
  · rw [if_neg (by omega)]

/-- A buffer that is clear from the offset on shows the inserted bits there, as
far as it reaches. -/
theorem bit_insert
    {buffer source : Buffer}
    (canonical : buffer.Canonical)
    (sourceCanonical : source.Canonical)
    {offset : Nat}
    (clear : ∀ position, offset ≤ position → buffer.bit position = Bit.zero)
    (position : Nat) :
    (buffer.insert offset source).bit position =
      if position < offset then buffer.bit position
      else if position < buffer.width then source.bit (position - offset)
      else Bit.zero := by
  by_cases inside : position < buffer.width
  · rw [bit_insert_overlay canonical sourceCanonical offset inside]
    by_cases above : offset ≤ position
    · rw [if_pos above, if_neg (by omega), if_pos inside, clear position above,
        Bit.zero_overlay]
    · rw [if_neg above, if_pos (by omega)]
  · rw [bit_of_width_le _ (by simpa using inside), if_neg inside]
    split
    · rw [bit_of_width_le _ (Nat.not_lt.1 inside)]
    · rfl

/-! ## Shifts -/

theorem canonical_setSigned
    {buffer : Buffer}
    (canonical : buffer.Canonical)
    (signed : Bool) :
    (buffer.setSigned signed).Canonical :=
  ⟨canonical.size_low, canonical.size_high, canonical.low_outside, canonical.high_outside⟩

theorem canonical_shiftLeft (buffer : Buffer) (amount : Nat) :
    (buffer.shiftLeft amount).Canonical :=
  canonical_insert (canonical_setSigned (canonical_zero _) _) _ _

/-- A shift to the left moves every bit up and brings in zeros. -/
theorem bit_shiftLeft
    {buffer : Buffer}
    (canonical : buffer.Canonical)
    (amount position : Nat) :
    (buffer.shiftLeft amount).bit position =
      if amount ≤ position ∧ position < buffer.width then buffer.bit (position - amount)
      else Bit.zero := by
  have clear (position : Nat) :
      ((zero buffer.width).setSigned buffer.signed).bit position = Bit.zero :=
    bit_zero buffer.width position
  rw [shiftLeft, bit_insert (canonical_setSigned (canonical_zero _) _) canonical
    fun position _ => clear position, clear]
  by_cases below : position < amount
  · have notAbove : ¬amount ≤ position := by omega
    simp [below, notAbove]
  · have above : amount ≤ position := Nat.not_lt.1 below
    simp only [below, above, if_false, true_and]
    rfl

theorem canonical_shiftRight
    {buffer : Buffer}
    (canonical : buffer.Canonical)
    (amount : Nat) :
    (buffer.shiftRight amount).Canonical :=
  canonical_trim (by simpa using canonical.size_low) (by simpa using canonical.size_high)

/-- A shift to the right moves every bit down and brings in zeros. -/
theorem bit_shiftRight
    {buffer : Buffer}
    (canonical : buffer.Canonical)
    (amount position : Nat) :
    (buffer.shiftRight amount).bit position = buffer.bit (position + amount) := by
  by_cases inside : position < buffer.width
  · have inLow : position < 32 * buffer.low.size := by
      rw [canonical.size_low]
      exact Nat.lt_of_lt_of_le inside (le_wordCount _)
    have inHigh : position < 32 * buffer.high.size := by
      rw [canonical.size_high]
      exact Nat.lt_of_lt_of_le inside (le_wordCount _)
    rw [shiftRight, bit_trim (by simpa using canonical.size_low)
      (by simpa using canonical.size_high), bit_of_lt _ (by exact inside),
      Words.bit_shiftRight _ _ inLow, Words.bit_shiftRight _ _ inHigh, canonical.low_eq,
      canonical.high_eq, Bit.ofPlanes_low_high]
  · rw [bit_of_width_le _ (by simpa using inside), bit_of_width_le _ (by omega)]

theorem canonical_fill
    {buffer : Buffer}
    (canonical : buffer.Canonical)
    (first stop : Nat)
    (filler : Bit) :
    (buffer.fill first stop filler).Canonical where
  size_low := by simpa [fill] using canonical.size_low
  size_high := by simpa [fill] using canonical.size_high
  low_outside := by
    intro position outside
    have past : min stop buffer.width ≤ position := Nat.le_trans (Nat.min_le_right _ _) outside
    exact (Words.bit_fill_of_stop_le _ _ _ past).trans (canonical.low_outside position outside)
  high_outside := by
    intro position outside
    have past : min stop buffer.width ≤ position := Nat.le_trans (Nat.min_le_right _ _) outside
    exact (Words.bit_fill_of_stop_le _ _ _ past).trans (canonical.high_outside position outside)

end Buffer
end FourState
