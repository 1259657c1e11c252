import FourState.Proofs.Guarded.Assignment
import FourState.Proofs.ValueChange

/-!
# Guarded filling of buffers

A buffer is given its bits one by one from a position on, and the positions that are left
are filled up word by word.  So the letters of a value change are taken into a range.  No
step fails, and the gate is given the bits that the change stands for.
-/

namespace FourState

namespace Words

/-- Setting one bit fills a range of one position. -/
theorem setBit_eq_fill (words : Array Word) (position : Nat) (value : Bool) :
    setBit words position value = fill words position (position + 1) value := by
  apply Array.ext (by simp)
  intro index inSet inFilled
  simp only [setBit, fill, Array.getElem_modify, Array.getElem_mapIdx]
  split
  · rename_i isIndex
    subst isIndex
    have mask : Mask.span position (position + 1) (position / 32) =
        BitVec.twoPow 32 (position % 32) := by
      refine BitVec.eq_of_getLsbD_eq fun offset inWord => ?_
      rw [Mask.getLsbD_span _ _ _ inWord, BitVec.getLsbD_twoPow, ← Bool.decide_and,
        decide_eq_decide]
      omega
    rw [mask]
    rfl
  · rename_i isOther
    rw [Mask.span_eq_zero (by omega)]
    cases value with
    | false => exact BitVec.and_allOnes.symm
    | true => exact BitVec.or_zero.symm

end Words

namespace Buffer

variable {buffer : Buffer} {width first stop : Nat} {bitAt : Nat → Bit}

theorem setBit_eq_fill {position : Nat} (inside : position < buffer.width) (bit : Bit) :
    buffer.setBit position bit = buffer.fill position (position + 1) bit := by
  rw [setBit, fill, Nat.min_eq_left (Nat.succ_le_of_lt inside), Words.setBit_eq_fill,
    Words.setBit_eq_fill]

/-- A buffer of a width that has the bits of a function from a position up to another one,
and zeros elsewhere. -/
structure Filled
    (buffer : Buffer)
    (width : Nat)
    (bitAt : Nat → Bit)
    (first stop : Nat) : Prop where
  canonical : buffer.Canonical
  width_eq : buffer.width = width
  signed_eq : buffer.signed = false
  bit_eq : ∀ position, position < width → buffer.bit position =
    if first ≤ position ∧ position < stop then bitAt position else Bit.zero

theorem filled_zero (width first : Nat) (bitAt : Nat → Bit) :
    (zero width).Filled width bitAt first first where
  canonical := canonical_zero width
  width_eq := rfl
  signed_eq := rfl
  bit_eq position _ := by
    rw [bit_zero, if_neg (by omega)]

/-- Filling goes on where it has stopped. -/
theorem Filled.fill
    {next : Nat}
    {filler : Bit}
    (filled : buffer.Filled width bitAt first stop)
    (ordered : first ≤ stop ∧ stop ≤ next)
    (sameBit : ∀ position, stop ≤ position → position < next → bitAt position = filler) :
    (buffer.fill stop next filler).Filled width bitAt first next where
  canonical := canonical_fill filled.canonical _ _ _
  width_eq := filled.width_eq
  signed_eq := filled.signed_eq
  bit_eq position inside := by
    rw [bit_fill filled.canonical, filled.width_eq, filled.bit_eq position inside]
    by_cases added : stop ≤ position ∧ position < min next width
    · rw [if_pos added, if_pos (by omega), sameBit position added.1 (by omega)]
    · rw [if_neg added]
      by_cases before : first ≤ position ∧ position < stop
      · rw [if_pos before, if_pos (by omega)]
      · rw [if_neg before, if_neg (by omega)]

/-- A buffer that is filled everywhere is the one of its bits. -/
theorem Filled.eq_ofBits
    (filled : buffer.Filled width bitAt 0 stop)
    (full : width ≤ stop) :
    buffer = ofBits width bitAt := by
  apply filled.canonical.ext (canonical_ofBits _ _) filled.width_eq filled.signed_eq
  intro position
  by_cases inside : position < width
  · rw [filled.bit_eq position inside, if_pos (by omega), bit_ofBits, if_pos inside]
  · rw [bit_of_width_le _ (by rw [filled.width_eq]; omega), bit_ofBits, if_neg inside]

end Buffer

namespace Guarded

section Steps

variable {buffer : Buffer} {width first stop : Nat} {bitAt : Nat → Bit}

/-- The next bit is set. -/
theorem setBit_filled
    (filled : buffer.Filled width bitAt first stop)
    (ordered : first ≤ stop)
    (inside : stop < width) :
    ∃ placed, setBit buffer stop (bitAt stop) = .ok placed ∧
      placed.Filled width bitAt first (stop + 1) := by
  have insideBuffer : stop < buffer.width := filled.width_eq ▸ inside
  refine ⟨_, setBit_eq_ok filled.canonical insideBuffer _, ?_⟩
  rw [Buffer.setBit_eq_fill insideBuffer]
  refine filled.fill ⟨ordered, Nat.le_succ stop⟩ ?_
  intro position above below
  rw [Nat.le_antisymm (Nat.le_of_lt_succ below) above]

/-- The positions that are left are filled up. -/
theorem fill_filled
    {next : Nat}
    {filler : Bit}
    (filled : buffer.Filled width bitAt first stop)
    (small : width ≤ maxWidth)
    (ordered : first ≤ stop ∧ stop ≤ next)
    (sameBit : ∀ position, stop ≤ position → position < next → bitAt position = filler) :
    ∃ full, fill buffer stop next filler = .ok full ∧ full.Filled width bitAt first next :=
  ⟨_, fill_eq_ok filled.canonical.size_low filled.canonical.size_high
    (filled.width_eq ▸ small) _ _ _, filled.fill ordered sameBit⟩

end Steps

/-! ## Value changes -/

/-- Set bits from a position on, as long as it is in the range, and say where the next one
would be. -/
def placeLetters (msb : Nat) : List Bit → Nat → Buffer → Guarded (Nat × Buffer)
  | [], position, buffer => return (position, buffer)
  | bit :: bits, position, buffer =>
      if msb < position then return (position, buffer)
      else do
        let placed ← setBit buffer position bit
        let next ← add 64 position 1
        placeLetters msb bits next placed

/-- The value that gives a range its bits, the lowest one from the last letter. -/
def changeValue (width : Nat) (bits : List Bit) (msb lsb : Nat) : Guarded Buffer := do
  let (position, placed) ← placeLetters msb bits.reverse lsb (Buffer.zero width)
  if position ≤ msb then
    let past ← add 64 msb 1
    fill placed position past (bits.headD Bit.zero).extension
  else return placed

/-- Apply a value change to the bits `lsb` to `msb`. -/
def applyChange (vector : LogicVector) (text : List Char) (msb lsb : Nat) :
    Guarded (Except LiteralError (LogicVector × Bool)) := do
  assert (lsb ≤ msb ∧ msb < vector.width)
  match ValueChange.read text with
  | .error defect => return .error defect
  | .ok bits => do
      let value ← changeValue vector.width bits msb lsb
      let answer ← assign vector value.low value.high lsb msb
      return .ok answer

section Changes

variable {width msb lsb first position : Nat} {bitAt : Nat → Bit} {buffer : Buffer}

/-- Letters are placed up to the end of the range or of the letters. -/
theorem placeLetters_eq_ok
    (bits : List Bit)
    (filled : buffer.Filled width bitAt first position)
    (inside : msb < width)
    (small : width ≤ maxWidth)
    (ordered : first ≤ position ∧ position ≤ msb + 1)
    (sameBits : ∀ offset, offset < bits.length → bits[offset]? = some (bitAt (position + offset))) :
    ∃ placed, placeLetters msb bits position buffer =
        .ok (min (msb + 1) (position + bits.length), placed) ∧
      placed.Filled width bitAt first (min (msb + 1) (position + bits.length)) := by
  induction bits generalizing position buffer with
  | nil =>
      have stops : min (msb + 1) (position + 0) = position := by omega
      rw [List.length_nil, stops]
      exact ⟨buffer, rfl, filled⟩
  | cons bit bits inductionHypothesis =>
      rw [placeLetters, List.length_cons]
      by_cases past : msb < position
      · have stops : min (msb + 1) (position + (bits.length + 1)) = position := by omega
        rw [if_pos past, stops]
        exact ⟨buffer, rfl, filled⟩
      · have isBit : bit = bitAt position := by simpa using sameBits 0 (Nat.succ_pos _)
        obtain ⟨placed, sets, filledNext⟩ := setBit_filled filled ordered.1 (by omega)
        have limit : maxWidth + 1 < modulus 64 := by decide
        have fits : position + 1 < modulus 64 := by omega
        have goesOn : position + (bits.length + 1) = position + 1 + bits.length := by omega
        rw [if_neg past, isBit, bind_of_ok sets, bind_of_ok (add_eq_ok fits), goesOn]
        apply inductionHypothesis filledNext (by omega)
        intro offset inBits
        have sameBit := sameBits (offset + 1) (Nat.succ_lt_succ inBits)
        rwa [List.getElem?_cons_succ, ← Nat.add_assoc, Nat.add_right_comm] at sameBit

/-- The value that is given to the gate has the bits of the change in the range. -/
theorem changeValue_eq_ok
    {bits : List Bit}
    (inRange : lsb ≤ msb ∧ msb < width)
    (small : width ≤ maxWidth) :
    ∃ value, changeValue width bits msb lsb = .ok value ∧
      value.Filled width (fun position => ValueChange.bitAt bits.toArray (position - lsb)) lsb
        (msb + 1) := by
  have limit : maxWidth + 1 < modulus 64 := by decide
  have start := Buffer.filled_zero width lsb fun position =>
    ValueChange.bitAt bits.toArray (position - lsb)
  obtain ⟨placed, places, filled⟩ :=
    placeLetters_eq_ok bits.reverse start inRange.2 small ⟨Nat.le_refl lsb, by omega⟩ (by
      intro offset inReversed
      rw [List.length_reverse] at inReversed
      rw [ValueChange.getElem?_reverse_eq_bitAt inReversed, Nat.add_sub_cancel_left])
  rw [List.length_reverse] at places filled
  rw [changeValue, bind_of_ok places]
  dsimp only
  split
  · rename_i notFull
    rw [bind_of_ok (add_eq_ok (by omega))]
    refine fill_filled filled small (by omega) ?_
    intro position above below
    exact ValueChange.bitAt_of_length_le (by omega)
  · rename_i full
    have stops : min (msb + 1) (lsb + bits.length) = msb + 1 := by omega
    rw [stops] at filled
    exact ⟨placed, rfl, filled⟩

/-- A value change runs to its end and does what it does for the vector. -/
theorem applyChange_eq_ok
    {vector : LogicVector}
    (readable : vector.Readable)
    (inRange : lsb ≤ msb ∧ msb < vector.width)
    (text : List Char) :
    ∃ answer, applyChange vector text msb lsb = .ok answer ∧
      vector.applyChange text msb lsb = liftM answer := by
  rw [applyChange, bind_of_ok (assert_eq_ok inRange)]
  cases reads : ValueChange.read text with
  | error defect =>
      refine ⟨.error defect, rfl, ?_⟩
      rw [LogicVector.applyChange, require_bind_of_true inRange, reads]
      rfl
  | ok bits =>
      obtain ⟨value, computes, filled⟩ := changeValue_eq_ok inRange readable.wellFormed.width_le
      obtain ⟨block, stored⟩ := LogicVector.exists_block readable.isAllocated
      have inBlock : msb / 32 < block.size := by
        rw [(readable.wellFormed.block_fits block stored).size_eq]
        exact div_lt_wordCount inRange.2
      have longEnough := filled.canonical.has_word (filled.width_eq ▸ inRange.2)
      obtain ⟨answer, assigns, gives, -⟩ := assign_agrees stored inRange longEnough inBlock
      refine ⟨.ok answer, ?_, ?_⟩
      · change (changeValue vector.width bits msb lsb >>= _) = _
        rw [bind_of_ok computes, bind_of_ok assigns]
        rfl
      · have gate := LogicVector.applyChange_eq_assign readable inRange reads filled.canonical
          filled.width_eq (by
            intro position above below
            rw [filled.bit_eq position (by omega), if_pos (by omega)])
        rw [gate, gives]
        rfl

end Changes

end Guarded
end FourState
