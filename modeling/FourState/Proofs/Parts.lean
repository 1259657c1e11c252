import FourState.Proofs.Extension
import FourState.Proofs.Gate
import FourState.Proofs.Moving
import FourState.Proofs.NotedReads

/-!
# Parts of vectors

A part-select moves a range of bits of its source down to position zero; a part-assign
moves its source up to a range of its target and leaves the other bits alone.  The two
are inverse to each other on the range, and parts that do not meet are independent.
-/

namespace FourState

namespace Operator

variable {target source : LogicVector} {lsb msb : Nat}

/-- A selected part is computed with the bits of the range, and zeros above. -/
theorem exists_partSelect
    (readable : source.Readable)
    (inRange : lsb ≤ msb ∧ msb < source.width) :
    ∃ value, partSelect source lsb msb = .ok value ∧ value.Canonical ∧
      ∀ position, some (value.bit position) =
        if position ≤ msb - lsb then source.bit? (lsb + position) else some Bit.zero := by
  obtain ⟨whole, reads, canonical, sameWidth, -⟩ := readable.ofVector
  have selects : partSelect source lsb msb =
      .ok ((whole.shiftRight lsb).resized (msb - lsb + 1) false) := by
    rw [partSelect, LogicVector.requireRange, require_bind_of_true inRange, reads]
    rfl
  refine ⟨_, selects, Buffer.canonical_resized _ _ _, ?_⟩
  intro position
  rw [Buffer.bit_resized (Buffer.canonical_shiftRight canonical _), Buffer.width_shiftRight,
    Buffer.bit_shiftRight canonical]
  by_cases inPart : position ≤ msb - lsb
  · rw [if_pos (by omega), if_pos (by omega), if_pos inPart, Nat.add_comm position lsb]
    exact (LogicVector.bit?_of_ofVector reads (by omega)).symm
  · rw [if_neg (by omega), if_neg inPart]

/-- An assigned part is computed with the bits of the extended source in the range. -/
theorem exists_partAssign
    (readable : source.Readable)
    (inRange : lsb ≤ msb ∧ msb < target.width) :
    ∃ value, partAssign target source lsb msb = .ok value ∧ value.Canonical ∧
      ∀ position, lsb ≤ position → position ≤ msb →
        value.bit position = source.extended source.signed (position - lsb) := by
  obtain ⟨whole, reads, -⟩ := readable.ofVector
  have assigns : partAssign target source lsb msb = .ok ((Buffer.zero target.width).insert lsb
      (whole.resized (msb - lsb + 1) source.signed)) := by
    rw [partAssign, LogicVector.requireRange, require_bind_of_true inRange, reads]
    rfl
  have clear := Buffer.canonical_zero target.width
  refine ⟨_, assigns, Buffer.canonical_insert clear _ _, ?_⟩
  intro position above below
  rw [Buffer.bit_insert clear (Buffer.canonical_resized _ _ _) fun _ _ => Buffer.bit_zero _ _,
    if_neg (by omega), if_pos (by rw [Buffer.width_zero]; omega),
    readable.bit_resized reads source.signed (by omega)]

end Operator

namespace LogicVector

variable {vector target source : LogicVector} {lsb msb : Nat}

/-! ## Bits and cells -/

/-- Vectors of one width show the same bit where their cells have one value. -/
theorem bit?_congr
    {first second : LogicVector}
    (sameWidth : first.width = second.width)
    (firstAllocated : first.storage.isAllocated = true)
    (secondAllocated : second.storage.isAllocated = true)
    {position : Nat}
    (sameValue : (first.cell position).value = (second.cell position).value) :
    first.bit? position = second.bit? position := by
  by_cases inside : position < first.width
  · rw [bit?_eq_cell_value firstAllocated inside,
      bit?_eq_cell_value secondAllocated (sameWidth ▸ inside), sameValue]
  · have outside : first.width ≤ position := Nat.not_lt.1 inside
    rw [bit?_of_width_le outside, bit?_of_width_le (sameWidth ▸ outside)]

/-- Noted reads do not show in the value. -/
theorem bit?_noteRead
    (allocated : vector.storage.isAllocated = true)
    (isRead : Nat → Bool)
    (position : Nat) :
    (vector.noteRead isRead).bit? position = vector.bit? position := by
  have sameCell (plane : Plane) (isValue : plane ≠ Plane.read) :
      (vector.noteRead isRead).cell position plane = vector.cell position plane :=
    vector.cell_noteRead_of_unread fun _ isRead => absurd isRead isValue
  apply bit?_congr (toHeader_noteRead vector isRead ▸ rfl)
    ((isAllocated_noteRead _ _).trans allocated) allocated
  rw [Cell.value, Cell.value, sameCell _ (by decide), sameCell _ (by decide)]

/-! ## Selecting and assigning -/

/-- Selecting a part succeeds on any four-state target, and leaves the bits of the range
with zeros above. -/
theorem operate_partSelect
    (readable : target.Readable)
    (fourState : target.twoState = false)
    (sourceReadable : source.Readable)
    (inRange : lsb ≤ msb ∧ msb < source.width) :
    ∃ updated changed, (target.operate (.partSelect source lsb msb)).result =
        .ok (updated, changed) ∧
      updated.toHeader = target.toHeader ∧
      ∀ position, position < target.width → updated.bit? position =
        if position ≤ msb - lsb then source.bit? (lsb + position) else some Bit.zero := by
  obtain ⟨value, selects, canonical, sameBits⟩ :=
    Operator.exists_partSelect sourceReadable inRange
  have computes : (Operation.partSelect source lsb msb).compute target = .ok value :=
    liftM_fault_eq_ok_iff.2 selects
  obtain ⟨updated, changed, operates, sameHeader, shows⟩ :=
    operate_whole readable fourState rfl computes canonical
  refine ⟨updated, changed, operates, sameHeader, ?_⟩
  intro position inside
  rw [shows position inside, sameBits]

/-- Assigning a part succeeds on a four-state target.  The range shows the extended
source, and every plane is as it was elsewhere. -/
theorem operate_partAssign
    (readable : target.Readable)
    (fourState : target.twoState = false)
    (sourceReadable : source.Readable)
    (inRange : lsb ≤ msb ∧ msb < target.width) :
    ∃ updated changed, (target.operate (.partAssign source lsb msb)).result =
        .ok (updated, changed) ∧
      updated.toHeader = target.toHeader ∧
      (∀ position, updated.bit? position =
        if lsb ≤ position ∧ position ≤ msb then
          some (source.extended source.signed (position - lsb))
        else target.bit? position) ∧
      ∀ position, ¬(lsb ≤ position ∧ position ≤ msb) →
        updated.cell position = target.cell position := by
  obtain ⟨value, assigns, canonical, sameBits⟩ :=
    Operator.exists_partAssign sourceReadable inRange
  have computes : (Operation.partAssign source lsb msb).compute target = .ok value :=
    liftM_fault_eq_ok_iff.2 assigns
  obtain ⟨updated, changed, operates, sameHeader, shows⟩ :=
    operate_stores readable fourState computes canonical inRange
  refine ⟨updated, changed, operates, sameHeader, ?_, ?_⟩
  · intro position
    by_cases covered : lsb ≤ position ∧ position ≤ msb
    · rw [shows position (by omega), if_pos covered, ← sameBits position covered.1 covered.2]
      exact if_pos covered
    · rw [if_neg covered]
      exact bit?_congr (congrArg Header.width sameHeader) (readable.operate operates).isAllocated
        readable.isAllocated (congrArg Cell.value (cell_operate_of_outside operates covered))
  · exact fun position outside => cell_operate_of_outside operates outside

/-- Assigning the bits that a part has already answers that nothing changes. -/
theorem operate_partAssign_same
    (readable : target.Readable)
    (fourState : target.twoState = false)
    (sourceReadable : source.Readable)
    (inRange : lsb ≤ msb ∧ msb < target.width)
    (same : ∀ position, lsb ≤ position → position ≤ msb →
      target.bit? position = some (source.extended source.signed (position - lsb))) :
    ∃ updated, (target.operate (.partAssign source lsb msb)).result = .ok (updated, false) ∧
      updated.toHeader = target.toHeader ∧
      ∀ position, updated.bit? position = target.bit? position := by
  obtain ⟨updated, changed, operates, sameHeader, shows, outside⟩ :=
    operate_partAssign readable fourState sourceReadable inRange
  have sameWidth : updated.width = target.width := congrArg Header.width sameHeader
  have allocated := (readable.operate operates).isAllocated
  have sameValue (position : Nat) :
      (updated.cell position).value = (target.cell position).value := by
    by_cases covered : lsb ≤ position ∧ position ≤ msb
    · have inTarget : position < target.width := by omega
      have shows := shows position
      rw [if_pos covered, ← same position covered.1 covered.2] at shows
      rw [bit?_eq_cell_value allocated (sameWidth ▸ inTarget),
        bit?_eq_cell_value readable.isAllocated inTarget] at shows
      exact Option.some.inj shows
    · rw [outside position covered]
  have updates : (target.update (.operate (.partAssign source lsb msb))).result =
      .ok (updated, .flag changed) :=
    Outcome.result_map_eq_ok_iff.2 ⟨(updated, changed), operates, rfl⟩
  obtain ⟨_, isFlag, changed_iff⟩ := update_changed_iff rfl updates
  cases isFlag
  have unchanged : changed = false := by
    rw [← Bool.not_eq_true, changed_iff]
    rintro ⟨position, differs⟩
    exact differs (sameValue position)
  exact ⟨updated, unchanged ▸ operates, sameHeader, fun position =>
    bit?_congr sameWidth allocated readable.isAllocated (sameValue position)⟩

end LogicVector
end FourState
