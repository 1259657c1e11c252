import FourState.Proofs.NotedReads

/-!
# The gate for values

Every update that gives a value passes the one gate, so it leaves one pattern in
the cells of its target.  `Cell.Gated` states this pattern for a cell,
`Update.Reaches` says which positions it is found at, and `LogicVector.Gated`
puts both together: outside the reach nothing changes, inside it every plane
follows from the old cell and the given bit, and the answer tells whether a
value changed.
-/

namespace FourState

/-! ## Cells behind the gate -/

namespace Cell

/-- A cell before and after it is given a bit.  In a memory the bit may have been
noted as read at the same time. -/
structure Gated (kind : Kind) (bit : Bit) (noted : Prop) (before after : Cell) : Prop where
  value_eq : after.value = bit
  /-- The bit counts as given. -/
  given : ∀ plane, kind.givenPlane? = some plane → after plane = true
  /-- A change from a known zero to a known one is remembered, in a signal only if
  the bit had been given before. -/
  toggle01_iff : kind.hasToggles = true →
    (after Plane.toggle01 = true ↔ before Plane.toggle01 = true ∨
      (before.value = Bit.zero ∧ bit = Bit.one ∧
        (kind = Kind.signal → before Plane.signalSet = true)))
  /-- A change from a known one to a known zero is remembered, in a signal only if
  the bit had been given before. -/
  toggle10_iff : kind.hasToggles = true →
    (after Plane.toggle10 = true ↔ before Plane.toggle10 = true ∨
      (before.value = Bit.one ∧ bit = Bit.zero ∧
        (kind = Kind.signal → before Plane.signalSet = true)))
  read_iff : kind = Kind.memory →
    (after Plane.read = true ↔ before Plane.read = true ∨ noted)
  /-- Every other plane is left as it was. -/
  kept : ∀ plane, plane.isCoverage = true → kind.givenPlane? ≠ some plane →
    (kind.hasToggles = true → plane ≠ Plane.toggle01 ∧ plane ≠ Plane.toggle10) →
    (kind = Kind.memory → plane ≠ Plane.read) → after plane = before plane

/-- The gate gives a cell its bit and the coverage that goes with it. -/
theorem gated_accept (kind : Kind) (bit : Bit) (cell : Cell) :
    Gated kind bit False cell (cell.accept kind bit) where
  value_eq := value_accept _ _ _
  given := by
    intro plane isGiven
    have coverage : plane.isCoverage = true := by
      cases kind <;> cases isGiven <;> rfl
    rw [accept_coverage _ _ _ coverage, gains_given isGiven, Bool.or_true]
  toggle01_iff := by
    intro toggles
    rw [accept_coverage _ _ _ rfl, Bool.or_eq_true, gains_toggle01 toggles]
  toggle10_iff := by
    intro toggles
    rw [accept_coverage _ _ _ rfl, Bool.or_eq_true, gains_toggle10 toggles]
  read_iff := by
    rintro rfl
    have notGained : gains Kind.memory cell bit Plane.read = false :=
      gains_other (by decide) (fun _ => by decide) _ _
    rw [accept_coverage _ _ _ rfl, notGained, Bool.or_false, or_false]
  kept := by
    intro plane coverage notGiven notToggle _
    rw [accept_coverage _ _ _ coverage, gains_other notGiven notToggle, Bool.or_false]

/-- A read that is noted besides shows in the read plane of a memory. -/
theorem Gated.mark
    {kind : Kind}
    {bit : Bit}
    {before after : Cell}
    (gated : Gated kind bit False before after)
    (isRead : Bool) :
    Gated kind bit (isRead = true) before (after.mark (readMarks kind isRead)) where
  value_eq := (value_mark _ _).trans gated.value_eq
  given := by
    intro plane isGiven
    rw [Cell.mark, gated.given plane isGiven, Bool.true_or]
  toggle01_iff := by
    intro toggles
    rw [mark_readMarks _ _ fun _ => by decide]
    exact gated.toggle01_iff toggles
  toggle10_iff := by
    intro toggles
    rw [mark_readMarks _ _ fun _ => by decide]
    exact gated.toggle10_iff toggles
  read_iff := by
    rintro rfl
    rw [mark_readMarks_read, Bool.or_eq_true, gated.read_iff rfl, or_false]
  kept := by
    intro plane coverage notGiven notToggle notRead
    rw [mark_readMarks _ _ notRead]
    exact gated.kept plane coverage notGiven notToggle notRead

end Cell

/-! ## The answer of the gate -/

theorem Bit.ofPlanes_inj (low high otherLow otherHigh : Bool) :
    Bit.ofPlanes low high = Bit.ofPlanes otherLow otherHigh ↔
      low = otherLow ∧ high = otherHigh := by
  cases low <;> cases high <;> cases otherLow <;> cases otherHigh <;> decide

/-- A word holds a masked word under its mask exactly if they agree there. -/
theorem BitWord.and_eq_iff
    {size : Nat}
    {word mask masked : BitVec size}
    (isMasked : masked &&& mask = masked) :
    word &&& mask = masked ↔ ∀ offset, mask.getLsbD offset = true →
      masked.getLsbD offset = word.getLsbD offset := by
  constructor
  · rintro rfl offset inMask
    rw [BitVec.getLsbD_and, inMask, Bool.and_true]
  · intro agree
    apply BitVec.eq_of_getLsbD_eq
    intro offset _
    rw [← isMasked, BitVec.getLsbD_and, BitVec.getLsbD_and]
    cases inMask : mask.getLsbD offset with
    | false => rw [Bool.and_false, Bool.and_false]
    | true => rw [agree offset inMask]

/-- A slice does not differ from a value under a mask exactly if putting it there
changes no bit. -/
theorem Slice.differs_eq_false_iff
    (kind : Kind)
    (slice : Slice 32)
    {mask low high : Word}
    (lowMasked : low &&& mask = low)
    (highMasked : high &&& mask = high) :
    slice.differs mask low high = false ↔
      ∀ offset < 32, ((slice.accept kind mask low high).cell offset).value =
        (slice.cell offset).value := by
  have same_iff (offset : Nat) (inWord : offset < 32) :
      ((slice.accept kind mask low high).cell offset).value = (slice.cell offset).value ↔
        (mask.getLsbD offset = true →
          low.getLsbD offset = (slice.get Plane.valueLow).getLsbD offset ∧
            high.getLsbD offset = (slice.get Plane.valueHigh).getLsbD offset) := by
    rw [Slice.cell_accept _ _ _ _ _ inWord]
    cases inMask : mask.getLsbD offset with
    | false => simp
    | true =>
        rw [if_pos rfl, Cell.value_accept, Cell.value, Bit.ofPlanes_inj]
        exact (imp_iff_right rfl).symm
  simp only [Slice.differs, Bool.or_eq_false_iff, decide_eq_false_iff_not, Decidable.not_not,
    BitWord.and_eq_iff lowMasked, BitWord.and_eq_iff highMasked]
  constructor
  · rintro ⟨sameLow, sameHigh⟩ offset inWord
    exact (same_iff offset inWord).2 fun inMask => ⟨sameLow offset inMask, sameHigh offset inMask⟩
  · intro agree
    have sameBits (offset : Nat) (inMask : mask.getLsbD offset = true) :=
      (same_iff offset (BitVec.lt_of_getLsbD inMask)).1
        (agree offset (BitVec.lt_of_getLsbD inMask)) inMask
    exact ⟨fun offset inMask => (sameBits offset inMask).1,
      fun offset inMask => (sameBits offset inMask).2⟩

/-- Settled words have no bit outside the mask. -/
theorem settle_masked (twoState : Bool) (mask low high : Word) :
    (settle twoState mask low high).1 &&& mask = (settle twoState mask low high).1 ∧
      (settle twoState mask low high).2 &&& mask = (settle twoState mask low high).2 := by
  cases twoState with
  | false => simp [settle, BitVec.and_assoc]
  | true => simp [settle, BitVec.and_assoc]

/-- No slice tells of a change exactly if the block shows its old values. -/
theorem Block.any_mapIdx_eq_false_iff
    (block : Block)
    (differs : Nat → Slice 32 → Bool)
    (change : Nat → Slice 32 → Slice 32)
    (agree : ∀ index slice, differs index slice = false ↔
      ∀ offset < 32, ((change index slice).cell offset).value = (slice.cell offset).value) :
    (block.mapIdx differs).any id = false ↔
      ∀ position, (Block.cell (block.mapIdx change) position).value =
        (block.cell position).value := by
  rw [Array.any_eq_false]
  simp only [Array.size_mapIdx, Array.getElem_mapIdx, id_eq, Bool.not_eq_true]
  constructor
  · intro same position
    by_cases inBounds : position < 32 * block.size
    · have wordInBounds : position / 32 < block.size := by omega
      have sameSlice := same (position / 32) wordInBounds
      rw [← block.slice_of_lt wordInBounds, agree] at sameSlice
      rw [cell_eq_slice_cell, slice_mapIdx _ _ wordInBounds]
      exact sameSlice (position % 32) (Nat.mod_lt _ (by decide))
    · have outside : 32 * block.size ≤ position := Nat.le_of_not_lt inBounds
      rw [cell_of_size_le _ (by simpa using outside), cell_of_size_le _ outside]
  · intro same index inBounds
    rw [← block.slice_of_lt inBounds, agree]
    intro offset inWord
    have sameCell := same (32 * index + offset)
    rwa [← cell_slice _ _ inWord, slice_mapIdx _ _ inBounds, ← cell_slice _ _ inWord] at sameCell

namespace LogicVector

/-- The gate answers yes exactly if it changes a value. -/
theorem assign_changed_iff
    {vector updated : LogicVector}
    {low high : Array Word}
    {lsb msb : Nat}
    {changed : Bool}
    (succeeds : vector.assign low high lsb msb = .ok (updated, changed)) :
    changed = true ↔
      ∃ position, (updated.cell position).value ≠ (vector.cell position).value := by
  unfold assign at succeeds
  obtain ⟨⟨⟩, -, succeeds⟩ := bind_eq_ok_iff.1 succeeds
  obtain ⟨⟨⟩, -, succeeds⟩ := bind_eq_ok_iff.1 succeeds
  obtain ⟨block, stored, succeeds⟩ := bind_eq_ok_iff.1 succeeds
  obtain ⟨⟨⟩, -, succeeds⟩ := bind_eq_ok_iff.1 succeeds
  cases succeeds
  rw [cell_eq_block_cell (block_withBlock vector _ (isAllocated_of_block stored)),
    cell_eq_block_cell stored, ← Bool.not_eq_false, Block.any_mapIdx_eq_false_iff,
    Classical.not_forall]
  intro index slice
  obtain ⟨lowMasked, highMasked⟩ := settle_masked vector.twoState
    (Mask.span lsb (msb + 1) index) (Words.word low index) (Words.word high index)
  exact slice.differs_eq_false_iff vector.kind lowMasked highMasked

/-- The gate only looks at the bits of the range. -/
theorem assign_congr
    {vector : LogicVector}
    {value other : Buffer}
    {lsb msb : Nat}
    (readable : vector.Readable)
    (inRange : lsb ≤ msb ∧ msb < vector.width)
    (canonical : value.Canonical)
    (otherCanonical : other.Canonical)
    (wide : value.width = vector.width)
    (otherWide : other.width = vector.width)
    (sameBits : ∀ position, lsb ≤ position → position ≤ msb →
      value.bit position = other.bit position) :
    vector.assign value.low value.high lsb msb = vector.assign other.low other.high lsb msb := by
  obtain ⟨block, stored⟩ := exists_block readable.isAllocated
  have inBlock : msb / 32 < block.size := by
    rw [(readable.wellFormed.block_fits block stored).size_eq]
    exact div_lt_wordCount inRange.2
  obtain ⟨changed, assigns⟩ :=
    assign_succeeds stored inRange (canonical.has_word (wide ▸ inRange.2)) inBlock
  obtain ⟨otherChanged, otherAssigns⟩ :=
    assign_succeeds stored inRange (otherCanonical.has_word (otherWide ▸ inRange.2)) inBlock
  obtain ⟨-, same⟩ := assign_buffer_eq_accept ⟨lsb, msb, value.bit⟩ wide assigns fun _ _ _ => rfl
  obtain ⟨-, otherSame⟩ := assign_buffer_eq_accept ⟨lsb, msb, value.bit⟩ otherWide otherAssigns
    fun position _ covered => (sameBits position covered.1 covered.2).symm
  rw [same] at assigns
  rw [otherSame] at otherAssigns
  have sameAnswer : changed = otherChanged :=
    Bool.eq_iff_iff.2 ((assign_changed_iff assigns).trans (assign_changed_iff otherAssigns).symm)
  rw [assigns, otherAssigns, sameAnswer]

/-- An update that gives a value passes the gate, or has nothing to give. -/
theorem exists_assign_of_update
    {vector updated : LogicVector}
    {change : Update LogicVector}
    {reply : Reply}
    (assigns : change.isAssigning = true)
    (succeeds : (vector.update change).result = .ok (updated, reply)) :
    ∃ changed, reply = .flag changed ∧
      ((∃ low high lsb msb, vector.assign low high lsb msb = .ok (updated, changed)) ∨
        (updated = vector ∧ changed = false)) := by
  cases change with
  | assign low high lsb msb =>
      obtain ⟨changed, gate, answers⟩ := Outcome.ofFlagged_eq_ok_iff.1 succeeds
      exact ⟨changed, answers, Or.inl ⟨_, _, _, _, liftM_fault_eq_ok_iff.1 gate⟩⟩
  | applyChange text msb lsb =>
      obtain ⟨changed, applies, answers⟩ := Outcome.ofFlagged_eq_ok_iff.1 succeeds
      unfold applyChange at applies
      obtain ⟨⟨⟩, -, applies⟩ := bind_eq_ok_iff.1 applies
      obtain ⟨bits, -, gate⟩ := bind_eq_ok_iff.1 applies
      exact ⟨changed, answers, Or.inl ⟨_, _, _, _, liftM_fault_eq_ok_iff.1 gate⟩⟩
  | setNat value =>
      obtain ⟨changed, gate, answers⟩ := Outcome.ofFlagged_eq_ok_iff.1 succeeds
      exact ⟨changed, answers, Or.inl ⟨_, _, _, _, liftM_fault_eq_ok_iff.1 gate⟩⟩
  | setWord value =>
      obtain ⟨changed, gate, answers⟩ := Outcome.ofFlagged_eq_ok_iff.1 succeeds
      exact ⟨changed, answers, Or.inl ⟨_, _, _, _, liftM_fault_eq_ok_iff.1 gate⟩⟩
  | setUnknown =>
      obtain ⟨changed, gate, answers⟩ := Outcome.ofFlagged_eq_ok_iff.1 succeeds
      exact ⟨changed, answers, Or.inl ⟨_, _, _, _, liftM_fault_eq_ok_iff.1 gate⟩⟩
  | extendFrom last =>
      obtain ⟨changed, fills, answers⟩ := Outcome.ofFlagged_eq_ok_iff.1 succeeds
      rw [liftM_fault_eq_ok_iff] at fills
      unfold extendFrom at fills
      obtain ⟨⟨⟩, -, fills⟩ := bind_eq_ok_iff.1 fills
      split at fills
      · cases fills
        exact ⟨_, answers, Or.inr ⟨rfl, rfl⟩⟩
      · obtain ⟨bit, -, gate⟩ := bind_eq_ok_iff.1 fills
        exact ⟨changed, answers, Or.inl ⟨_, _, _, _, gate⟩⟩
  | setValue source =>
      obtain ⟨changed, sets, answers⟩ := Outcome.ofFlagged_eq_ok_iff.1 succeeds
      rw [liftM_fault_eq_ok_iff] at sets
      obtain ⟨value, -, gate⟩ := bind_eq_ok_iff.1 sets
      exact ⟨changed, answers, Or.inl ⟨_, _, _, _, gate⟩⟩
  | commit value =>
      obtain ⟨changed, gate, answers⟩ := Outcome.ofFlagged_eq_ok_iff.1 succeeds
      exact ⟨changed, answers, Or.inl ⟨_, _, _, _, liftM_fault_eq_ok_iff.1 gate⟩⟩
  | operate operation =>
      obtain ⟨⟨_, changed⟩, operates, same⟩ := Outcome.result_map_eq_ok_iff.1 succeeds
      cases same
      unfold operate at operates
      split at operates
      · contradiction
      · exact ⟨changed, rfl, Or.inl ⟨_, _, _, _, liftM_fault_eq_ok_iff.1 operates⟩⟩
  | setSigned | setTwoState | claim | copyFrom | copyRange | merge | resetCoverage
  | evaluateUnary | evaluate | mergeRecord => contradiction

/-- An update that gives a value answers yes exactly if it changes one. -/
theorem update_changed_iff
    {vector updated : LogicVector}
    {change : Update LogicVector}
    {reply : Reply}
    (assigns : change.isAssigning = true)
    (succeeds : (vector.update change).result = .ok (updated, reply)) :
    ∃ changed, reply = .flag changed ∧ (changed = true ↔
      ∃ position, (updated.cell position).value ≠ (vector.cell position).value) := by
  obtain ⟨changed, answers, ⟨low, high, lsb, msb, gate⟩ | ⟨rfl, rfl⟩⟩ :=
    exists_assign_of_update assigns succeeds
  · exact ⟨changed, answers, assign_changed_iff gate⟩
  · exact ⟨false, answers, by simp⟩

end LogicVector

/-! ## The reach of an update -/

/-- The positions of a vector of the width that an update with a value covers. -/
def Update.Reaches (width : Nat) (change : Update LogicVector) (position : Nat) : Prop :=
  match change with
  | .assign _ _ lsb msb => lsb ≤ position ∧ position ≤ msb
  | .applyChange _ msb lsb => lsb ≤ position ∧ position ≤ msb
  | .operate (.partAssign _ lsb msb) => lsb ≤ position ∧ position ≤ msb
  | .setValue source => position < width ∧ position < source.width
  | .extendFrom last => last < position ∧ position < width
  | _ => position < width

namespace LogicVector

/-- The reach of an operation is its range. -/
theorem reaches_operate_iff
    {width : Nat}
    (notEmpty : 0 < width)
    (operation : Operation LogicVector)
    (position : Nat) :
    (Update.operate operation).Reaches width position ↔
      (operation.range width).1 ≤ position ∧ position ≤ (operation.range width).2 := by
  have wholeRange : position < width ↔ 0 ≤ position ∧ position ≤ width - 1 := by omega
  cases operation with
  | partAssign source lsb msb => exact Iff.rfl
  | _ => exact wholeRange

/-- The assignment of a successful update covers its reach. -/
theorem reaches_iff_covers
    {vector updated : LogicVector}
    {change : Update LogicVector}
    {reply : Reply}
    {assignment : Assignment}
    (sourceNotEmpty : ∀ source, change = .setValue source → 0 < source.width)
    (carried : vector.assignment? change = some assignment)
    (succeeds : (vector.update change).result = .ok (updated, reply))
    (position : Nat) :
    change.Reaches vector.width position ↔ assignment.Covers position := by
  obtain ⟨⟨ordered, inside⟩, -⟩ := update_eq_accept carried succeeds
  have notEmpty : 0 < vector.width := Nat.lt_of_le_of_lt (Nat.zero_le _) inside
  have wholeRange (bit : Nat → Bit) : position < vector.width ↔
      (vector.whole bit).Covers position := by
    simp only [Assignment.Covers, whole]
    omega
  cases change with
  | assign low high lsb msb =>
      cases carried
      exact Iff.rfl
  | applyChange text msb lsb =>
      simp only [assignment?] at carried
      split at carried
      · cases carried
        exact Iff.rfl
      · contradiction
  | setNat | setWord | setUnknown | commit =>
      cases carried
      exact wholeRange _
  | extendFrom last =>
      simp only [assignment?] at carried
      split at carried
      · split at carried
        · cases carried
          simp only [Update.Reaches, Assignment.Covers]
          omega
        · contradiction
      · contradiction
  | setValue source =>
      have sourcePositive := sourceNotEmpty source rfl
      simp only [assignment?] at carried
      split at carried
      · cases carried
        simp only [Update.Reaches, Assignment.Covers]
        omega
      · contradiction
  | operate operation =>
      rw [reaches_operate_iff notEmpty]
      simp only [assignment?] at carried
      split at carried
      · cases carried
        exact Iff.rfl
      · contradiction
  | setSigned | setTwoState | claim | copyFrom | copyRange | merge | resetCoverage
  | evaluateUnary | evaluate | mergeRecord => contradiction

/-- A successful update without an assignment reaches nothing. -/
theorem not_reaches
    {vector updated : LogicVector}
    {change : Update LogicVector}
    {reply : Reply}
    (assigns : change.isAssigning = true)
    (carriesNone : vector.assignment? change = none)
    (succeeds : (vector.update change).result = .ok (updated, reply))
    (position : Nat) :
    ¬change.Reaches vector.width position := by
  obtain ⟨last, rfl, atTop, -⟩ := extendFrom_of_assignment?_eq_none assigns carriesNone succeeds
  simp only [Update.Reaches]
  omega

/-! ## Vectors behind the gate -/

/-- A vector before and after an update that gives it a value, with the answer of
the update.  In a memory, bits may have been noted as read at the same time. -/
structure Gated
    (change : Update LogicVector)
    (noted : Nat → Prop)
    (reply : Reply)
    (before after : LogicVector) : Prop where
  header_eq : after.toHeader = before.toHeader
  isOwned_eq : after.storage.isOwned = before.storage.isOwned
  isAllocated : after.storage.isAllocated = true
  /-- Nothing changes outside the reach of the update. -/
  outside : ∀ position, ¬change.Reaches before.width position →
    after.cell position = before.cell position
  /-- Inside the reach of the update, cells are given the bits of its assignment; a
  two-state vector takes zeros for unknown ones. -/
  inside : ∀ position, change.Reaches before.width position →
    ∃ assignment, before.assignment? change = some assignment ∧
      Cell.Gated before.kind
        (if before.twoState then (assignment.bit position).collapse else assignment.bit position)
        (noted position) (before.cell position) (after.cell position)
  /-- The answer is yes exactly if a value changes. -/
  answers : ∃ changed, reply = .flag changed ∧ (changed = true ↔
    ∃ position, (after.cell position).value ≠ (before.cell position).value)

/-- An update that gives a value passes the gate. -/
theorem gated_of_update
    {clipped : Plane → Prop}
    {vector updated : LogicVector}
    {change : Update LogicVector}
    {reply : Reply}
    (wellFormed : vector.WellFormed clipped)
    (allocated : vector.storage.isAllocated = true)
    (sourceNotEmpty : ∀ source, change = .setValue source → 0 < source.width)
    (assigns : change.isAssigning = true)
    (succeeds : (vector.update change).result = .ok (updated, reply)) :
    vector.Gated change (fun _ => False) reply updated := by
  have answers := update_changed_iff assigns succeeds
  cases carried : vector.assignment? change with
  | none =>
      cases update_eq_self assigns carried succeeds
      have noReach := not_reaches assigns carried succeeds
      exact {
        header_eq := rfl
        isOwned_eq := rfl
        isAllocated := allocated
        outside := fun _ _ => rfl
        inside := fun position reached => absurd reached (noReach position)
        answers }
  | some assignment =>
      obtain ⟨block, stored⟩ := exists_block allocated
      obtain ⟨⟨-, lastInside⟩, rfl⟩ := update_eq_accept carried succeeds
      have reaches_iff := reaches_iff_covers sourceNotEmpty carried succeeds
      exact {
        header_eq := rfl
        isOwned_eq := Storage.isOwned_map _ _
        isAllocated := (Storage.isAllocated_map _ _).trans allocated
        outside := by
          intro position notReached
          have notCovered : ¬assignment.Covers position :=
            fun covered => notReached ((reaches_iff position).2 covered)
          funext plane
          exact vector.bit_alter_of_keeps fun cell => congrFun (if_neg notCovered) plane
        inside := by
          intro position reached
          have covered := (reaches_iff position).1 reached
          have inBounds : position < 32 * block.size := by
            rw [(wellFormed.block_fits block stored).size_eq]
            exact Nat.lt_of_le_of_lt covered.2
              (Nat.lt_of_lt_of_le lastInside (le_wordCount _))
          refine ⟨assignment, carried, ?_⟩
          rw [accept, cell_alter stored _ inBounds, Assignment.change,
            if_pos ((Assignment.covers_settle _ _ _).2 covered)]
          exact Cell.gated_accept _ _ _
        answers }

/-- Reads that are noted in the reach of the update show besides. -/
theorem Gated.noteRead
    {clipped : Plane → Prop}
    {before after : LogicVector}
    {change : Update LogicVector}
    {reply : Reply}
    (gated : before.Gated change (fun _ => False) reply after)
    (wellFormed : after.WellFormed clipped)
    {isRead : Nat → Bool}
    (readsInside : ∀ position, isRead position = true → position < before.width ∧
      change.Reaches before.width position) :
    before.Gated change (fun position => isRead position = true) reply
      (after.noteRead isRead) := by
  obtain ⟨block, stored⟩ := exists_block gated.isAllocated
  have sameWidth : after.width = before.width := congrArg Header.width gated.header_eq
  have sameKind : after.kind = before.kind := congrArg Header.kind gated.header_eq
  have cells (position : Nat) : (after.noteRead isRead).cell position =
      (after.cell position).mark (Cell.readMarks before.kind (isRead position)) := by
    rw [← sameKind]
    apply cell_noteRead stored
    intro reads
    rw [(wellFormed.block_fits block stored).size_eq, sameWidth]
    exact Nat.lt_of_lt_of_le (readsInside position reads).1 (le_wordCount _)
  exact {
    header_eq := gated.header_eq
    isOwned_eq := (isOwned_noteRead _ _).trans gated.isOwned_eq
    isAllocated := (isAllocated_noteRead _ _).trans gated.isAllocated
    outside := by
      intro position notReached
      have unread : isRead position = false := by
        rw [← Bool.not_eq_true]
        exact fun reads => notReached (readsInside position reads).2
      rw [cells, unread, Cell.mark_readMarks_false, gated.outside position notReached]
    inside := by
      intro position reached
      obtain ⟨assignment, carried, cell⟩ := gated.inside position reached
      refine ⟨assignment, carried, ?_⟩
      rw [cells]
      exact cell.mark _
    answers := by
      obtain ⟨changed, isFlag, changed_iff⟩ := gated.answers
      refine ⟨changed, isFlag, ?_⟩
      simpa only [cells, Cell.value_mark] using changed_iff }

end LogicVector
end FourState
