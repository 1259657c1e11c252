import FourState.Proofs.Preservation

/-!
# Copied and resized planes

Copying a range and changing the width treat all planes alike.  Each is settled by
one equation for the cell at a position; what a widened and narrowed vector has, and
that a range from the lowest bit on is a copy, is read off these equations.
-/

namespace FourState
namespace LogicVector

variable {clipped : Plane → Prop} {vector source resized : LogicVector}

/-- No plane has a bit past the width. -/
def EndsAtWidth (vector : LogicVector) : Prop :=
  ∀ position, vector.width ≤ position → vector.cell position = Cell.empty

theorem WellFormed.endsAtWidth (wellFormed : vector.WellFormed fun _ => True) :
    vector.EndsAtWidth :=
  fun _ outside => funext fun plane => wellFormed.cell_of_width_le outside plane

/-- Copying the planes that a vector has leaves it as it is. -/
theorem copyFrom_of_same_block
    {block : Block}
    (stored : vector.block = .ok block)
    (sourceStored : source.block = .ok block)
    (sameWidth : source.width = vector.width)
    (sameKind : source.kind = vector.kind) :
    vector.copyFrom source = .ok vector := by
  rw [copyFrom, require_bind_of_true sameWidth.symm, require_bind_of_true sameKind.symm,
    sourceStored, stored]
  exact congrArg Except.ok (withBlock_eq_self stored)

/-! ## Ranges -/

/-- Cells that are put in place of the old ones are there, if they end at the width. -/
theorem cell_alter_replace
    (wellFormed : vector.WellFormed clipped)
    (allocated : vector.storage.isAllocated = true)
    {cells : Nat → Cell}
    (ends : ∀ position, vector.width ≤ position → cells position = Cell.empty)
    (position : Nat) :
    (vector.alter (Effect.replace cells).apply).cell position = cells position := by
  obtain ⟨block, stored⟩ := exists_block allocated
  have fits := wellFormed.block_fits block stored
  by_cases inBounds : position < 32 * block.size
  · exact cell_alter stored _ inBounds
  · have enough := le_wordCount vector.width
    have outside : vector.width ≤ position := by
      rw [fits.size_eq] at inBounds
      omega
    rw [ends position outside, cell_eq_block_cell (block_alter stored _),
      Block.cell_of_size_le _ (by simpa using inBounds)]

/-- A range that starts inside a source of the same kind can be copied.  Every plane
has the bits of the range then, and zeros past the end of the source. -/
theorem exists_copyRange
    (readable : vector.Readable)
    (sourceAllocated : source.storage.isAllocated = true)
    (sameKind : vector.kind = source.kind)
    {lsb : Nat}
    (inSource : lsb < source.width) :
    ∃ updated, vector.copyRange source lsb = .ok updated ∧
      updated.toHeader = vector.toHeader ∧
      ∀ position, updated.cell position =
        if position < vector.width ∧ lsb + position < source.width then
          source.cell (lsb + position)
        else Cell.empty := by
  obtain ⟨block, stored⟩ := exists_block readable.isAllocated
  obtain ⟨copied, sourceStored⟩ := exists_block sourceAllocated
  obtain ⟨updated, copies⟩ : ∃ updated, vector.copyRange source lsb = .ok updated := by
    rw [copyRange, require_bind_of_true sameKind, require_bind_of_true inSource, sourceStored,
      stored]
    exact ⟨_, rfl⟩
  obtain ⟨-, same⟩ := copyRange_eq_alter readable.wellFormed copies
  refine ⟨updated, copies, by rw [same, toHeader_alter], ?_⟩
  rw [same]
  apply cell_alter_replace readable.wellFormed readable.isAllocated
  intro position outside
  rw [if_neg fun inside => Nat.not_lt.2 outside inside.1]

/-- The range from the lowest bit of a vector of the same width is all of it. -/
theorem copyRange_zero_eq_copyFrom
    (readable : vector.Readable)
    (sourceReadable : source.Readable)
    (sameWidth : vector.width = source.width)
    (sameKind : vector.kind = source.kind)
    (ends : source.EndsAtWidth) :
    ∃ updated, vector.copyFrom source = .ok updated ∧
      vector.copyRange source 0 = .ok updated := by
  obtain ⟨block, stored⟩ := exists_block readable.isAllocated
  obtain ⟨copied, sourceStored⟩ := exists_block sourceReadable.isAllocated
  obtain ⟨updated, copies⟩ : ∃ updated, vector.copyFrom source = .ok updated := by
    rw [copyFrom, require_bind_of_true sameWidth, require_bind_of_true sameKind, sourceStored,
      stored]
    exact ⟨_, rfl⟩
  obtain ⟨ranged, copiesRange, -⟩ := exists_copyRange readable sourceReadable.isAllocated sameKind
    sourceReadable.wellFormed.width_pos
  obtain ⟨-, -, isCopy⟩ :=
    copyFrom_eq_alter readable.wellFormed sourceReadable.wellFormed copies
  obtain ⟨-, isRange⟩ := copyRange_eq_alter readable.wellFormed copiesRange
  refine ⟨updated, copies, ?_⟩
  rw [copiesRange, isRange, isCopy]
  refine congrArg Except.ok (alter_congr fun position => ?_)
  simp only [Effect.apply, Nat.zero_add, sameWidth, and_self]
  split
  · rfl
  · rename_i outside
    exact (ends position (Nat.not_lt.1 outside)).symm

/-! ## Widths -/

/-- The other vector is the vector at another width: below both widths it has the cells of
the vector, and above them it is as new.  It has words of its own. -/
structure IsResized (vector : LogicVector) (width : Nat) (resized : LogicVector) : Prop where
  header_eq : resized.toHeader = { vector.toHeader with width }
  isOwned : resized.storage.isOwned = true
  cell_kept : ∀ position < min width vector.width,
    resized.cell position = vector.cell position
  coverage_new : ∀ position, vector.width ≤ position → ∀ plane : Plane,
    plane.isCoverage = true → resized.cell position plane = false
  value_new : ∀ position, vector.width ≤ position → position < width →
    resized.bit? position =
      some (if vector.kind = .plain ∨ vector.twoState = true then .zero else .x)
  endsAtWidth : resized.EndsAtWidth

/-- The cell at a position of a vector that has been resized. -/
theorem cell_resize
    (allocated : vector.storage.isAllocated = true)
    {width : Nat}
    (succeeds : vector.resize width = .ok resized)
    (position : Nat) :
    resized.cell position =
      if position < min width vector.width then vector.cell position
      else
        (Block.initial width (vector.kind.startsUnknown && !vector.twoState)).cell position := by
  obtain ⟨block, stored⟩ := exists_block allocated
  unfold resize at succeeds
  obtain ⟨⟨⟩, -, succeeds⟩ := bind_eq_ok_iff.1 succeeds
  rw [(block_eq_ok_iff _ _).1 stored] at succeeds
  cases succeeds
  rw [cell_eq_block_cell stored]
  by_cases inBounds : position < 32 * (Block.initial width
      (vector.kind.startsUnknown && !vector.twoState)).size
  · exact cell_resized _ block _ position inBounds
  · have outside := Nat.not_lt.1 inBounds
    have enough := le_wordCount width
    have notKept : ¬position < min width vector.width := by
      rw [Block.size_initial] at outside
      omega
    rw [if_neg notKept, Block.cell_of_size_le _ outside]
    exact Block.cell_of_size_le _ (by rwa [Array.size_mapIdx])

/-- A vector can be resized to every width inside the limits. -/
theorem exists_resize
    (allocated : vector.storage.isAllocated = true)
    {width : Nat}
    (inLimits : 0 < width ∧ width ≤ maxWidth) :
    ∃ resized, vector.resize width = .ok resized ∧ vector.IsResized width resized := by
  obtain ⟨resized, resizes, sameHeader, owned⟩ : ∃ resized, vector.resize width = .ok resized ∧
      resized.toHeader = { vector.toHeader with width } ∧ resized.storage.isOwned = true := by
    rw [resize, require_bind_of_true inLimits]
    exact ⟨_, rfl, rfl, rfl⟩
  have cells := cell_resize allocated resizes
  have notKept {position : Nat} (outside : width ≤ position ∨ vector.width ≤ position) :
      ¬position < min width vector.width := by omega
  refine ⟨resized, resizes, sameHeader, owned, ?_, ?_, ?_, ?_⟩
  · intro position below
    rw [cells, if_pos below]
  · intro position outside plane coverage
    rw [cells, if_neg (notKept (Or.inr outside)), Block.cell_initial_of_isCoverage _ _ _ coverage]
  · intro position outside inside
    have sameWidth : resized.width = width := congrArg Header.width sameHeader
    rw [bit?_eq_cell_value (Storage.isAllocated_of_isOwned owned) (sameWidth ▸ inside), cells,
      if_neg (notKept (Or.inr outside)), Block.value_cell_initial inside]
    cases vector.kind <;> cases vector.twoState <;> rfl
  · intro position outside
    rw [sameHeader] at outside
    rw [cells, if_neg (notKept (Or.inl outside)), Block.cell_initial]
    funext plane
    simp [Nat.not_lt.2 outside]

/-- A vector that is widened and then narrowed again has its cells back. -/
theorem IsResized.restores
    {widened restored : LogicVector}
    {width : Nat}
    (widens : vector.IsResized width widened)
    (narrows : widened.IsResized vector.width restored)
    (wider : vector.width ≤ width)
    (ends : vector.EndsAtWidth) :
    restored.toHeader = vector.toHeader ∧ ∀ position, restored.cell position = vector.cell position := by
  have widenedWidth : widened.width = width := congrArg Header.width widens.header_eq
  have sameHeader : restored.toHeader = vector.toHeader := by
    rw [narrows.header_eq, widens.header_eq]
  refine ⟨sameHeader, fun position => ?_⟩
  by_cases inside : position < vector.width
  · rw [narrows.cell_kept position (by omega), widens.cell_kept position (by omega)]
  · have outside := Nat.not_lt.1 inside
    rw [ends position outside, narrows.endsAtWidth position (by rwa [sameHeader])]

end LogicVector
end FourState
