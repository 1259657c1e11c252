import FourState.LogicVector.Copy
import FourState.Proofs.Buffer

/-!
# Well-formed vectors

A well-formed vector has a width inside the limits, the number of words that
its width needs, no bit in a plane that its kind does not use, and no bit past
its width in the clipped planes.  Which planes are clipped is left open: the
value planes always are, the coverage planes unless evaluations of wider
operands are recorded.  The value of a well-formed vector is a canonical buffer.
-/

namespace FourState

/-! ## Cells, blocks and vectors that fit -/

/-- A cell holds bits of live planes only, and bits of clipped planes only
inside the width. -/
def Cell.Fits
    (clipped : Plane → Prop)
    (width : Nat)
    (kind : Kind)
    (position : Nat)
    (cell : Cell) : Prop :=
  ∀ plane, cell plane = true →
    plane.val < kind.planeCount ∧ (clipped plane → position < width)

/-- A block has the words that the width needs, and all its cells fit. -/
structure Block.Fits
    (clipped : Plane → Prop)
    (width : Nat)
    (kind : Kind)
    (block : Block) : Prop where
  /-- The words hold all positions, and the last one is needed. -/
  size_eq : block.size = wordCount width
  /-- Every cell fits its position. -/
  cell_fits : ∀ position, (block.cell position).Fits clipped width kind position

/-- A vector whose width is inside the limits and whose words, if there are any,
fit its width and kind. -/
structure LogicVector.WellFormed (clipped : Plane → Prop) (vector : LogicVector) : Prop where
  width_pos : 0 < vector.width
  width_le : vector.width ≤ maxWidth
  block_fits : ∀ block, vector.block = .ok block →
    block.Fits clipped vector.width vector.kind

/-- A well-formed vector with words, so that its value can be read. -/
structure LogicVector.Readable (vector : LogicVector) : Prop where
  isAllocated : vector.storage.isAllocated = true
  wellFormed : vector.WellFormed fun plane => plane.isCoverage = false

section

variable {clipped : Plane → Prop} {width : Nat} {kind : Kind}

namespace Cell

theorem fits_empty (position : Nat) : empty.Fits clipped width kind position := by
  intro plane set
  simp at set

/-- A cell in which a bit is set only where an other cell has one fits as well. -/
theorem Fits.mono
    {position : Nat}
    {smaller larger : Cell}
    (fits : larger.Fits clipped width kind position)
    (included : ∀ plane, smaller plane = true → larger plane = true) :
    smaller.Fits clipped width kind position :=
  fun plane set => fits plane (included plane set)

/-- Inside the width, live planes are the only condition. -/
theorem fits_of_lt
    {position : Nat}
    {cell : Cell}
    (inside : position < width)
    (live : ∀ plane, cell plane = true → plane.val < kind.planeCount) :
    cell.Fits clipped width kind position :=
  fun plane set => ⟨live plane set, fun _ => inside⟩

end Cell

namespace Block

/-- A block whose cells all fit after a change still fits. -/
theorem Fits.alter
    {block : Block}
    (fits : block.Fits clipped width kind)
    {change : Nat → Cell → Cell}
    (confined : ∀ position cell, cell.Fits clipped width kind position →
      (change position cell).Fits clipped width kind position) :
    (block.alter change).Fits clipped width kind where
  size_eq := by
    rw [size_alter, fits.size_eq]
  cell_fits := by
    intro position
    by_cases inBounds : position < 32 * block.size
    · rw [cell_alter _ _ inBounds]
      exact confined position _ (fits.cell_fits position)
    · rw [cell_of_size_le _ (by simpa using inBounds)]
      exact Cell.fits_empty position

/-- A bit in a plane that the kind does not use is clear. -/
theorem Fits.bit_of_planeCount_le
    {block : Block}
    (fits : block.Fits clipped width kind)
    {plane : Plane}
    (dead : kind.planeCount ≤ plane.val)
    (position : Nat) :
    block.bit plane position = false := by
  rw [Bool.eq_false_iff]
  intro set
  exact Nat.not_lt.2 dead (fits.cell_fits position plane set).1

/-- A word of a plane that the kind does not use is zero. -/
theorem Fits.get_slice_of_not_hasPlane
    {block : Block}
    (fits : block.Fits clipped width kind)
    {plane : Plane}
    (dead : kind.hasPlane plane = false)
    (index : Nat) :
    (block.slice index).get plane = 0 := by
  have unused : kind.planeCount ≤ plane.val := by simpa [Kind.hasPlane] using dead
  refine BitVec.eq_of_getLsbD_eq fun offset inWord => ?_
  have sameWord : (32 * index + offset) / 32 = index := by omega
  have sameOffset : (32 * index + offset) % 32 = offset := by omega
  have clear := fits.bit_of_planeCount_le unused (32 * index + offset)
  rw [bit, sameWord, sameOffset] at clear
  exact clear.trans BitVec.getLsbD_zero.symm

/-- A bit of a clipped plane is clear past the width. -/
theorem Fits.bit_of_width_le
    {block : Block}
    (fits : block.Fits clipped width kind)
    {plane : Plane}
    (isClipped : clipped plane)
    {position : Nat}
    (outside : width ≤ position) :
    block.bit plane position = false := by
  rw [Bool.eq_false_iff]
  intro set
  exact Nat.not_lt.2 outside ((fits.cell_fits position plane set).2 isClipped)

/-- The value past the width is a known zero if the value planes are clipped. -/
theorem Fits.value_of_width_le
    {block : Block}
    (fits : block.Fits clipped width kind)
    (clipsValue : ∀ plane, plane.isCoverage = false → clipped plane)
    {position : Nat}
    (outside : width ≤ position) :
    block.value position = Bit.zero :=
  (Bit.ofPlanes_eq_zero_iff _ _).2 ⟨fits.bit_of_width_le (clipsValue _ rfl) outside,
    fits.bit_of_width_le (clipsValue _ rfl) outside⟩

/-! ## New blocks -/

/-- The cells of a new block: nothing set but the high value bits of unknowns. -/
theorem cell_initial (width : Nat) (unknown : Bool) (position : Nat) :
    (initial width unknown).cell position = fun plane =>
      decide (plane = Plane.valueHigh ∧ position < width) && unknown := by
  have inWords := le_wordCount width
  funext plane
  by_cases inBounds : position < 32 * wordCount width
  · have wordInBounds : position / 32 < (initial width unknown).size := by
      rw [size_initial]
      omega
    have inWord : position % 32 < 32 := Nat.mod_lt _ (by decide)
    have joined : 32 * (position / 32) + position % 32 = position := Nat.div_add_mod position 32
    rw [cell_eq_slice_cell, slice_of_lt _ wordInBounds]
    simp only [initial, Array.getElem_ofFn, Slice.cell, Slice.bit, Slice.ofValue,
      Slice.get_ofPlanes]
    by_cases isLow : plane = Plane.valueLow
    · simp [isLow]
    · by_cases isHigh : plane = Plane.valueHigh
      · cases unknown with
        | false => simp [isHigh]
        | true =>
            have notLow : ¬Plane.valueHigh = Plane.valueLow := by decide
            have inMask := Mask.getLsbD_inside width (position / 32) inWord
            rw [joined] at inMask
            simp only [isHigh, notLow, if_true, if_false, inMask, true_and, Bool.and_true]
      · simp [isLow, isHigh]
  · have outside : ¬position < width := by omega
    rw [cell_of_size_le _ (by simpa using inBounds)]
    simp [outside]

/-- New words have no coverage. -/
theorem cell_initial_of_isCoverage
    (width : Nat)
    (unknown : Bool)
    (position : Nat)
    {plane : Plane}
    (coverage : plane.isCoverage = true) :
    (initial width unknown).cell position plane = false := by
  have notHigh : plane ≠ Plane.valueHigh := by
    rintro rfl
    contradiction
  rw [cell_initial]
  simp [notHigh]

/-- New bits are all `x` or all zeros. -/
theorem value_cell_initial
    {width position : Nat}
    (inside : position < width)
    (unknown : Bool) :
    ((initial width unknown).cell position).value = if unknown then Bit.x else Bit.zero := by
  rw [cell_initial, Cell.value]
  cases unknown with
  | false =>
      simp only [Bool.and_false]
      rfl
  | true =>
      simp only [inside]
      rfl

theorem fits_initial (width : Nat) (unknown : Bool) :
    (initial width unknown).Fits clipped width kind where
  size_eq := size_initial width unknown
  cell_fits := by
    intro position plane set
    rw [cell_initial] at set
    obtain ⟨⟨rfl, inside⟩, -⟩ : (plane = Plane.valueHigh ∧ position < width) ∧ unknown = true := by
      simpa using set
    refine ⟨?_, fun _ => inside⟩
    cases kind <;> decide

/-- Restricting to a width keeps the cells inside it and empties all others. -/
theorem cell_restrict (block : Block) (width position : Nat) :
    (block.restrict width).cell position =
      if position < width then block.cell position else Cell.empty := by
  by_cases inBounds : position < 32 * block.size
  · have wordInBounds : position / 32 < block.size := by omega
    have inWord : position % 32 < 32 := Nat.mod_lt _ (by decide)
    have joined : 32 * (position / 32) + position % 32 = position := Nat.div_add_mod position 32
    funext plane
    rw [cell_eq_slice_cell, restrict, slice_mapIdx _ _ wordInBounds]
    simp only [Slice.cell, Slice.bit, Slice.get_restrict, BitVec.getLsbD_and]
    rw [Mask.getLsbD_inside _ _ inWord, joined]
    by_cases inside : position < width
    · simp only [inside, decide_true, Bool.and_true, if_true]
      rfl
    · simp [inside]
  · rw [cell_of_size_le _ (by simpa using inBounds), cell_of_size_le _ (by simpa using inBounds)]
    simp

end Block

/-! ## Values of well-formed vectors -/

namespace LogicVector

/-- The value of an allocated vector can be read. -/
theorem ofVector_eq_ok
    {vector : LogicVector}
    {block : Block}
    (stored : vector.block = .ok block) :
    Buffer.ofVector vector = .ok {
      width := vector.width
      signed := vector.signed
      low := block.map fun slice => slice.get Plane.valueLow
      high := block.map fun slice => slice.get Plane.valueHigh } := by
  rw [Buffer.ofVector, stored]
  rfl

/-- A vector's value can be read exactly when it is allocated. -/
theorem ofVector_succeeds_iff (vector : LogicVector) :
    (∃ value, Buffer.ofVector vector = .ok value) ↔ vector.storage.isAllocated = true := by
  constructor
  · rintro ⟨value, reads⟩
    obtain ⟨block, stored, -⟩ := bind_eq_ok_iff.1 reads
    exact isAllocated_of_block stored
  · intro allocated
    obtain ⟨block, stored⟩ := exists_block allocated
    exact ⟨_, ofVector_eq_ok stored⟩

/-- The words of a vector make a canonical buffer if they are as many as the width needs and no
value bit is set past it. -/
theorem canonical_ofVector
    {vector : LogicVector}
    {block : Block}
    (stored : vector.block = .ok block)
    (sized : block.size = wordCount vector.width)
    (ends : ∀ position, vector.width ≤ position → block.value position = Bit.zero)
    {value : Buffer}
    (reads : Buffer.ofVector vector = .ok value) :
    value.Canonical := by
  rw [ofVector_eq_ok stored] at reads
  cases reads
  have clear (position : Nat) (outside : vector.width ≤ position) :=
    (Bit.ofPlanes_eq_zero_iff _ _).1 (ends position outside)
  refine ⟨by simpa using sized, by simpa using sized, ?_, ?_⟩
  · intro position outside
    exact (Words.bit_map_get block _ position).trans (clear position outside).1
  · intro position outside
    exact (Words.bit_map_get block _ position).trans (clear position outside).2

/-- A well-formed vector gives a canonical buffer with its bits. -/
theorem WellFormed.ofVector
    {vector : LogicVector}
    (wellFormed : vector.WellFormed clipped)
    (clipsValue : ∀ plane, plane.isCoverage = false → clipped plane)
    {block : Block}
    (stored : vector.block = .ok block) :
    ∃ value, Buffer.ofVector vector = .ok value ∧ value.Canonical ∧
      value.width = vector.width ∧ value.signed = vector.signed ∧
      ∀ position, value.bit position = block.value position := by
  have fits := wellFormed.block_fits block stored
  have ends (position : Nat) (outside : vector.width ≤ position) :=
    fits.value_of_width_le clipsValue outside
  have reads := ofVector_eq_ok stored
  refine ⟨_, reads, canonical_ofVector stored fits.size_eq ends reads, rfl, rfl, ?_⟩
  intro position
  by_cases inside : position < vector.width
  · rw [Buffer.bit_of_lt _ inside, Words.bit_map_get, Words.bit_map_get]
    rfl
  · have outside : vector.width ≤ position := Nat.not_lt.1 inside
    rw [Buffer.bit_of_width_le _ outside, ends position outside]

/-! ## New vectors -/

theorem create_wellFormed
    {allocate : Bool}
    {vector : LogicVector}
    (succeeds : create width kind allocate = .ok vector) :
    vector.WellFormed clipped := by
  unfold create at succeeds
  obtain ⟨⟨⟩, positive, succeeds⟩ := bind_eq_ok_iff.1 succeeds
  obtain ⟨⟨⟩, inLimit, succeeds⟩ := bind_eq_ok_iff.1 succeeds
  cases succeeds
  refine ⟨require_eq_ok_iff.1 positive, require_eq_ok_iff.1 inLimit, ?_⟩
  intro block stored
  rw [block_eq_ok_iff] at stored
  cases allocate with
  | false => cases stored
  | true =>
      cases stored
      exact Block.fits_initial width _

/-- A new vector with words can be read. -/
theorem create_readable
    {vector : LogicVector}
    (succeeds : create width kind true = .ok vector) :
    vector.Readable := by
  refine ⟨?_, create_wellFormed succeeds⟩
  unfold create at succeeds
  obtain ⟨⟨⟩, -, succeeds⟩ := bind_eq_ok_iff.1 succeeds
  obtain ⟨⟨⟩, -, succeeds⟩ := bind_eq_ok_iff.1 succeeds
  cases succeeds
  rfl

end LogicVector

end

end FourState
