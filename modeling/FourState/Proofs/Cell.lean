import FourState.LogicVector.Basic

/-!
# Cells

A cell is the column of bits that one position has in all planes.  A block is
determined by its number of words and its cells.  Every operation that looks at
one position at a time is a change of cells, and `LogicVector.alter` is the
general form of such a change; it keeps the header and the place of the words.
-/

namespace FourState

/-- The bits of all planes at one position. -/
abbrev Cell := Plane → Bool

namespace Cell

/-- The cell without a set bit. -/
def empty : Cell :=
  fun _ => false

/-- The value bit of a cell. -/
def value (cell : Cell) : Bit :=
  Bit.ofPlanes (cell Plane.valueLow) (cell Plane.valueHigh)

/-- Add bits to the coverage planes of a cell. -/
def mark (cell marks : Cell) : Cell := fun plane =>
  cell plane || (plane.isCoverage && marks plane)

@[simp] theorem empty_apply (plane : Plane) : empty plane = false :=
  rfl

/-- Marking leaves the value as it is. -/
@[simp] theorem value_mark (cell marks : Cell) : (cell.mark marks).value = cell.value := by
  have low : Plane.isCoverage Plane.valueLow = false := rfl
  have high : Plane.isCoverage Plane.valueHigh = false := rfl
  simp [value, mark, low, high]

end Cell

/-! ## Cells of slices and blocks -/

/-- The cell at an offset of a slice. -/
def Slice.cell (slice : Slice 32) (offset : Nat) : Cell :=
  fun plane => slice.bit plane offset

/-- A slice is determined by its cells. -/
theorem Slice.ext_cell
    {first second : Slice 32}
    (sameCells : ∀ offset < 32, first.cell offset = second.cell offset) :
    first = second := by
  apply Slice.ext
  intro plane
  apply BitVec.eq_of_getLsbD_eq
  intro offset inWord
  exact congrFun (sameCells offset inWord) plane

namespace Block

/-- The cell at a position of a block. -/
def cell (block : Block) (position : Nat) : Cell :=
  fun plane => block.bit plane position

/-- A cell of a block is a cell of the slice that holds its position. -/
theorem cell_eq_slice_cell (block : Block) (position : Nat) :
    block.cell position = (block.slice (position / 32)).cell (position % 32) :=
  rfl

/-- A cell of a slice is the cell of the block at the position it stands for. -/
theorem cell_slice (block : Block) (index : Nat) {offset : Nat} (inWord : offset < 32) :
    (block.slice index).cell offset = block.cell (32 * index + offset) := by
  have sameWord : (32 * index + offset) / 32 = index := by omega
  have sameOffset : (32 * index + offset) % 32 = offset := by omega
  rw [cell_eq_slice_cell, sameWord, sameOffset]

/-- A bit of a word of a plane is the bit of the plane at the position it stands for. -/
theorem getLsbD_word
    (block : Block)
    (plane : Plane)
    (index : Nat)
    {offset : Nat}
    (inWord : offset < 32) :
    (block.word plane index).getLsbD offset = block.bit plane (32 * index + offset) :=
  congrFun (block.cell_slice index inWord) plane

/-- A plane with the same cells has the same words. -/
theorem word_eq_of_cell
    {first second : Block}
    {plane : Plane}
    (sameCells : ∀ position, first.cell position plane = second.cell position plane)
    (index : Nat) :
    first.word plane index = second.word plane index := by
  apply BitVec.eq_of_getLsbD_eq
  intro offset inWord
  rw [getLsbD_word _ _ _ inWord, getLsbD_word _ _ _ inWord]
  exact sameCells (32 * index + offset)

theorem value_eq_cell_value (block : Block) (position : Nat) :
    block.value position = (block.cell position).value :=
  rfl

/-- A block has no bits past its words. -/
theorem cell_of_size_le
    (block : Block)
    {position : Nat}
    (outside : 32 * block.size ≤ position) :
    block.cell position = Cell.empty := by
  have wordOutside : block.size ≤ position / 32 := by omega
  funext plane
  rw [cell_eq_slice_cell, block.slice_of_size_le wordOutside]
  simp [Slice.cell, Slice.bit]

/-- A block is determined by its number of words and its cells. -/
theorem ext_cell
    {first second : Block}
    (sameSize : first.size = second.size)
    (sameCells : ∀ position < 32 * first.size,
      first.cell position = second.cell position) :
    first = second := by
  apply Array.ext sameSize
  intro index inFirst inSecond
  apply Slice.ext_cell
  intro offset inWord
  have same := sameCells (32 * index + offset) (by omega)
  rwa [← cell_slice _ _ inWord, ← cell_slice _ _ inWord, first.slice_of_lt inFirst,
    second.slice_of_lt inSecond] at same

/-- The block whose cells are given by a function. -/
def ofCells (size : Nat) (cellAt : Nat → Cell) : Block :=
  Array.ofFn fun index : Fin size => Slice.ofPlanes fun plane =>
    BitWord.ofBits (fun offset => cellAt (32 * index.val + offset) plane) 32

@[simp] theorem size_ofCells (size : Nat) (cellAt : Nat → Cell) :
    (ofCells size cellAt).size = size := by
  simp [ofCells]

theorem cell_ofCells
    (size : Nat)
    (cellAt : Nat → Cell)
    {position : Nat}
    (inBounds : position < 32 * size) :
    (ofCells size cellAt).cell position = cellAt position := by
  have wordInBounds : position / 32 < (ofCells size cellAt).size := by
    rw [size_ofCells]
    omega
  have joined : 32 * (position / 32) + position % 32 = position := Nat.div_add_mod position 32
  funext plane
  rw [cell_eq_slice_cell, slice_of_lt _ wordInBounds]
  simp only [ofCells, Array.getElem_ofFn, Slice.cell, Slice.bit, Slice.get_ofPlanes,
    BitWord.getLsbD_ofBits, joined, Nat.mod_lt position (by decide : 0 < 32),
    decide_true, Bool.true_and]

/-- Change every cell by a function of its position. -/
def alter (block : Block) (change : Nat → Cell → Cell) : Block :=
  ofCells block.size fun position => change position (block.cell position)

@[simp] theorem size_alter (block : Block) (change : Nat → Cell → Cell) :
    (block.alter change).size = block.size := by
  simp [alter]

theorem cell_alter
    (block : Block)
    (change : Nat → Cell → Cell)
    {position : Nat}
    (inBounds : position < 32 * block.size) :
    (block.alter change).cell position = change position (block.cell position) :=
  cell_ofCells _ _ inBounds

/-- A bit that the change leaves alone stays, also past the words. -/
theorem bit_alter_of_keeps
    (block : Block)
    {change : Nat → Cell → Cell}
    {position : Nat}
    {plane : Plane}
    (keeps : ∀ cell, change position cell plane = cell plane) :
    (block.alter change).cell position plane = block.cell position plane := by
  by_cases inBounds : position < 32 * block.size
  · rw [cell_alter _ _ inBounds, keeps]
  · have outside : 32 * block.size ≤ position := Nat.le_of_not_lt inBounds
    rw [cell_of_size_le _ (by simpa using outside), cell_of_size_le _ outside]

/-- Two changes of the cells, one after the other. -/
theorem alter_alter (block : Block) (first second : Nat → Cell → Cell) :
    (block.alter first).alter second =
      block.alter fun position cell => second position (first position cell) := by
  apply ext_cell
  · simp
  · intro position inBounds
    rw [size_alter, size_alter] at inBounds
    rw [cell_alter _ _ (by rwa [size_alter]), cell_alter _ _ inBounds, cell_alter _ _ inBounds]

/-- A change that leaves every cell as it is leaves the block as it is. -/
theorem alter_unchanged (block : Block) : (block.alter fun _ cell => cell) = block := by
  apply ext_cell
  · simp
  · intro position inBounds
    rw [size_alter] at inBounds
    rw [cell_alter _ _ inBounds]

/-- Changing slice by slice is changing cell by cell. -/
theorem mapIdx_eq_alter
    (block : Block)
    (sliceChange : Nat → Slice 32 → Slice 32)
    (change : Nat → Cell → Cell)
    (agree : ∀ index slice offset, offset < 32 →
      (sliceChange index slice).cell offset =
        change (32 * index + offset) (slice.cell offset)) :
    block.mapIdx sliceChange = block.alter change := by
  apply ext_cell
  · simp
  · intro position inBounds
    rw [Array.size_mapIdx] at inBounds
    have wordInBounds : position / 32 < block.size := by omega
    have joined : 32 * (position / 32) + position % 32 = position := Nat.div_add_mod position 32
    rw [cell_alter block change inBounds, cell_eq_slice_cell,
      slice_mapIdx block sliceChange wordInBounds,
      agree _ _ _ (Nat.mod_lt _ (by decide)), joined]
    rfl

/-- Changing every slice alike is changing every cell alike. -/
theorem map_eq_alter
    (block : Block)
    (sliceChange : Slice 32 → Slice 32)
    (change : Cell → Cell)
    (agree : ∀ slice offset, offset < 32 →
      (sliceChange slice).cell offset = change (slice.cell offset)) :
    block.map sliceChange = block.alter fun _ => change := by
  have indexed : block.map sliceChange = block.mapIdx fun _ => sliceChange := by
    apply Array.ext (by simp)
    intro index inMap inMapIdx
    simp
  rw [indexed]
  exact mapIdx_eq_alter block _ _ fun _ slice offset inWord => agree slice offset inWord

/-- Marking words in the coverage planes is marking cells. -/
theorem mapIdx_mark_eq_alter
    (block : Block)
    (wordMarks : Nat → Plane → Word)
    (marks : Nat → Cell)
    (agree : ∀ index plane offset, offset < 32 →
      (wordMarks index plane).getLsbD offset =
        (plane.isCoverage && marks (32 * index + offset) plane)) :
    (block.mapIdx fun index slice => slice.mark (wordMarks index)) =
      block.alter fun position cell => cell.mark (marks position) := by
  apply mapIdx_eq_alter
  intro index slice offset inWord
  funext plane
  simp only [Slice.cell, Slice.bit, Slice.get_mark, BitVec.getLsbD_or, agree _ _ _ inWord]
  rfl

end Block

/-! ## Cells of vectors -/

theorem Storage.isAllocated_of_isOwned
    {content : Type}
    {storage : Storage content}
    (owned : storage.isOwned = true) :
    storage.isAllocated = true := by
  cases storage with
  | owned => rfl
  | absent | borrowed => contradiction

namespace LogicVector

/-- A vector that shows words is allocated. -/
theorem isAllocated_of_block
    {vector : LogicVector}
    {block : Block}
    (stored : vector.block = .ok block) :
    vector.storage.isAllocated = true := by
  rw [block_eq_ok_iff] at stored
  cases place : vector.storage with
  | absent =>
      rw [place] at stored
      contradiction
  | owned words => rfl
  | borrowed words => rfl

/-- An allocated vector shows words. -/
theorem exists_block
    {vector : LogicVector}
    (allocated : vector.storage.isAllocated = true) :
    ∃ block, vector.block = .ok block := by
  simp only [block_eq_ok_iff]
  cases place : vector.storage with
  | absent =>
      rw [place] at allocated
      contradiction
  | owned words => exact ⟨words, rfl⟩
  | borrowed words => exact ⟨words, rfl⟩

/-- Change every cell of a vector by a function of its position. -/
def alter (vector : LogicVector) (change : Nat → Cell → Cell) : LogicVector :=
  { vector with storage := vector.storage.map fun block => block.alter change }

@[simp] theorem toHeader_alter (vector : LogicVector) (change : Nat → Cell → Cell) :
    (vector.alter change).toHeader = vector.toHeader :=
  rfl

/-- Two changes of the cells, one after the other. -/
theorem alter_alter (vector : LogicVector) (first second : Nat → Cell → Cell) :
    (vector.alter first).alter second =
      vector.alter fun position cell => second position (first position cell) := by
  rcases vector with ⟨header, storage⟩
  cases storage with
  | absent => simp only [alter, Storage.map]
  | owned block => simp only [alter, Storage.map, Block.alter_alter]
  | borrowed block => simp only [alter, Storage.map, Block.alter_alter]

/-- An allocated vector shows its changed words. -/
theorem block_alter
    {vector : LogicVector}
    {block : Block}
    (stored : vector.block = .ok block)
    (change : Nat → Cell → Cell) :
    (vector.alter change).block = .ok (block.alter change) := by
  rw [block_eq_ok_iff] at stored ⊢
  simp [alter, stored]

/-- Putting changed words in place of the old ones changes the vector. -/
theorem withBlock_alter
    {vector : LogicVector}
    {block : Block}
    (stored : vector.block = .ok block)
    (change : Nat → Cell → Cell) :
    vector.withBlock (block.alter change) = vector.alter change := by
  rw [block_eq_ok_iff] at stored
  unfold withBlock alter
  cases place : vector.storage with
  | absent => rfl
  | owned words =>
      rw [place] at stored
      cases stored
      rfl
  | borrowed words =>
      rw [place] at stored
      cases stored
      rfl

end LogicVector
end FourState
