import FourState.Coverage.Reading
import FourState.Proofs.Buffer
import Mathlib.Algebra.BigOperators.Group.List.Basic
import Mathlib.Algebra.GroupWithZero.Nat

/-!
# Counted bits

The counts of coverage readings run over words.  Here they are counts over
positions: the number of set bits in some planes of a block is the sum, over the
planes, of the number of positions whose bit is set.
-/

namespace FourState

/-- Counting over the positions of some words is counting in each word. -/
theorem countP_range_words (count : Nat) (test : Nat → Bool) :
    (List.range (32 * count)).countP test =
      ((List.range count).map fun index =>
        (List.range 32).countP fun offset => test (32 * index + offset)).sum := by
  induction count with
  | zero => rfl
  | succ count inductionHypothesis =>
      have split : List.range (count + 1) = List.range count ++ [count] := List.range_succ
      rw [Nat.mul_succ, List.range_add, List.countP_append, inductionHypothesis, List.countP_map,
        split, List.map_append, List.sum_append]
      simp [Function.comp_def]

/-- Counting further finds at least as much. -/
theorem countP_range_mono {lower upper : Nat} (le : lower ≤ upper) (test : Nat → Bool) :
    (List.range lower).countP test ≤ (List.range upper).countP test := by
  obtain ⟨rest, rfl⟩ := Nat.exists_eq_add_of_le le
  rw [List.range_add, List.countP_append]
  exact Nat.le_add_right _ _

/-- Counting up to a limit finds as much as counting further exactly when nothing
passes the test in between. -/
theorem countP_range_eq_iff
    {lower upper : Nat}
    (le : lower ≤ upper)
    (test : Nat → Bool) :
    (List.range upper).countP test = (List.range lower).countP test ↔
      ∀ position, lower ≤ position → position < upper → test position = false := by
  obtain ⟨rest, rfl⟩ := Nat.exists_eq_add_of_le le
  rw [List.range_add, List.countP_append, List.countP_map, Nat.add_eq_left, List.countP_eq_zero]
  constructor
  · intro fails position above below
    have offset := fails (position - lower) (List.mem_range.2 (by omega))
    have joined : lower + (position - lower) = position := by omega
    simpa [joined] using offset
  · intro fails offset inRange
    rw [List.mem_range] at inRange
    simp [fails (lower + offset) (Nat.le_add_right _ _) (by omega)]

namespace Block

/-- The slices of a block in order. -/
theorem toList_eq_map_slice (block : Block) :
    block.toList = (List.range block.size).map block.slice := by
  apply List.ext_getElem (by simp)
  intro index inList inRange
  rw [Array.length_toList] at inList
  simp [slice_of_lt _ inList]

theorem countOnes_eq_sum (block : Block) (planes : List Plane) :
    block.countOnes planes =
      ((List.range block.size).map fun index => (block.slice index).countOnes planes).sum := by
  rw [countOnes, toList_eq_map_slice, List.foldr_map, List.sum, List.foldr_map]

/-- The number of positions whose bit in a plane is set. -/
def countPlane (block : Block) (plane : Plane) : Nat :=
  (List.range (32 * block.size)).countP fun position => block.bit plane position

theorem countPlane_eq_sum (block : Block) (plane : Plane) :
    block.countPlane plane =
      ((List.range block.size).map fun index =>
        BitWord.countOnes ((block.slice index).get plane)).sum := by
  rw [countPlane, countP_range_words]
  congr 1
  apply List.map_congr_left
  intro index inRange
  apply List.countP_congr
  intro offset inWord
  have sameBit : (block.slice index).bit plane offset = block.bit plane (32 * index + offset) :=
    congrFun (block.cell_slice index (List.mem_range.1 inWord)) plane
  rw [← sameBit]
  rfl

/-- The bits counted in several planes are those counted in each of them. -/
theorem countOnes_eq_sum_countPlane (block : Block) (planes : List Plane) :
    block.countOnes planes = (planes.map block.countPlane).sum := by
  rw [countOnes_eq_sum]
  induction planes with
  | nil =>
      rw [List.map_nil, List.sum_nil, List.sum_eq_zero_iff_forall_eq_nat]
      intro count isCount
      obtain ⟨index, -, rfl⟩ := List.mem_map.1 isCount
      rfl
  | cons plane planes inductionHypothesis =>
      rw [List.map_cons, List.sum_cons, ← inductionHypothesis, countPlane_eq_sum,
        ← List.sum_map_add]
      rfl

/-- A block whose words a width needs has as many bits set in a plane as it has
below the width exactly when none is set past it. -/
theorem countPlane_eq_iff
    {block : Block}
    {width : Nat}
    (size : block.size = wordCount width)
    (plane : Plane) :
    block.countPlane plane =
        (List.range width).countP (fun position => block.bit plane position) ↔
      ∀ position, width ≤ position → position < 32 * wordCount width →
        block.bit plane position = false := by
  rw [countPlane, size]
  exact countP_range_eq_iff (le_wordCount width) _

end Block

/-! ## Readings of vectors -/

namespace LogicVector

theorem countPlanes_eq_sum
    {vector : LogicVector}
    {block : Block}
    (stored : vector.block = .ok block)
    (planes : List Plane) :
    vector.countPlanes planes = .ok (planes.map block.countPlane).sum := by
  rw [countPlanes, stored, ← Block.countOnes_eq_sum_countPlane]
  rfl

/-- The bits of a memory that were written and read are counted up to the width if
none is noted past it. -/
theorem accessCount_eq_ok
    {vector : LogicVector}
    {block : Block}
    (isMemory : vector.kind = Kind.memory)
    (stored : vector.block = .ok block)
    (size : block.size = wordCount vector.width)
    (clear : ∀ position, vector.width ≤ position → position < 32 * wordCount vector.width →
      block.bit Plane.written position = false ∧ block.bit Plane.read position = false) :
    vector.accessCount = .ok
      ((List.range vector.width).countP fun position => block.bit Plane.written position,
        (List.range vector.width).countP fun position => block.bit Plane.read position) := by
  have written := (Block.countPlane_eq_iff size Plane.written).2
    fun position outside inWords => (clear position outside inWords).1
  have read := (Block.countPlane_eq_iff size Plane.read).2
    fun position outside inWords => (clear position outside inWords).2
  rw [accessCount, require_bind_of_true isMemory, countPlanes_eq_sum stored,
    countPlanes_eq_sum stored, List.map_singleton, List.map_singleton, List.sum_singleton,
    List.sum_singleton, written, read]
  rfl

/-- A bit inside the width of a live plane can be read. -/
theorem planeBit_eq_ok
    {vector : LogicVector}
    {block : Block}
    (stored : vector.block = .ok block)
    (size : block.size = wordCount vector.width)
    {plane : Plane}
    (live : plane.val < vector.kind.planeCount)
    {position : Nat}
    (inside : position < vector.width) :
    vector.planeBit plane position = .ok (block.bit plane position) := by
  have present : vector.kind.plane? plane.val = some plane := by
    simp [Kind.plane?, Kind.hasPlane, live]
  have inBlock : position / 32 < block.size := by
    rw [size]
    exact div_lt_wordCount inside
  rw [planeBit, require_bind_of_true inside, LogicVector.plane, present]
  simp only [stored]
  change (require (position / 32 < block.size) Fault.wordIndex >>= _) >>= _ = _
  rw [require_bind_of_true inBlock]
  rfl

end LogicVector
end FourState
