import FourState.Proofs.Effect

/-!
# Claimed ranges

A signal remembers in one of its planes which bits have been claimed for an assigner.
Claiming a range adds its positions to the plane and to nothing else, and answers whether
one of them was there before.
-/

namespace FourState

/-! ## Ranges of positions -/

/-- The positions from `lsb` to `msb`. -/
structure BitRange where
  msb : Nat
  lsb : Nat
  deriving DecidableEq

namespace BitRange

/-- The position lies in the range. -/
def Covers (range : BitRange) (position : Nat) : Prop :=
  range.lsb ≤ position ∧ position ≤ range.msb

instance (range : BitRange) (position : Nat) : Decidable (range.Covers position) :=
  inferInstanceAs (Decidable (_ ∧ _))

/-- The ranges have a position in common. -/
def Meets (range other : BitRange) : Prop :=
  ∃ position, range.Covers position ∧ other.Covers position

theorem meets_iff (range other : BitRange) :
    range.Meets other ↔ max range.lsb other.lsb ≤ min range.msb other.msb := by
  constructor
  · rintro ⟨position, ⟨fromFirst, toFirst⟩, fromSecond, toSecond⟩
    omega
  · intro overlap
    exact ⟨max range.lsb other.lsb, by unfold Covers; omega, by unfold Covers; omega⟩

instance (range other : BitRange) : Decidable (range.Meets other) :=
  decidable_of_iff _ (meets_iff range other).symm

/-- The range is one of a vector of the width. -/
def Inside (range : BitRange) (width : Nat) : Prop :=
  range.lsb ≤ range.msb ∧ range.msb < width

instance (range : BitRange) (width : Nat) : Decidable (range.Inside width) :=
  inferInstanceAs (Decidable (_ ∧ _))

end BitRange

/-! ## Claims of a vector -/

namespace Effect

/-- What claiming a range does to the cells of a signal. -/
def claim (range : BitRange) : Effect :=
  .mark fun position plane =>
    decide (plane = Plane.assigned ∧ range.lsb ≤ position ∧ position ≤ range.msb)

/-- Claiming touches no other plane. -/
theorem claim_apply_of_ne
    (range : BitRange)
    {plane : Plane}
    (notAssigned : plane ≠ Plane.assigned)
    (position : Nat)
    (cell : Cell) :
    (claim range).apply position cell plane = cell plane := by
  simp [claim, apply, Cell.mark, notAssigned]

theorem claim_apply_assigned (range : BitRange) (position : Nat) (cell : Cell) :
    (claim range).apply position cell Plane.assigned =
      (cell Plane.assigned || decide (range.Covers position)) := by
  have coverage : Plane.isCoverage Plane.assigned = true := rfl
  rw [Bool.eq_iff_iff, Bool.or_eq_true, decide_eq_true_eq]
  simp only [claim, apply, Cell.mark, coverage, Bool.or_eq_true, Bool.true_and, true_and,
    decide_eq_true_eq]
  exact Iff.rfl

end Effect

namespace Block

variable {block : Block} {range : BitRange} {ranges : List BitRange}

/-- The claimed bits of a block are those in the ranges. -/
def IsClaimed (block : Block) (ranges : List BitRange) : Prop :=
  ∀ position, block.bit Plane.assigned position = true ↔
    ∃ range ∈ ranges, range.Covers position

/-- A word that has a claimed bit in a span makes the answer a yes. -/
theorem any_claimed_iff (block : Block) (first stop : Nat) :
    ((block.mapIdx fun index slice =>
      decide (slice.get Plane.assigned &&& Mask.span first stop index ≠ 0)).any id) = true ↔
      ∃ position, (first ≤ position ∧ position < stop) ∧
        block.bit Plane.assigned position = true := by
  rw [Array.any_eq_true]
  simp only [Array.size_mapIdx, Array.getElem_mapIdx, id_eq, decide_eq_true_eq,
    BitWord.ne_zero_iff, BitVec.getLsbD_and, Bool.and_eq_true]
  constructor
  · rintro ⟨index, inBounds, offset, inWord, claimed, inSpan⟩
    rw [Mask.getLsbD_span _ _ _ inWord, decide_eq_true_eq] at inSpan
    refine ⟨32 * index + offset, inSpan, ?_⟩
    rw [← block.getLsbD_word _ _ inWord, word, block.slice_of_lt inBounds]
    exact claimed
  · rintro ⟨position, covered, claimed⟩
    have inWord : position % 32 < 32 := Nat.mod_lt _ (by decide)
    have joined : 32 * (position / 32) + position % 32 = position := Nat.div_add_mod position 32
    have inBounds : position / 32 < block.size := by
      apply Nat.lt_of_not_le
      intro outside
      have empty := congrFun (block.cell_of_size_le (by omega : 32 * block.size ≤ position))
        Plane.assigned
      rw [show block.cell position Plane.assigned = true from claimed] at empty
      contradiction
    refine ⟨position / 32, inBounds, position % 32, inWord, ?_, ?_⟩
    · rw [← block.slice_of_lt inBounds]
      exact claimed
    · rwa [Mask.getLsbD_span _ _ _ inWord, joined, decide_eq_true_eq]

/-- A range shares a position with the claimed bits exactly if it meets a claimed range. -/
theorem IsClaimed.exists_covered_iff (claimed : block.IsClaimed ranges) (range : BitRange) :
    (∃ position, range.Covers position ∧ block.bit Plane.assigned position = true) ↔
      ∃ other ∈ ranges, other.Meets range := by
  constructor
  · rintro ⟨position, covered, isSet⟩
    obtain ⟨other, isMember, otherCovers⟩ := (claimed position).1 isSet
    exact ⟨other, isMember, position, otherCovers, covered⟩
  · rintro ⟨other, isMember, position, otherCovers, covered⟩
    exact ⟨position, covered, (claimed position).2 ⟨other, isMember, otherCovers⟩⟩

/-- Claiming a range inside the words adds it to the claimed ranges. -/
theorem IsClaimed.claim
    (claimed : block.IsClaimed ranges)
    (inWords : range.msb < 32 * block.size) :
    Block.IsClaimed (block.alter (Effect.claim range).apply) (ranges ++ [range]) := by
  intro position
  have adds : Block.bit (block.alter (Effect.claim range).apply) Plane.assigned position = true ↔
      block.bit Plane.assigned position = true ∨ range.Covers position := by
    change Block.cell (block.alter _) position Plane.assigned = true ↔
      block.cell position Plane.assigned = true ∨ _
    by_cases inBounds : position < 32 * block.size
    · rw [block.cell_alter _ inBounds, Effect.claim_apply_assigned, Bool.or_eq_true,
        decide_eq_true_eq]
    · have outside : 32 * block.size ≤ position := Nat.not_lt.1 inBounds
      have notCovered : ¬range.Covers position := fun covered => by
        unfold BitRange.Covers at covered
        omega
      rw [cell_of_size_le _ (by simpa using outside), cell_of_size_le _ outside]
      simp [notCovered]
  rw [adds, claimed position]
  simp [or_and_right, exists_or]

/-- A block without coverage has no claimed bits. -/
theorem isClaimed_nil (clear : ∀ position, block.bit Plane.assigned position = false) :
    block.IsClaimed [] := by
  intro position
  simp [clear position]

/-- Clearing the coverage gives up all claims. -/
theorem isClaimed_clearCoverage (block : Block) :
    Block.IsClaimed (block.alter Effect.clearCoverage.apply) [] := by
  apply isClaimed_nil
  intro position
  change Block.cell (block.alter _) position Plane.assigned = false
  by_cases inBounds : position < 32 * block.size
  · rw [block.cell_alter _ inBounds]
    rfl
  · rw [cell_of_size_le _ (by simpa using Nat.not_lt.1 inBounds)]
    rfl

end Block

namespace LogicVector

variable {vector : LogicVector} {block : Block} {range : BitRange}

theorem effect_claim (vector : LogicVector) (msb lsb : Nat) :
    vector.effect (.claim msb lsb) = Effect.claim ⟨msb, lsb⟩ :=
  rfl

/-- A signal takes every claim inside its width, and answers whether one of the bits had been
claimed before. -/
theorem exists_claim
    (stored : vector.block = .ok block)
    (isSignal : vector.kind = Kind.signal)
    (inside : range.Inside vector.width)
    (inWords : range.msb / 32 < block.size) :
    ∃ answer,
      vector.claim range.msb range.lsb =
        .ok (vector.alter (Effect.claim range).apply, answer) ∧
      (answer = true ↔
        ∃ position, range.Covers position ∧ block.bit Plane.assigned position = true) := by
  have covers_iff (position : Nat) :
      range.Covers position ↔ range.lsb ≤ position ∧ position < range.msb + 1 := by
    rw [Nat.lt_succ_iff]
    exact Iff.rfl
  simp only [covers_iff]
  refine ⟨_, ?_, block.any_claimed_iff range.lsb (range.msb + 1)⟩
  unfold claim
  rw [require_bind_of_true isSignal,
    require_bind_of_true (⟨inside.1, inside.2⟩ : range.lsb ≤ range.msb ∧ _), stored]
  refine (require_bind_of_true inWords _).trans (congrArg Except.ok (Prod.ext ?_ rfl))
  change vector.withBlock (block.mapIdx _) = _
  rw [mapIdx_markPlane_eq_alter block rfl, withBlock_alter stored]
  rfl

end LogicVector
end FourState
