import FourState.Proofs.Guarded.Assignment
import FourState.Proofs.RaceChecking

/-!
# Guarded claims

A claim with each machine step guarded.  It goes over the bits of its range one after the
other, looks at each before it marks it, and answers yes if one was marked already; this is
what marking the words of the range at once does.
-/

namespace FourState
namespace Guarded

/-- Claim one bit, and remember whether it had been claimed before. -/
def claimBit (state : Block × Bool) (position : Nat) : Guarded (Block × Bool) := do
  let (block, before) := state
  let slice ← get block (position / 32)
  let bit ← shiftLeft 1 (position % 32)
  let claimed ← planeWord slice Plane.assigned
  let marked ← markPlane slice Plane.assigned bit
  let block ← set block (position / 32) marked
  return (block, before || decide (claimed &&& bit ≠ 0))

/-- Claim the bits `lsb` to `msb` of a signal, bit by bit. -/
def claim (vector : LogicVector) (msb lsb : Nat) : Guarded (LogicVector × Bool) := do
  assert (vector.kind = Kind.signal)
  assert (lsb ≤ msb ∧ msb < vector.width)
  let block ← vector.block
  let (claimed, before) ← (List.range' lsb (msb + 1 - lsb)).foldlM claimBit (block, false)
  return (vector.withBlock claimed, before)

/-- A word with the positions from `first` on and below `stop` claimed. -/
def claimedAt (first stop index : Nat) (slice : Slice 32) : Slice 32 :=
  slice.markPlane Plane.assigned (Mask.span first stop index)

/-- What is left of a claim after the positions below `stop`. -/
def claimedBelow (block : Block) (first stop : Nat) : Block × Bool :=
  (block.mapIdx fun index slice => claimedAt first stop index slice,
    (block.mapIdx fun index slice =>
      decide (slice.get Plane.assigned &&& Mask.span first stop index ≠ 0)).any id)

section

variable {vector : LogicVector} {block : Block} {first position : Nat}

/-- One more position adds its bit to its word. -/
theorem span_succ_of_eq (fromFirst : first ≤ position) :
    Mask.span first (position + 1) (position / 32) =
      Mask.span first position (position / 32) ||| BitVec.twoPow 32 (position % 32) := by
  refine BitVec.eq_of_getLsbD_eq fun offset inWord => ?_
  rw [BitVec.getLsbD_or, Mask.getLsbD_span _ _ _ inWord, Mask.getLsbD_span _ _ _ inWord,
    BitVec.getLsbD_twoPow, Bool.eq_iff_iff]
  simp only [Bool.or_eq_true, Bool.and_eq_true, decide_eq_true_eq]
  omega

/-- One more position adds nothing to another word. -/
theorem span_succ_of_ne {index : Nat} (other : index ≠ position / 32) :
    Mask.span first (position + 1) index = Mask.span first position index := by
  refine BitVec.eq_of_getLsbD_eq fun offset inWord => ?_
  rw [Mask.getLsbD_span _ _ _ inWord, Mask.getLsbD_span _ _ _ inWord, decide_eq_decide]
  omega

/-- Marking a word with one position more is marking it once more. -/
theorem claimedAt_succ (fromFirst : first ≤ position) (slice : Slice 32) :
    (claimedAt first position (position / 32) slice).markPlane Plane.assigned
        (BitVec.twoPow 32 (position % 32)) =
      claimedAt first (position + 1) (position / 32) slice := by
  refine Slice.ext fun plane => ?_
  simp only [claimedAt, Slice.get_markPlane, span_succ_of_eq fromFirst, if_true]
  split
  · rw [BitVec.or_assoc]
  · rfl

/-- The bit of a position is looked at before it is marked. -/
theorem claimedAt_and_ne_zero_iff (block : Block) (first position : Nat) :
    (claimedAt first position (position / 32) (block.slice (position / 32))).get Plane.assigned &&&
        BitVec.twoPow 32 (position % 32) ≠ 0 ↔
      block.bit Plane.assigned position = true := by
  have inWord : position % 32 < 32 := Nat.mod_lt _ (by decide)
  have unmarked : (Mask.span first position (position / 32)).getLsbD (position % 32) = false := by
    rw [Mask.getLsbD_span _ _ _ inWord, decide_eq_false_iff_not]
    omega
  have same : ((claimedAt first position (position / 32) (block.slice (position / 32))).get
      Plane.assigned).getLsbD (position % 32) = block.bit Plane.assigned position := by
    rw [claimedAt, Slice.get_markPlane, if_pos rfl, BitVec.getLsbD_or, unmarked, Bool.or_false]
    rfl
  rw [BitWord.ne_zero_iff, ← same]
  simp only [BitVec.getLsbD_and, BitVec.getLsbD_twoPow, Bool.and_eq_true, decide_eq_true_eq]
  constructor
  · rintro ⟨offset, -, isSet, -, rfl⟩
    exact isSet
  · intro isSet
    exact ⟨position % 32, inWord, isSet, inWord, rfl⟩

/-- Before the first round, nothing is claimed. -/
theorem claimedBelow_first (block : Block) (first : Nat) :
    claimedBelow block first first = (block, false) := by
  refine Prod.ext ?_ ?_
  · apply Array.ext (by simp [claimedBelow])
    intro index inClaimed inBlock
    have empty : Mask.span first first index = 0 := by
      refine BitVec.eq_of_getLsbD_eq fun offset inWord => ?_
      rw [Mask.getLsbD_span _ _ _ inWord]
      exact (decide_eq_false (by omega)).trans BitVec.getLsbD_zero.symm
    refine Slice.ext fun plane => ?_
    simp only [claimedBelow, Array.getElem_mapIdx, claimedAt, Slice.get_markPlane, empty]
    split
    · rename_i isAssigned
      rw [isAssigned]
      exact BitVec.or_zero
    · rfl
  · rw [claimedBelow, ← Bool.not_eq_true, Block.any_claimed_iff]
    rintro ⟨position, covered, -⟩
    omega

/-- The words after a round, as the round before it left them but for one. -/
theorem setIfInBounds_claimedBelow (inBounds : position / 32 < block.size) :
    (claimedBelow block first position).1.setIfInBounds (position / 32)
        (claimedAt first (position + 1) (position / 32) (block.slice (position / 32))) =
      (claimedBelow block first (position + 1)).1 := by
  refine Array.ext (by simp [claimedBelow]) fun index inSet inNext => ?_
  rw [Array.getElem_setIfInBounds (by simpa using inSet)]
  simp only [claimedBelow, Array.getElem_mapIdx]
  split
  · rename_i isIndex
    subst isIndex
    rw [block.slice_of_lt inBounds]
  · rename_i differs
    simp only [claimedAt, span_succ_of_ne (Ne.symm differs)]

theorem getElem_claimedBelow
    (inBounds : position / 32 < block.size)
    (inClaimed : position / 32 < (claimedBelow block first position).1.size) :
    (claimedBelow block first position).1[position / 32] =
      claimedAt first position (position / 32) (block.slice (position / 32)) := by
  rw [block.slice_of_lt inBounds]
  simp [claimedBelow]

/-- A bit had been claimed in the rounds so far if it had before, or in the last of them. -/
theorem claimedBelow_succ_snd (fromFirst : first ≤ position) :
    ((claimedBelow block first position).2 ||
      decide ((claimedAt first position (position / 32) (block.slice (position / 32))).get
        Plane.assigned &&& BitVec.twoPow 32 (position % 32) ≠ 0)) =
      (claimedBelow block first (position + 1)).2 := by
  rw [Bool.eq_iff_iff, Bool.or_eq_true, decide_eq_true_eq, claimedAt_and_ne_zero_iff,
    claimedBelow, claimedBelow, Block.any_claimed_iff, Block.any_claimed_iff]
  constructor
  · rintro (⟨other, covered, isSet⟩ | isSet)
    · exact ⟨other, by omega, isSet⟩
    · exact ⟨position, by omega, isSet⟩
  · rintro ⟨other, covered, isSet⟩
    by_cases isLast : other = position
    · exact Or.inr (isLast ▸ isSet)
    · exact Or.inl ⟨other, by omega, isSet⟩

/-- The round of a position goes on where the rounds before it have stopped. -/
theorem claimBit_eq_ok
    (fromFirst : first ≤ position)
    (inWords : position < 32 * block.size) :
    claimBit (claimedBelow block first position) position =
      .ok (claimedBelow block first (position + 1)) := by
  have inBounds : position / 32 < block.size := by omega
  have inClaimed : position / 32 < (claimedBelow block first position).1.size := by
    simpa [claimedBelow] using inBounds
  rw [claimBit, bind_of_ok (get_eq_ok inClaimed), getElem_claimedBelow inBounds,
    bind_of_ok (shiftLeft_eq_ok _ (Nat.mod_lt _ (by decide)))]
  change (planeWord _ _ >>= fun _ => markPlane _ _ (BitVec.twoPow 32 (position % 32)) >>= _) = _
  rw [bind_of_ok (planeWord_eq_ok _ _), bind_of_ok (markPlane_eq_ok _ _ _),
    claimedAt_succ fromFirst, bind_of_ok (set_eq_ok inClaimed _),
    setIfInBounds_claimedBelow inBounds]
  exact congrArg Except.ok (Prod.ext rfl (claimedBelow_succ_snd fromFirst))

/-- A claim bit by bit is a claim of all words at once. -/
theorem claim_agrees
    (stored : vector.block = .ok block)
    (isSignal : vector.kind = Kind.signal)
    {range : BitRange}
    (inside : range.Inside vector.width)
    (inWords : range.msb < 32 * block.size) :
    Agrees (fun _ => True) (claim vector range.msb range.lsb)
      (vector.claim range.msb range.lsb) := by
  have inRange : range.lsb ≤ range.msb ∧ range.msb < vector.width := inside
  have loops : (List.range' range.lsb (range.msb + 1 - range.lsb)).foldlM claimBit
      (block, false) = .ok (claimedBelow block range.lsb (range.msb + 1)) := by
    have each : ∀ position, range.lsb ≤ position →
        position < range.lsb + (range.msb + 1 - range.lsb) →
        claimBit (claimedBelow block range.lsb position) position =
          .ok (claimedBelow block range.lsb (position + 1)) :=
      fun position fromFirst below => claimBit_eq_ok fromFirst (by omega)
    have stops : range.lsb + (range.msb + 1 - range.lsb) = range.msb + 1 := by omega
    rw [← claimedBelow_first block range.lsb, foldlM_range'_eq_ok _ each, stops]
  have claims : vector.claim range.msb range.lsb =
      .ok (vector.withBlock (claimedBelow block range.lsb (range.msb + 1)).1,
        (claimedBelow block range.lsb (range.msb + 1)).2) := by
    rw [LogicVector.claim, require_bind_of_true isSignal, require_bind_of_true inRange, stored]
    exact require_bind_of_true (by omega : range.msb / 32 < block.size) _
  rw [claims]
  refine agrees_ok ?_ trivial
  rw [claim, bind_of_ok (assert_eq_ok isSignal), bind_of_ok (assert_eq_ok inRange),
    bind_of_ok (liftM_eq_ok stored), bind_of_ok loops]
  rfl

end

end Guarded
end FourState
