import FourState.Proofs.Guarded.Claiming
import FourState.Proofs.Preservation
import FourState.Proofs.Stepwise.Step

/-!
# Stepwise assignment

The gate that every value passes, the noting of reads and of claims, and the other
changes of a vector by itself, word by word on the heap.  A vector has its block alone
while its words are changed, so the words that a later round reads are those that were
there before the loop, and the whole loop does what the change of all words at once
does.
-/

namespace FourState

variable {clipped : Plane → Prop}

namespace Heap

variable {heap : Heap} {handle : Handle} {number : Nat}

/-- A well-formed vector has the words that its width needs. -/
theorem size_block
    (wellFormed : (heap.load handle).WellFormed clipped)
    (refers : handle.storage.content? = some number) :
    (heap.block number).size = wordCount handle.width :=
  (wellFormed.block_fits _ (heap.block_load refers)).size_eq

/-- The block of a well-formed vector exists. -/
theorem lt_size_blocks
    (wellFormed : (heap.load handle).WellFormed clipped)
    (refers : handle.storage.content? = some number) :
    number < heap.blocks.size := by
  have widthPositive : 0 < handle.width := wellFormed.width_pos
  have sized := size_block wellFormed refers
  have enough := le_wordCount handle.width
  apply Nat.lt_of_not_le
  intro outside
  have noWords : heap.block number = #[] := by simp [block, outside]
  rw [noWords] at sized
  simp only [List.size_toArray, List.length_nil] at sized
  omega

end Heap

namespace Stepwise

/-! ## Programs -/

/-- Assign the bits `lsb` to `msb` from two word sequences, word by word. -/
def assign (target : Handle) (low high : Array Word) (lsb msb : Nat) : Stepwise Bool := do
  require (lsb ≤ msb ∧ msb < target.width) (Fault.assignmentRange msb lsb target.width)
  require (msb / 32 < low.size ∧ msb / 32 < high.size) (Fault.shortBuffer msb)
  let number ← blockOf target
  writing number <|
    visit number (lsb / 32) (msb / 32 + 1 - lsb / 32) (fun changed index slice =>
      let mask := Mask.span lsb (msb + 1) index
      let value := settle target.twoState mask (Words.word low index) (Words.word high index)
      return (changed || slice.differs mask value.1 value.2,
        slice.accept target.kind mask value.1 value.2)) false

/-- Assign the bits `lsb` to `msb` from a buffer at the width of the target. -/
def assignBuffer (target : Handle) (value : Buffer) (lsb msb : Nat) : Stepwise Bool :=
  let fitted := if value.width = target.width then value else value.resized target.width false
  assign target fitted.low fitted.high lsb msb

/-- Assign the whole vector from a buffer. -/
def commit (target : Handle) (value : Buffer) : Stepwise Bool :=
  assignBuffer target value 0 (target.width - 1)

/-- Note that the bits `lsb` to `msb` are read, word by word. -/
def markReads (source : Handle) (lsb msb : Nat) : Stepwise Unit := do
  let number ← blockOf source
  writing number do
    let count ← size number
    visit number (lsb / 32) (min (msb / 32 + 1) count - lsb / 32) (fun _ index slice =>
      return ((), slice.markPlane Plane.read (Mask.span lsb (msb + 1) index))) ()

/-- Claim one bit, and remember whether it had been claimed before. -/
def claimBit (number : Nat) (before : Bool) (position : Nat) : Stepwise Bool := do
  let slice ← word number (position / 32)
  let bit := BitVec.twoPow 32 (position % 32)
  setWord number (position / 32) (slice.markPlane Plane.assigned bit)
  return before || decide (slice.get Plane.assigned &&& bit ≠ 0)

/-- Claim the bits `lsb` to `msb` of a signal, bit by bit. -/
def claim (target : Handle) (msb lsb : Nat) : Stepwise Bool := do
  require (target.kind = Kind.signal) Fault.claimKind
  require (lsb ≤ msb ∧ msb < target.width) (Fault.claimRange msb lsb)
  let number ← blockOf target
  writing number <| (List.range' lsb (msb + 1 - lsb)).foldlM (claimBit number) false

/-- Change every word of a vector by itself. -/
def changeWords (target : Handle) (change : Slice 32 → Slice 32) : Stepwise Unit := do
  let number ← blockOf target
  writing number do
    let count ← size number
    visit number 0 count (fun _ _ slice => return ((), change slice)) ()

/-- Choose whether unknown bits are kept; giving them up collapses the words. -/
def setTwoState (target : Handle) (twoState : Bool) : Stepwise Unit :=
  if twoState && target.storage.isAllocated then changeWords target Slice.collapse
  else return ()

/-! ## Loops over words -/

section Loops

variable {state : Type} {borrows : Borrows} {heap : Heap} {block : Block}
  {number first count index : Nat} {change : Nat → Slice 32 → Slice 32}

open Guarded (changedBelow changedBelow_eq_self changedBelow_eq_mapIdx getElem_changedBelow
  setIfInBounds_changedBelow size_changedBelow)

/-- A round of a loop over words goes on where the rounds before it have stopped. -/
theorem visitWord_run
    {step : Slice 32 → Stepwise (state × Slice 32)}
    {next : state}
    (isBlock : number < heap.blocks.size)
    (inBlock : index < block.size)
    (changes : run (step block[index]) borrows
        (heap.setBlock number (changedBelow change block index)) =
      (.ok (next, change index block[index]),
        heap.setBlock number (changedBelow change block index))) :
    run (visitWord number index step) borrows
        (heap.setBlock number (changedBelow change block index)) =
      (.ok next, heap.setBlock number (changedBelow change block (index + 1))) := by
  have inChanged : index < (changedBelow change block index).size := by simpa using inBlock
  have shown := heap.block_setBlock isBlock (changedBelow change block index)
  rw [visitWord, bind_of_ok (word_run shown inChanged), getElem_changedBelow inBlock,
    bind_of_ok changes]
  dsimp only
  rw [bind_of_ok (setWord_run shown inChanged _), setIfInBounds_changedBelow inBlock,
    Heap.setBlock_setBlock]
  rfl

/-- A loop over words that makes of each what a function says does what changing all words
at once does. -/
theorem visit_run
    {step : state → Nat → Slice 32 → Stepwise (state × Slice 32)}
    (states : Nat → state)
    (isBlock : number < heap.blocks.size)
    (shows : heap.block number = block)
    (outside : ∀ index slice, index < block.size → index < first ∨ first + count ≤ index →
      change index slice = slice)
    (inBlock : first + count ≤ block.size)
    (each : ∀ index (inBlock : index < block.size), first ≤ index → index < first + count →
      run (step (states index) index block[index]) borrows
          (heap.setBlock number (changedBelow change block index)) =
        (.ok (states (index + 1), change index block[index]),
          heap.setBlock number (changedBelow change block index))) :
    run (visit number first count step (states first)) borrows heap =
      (.ok (states (first + count)), heap.setBlock number (block.mapIdx change)) := by
  have loops := @foldlM_range'_run borrows _ (fun state index => visitWord number index
    (step state index)) first count states
    (fun index => heap.setBlock number (changedBelow change block index))
    fun index past below =>
      visitWord_run isBlock (by omega) (each index (by omega) past below)
  have starts : heap.setBlock number (changedBelow change block first) = heap := by
    rw [changedBelow_eq_self fun other slice below => outside other slice (by omega) (.inl below),
      ← shows, Heap.setBlock_self]
  rw [starts, changedBelow_eq_mapIdx fun other slice inBlock past =>
    outside other slice inBlock (.inr past)] at loops
  exact loops

/-- A loop that changes every word by itself changes all of them. -/
theorem visit_all_run
    (isBlock : number < heap.blocks.size)
    (shows : heap.block number = block)
    (change : Nat → Slice 32 → Slice 32) :
    run (visit number 0 block.size (fun _ index slice => return ((), change index slice)) ())
        borrows heap =
      (.ok (), heap.setBlock number (block.mapIdx change)) :=
  visit_run (fun _ => ()) isBlock shows (fun _ _ _ _ => by omega) (by omega) fun _ _ _ _ => rfl

end Loops

/-! ## What the programs do -/

section Programs

variable {heap : Heap} {target : Handle} {number : Nat}

/-- A vector that is used by nobody else is changed by a program that changes its words. -/
theorem settles_writing
    {answer : Type}
    {program : Stepwise answer}
    {block : Block}
    {value : answer}
    (refers : target.storage.content? = some number)
    (runs : ∀ borrows, run program borrows heap = (.ok value, heap.setBlock number block)) :
    Settles (writing number program) heap target
      (.ok ((heap.load target).withBlock block, value)) := by
  unfold Settles
  rw [writing_run (by simp [Borrows.none]) (by simp [Borrows.none]), runs]
  change _ = (Except.ok value, heap.put target ((heap.load target).withBlock block))
  rw [Heap.put_withBlock heap refers]

variable (wellFormed : (heap.load target).WellFormed clipped)

include wellFormed

/-- Assigning word by word is assigning all words at once. -/
theorem assign_settles (low high : Array Word) (lsb msb : Nat) :
    Settles (assign target low high lsb msb) heap target
      ((heap.load target).assign low high lsb msb) := by
  refine settles_require fun inRange => settles_require fun _ =>
    settles_block fun number refers => ?_
  have isBlock := Heap.lt_size_blocks wellFormed refers
  have inBlock : msb / 32 < (heap.block number).size := by
    rw [Heap.size_block wellFormed refers]
    exact div_lt_wordCount inRange.2
  rw [require_bind_of_true inBlock]
  refine settles_writing refers fun borrows => ?_
  have loops := @visit_run _ borrows heap (heap.block number) number (lsb / 32)
    (msb / 32 + 1 - lsb / 32) (Guarded.acceptAt (heap.load target) low high lsb msb)
    (fun changed index slice =>
      let mask := Mask.span lsb (msb + 1) index
      let value := settle target.twoState mask (Words.word low index) (Words.word high index)
      return (changed || slice.differs mask value.1 value.2,
        slice.accept target.kind mask value.1 value.2))
    (fun index => (Guarded.assignedBelow (heap.load target) low high lsb msb
      (heap.block number) index).2)
    isBlock rfl (fun index slice _ outside => Guarded.acceptAt_outside (by omega) slice)
    (by omega) fun index inWords _ _ => by
      rw [← Guarded.assignedBelow_succ_snd inWords]
      rfl
  have stops : lsb / 32 + (msb / 32 + 1 - lsb / 32) = msb / 32 + 1 := by omega
  rw [stops, Guarded.assignedBelow_first, Guarded.assignedBelow_last inBlock] at loops
  exact loops

theorem assignBuffer_settles (value : Buffer) (lsb msb : Nat) :
    Settles (assignBuffer target value lsb msb) heap target
      ((heap.load target).assignBuffer value lsb msb) :=
  assign_settles wellFormed _ _ lsb msb

/-- Committing a buffer word by word is committing it to all words at once. -/
theorem commit_settles (value : Buffer) :
    Settles (commit target value) heap target ((heap.load target).commit value) :=
  assignBuffer_settles wellFormed value 0 (target.width - 1)

/-- Noting the reads of a range word by word is noting them in all words at once. -/
theorem markReads_settles
    {lsb msb : Nat}
    (isMemory : target.kind = Kind.memory)
    (inRange : lsb ≤ msb ∧ msb < target.width) :
    Settles (markReads target lsb msb) heap target
      ((fun marked => (marked, ())) <$> (heap.load target).markRead lsb msb) := by
  have sameKind : (heap.load target).kind = Kind.memory := isMemory
  have inside : lsb ≤ msb ∧ msb < (heap.load target).width := inRange
  unfold LogicVector.markRead LogicVector.requireRange
  rw [require_bind_of_true inside, map_bind]
  refine settles_block fun number refers => ?_
  have isBlock := Heap.lt_size_blocks wellFormed refers
  have inBlock : msb / 32 < (heap.block number).size := by
    rw [Heap.size_block wellFormed refers]
    exact div_lt_wordCount inRange.2
  rw [if_pos sameKind]
  refine settles_writing refers fun borrows => ?_
  rw [bind_of_ok size_run, Nat.min_eq_left (by omega)]
  exact visit_run (fun _ => ()) isBlock rfl
    (fun index slice _ outside => Guarded.readAt_outside (by omega) slice) (by omega)
    fun index inWords _ _ => rfl

/-- Claiming bit by bit is claiming all words at once. -/
theorem claim_settles (msb lsb : Nat) :
    Settles (claim target msb lsb) heap target ((heap.load target).claim msb lsb) := by
  refine settles_require fun isSignal => settles_require fun inRange =>
    settles_block fun number refers => ?_
  have isBlock := Heap.lt_size_blocks wellFormed refers
  have inBlock : msb / 32 < (heap.block number).size := by
    rw [Heap.size_block wellFormed refers]
    exact div_lt_wordCount inRange.2
  rw [require_bind_of_true inBlock]
  refine settles_writing refers fun borrows => ?_
  have loops := @foldlM_range'_run borrows _ (claimBit number) lsb (msb + 1 - lsb)
    (fun position => (Guarded.claimedBelow (heap.block number) lsb position).2)
    (fun position => heap.setBlock number
      (Guarded.claimedBelow (heap.block number) lsb position).1)
    fun position fromFirst below => ?_
  · have stops : lsb + (msb + 1 - lsb) = msb + 1 := by omega
    rw [stops, Guarded.claimedBelow_first, Heap.setBlock_self] at loops
    exact loops
  · have inWords : position / 32 < (heap.block number).size := by omega
    have inClaimed : position / 32 <
        (Guarded.claimedBelow (heap.block number) lsb position).1.size := by
      simpa [Guarded.claimedBelow] using inWords
    have shown := heap.block_setBlock isBlock
      (Guarded.claimedBelow (heap.block number) lsb position).1
    rw [claimBit, bind_of_ok (word_run shown inClaimed), Guarded.getElem_claimedBelow inWords]
    dsimp only
    rw [Guarded.claimedAt_succ fromFirst, bind_of_ok (setWord_run shown inClaimed _),
      Guarded.setIfInBounds_claimedBelow inWords, Heap.setBlock_setBlock,
      ← Guarded.claimedBelow_succ_snd fromFirst]
    rfl

/-- Changing word by word is changing all words at once. -/
theorem changeWords_settles (change : Slice 32 → Slice 32) :
    Settles (changeWords target change) heap target
      ((heap.load target).block >>= fun block =>
        .ok ((heap.load target).withBlock (block.map change), ())) := by
  refine settles_block fun number refers => ?_
  have isBlock := Heap.lt_size_blocks wellFormed refers
  refine settles_writing refers fun borrows => ?_
  have allWords : (heap.block number).mapIdx (fun _ slice => change slice) =
      (heap.block number).map change :=
    Array.ext (by simp) (by simp)
  rw [bind_of_ok size_run, visit_all_run isBlock rfl fun _ => change, allWords]

end Programs

end Stepwise
end FourState
