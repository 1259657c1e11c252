import FourState.LogicVector.Commit
import FourState.LogicVector.Update
import FourState.Proofs.Assigning
import FourState.Proofs.Guarded.Moving

/-!
# Guarded assignment

The gate that every value passes, and the noting of reads, with each machine step
guarded.  Both go over the words of a range one after the other, with a mask that
is cut at the first and at the last of them; what they do to a word with an empty
mask is nothing, so they do what a change of all words at once does.
-/

namespace FourState
namespace Guarded

/-! ## Loops over entries -/

section Entries

variable {content : Type} {entries : Array content} {change : Nat → content → content}
  {index : Nat}

/-- The entries below an index changed, the others as they were. -/
def changedBelow (change : Nat → content → content) (entries : Array content) (index : Nat) :
    Array content :=
  entries.mapIdx fun other entry => if other < index then change other entry else entry

@[simp] theorem size_changedBelow :
    (changedBelow change entries index).size = entries.size := by
  simp [changedBelow]

theorem getElem_changedBelow
    (inBounds : index < entries.size)
    (inChanged : index < (changedBelow change entries index).size) :
    (changedBelow change entries index)[index] = entries[index] := by
  simp [changedBelow]

/-- Changing the entry at an index goes on where the changes below it have stopped. -/
theorem setIfInBounds_changedBelow
    (inBounds : index < entries.size) :
    (changedBelow change entries index).setIfInBounds index (change index entries[index]) =
      changedBelow change entries (index + 1) := by
  refine Array.ext (by simp [changedBelow]) fun other inSet inNext => ?_
  rw [Array.getElem_setIfInBounds (by simpa using inSet)]
  simp only [changedBelow, Array.getElem_mapIdx]
  by_cases isIndex : index = other
  · subst isIndex
    simp
  · rw [if_neg isIndex]
    by_cases below : other < index
    · rw [if_pos below, if_pos (by omega)]
    · rw [if_neg below, if_neg (by omega)]

theorem get_changedBelow
    (inBounds : index < entries.size) :
    get (changedBelow change entries index) index = .ok entries[index] := by
  rw [get_eq_ok (by simpa using inBounds), getElem_changedBelow inBounds]

theorem set_changedBelow
    (inBounds : index < entries.size) :
    set (changedBelow change entries index) index (change index entries[index]) =
      .ok (changedBelow change entries (index + 1)) := by
  rw [set_eq_ok (by simpa using inBounds), setIfInBounds_changedBelow inBounds]

/-- Where nothing is changed below an index, the entries are as they were. -/
theorem changedBelow_eq_self
    (keeps : ∀ other entry, other < index → change other entry = entry) :
    changedBelow change entries index = entries := by
  apply Array.ext (by simp [changedBelow])
  intro other inChanged inEntries
  simp only [changedBelow, Array.getElem_mapIdx]
  split
  · rename_i below
    exact keeps _ _ below
  · rfl

/-- Where nothing is changed from an index on, all entries are changed below it. -/
theorem changedBelow_eq_mapIdx
    (keeps : ∀ other entry, other < entries.size → index ≤ other →
      change other entry = entry) :
    changedBelow change entries index = entries.mapIdx change := by
  apply Array.ext (by simp)
  intro other inChanged inMapped
  simp only [changedBelow, Array.getElem_mapIdx]
  split
  · rfl
  · rename_i above
    exact (keeps _ _ (by simpa using inMapped) (by omega)).symm

end Entries

/-! ## Masks of a range -/

/-- The bits of a word from `lsb` on, for the words from that of `lsb` on. -/
def fromMask (lsb index : Nat) : Guarded Word :=
  if index = lsb / 32 then shiftLeft (BitVec.allOnes 32) (lsb % 32)
  else return BitVec.allOnes 32

/-- The bits of a word up to `msb`, for the words up to that of `msb`. -/
def toMask (msb index : Nat) : Guarded Word :=
  if index = msb / 32 then do
    let count ← add 32 (msb % 32) 1
    lowMask count
  else return BitVec.allOnes 32

/-- The bits of a word from `lsb` to `msb`. -/
def wordMask (lsb msb index : Nat) : Guarded Word := do
  let above ← fromMask lsb index
  let below ← toMask msb index
  return above &&& below

section Masks

variable {lsb msb index : Nat}

theorem fromMask_eq_ok (fromFirst : lsb / 32 ≤ index) :
    fromMask lsb index = .ok (BitVec.allOnes 32 <<< (lsb - 32 * index)) := by
  unfold fromMask
  split
  · rename_i isFirst
    rw [shiftLeft_eq_ok _ (Nat.mod_lt _ (by decide)), show lsb % 32 = lsb - 32 * index by omega]
  · rw [show lsb - 32 * index = 0 by omega, BitVec.shiftLeft_zero]
    rfl

theorem toMask_eq_ok (toLast : index ≤ msb / 32) :
    toMask msb index = .ok (Mask.low (msb + 1 - 32 * index)) := by
  unfold toMask
  split
  · rename_i isLast
    rw [bind_of_ok (add_eq_ok (lt_modulus (by decide) (by omega))), lowMask_eq_ok,
      show msb % 32 + 1 = msb + 1 - 32 * index by omega]
  · refine congrArg Except.ok (BitVec.eq_of_getLsbD_eq fun offset inWord => ?_)
    simp only [BitVec.getLsbD_allOnes, Mask.getLsbD_low, decide_eq_decide]
    omega

theorem wordMask_eq_ok
    (fromFirst : lsb / 32 ≤ index)
    (toLast : index ≤ msb / 32) :
    wordMask lsb msb index = .ok (Mask.span lsb (msb + 1) index) := by
  rw [wordMask, bind_of_ok (fromMask_eq_ok fromFirst), bind_of_ok (toMask_eq_ok toLast)]
  refine congrArg Except.ok (BitVec.eq_of_getLsbD_eq fun offset inWord => ?_)
  rw [Mask.getLsbD_span _ _ _ inWord, Bool.eq_iff_iff]
  simp only [BitVec.getLsbD_and, BitVec.getLsbD_shiftLeft, BitVec.getLsbD_allOnes,
    Mask.getLsbD_low, Bool.and_eq_true, decide_eq_true_eq, Bool.not_eq_true',
    decide_eq_false_iff_not]
  omega

end Masks

/-! ## Coverage of a word -/

/-- The word of a plane, given by its number. -/
def planeWord (slice : Slice 32) (number : Nat) : Guarded Word :=
  match Plane.ofNat? number with
  | some plane => return slice.get plane
  | none => throw (MachineFault.condition Fault.planeIndex)

/-- Add bits to a plane, given by its number. -/
def markPlane (slice : Slice 32) (number : Nat) (word : Word) : Guarded (Slice 32) :=
  liftM (slice.edit (.mark number word))

/-- The bits that go from a known zero to a known one. -/
def risen (oldLow oldHigh newLow newHigh : Word) : Word :=
  (~~~oldLow &&& ~~~oldHigh) &&& (newLow &&& ~~~newHigh)

/-- The bits that go from a known one to a known zero. -/
def fallen (oldLow oldHigh newLow newHigh : Word) : Word :=
  (oldLow &&& ~~~oldHigh) &&& (~~~newLow &&& ~~~newHigh)

/-- Fold the change of the masked bits of a word into its coverage planes. -/
def cover (kind : Kind) (slice : Slice 32) (mask oldLow oldHigh newLow newHigh : Word) :
    Guarded (Slice 32) :=
  match kind with
  | .plain => return slice
  | .signal => do
      let set ← planeWord slice Plane.signalSet
      let prior := set &&& mask
      let withRises ← markPlane slice Plane.toggle01
        (risen oldLow oldHigh newLow newHigh &&& prior)
      let withFalls ← markPlane withRises Plane.toggle10
        (fallen oldLow oldHigh newLow newHigh &&& prior)
      markPlane withFalls Plane.signalSet mask
  | .expression => markPlane slice Plane.expressionSet mask
  | .memory => do
      let withRises ← markPlane slice Plane.toggle01
        (risen oldLow oldHigh newLow newHigh &&& mask)
      let withFalls ← markPlane withRises Plane.toggle10
        (fallen oldLow oldHigh newLow newHigh &&& mask)
      markPlane withFalls Plane.written mask

section Coverage

variable (slice : Slice 32)

theorem planeWord_eq_ok (plane : Plane) : planeWord slice plane = .ok (slice.get plane) := by
  rw [planeWord, Plane.ofNat?_val]
  rfl

theorem markPlane_eq_ok (plane : Plane) (word : Word) :
    markPlane slice plane word = .ok (slice.markPlane plane word) := by
  rw [markPlane, Slice.edit, Plane.ofNat?_val]
  rfl

/-- Only the old value under the mask matters for the bits under it. -/
theorem risen_masked (mask low high : Word) :
    risen (slice.get Plane.valueLow &&& mask) (slice.get Plane.valueHigh &&& mask) low high &&&
        mask =
      slice.rises low high &&& mask := by
  refine BitVec.eq_of_getLsbD_eq fun offset inWord => ?_
  simp only [risen, Slice.rises, BitVec.getLsbD_and, BitVec.getLsbD_not, inWord, decide_true,
    Bool.true_and]
  cases mask.getLsbD offset <;> simp

theorem fallen_masked (mask low high : Word) :
    fallen (slice.get Plane.valueLow &&& mask) (slice.get Plane.valueHigh &&& mask) low high &&&
        mask =
      slice.falls low high &&& mask := by
  refine BitVec.eq_of_getLsbD_eq fun offset inWord => ?_
  simp only [fallen, Slice.falls, BitVec.getLsbD_and, BitVec.getLsbD_not, inWord, decide_true,
    Bool.true_and]
  cases mask.getLsbD offset <;> simp

/-- Marks of three planes are one mark of all of them. -/
theorem markPlane_three
    {first second third : Plane}
    (distinct : first ≠ second ∧ first ≠ third ∧ second ≠ third)
    (firstWord secondWord thirdWord : Word) :
    ((slice.markPlane first firstWord).markPlane second secondWord).markPlane third thirdWord =
      slice.mark fun plane =>
        if plane = first then firstWord
        else if plane = second then secondWord
        else if plane = third then thirdWord
        else 0 := by
  obtain ⟨firstSecond, firstThird, secondThird⟩ := distinct
  refine Slice.ext fun plane => ?_
  simp only [Slice.get_markPlane, Slice.get_mark, firstSecond.symm, firstThird.symm,
    secondThird.symm, if_false]
  by_cases isFirst : plane = first
  · simp [isFirst, firstSecond, firstThird]
  · by_cases isSecond : plane = second
    · simp [isSecond, firstSecond.symm, secondThird]
    · by_cases isThird : plane = third
      · simp [isThird, firstThird.symm, secondThird.symm]
      · simp [isFirst, isSecond, isThird]

/-- The coverage planes take what the kind counts of the change. -/
theorem cover_eq_ok (kind : Kind) (mask low high : Word) :
    cover kind slice mask (slice.get Plane.valueLow &&& mask) (slice.get Plane.valueHigh &&& mask)
        low high =
      .ok (slice.mark (slice.coverage kind mask low high)) := by
  cases kind with
  | plain =>
      refine congrArg Except.ok (Slice.ext fun plane => ?_)
      rw [Slice.get_mark]
      exact BitVec.or_zero.symm
  | signal =>
      have sameMask (word set : Word) : word &&& (set &&& mask) = word &&& mask &&& set := by
        rw [BitVec.and_assoc, BitVec.and_comm set mask]
      rw [cover, bind_of_ok (planeWord_eq_ok slice _), bind_of_ok (markPlane_eq_ok slice _ _),
        bind_of_ok (markPlane_eq_ok _ _ _), markPlane_eq_ok, sameMask, sameMask, risen_masked,
        fallen_masked, markPlane_three _ (by decide)]
      rfl
  | expression =>
      rw [cover, markPlane_eq_ok]
      refine congrArg Except.ok (Slice.ext fun plane => ?_)
      simp only [Slice.get_markPlane, Slice.get_mark, Slice.coverage]
      split_ifs <;> simp_all
  | memory =>
      rw [cover, bind_of_ok (markPlane_eq_ok slice _ _), bind_of_ok (markPlane_eq_ok _ _ _),
        markPlane_eq_ok, risen_masked, fallen_masked, markPlane_three _ (by decide)]
      rfl

end Coverage

/-! ## Noted reads -/

/-- The last bit of a word that a range up to `msb` reaches. -/
def lastOffset (msb index : Nat) : Guarded Nat :=
  if index = msb / 32 then return msb % 32 else sub 32 1

/-- Note the bits of a range that lie in one word as read. -/
def markReadWord (lsb msb : Nat) (block : Block) (index : Nat) : Guarded Block := do
  let last ← lastOffset msb index
  let mask ← rangeMask (if index = lsb / 32 then lsb % 32 else 0) last
  let slice ← get block index
  let marked ← markPlane slice Plane.read mask
  set block index marked

/-- Note in a memory that the bits `lsb` to `msb` are read, word by word. -/
def markRead (source : LogicVector) (lsb msb : Nat) : Guarded LogicVector := do
  assert (lsb ≤ msb ∧ msb < source.width)
  let block ← source.block
  if source.kind = Kind.memory then
    let stop ← add 64 (msb / 32) 1
    let marked ← (List.range' (lsb / 32) (min stop block.size - lsb / 32)).foldlM
      (markReadWord lsb msb) block
    return source.withBlock marked
  else return source

section Reads

variable {source : LogicVector} {block : Block} {lsb msb index : Nat}

theorem readMask_eq_span
    (fromFirst : lsb / 32 ≤ index)
    (toLast : index ≤ msb / 32) :
    (Mask.range (if index = lsb / 32 then lsb % 32 else 0)
        (if index = msb / 32 then msb % 32 else 31) : Word) =
      Mask.span lsb (msb + 1) index := by
  refine BitVec.eq_of_getLsbD_eq fun offset inWord => ?_
  rw [Mask.getLsbD_span _ _ _ inWord, Bool.eq_iff_iff]
  simp only [Mask.range, BitVec.getLsbD_and, BitVec.getLsbD_not, Mask.getLsbD_low, inWord,
    decide_true, Bool.true_and, true_and, Bool.and_eq_true, decide_eq_true_eq, Bool.not_eq_true',
    decide_eq_false_iff_not]
  split <;> split <;> omega

/-- A word with the reads of a range noted. -/
def readAt (lsb msb index : Nat) (slice : Slice 32) : Slice 32 :=
  slice.markPlane Plane.read (Mask.span lsb (msb + 1) index)

theorem readAt_outside
    (outside : index < lsb / 32 ∨ msb / 32 < index)
    (slice : Slice 32) :
    readAt lsb msb index slice = slice := by
  unfold readAt
  rw [Mask.span_eq_zero (by omega)]
  refine Slice.ext fun plane => ?_
  rw [Slice.get_markPlane]
  split
  · rename_i same
    rw [same]
    exact BitVec.or_zero
  · rfl

theorem markReadWord_eq_ok
    (ordered : lsb ≤ msb)
    (fromFirst : lsb / 32 ≤ index)
    (toLast : index ≤ msb / 32)
    (inBlock : index < block.size) :
    markReadWord lsb msb (changedBelow (readAt lsb msb) block index) index =
      .ok (changedBelow (readAt lsb msb) block (index + 1)) := by
  have last : lastOffset msb index = .ok (if index = msb / 32 then msb % 32 else 31) := by
    unfold lastOffset
    split <;> rfl
  rw [markReadWord, bind_of_ok last,
    bind_of_ok (rangeMask_eq_ok (by split <;> split <;> omega) (by split <;> omega)),
    bind_of_ok (get_changedBelow inBlock), bind_of_ok (markPlane_eq_ok _ _ _),
    readMask_eq_span fromFirst toLast]
  exact set_changedBelow inBlock

/-- The reads of a range inside a vector can be noted. -/
theorem markRead_agrees
    (stored : source.block = .ok block)
    (inRange : lsb ≤ msb ∧ msb < source.width)
    (small : source.width ≤ maxWidth)
    (inBlock : msb / 32 < block.size) :
    Agrees (fun _ => True) (markRead source lsb msb) (source.markRead lsb msb) := by
  have widthLe : source.width ≤ 65536 := small
  have reads : source.markRead lsb msb = .ok
      (if source.kind = Kind.memory then source.withBlock (block.mapIdx (readAt lsb msb))
        else source) := by
    rw [LogicVector.markRead, LogicVector.requireRange, require_bind_of_true inRange, stored]
    exact (apply_ite Except.ok _ _ _).symm
  rw [reads, markRead, bind_of_ok (assert_eq_ok inRange), bind_of_ok (liftM_eq_ok stored)]
  split
  · rename_i isMemory
    have each : ∀ index, lsb / 32 ≤ index → index < lsb / 32 + (msb / 32 + 1 - lsb / 32) →
        markReadWord lsb msb (changedBelow (readAt lsb msb) block index) index =
          .ok (changedBelow (readAt lsb msb) block (index + 1)) :=
      fun index fromFirst below =>
        markReadWord_eq_ok inRange.1 fromFirst (by omega) (by omega)
    have loops := foldlM_range'_eq_ok _ each
    have starts : changedBelow (readAt lsb msb) block (lsb / 32) = block :=
      changedBelow_eq_self fun other slice below => readAt_outside (Or.inl below) slice
    have stops : lsb / 32 + (msb / 32 + 1 - lsb / 32) = msb / 32 + 1 := by omega
    have marks : changedBelow (readAt lsb msb) block (msb / 32 + 1) =
        block.mapIdx (readAt lsb msb) :=
      changedBelow_eq_mapIdx fun other slice _ past => readAt_outside (Or.inr (by omega)) slice
    rw [starts, stops, marks] at loops
    refine agrees_ok ?_ trivial
    rw [bind_of_ok (add_eq_ok (lt_modulus (by decide) (by omega))),
      Nat.min_eq_left (by omega), bind_of_ok loops]
    rfl
  · exact agrees_ok rfl trivial

end Reads

/-! ## The gate -/

/-- Assign the bits of a range that lie in one word, after their coverage. -/
def assignWord (vector : LogicVector) (low high : Array Word) (lsb msb : Nat)
    (state : Block × Bool) (index : Nat) : Guarded (Block × Bool) := do
  let mask ← wordMask lsb msb index
  let lowWord ← get low index
  let highWord ← get high index
  let value := settle vector.twoState mask lowWord highWord
  let slice ← get state.1 index
  let covered ← cover vector.kind slice mask (slice.get Plane.valueLow &&& mask)
    (slice.get Plane.valueHigh &&& mask) value.1 value.2
  let block ← set state.1 index (covered.assign mask value.1 value.2)
  return (block, state.2 || slice.differs mask value.1 value.2)

/-- Assign the bits `lsb` to `msb` from two word sequences, word by word. -/
def assign (vector : LogicVector) (low high : Array Word) (lsb msb : Nat) :
    Guarded (LogicVector × Bool) := do
  assert (lsb ≤ msb ∧ msb < vector.width)
  assert (msb / 32 < low.size ∧ msb / 32 < high.size)
  let block ← vector.block
  let finished ← (List.range' (lsb / 32) (msb / 32 + 1 - lsb / 32)).foldlM
    (assignWord vector low high lsb msb) (block, false)
  return (vector.withBlock finished.1, finished.2)

/-- A buffer at a width: as it is, or cut or zero-extended. -/
def fitted (value : Buffer) (width : Nat) : Guarded Buffer :=
  if value.width = width then return value else resized value width false

/-- Assign the whole vector from a buffer. -/
def commit (vector : LogicVector) (value : Buffer) : Guarded (LogicVector × Bool) := do
  let fitted ← fitted value vector.width
  let last ← sub vector.width 1
  assign vector fitted.low fitted.high 0 last

section Gate

variable {vector : LogicVector} {block : Block} {low high : Array Word} {lsb msb index : Nat}

/-- Under an empty mask nothing is accepted. -/
theorem accept_zero (kind : Kind) (slice : Slice 32) (low high : Word) :
    slice.accept kind 0 low high = slice := by
  have noCoverage (plane : Plane) : slice.coverage kind 0 low high plane = 0 := by
    cases kind <;> simp [Slice.coverage]
  have unmarked (old : Word) : old ||| 0 = old := BitVec.or_zero
  have replaced (old new : Word) : ((old ||| 0) &&& ~~~0) ||| (new &&& 0) = old := by
    have taken : new &&& (0 : Word) = 0 := BitVec.and_zero
    have kept : old &&& ~~~(0 : Word) = old := BitVec.and_allOnes
    rw [unmarked, kept, taken, unmarked]
  refine Slice.ext fun plane => ?_
  simp only [Slice.accept, Slice.assign, Slice.get_ofPlanes, Slice.get_mark, noCoverage]
  split
  · exact replaced _ _
  · split
    · exact replaced _ _
    · exact unmarked _

/-- Under an empty mask nothing differs. -/
theorem differs_zero (twoState : Bool) (slice : Slice 32) (low high : Word) :
    slice.differs 0 (settle twoState 0 low high).1 (settle twoState 0 low high).2 = false := by
  cases twoState <;> simp [Slice.differs, settle]

/-- What an assignment makes of the word at an index. -/
def acceptAt (vector : LogicVector) (low high : Array Word) (lsb msb index : Nat)
    (slice : Slice 32) : Slice 32 :=
  slice.accept vector.kind (Mask.span lsb (msb + 1) index)
    (vector.settled low high lsb msb index).1 (vector.settled low high lsb msb index).2

/-- An assignment changes the word at an index. -/
def differsAt (vector : LogicVector) (low high : Array Word) (lsb msb index : Nat)
    (slice : Slice 32) : Bool :=
  slice.differs (Mask.span lsb (msb + 1) index)
    (vector.settled low high lsb msb index).1 (vector.settled low high lsb msb index).2

theorem acceptAt_outside
    (outside : index < lsb / 32 ∨ msb / 32 < index)
    (slice : Slice 32) :
    acceptAt vector low high lsb msb index slice = slice := by
  unfold acceptAt
  rw [Mask.span_eq_zero (by omega)]
  exact accept_zero _ _ _ _

theorem differsAt_outside
    (outside : index < lsb / 32 ∨ msb / 32 < index)
    (slice : Slice 32) :
    differsAt vector low high lsb msb index slice = false := by
  unfold differsAt LogicVector.settled
  rw [Mask.span_eq_zero (by omega)]
  exact differs_zero _ _ _ _

/-- The words below an index have been assigned. -/
def assignedBelow (vector : LogicVector) (low high : Array Word) (lsb msb : Nat) (block : Block)
    (index : Nat) : Block × Bool :=
  (changedBelow (acceptAt vector low high lsb msb) block index,
    (List.range index).any fun other =>
      differsAt vector low high lsb msb other (block.slice other))

/-- An assignment has changed a word so far if it had before, or the last of them. -/
theorem assignedBelow_succ_snd (inBlock : index < block.size) :
    ((assignedBelow vector low high lsb msb block index).2 ||
        differsAt vector low high lsb msb index block[index]) =
      (assignedBelow vector low high lsb msb block (index + 1)).2 := by
  unfold assignedBelow
  rw [List.range_succ, List.any_append, List.any_cons, List.any_nil, Bool.or_false,
    block.slice_of_lt inBlock]

theorem assignWord_eq_ok
    (fromFirst : lsb / 32 ≤ index)
    (toLast : index ≤ msb / 32)
    (inLow : index < low.size)
    (inHigh : index < high.size)
    (inBlock : index < block.size) :
    assignWord vector low high lsb msb (assignedBelow vector low high lsb msb block index) index =
      .ok (assignedBelow vector low high lsb msb block (index + 1)) := by
  have settles : settle vector.twoState (Mask.span lsb (msb + 1) index) low[index] high[index] =
      vector.settled low high lsb msb index := by
    unfold LogicVector.settled
    rw [Words.word_of_lt _ inLow, Words.word_of_lt _ inHigh]
  rw [assignWord, bind_of_ok (wordMask_eq_ok fromFirst toLast), bind_of_ok (get_eq_ok inLow),
    bind_of_ok (get_eq_ok inHigh)]
  dsimp only
  rw [settles, assignedBelow, bind_of_ok (get_changedBelow inBlock),
    bind_of_ok (cover_eq_ok _ _ _ _ _)]
  refine (bind_of_ok (@set_changedBelow _ block (acceptAt vector low high lsb msb) _ inBlock)
    _).trans ?_
  exact congrArg Except.ok (Prod.ext rfl (assignedBelow_succ_snd inBlock))

/-- Below the first word of the range nothing has been assigned. -/
theorem assignedBelow_first :
    assignedBelow vector low high lsb msb block (lsb / 32) = (block, false) := by
  refine Prod.ext (changedBelow_eq_self fun other slice below =>
    acceptAt_outside (Or.inl below) slice) (List.any_eq_false.2 fun other isMember => ?_)
  rw [differsAt_outside (Or.inl (List.mem_range.1 isMember))]
  exact Bool.false_ne_true

/-- Behind the last word of the range all of it has been assigned. -/
theorem assignedBelow_last (inBlock : msb / 32 < block.size) :
    assignedBelow vector low high lsb msb block (msb / 32 + 1) =
      (block.mapIdx (acceptAt vector low high lsb msb),
        (block.mapIdx (differsAt vector low high lsb msb)).any id) := by
  refine Prod.ext (changedBelow_eq_mapIdx fun other slice _ past =>
    acceptAt_outside (Or.inr (by omega)) slice) (Bool.eq_iff_iff.2 ?_)
  rw [Array.any_eq_true, assignedBelow, List.any_eq_true]
  simp only [List.mem_range, Array.size_mapIdx, Array.getElem_mapIdx, id_eq]
  constructor
  · rintro ⟨index, below, differs⟩
    have inWords : index < block.size := by omega
    rw [block.slice_of_lt inWords] at differs
    exact ⟨index, inWords, differs⟩
  · rintro ⟨index, inWords, differs⟩
    refine ⟨index, ?_, by rwa [block.slice_of_lt inWords]⟩
    by_contra past
    rw [differsAt_outside (Or.inr (by omega))] at differs
    contradiction

/-- An assignment inside a vector whose words reach the highest position succeeds. -/
theorem assign_agrees
    (stored : vector.block = .ok block)
    (inRange : lsb ≤ msb ∧ msb < vector.width)
    (longEnough : msb / 32 < low.size ∧ msb / 32 < high.size)
    (inBlock : msb / 32 < block.size) :
    Agrees (fun _ => True) (assign vector low high lsb msb)
      (vector.assign low high lsb msb) := by
  have each : ∀ index, lsb / 32 ≤ index → index < lsb / 32 + (msb / 32 + 1 - lsb / 32) →
      assignWord vector low high lsb msb (assignedBelow vector low high lsb msb block index) index =
        .ok (assignedBelow vector low high lsb msb block (index + 1)) :=
    fun index fromFirst below =>
      assignWord_eq_ok fromFirst (by omega) (by omega) (by omega) (by omega)
  have loops := foldlM_range'_eq_ok _ each
  have stops : lsb / 32 + (msb / 32 + 1 - lsb / 32) = msb / 32 + 1 := by omega
  rw [assignedBelow_first, stops, assignedBelow_last inBlock] at loops
  have runs : vector.assign low high lsb msb =
      .ok (vector.withBlock (block.mapIdx (acceptAt vector low high lsb msb)),
        (block.mapIdx (differsAt vector low high lsb msb)).any id) := by
    rw [LogicVector.assign, require_bind_of_true inRange, require_bind_of_true longEnough, stored]
    exact require_bind_of_true inBlock _
  rw [runs, assign, bind_of_ok (assert_eq_ok inRange), bind_of_ok (assert_eq_ok longEnough),
    bind_of_ok (liftM_eq_ok stored), bind_of_ok loops]
  exact agrees_ok rfl trivial

/-- A buffer is committed to every bit of a vector. -/
theorem commit_agrees
    {clipped : Plane → Prop}
    (wellFormed : vector.WellFormed clipped)
    (stored : vector.block = .ok block)
    {value : Buffer}
    (limits : value.InLimits) :
    Agrees (fun _ => True) (commit vector value) (vector.commit value) := by
  have notEmpty := wellFormed.width_pos
  have fits : fitted value vector.width = .ok (value.fitted vector.width) := by
    unfold fitted Buffer.fitted
    split
    · rfl
    · exact resized_eq_ok limits.width_pos notEmpty wellFormed.width_le false
  have lastWord : (vector.width - 1) / 32 < wordCount vector.width :=
    div_lt_wordCount (by omega)
  have canonical : (value.fitted vector.width).Canonical := by
    unfold Buffer.fitted
    split
    · exact limits.canonical
    · exact Buffer.canonical_resized _ _ _
  have lastInside : vector.width - 1 < (value.fitted vector.width).width := by
    rw [Buffer.width_fitted]
    omega
  obtain ⟨answer, assigns, same, -⟩ := @assign_agrees vector block (value.fitted vector.width).low
    (value.fitted vector.width).high 0 (vector.width - 1) stored ⟨by omega, by omega⟩
    (canonical.has_word lastInside)
    (by rw [(wellFormed.block_fits block stored).size_eq]; exact lastWord)
  refine ⟨answer, ?_, same, trivial⟩
  rw [commit, bind_of_ok fits, bind_of_ok (sub_eq_ok notEmpty)]
  exact assigns

end Gate

end Guarded
end FourState
