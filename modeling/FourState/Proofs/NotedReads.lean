import FourState.Proofs.Effect
import FourState.Proofs.Operating

/-!
# Noted reads

A memory notes which of its bits are read.  The note stays in one plane that no
assignment looks at, so noting a read and giving a value can be done in any order:
`LogicVector.assign_noteRead` says that the result, the answer and every failure
are the same.
-/

namespace FourState

/-! ## One cell -/

namespace Cell

/-- The marks of a bit that may have been read. -/
def readMarks (kind : Kind) (isRead : Bool) : Cell := fun plane =>
  isRead && decide (kind = Kind.memory ∧ plane = Plane.read)

/-- A read shows in the read plane of a memory only. -/
theorem mark_readMarks
    (cell : Cell)
    {kind : Kind}
    (isRead : Bool)
    {plane : Plane}
    (elsewhere : kind = Kind.memory → plane ≠ Plane.read) :
    cell.mark (readMarks kind isRead) plane = cell plane := by
  have unmarked : decide (kind = Kind.memory ∧ plane = Plane.read) = false :=
    decide_eq_false fun both => elsewhere both.1 both.2
  rw [mark, readMarks, unmarked, Bool.and_false, Bool.and_false, Bool.or_false]

@[simp] theorem mark_readMarks_false (cell : Cell) (kind : Kind) :
    cell.mark (readMarks kind false) = cell := by
  funext plane
  simp [mark, readMarks]

theorem mark_readMarks_read (cell : Cell) (isRead : Bool) :
    cell.mark (readMarks Kind.memory isRead) Plane.read = (cell Plane.read || isRead) := by
  have coverage : Plane.isCoverage Plane.read = true := rfl
  simp [mark, readMarks, coverage]

/-- Reads that are noted one after the other are noted together. -/
theorem mark_readMarks_mark_readMarks
    (cell : Cell)
    (kind : Kind)
    (first second : Bool) :
    (cell.mark (readMarks kind first)).mark (readMarks kind second) =
      cell.mark (readMarks kind (first || second)) := by
  funext plane
  cases first <;> cases second <;> simp [mark, readMarks]

/-- What a bit gains does not depend on whether it has been read. -/
theorem gains_mark_readMarks
    (kind : Kind)
    (cell : Cell)
    (isRead : Bool)
    (bit : Bit) :
    gains kind (cell.mark (readMarks kind isRead)) bit = gains kind cell bit := by
  have rises : (cell.mark (readMarks kind isRead)).rises bit = cell.rises bit := by
    rw [Cell.rises, Cell.rises, value_mark]
  have falls : (cell.mark (readMarks kind isRead)).falls bit = cell.falls bit := by
    rw [Cell.falls, Cell.falls, value_mark]
  cases kind with
  | plain => rfl
  | signal =>
      have set : cell.mark (readMarks Kind.signal isRead) Plane.signalSet =
          cell Plane.signalSet :=
        mark_readMarks _ _ fun isMemory => absurd isMemory (by decide)
      simp only [gains, rises, falls, set]
  | expression => rfl
  | memory => simp only [gains, rises, falls]

/-- Reading a bit and giving it a value can be exchanged. -/
theorem accept_mark_readMarks
    (kind : Kind)
    (cell : Cell)
    (isRead : Bool)
    (bit : Bit) :
    (cell.mark (readMarks kind isRead)).accept kind bit =
      (cell.accept kind bit).mark (readMarks kind isRead) := by
  funext plane
  cases coverage : plane.isCoverage with
  | true =>
      rw [accept_coverage _ _ _ coverage, gains_mark_readMarks, mark, mark,
        accept_coverage _ _ _ coverage]
      ac_rfl
  | false =>
      have notMarked (other : Cell) : other.mark (readMarks kind isRead) plane = other plane := by
        simp [mark, coverage]
      rw [notMarked]
      simp only [accept, gains_mark_readMarks, notMarked]

end Cell

/-! ## One word -/

/-- Words of a plane stay if the change of the cells leaves the plane alone. -/
theorem Block.get_slice_alter
    (block : Block)
    {change : Nat → Cell → Cell}
    {plane : Plane}
    (keeps : ∀ position cell, change position cell plane = cell plane)
    (index : Nat) :
    ((block.alter change).slice index).get plane = (block.slice index).get plane := by
  apply BitVec.eq_of_getLsbD_eq
  intro offset inWord
  have before := congrFun (block.cell_slice index inWord) plane
  have after := congrFun ((block.alter change).cell_slice index inWord) plane
  exact after.trans ((block.bit_alter_of_keeps (keeps _)).trans before.symm)

/-- Whether a value differs from another one depends on the value planes only. -/
theorem Slice.differs_congr
    {first second : Slice 32}
    (sameLow : first.get Plane.valueLow = second.get Plane.valueLow)
    (sameHigh : first.get Plane.valueHigh = second.get Plane.valueHigh)
    (mask low high : Word) :
    first.differs mask low high = second.differs mask low high := by
  rw [differs, differs, sameLow, sameHigh]

/-! ## Vectors -/

/-- A check that comes first in two computations. -/
theorem require_bind_map
    {error first second : Type}
    {condition : Prop}
    [Decidable condition]
    {otherwise : error}
    {change : first → second}
    {next : Unit → Except error first}
    {other : Unit → Except error second}
    (agree : condition → other () = (next ()).map change) :
    (require condition otherwise >>= other) =
      (require condition otherwise >>= next).map change := by
  by_cases holds : condition
  · rw [require_bind_of_true holds, require_bind_of_true holds, agree holds]
  · rw [require_bind_of_false holds, require_bind_of_false holds]
    rfl

namespace LogicVector

/-- The vector with some of its bits noted as read, if it is a memory. -/
def noteRead (vector : LogicVector) (isRead : Nat → Bool) : LogicVector :=
  vector.alter fun position cell => cell.mark (Cell.readMarks vector.kind (isRead position))

@[simp] theorem toHeader_noteRead (vector : LogicVector) (isRead : Nat → Bool) :
    (vector.noteRead isRead).toHeader = vector.toHeader :=
  rfl

@[simp] theorem isOwned_noteRead (vector : LogicVector) (isRead : Nat → Bool) :
    (vector.noteRead isRead).storage.isOwned = vector.storage.isOwned :=
  Storage.isOwned_map _ _

@[simp] theorem isAllocated_noteRead (vector : LogicVector) (isRead : Nat → Bool) :
    (vector.noteRead isRead).storage.isAllocated = vector.storage.isAllocated :=
  Storage.isAllocated_map _ _

/-- Noting no read changes nothing. -/
@[simp] theorem noteRead_false (vector : LogicVector) :
    vector.noteRead (fun _ => false) = vector := by
  simp only [noteRead, Cell.mark_readMarks_false]
  exact vector.alter_keep

theorem noteRead_noteRead
    (vector : LogicVector)
    (first second : Nat → Bool) :
    (vector.noteRead first).noteRead second =
      vector.noteRead fun position => first position || second position := by
  unfold noteRead
  rw [alter_alter]
  congr 1
  funext position cell
  exact cell.mark_readMarks_mark_readMarks vector.kind (first position) (second position)

/-- Noting that a range is read is noting that its bits are. -/
theorem alter_readEffect
    {vector source : LogicVector}
    (sameKind : source.kind = vector.kind)
    (lsb msb : Nat) :
    vector.alter (source.readEffect lsb msb).apply =
      vector.noteRead fun position => decide (lsb ≤ position ∧ position ≤ msb) := by
  unfold noteRead readEffect
  congr 1
  funext position cell plane
  by_cases isMemory : source.kind = Kind.memory
  · rw [if_pos isMemory, ← sameKind]
    simp only [Effect.apply, Cell.mark, Cell.readMarks, isMemory, true_and, Bool.decide_and]
    rw [Bool.and_comm (decide (plane = Plane.read))]
  · rw [if_neg isMemory]
    exact (Cell.mark_readMarks _ _ fun same => absurd (sameKind.trans same) isMemory).symm

/-- Noted reads show in the read plane of a memory only. -/
theorem cell_noteRead_of_unread
    (vector : LogicVector)
    {isRead : Nat → Bool}
    {position : Nat}
    {plane : Plane}
    (unread : vector.kind = Kind.memory → plane = Plane.read → isRead position = false) :
    (vector.noteRead isRead).cell position plane = vector.cell position plane := by
  apply vector.bit_alter_of_keeps
  intro cell
  cases reads : isRead position with
  | false => rw [Cell.mark_readMarks_false]
  | true =>
      apply Cell.mark_readMarks
      intro isMemory isReadPlane
      rw [unread isMemory isReadPlane] at reads
      contradiction

/-- The cells of a vector with noted reads; past its words there is nothing to note. -/
theorem cell_noteRead
    {vector : LogicVector}
    {block : Block}
    (stored : vector.block = .ok block)
    {isRead : Nat → Bool}
    {position : Nat}
    (readsInside : isRead position = true → position < 32 * block.size) :
    (vector.noteRead isRead).cell position =
      (vector.cell position).mark (Cell.readMarks vector.kind (isRead position)) := by
  cases reads : isRead position with
  | true => rw [noteRead, cell_alter stored _ (readsInside reads), reads]
  | false =>
      rw [Cell.mark_readMarks_false]
      funext plane
      exact vector.cell_noteRead_of_unread fun _ _ => reads

theorem block_noteRead
    {vector : LogicVector}
    {block : Block}
    (stored : vector.block = .ok block)
    (isRead : Nat → Bool) :
    (vector.noteRead isRead).block = .ok (block.alter fun position cell =>
      cell.mark (Cell.readMarks vector.kind (isRead position))) :=
  block_alter stored _

theorem block_noteRead_of_error
    {vector : LogicVector}
    {fault : Fault}
    (missing : vector.block = .error fault)
    (isRead : Nat → Bool) :
    (vector.noteRead isRead).block = .error fault := by
  unfold LogicVector.block at missing ⊢
  split at missing
  · contradiction
  · rename_i noContent
    rw [noteRead, alter, Storage.content?_map, noContent]
    exact missing

/-- Reading bits and giving others a value can be exchanged. -/
theorem accept_noteRead
    (vector : LogicVector)
    (isRead : Nat → Bool)
    (assignment : Assignment) :
    (vector.noteRead isRead).accept assignment = (vector.accept assignment).noteRead isRead := by
  unfold noteRead accept
  rw [alter_alter, alter_alter]
  congr 1
  funext position cell
  change (Assignment.settle vector.twoState assignment).change vector.kind position _ = _
  unfold Assignment.change
  split
  · rw [Cell.accept_mark_readMarks]
    rfl
  · rfl

/-- The words that the gate leaves are those of the accepted assignment. -/
theorem withBlock_mapIdx_accept
    {vector : LogicVector}
    {block : Block}
    (stored : vector.block = .ok block)
    (low high : Array Word)
    (lsb msb : Nat) :
    (vector.withBlock (block.mapIdx fun index slice =>
      slice.accept vector.kind (Mask.span lsb (msb + 1) index)
        (vector.settled low high lsb msb index).1 (vector.settled low high lsb msb index).2)) =
      vector.accept (Assignment.ofWords low high lsb msb) := by
  rw [mapIdx_accept_eq_alter, withBlock_alter stored]
  rfl

/-- Noted reads do not show in the answer of an assignment. -/
theorem mapIdx_differs_alter
    (block : Block)
    (kind : Kind)
    (isRead : Nat → Bool)
    (mask low high : Nat → Word) :
    ((block.alter fun position cell =>
        cell.mark (Cell.readMarks kind (isRead position))).mapIdx fun index slice =>
          slice.differs (mask index) (low index) (high index)) =
      block.mapIdx fun index slice => slice.differs (mask index) (low index) (high index) := by
  have keeps (plane : Plane) (isValue : plane.isCoverage = false) (position : Nat)
      (cell : Cell) : cell.mark (Cell.readMarks kind (isRead position)) plane = cell plane := by
    simp [Cell.mark, isValue]
  apply Array.ext (by simp)
  intro index inAltered inBlock
  rw [Array.size_mapIdx] at inAltered inBlock
  rw [Array.getElem_mapIdx, Array.getElem_mapIdx, ← Block.slice_of_lt _ inAltered,
    ← Block.slice_of_lt _ inBlock]
  exact Slice.differs_congr (block.get_slice_alter (keeps _ rfl) index)
    (block.get_slice_alter (keeps _ rfl) index) _ _ _

/-- Reading bits and assigning others can be exchanged: the result, the answer and
every failure are the same. -/
theorem assign_noteRead
    (vector : LogicVector)
    (isRead : Nat → Bool)
    (low high : Array Word)
    (lsb msb : Nat) :
    (vector.noteRead isRead).assign low high lsb msb =
      (vector.assign low high lsb msb).map fun answer => (answer.1.noteRead isRead, answer.2) := by
  unfold assign
  apply require_bind_map
  intro _
  apply require_bind_map
  intro _
  cases stored : vector.block with
  | error fault =>
      rw [block_noteRead_of_error stored]
      rfl
  | ok block =>
      rw [block_noteRead stored]
      change (require (msb / 32 < (block.alter _).size) Fault.wordIndex >>= _) = Except.map _
        (require (msb / 32 < block.size) Fault.wordIndex >>= _)
      rw [Block.size_alter]
      apply require_bind_map
      intro _
      refine congrArg Except.ok (Prod.ext ?_ ?_)
      · have accepts := withBlock_mapIdx_accept stored low high lsb msb
        have acceptsNoted := withBlock_mapIdx_accept (block_noteRead stored isRead) low high lsb msb
        rw [accept_noteRead, ← accepts] at acceptsNoted
        exact acceptsNoted
      · exact congrArg (fun changed : Array Bool => changed.any id)
          (mapIdx_differs_alter block vector.kind isRead _ _ _)

/-- Selected bits are put into a vector alike before and after reads are noted in it. -/
theorem update_partSelect_noteRead
    (vector source : LogicVector)
    (isRead : Nat → Bool)
    (lsb msb : Nat) :
    (vector.noteRead isRead).update (.operate (.partSelect source lsb msb)) =
      (vector.update (.operate (.partSelect source lsb msb))).map
        fun answer => (answer.1.noteRead isRead, answer.2) := by
  have assigns (value : Buffer) :
      (vector.noteRead isRead).assignBuffer value 0 (vector.width - 1) =
        (vector.assignBuffer value 0 (vector.width - 1)).map
          fun answer => (answer.1.noteRead isRead, answer.2) :=
    assign_noteRead vector isRead _ _ 0 (vector.width - 1)
  unfold update operate
  simp only [Operation.compute, Operation.range, toHeader_noteRead]
  cases Operator.partSelect source lsb msb with
  | error fault => rfl
  | ok value =>
      change Outcome.map _ (Outcome.quiet (liftM ((vector.noteRead isRead).assignBuffer value 0
        (vector.width - 1)))) = Outcome.map _ (Outcome.map _ (Outcome.quiet (liftM
          (vector.assignBuffer value 0 (vector.width - 1)))))
      rw [assigns]
      cases vector.assignBuffer value 0 (vector.width - 1) with
      | error fault => rfl
      | ok answer => rfl

end LogicVector
end FourState
