import FourState.Proofs.Operands
import FourState.Proofs.Stepwise.Moving

/-!
# Stepwise updates

Every update on the heap.  Whatever words its operands have, an update that runs word by
word does what the update of the whole vector does, apart from reads that a part-select
has noted before.  No update takes a block that it has in use.
-/

namespace FourState

variable {clipped : Plane → Prop}

namespace Stepwise

/-! ## Programs -/

/-- Repeat bit `last` in every higher position. -/
def extendFrom (target : Handle) (last : Nat) : Stepwise Bool := do
  require (last < target.width) (Fault.fillPosition last)
  if last + 1 = target.width then
    return false
  else do
    let bit ← bit target last
    let filler := if target.signed then bit else bit.extension
    let value := (Buffer.zero target.width).fill 0 target.width filler
    assign target value.low value.high (last + 1) (target.width - 1)

/-- Apply a value change to the bits `lsb` to `msb`. -/
def applyChange (target : Handle) (text : List Char) (msb lsb : Nat) : Stepwise Bool := do
  require (lsb ≤ msb ∧ msb < target.width)
    (Failure.fault (.valueChangeRange msb lsb target.width))
  let bits ← (ValueChange.read text : Except Failure (List Bit))
  let stored := bits.toArray
  let value := Buffer.ofBits target.width fun position =>
    ValueChange.bitAt stored (position - lsb)
  assign target value.low value.high lsb msb

/-- Assign the bits that the target has in common with another vector. -/
def setValue (target source : Handle) : Stepwise Bool := do
  let value ← snapshot source
  assign target value.low value.high 0 (min target.width source.width - 1)

/-- Carry out an update of the words of a vector. -/
def update (target : Handle) : Update Handle → Stepwise Reply
  | .setSigned _ => return .done
  | .setTwoState twoState => done (setTwoState target twoState)
  | .assign low high lsb msb => flag (assign target low high lsb msb)
  | .applyChange text msb lsb => flag (applyChange target text msb lsb)
  | .setNat value => flag (commit target (Buffer.ofNat target.width value))
  | .setWord value =>
      flag (commit target (Buffer.ofNat target.width (value.signExtend 64).toNat))
  | .setUnknown => flag (commit target (Buffer.unknown target.width))
  | .extendFrom last => flag (extendFrom target last)
  | .setValue source => flag (setValue target source)
  | .commit value => flag (commit target value)
  | .operate operation => flag (operate target operation)
  | .claim msb lsb => flag (claim target msb lsb)
  | .copyFrom source => done (copyFrom target source)
  | .copyRange source lsb => done (copyRange target source lsb)
  | .merge source => done (merge target source)
  | .resetCoverage => done (changeWords target fun slice => slice.clearFrom 2)
  | .evaluateUnary => done (evaluateUnary target)
  | .evaluate evaluation left right => done (evaluate target evaluation left right)
  | .mergeRecord text options => do
      let rest ← mergeRecord target text options
      return .rest rest
where
  /-- Answer that it is done. -/
  done (program : Stepwise Unit) : Stepwise Reply := do
    program
    return .done
  /-- Answer yes or no. -/
  flag (program : Stepwise Bool) : Stepwise Reply := do
    let value ← program
    return .flag value

end Stepwise

/-- The vectors whose words an update reads, for a target. -/
def Update.operands {operand : Type} (target : operand) : Update operand → List operand
  | setValue source => [source]
  | operate operation => operation.operands target
  | copyFrom source => [source]
  | copyRange source _ => [source]
  | merge source => [source]
  | evaluate _ left right => [left, right]
  | _ => []

/-- What a resolved update reads is the target or stands for an operand. -/
theorem Update.mem_operands_of_traverse
    {operand other error : Type}
    {resolve : operand → Except error other}
    {change : Update operand}
    {resolved : Update other}
    (succeeds : change.traverse resolve = .ok resolved)
    {target vector : other}
    (isOperand : vector ∈ resolved.operands target) :
    vector = target ∨ ∃ name, resolve name = .ok vector := by
  cases change with
  | setValue source | copyFrom source | copyRange source lsb | merge source =>
      obtain ⟨read, resolves, succeeds⟩ := bind_eq_ok_iff.1 succeeds
      cases succeeds
      rw [List.mem_singleton.1 isOperand]
      exact .inr ⟨source, resolves⟩
  | operate operation =>
      obtain ⟨resolvedOperation, resolves, succeeds⟩ := bind_eq_ok_iff.1 succeeds
      cases succeeds
      exact Operation.mem_operands_of_traverse resolves isOperand
  | evaluate evaluation left right =>
      obtain ⟨first, resolvesFirst, succeeds⟩ := bind_eq_ok_iff.1 succeeds
      obtain ⟨second, resolvesSecond, succeeds⟩ := bind_eq_ok_iff.1 succeeds
      cases succeeds
      have isOne : vector = first ∨ vector = second := by simpa [operands] using isOperand
      obtain rfl | rfl := isOne
      · exact .inr ⟨left, resolvesFirst⟩
      · exact .inr ⟨right, resolvesSecond⟩
  | setSigned | setTwoState | assign | applyChange | setNat | setWord | setUnknown | extendFrom
  | commit | claim | resetCoverage | evaluateUnary | mergeRecord =>
      cases succeeds
      cases isOperand

/-- The heap after an update has noted the bits that it reads from a memory. -/
def Heap.noted (heap : Heap) : Update Handle → Heap
  | .operate operation => heap.noteReads operation
  | _ => heap

namespace Stepwise

section Updates

variable {heap noted : Heap} {target : Handle}

/-! ## Answers -/

/-- An answer that is made of a value goes with the value. -/
theorem finished_map
    {first second : Type}
    {program : Stepwise first}
    {outcome : Outcome (LogicVector × first)}
    (ends : run program Borrows.none heap = finished noted target outcome)
    (answer : first → second) :
    run (do
        let value ← program
        return answer value) Borrows.none heap =
      finished noted target (outcome.map fun found => (found.1, answer found.2)) := by
  rw [run_bind, ends]
  rcases outcome with ⟨result, log⟩
  cases result <;> rfl

theorem flag_run
    {program : Stepwise Bool}
    {result : Except Failure (LogicVector × Bool)}
    (ends : run program Borrows.none heap = settled heap target result) :
    run (update.flag program) Borrows.none heap =
      finished heap target (Outcome.ofFlagged result) := by
  rw [← finished_quiet] at ends
  refine (finished_map ends Reply.flag).trans ?_
  cases result <;> rfl

theorem done_run
    {program : Stepwise Unit}
    {result : Except Fault LogicVector}
    (settles : Settles program heap target ((fun vector => (vector, ())) <$> result)) :
    run (update.done program) Borrows.none heap =
      finished heap target (Outcome.ofChange result) := by
  unfold Settles at settles
  rw [← finished_quiet] at settles
  refine (finished_map settles fun _ => Reply.done).trans ?_
  cases result <;> rfl

/-- A pure computation that can fail comes before a change. -/
theorem pure_step_settled
    {first second : Type}
    {step : Except Failure first}
    {next : first → Stepwise second}
    {nextResult : first → Except Failure (LogicVector × second)}
    (endsNext : ∀ value, step = .ok value →
      run (next value) Borrows.none heap = settled heap target (nextResult value)) :
    run (liftM step >>= next) Borrows.none heap = settled heap target (step >>= nextResult) := by
  cases step with
  | error failure => rfl
  | ok value => exact endsNext value rfl

/-- What changes the header only leaves the heap. -/
theorem settles_of_same_storage
    {vector : LogicVector}
    (same : vector.storage = (heap.load target).storage) :
    Settles (pure ()) heap target ((fun vector => (vector, ())) <$> .ok vector) := by
  have unchanged : heap.put target vector = heap := by
    rw [Heap.put, same]
    exact heap.put_load
  change _ = (Except.ok (), heap.put target vector)
  rw [unchanged]
  rfl

/-! ## Values -/

section Values

variable (wellFormed : (heap.load target).WellFormed clipped)

include wellFormed

/-- The bit is read before the bits above it are written. -/
theorem extendFrom_settles (last : Nat) :
    Settles (extendFrom target last) heap target ((heap.load target).extendFrom last) := by
  refine settles_require fun _ => ?_
  by_cases isLast : last + 1 = target.width
  · have isTop : last + 1 = (heap.load target).width := isLast
    rw [if_pos isLast, if_pos isTop]
    exact settles_pure false
  · have notTop : last + 1 ≠ (heap.load target).width := isLast
    rw [if_neg isLast, if_neg notTop]
    exact (reads_bit target last).settles fun _ _ => assign_settles wellFormed _ _ _ _

/-- The change is read as a whole before a word is written. -/
theorem applyChange_run (text : List Char) (msb lsb : Nat) :
    run (applyChange target text msb lsb) Borrows.none heap =
      settled heap target ((heap.load target).applyChange text msb lsb) := by
  unfold applyChange LogicVector.applyChange
  exact pure_step_settled fun _ _ => pure_step_settled fun _ _ =>
    assign_settles wellFormed _ _ lsb msb

theorem setValue_settles (source : Handle) :
    Settles (setValue target source) heap target
      ((heap.load target).setValue (heap.load source)) :=
  (reads_snapshot source).settles fun _ _ => assign_settles wellFormed _ _ _ _

/-- Collapsing word by word is collapsing all words at once. -/
theorem setTwoState_settles (twoState : Bool) :
    Settles (setTwoState target twoState) heap target
      ((fun vector => (vector, ())) <$> .ok ((heap.load target).setTwoState twoState)) := by
  cases twoState with
  | false => exact settles_of_same_storage rfl
  | true =>
      cases stored : target.storage with
      | absent =>
          rw [setTwoState, stored]
          have widthOnly : ((heap.load target).setTwoState true).storage =
              (heap.load target).storage := by
            simp [LogicVector.setTwoState, Heap.load, stored, Storage.map]
          exact settles_of_same_storage widthOnly
      | owned number | borrowed number =>
          have refers : target.storage.content? = some number := by
            rw [stored]
            rfl
          have collapses := changeWords_settles wellFormed Slice.collapse
          rw [heap.block_load refers] at collapses
          have sameEnd : heap.put target ((heap.load target).setTwoState true) =
              heap.put target ((heap.load target).withBlock
                ((heap.block number).map Slice.collapse)) := by
            simp [Heap.put, refers, LogicVector.setTwoState, LogicVector.withBlock, Heap.load]
          rw [setTwoState, stored]
          change _ = (Except.ok (), heap.put target ((heap.load target).setTwoState true))
          rw [sameEnd]
          exact collapses

theorem resetCoverage_settles :
    Settles (changeWords target fun slice => slice.clearFrom 2) heap target
      ((fun vector => (vector, ())) <$> (heap.load target).resetCoverage) := by
  rw [LogicVector.resetCoverage, map_bind]
  exact changeWords_settles wellFormed _

end Values

/-! ## Every update -/

/-- Carrying out an update word by word is carrying it out on the whole vector, on a target
in which the reads have been noted. -/
theorem update_run
    {change : Update Handle}
    (wellFormed : (heap.load target).WellFormed clipped)
    (operandsWellFormed : ∀ handle ∈ change.operands target,
      (heap.load handle).WellFormed clipped)
    (notedWellFormed : ((heap.noted change).load target).WellFormed clipped) :
    run (update target change) Borrows.none heap =
      finished (heap.noted change) target
        (((heap.noted change).load target).update (change.map heap.load)) := by
  cases change with
  | setSigned signed => exact done_run (settles_of_same_storage rfl)
  | setTwoState twoState => exact done_run (setTwoState_settles wellFormed twoState)
  | assign low high lsb msb => exact flag_run (assign_settles wellFormed low high lsb msb)
  | applyChange text msb lsb => exact flag_run (applyChange_run wellFormed text msb lsb)
  | setNat value => exact flag_run (commit_settles wellFormed _)
  | setWord value => exact flag_run (commit_settles wellFormed _)
  | setUnknown => exact flag_run (commit_settles wellFormed _)
  | extendFrom last => exact flag_run (extendFrom_settles wellFormed last)
  | setValue source => exact flag_run (setValue_settles wellFormed source)
  | commit value => exact flag_run (commit_settles wellFormed value)
  | operate operation =>
      exact finished_map (operate_run operandsWellFormed notedWellFormed) Reply.flag
  | claim msb lsb => exact flag_run (claim_settles wellFormed msb lsb)
  | copyFrom source =>
      exact done_run (copyFrom_settles wellFormed
        (operandsWellFormed source List.mem_cons_self))
  | copyRange source lsb =>
      exact done_run (copyRange_settles wellFormed
        (operandsWellFormed source List.mem_cons_self) lsb)
  | merge source =>
      exact done_run (merge_settles wellFormed (operandsWellFormed source List.mem_cons_self))
  | resetCoverage => exact done_run (resetCoverage_settles wellFormed)
  | evaluateUnary => exact done_run (evaluateUnary_settles wellFormed)
  | evaluate evaluation left right =>
      exact done_run (evaluate_settles wellFormed evaluation left right)
  | mergeRecord text options =>
      exact finished_map (mergeRecord_run wellFormed text options) Reply.rest

end Updates

end Stepwise
end FourState
