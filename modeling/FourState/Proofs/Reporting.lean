import FourState.LogicVector.Update
import FourState.Proofs.RecordForm

/-!
# What records and divisions report

A call is reported once: a success by one event that is no error, a failure by one
error that says what the failure says, after nothing but warnings.  Reading a record
is always reported so.  Merging one has several ways out behind the header, and one
of them tells nothing of the failure: a record of another width that is skipped, and
turns out to be none.  A division reports its one failure, by zero, and no success.
-/

namespace FourState

/-! ## Outcomes that are reported once -/

/-- A success is told by a single event, a failure by a single error at the end. -/
structure Outcome.IsReported {answer : Type} (outcome : Outcome answer) : Prop where
  success : ∀ value, outcome.result = .ok value →
    ∃ event, outcome.log = [event] ∧ event.level ≠ .error
  failure : ∀ failure, outcome.result = .error failure →
    ∃ before event, outcome.log = before ++ [event] ∧
      event.level = .error ∧ failure.message? = some event.message ∧
      ∀ earlier ∈ before, earlier.level = .warning

/-- A division by zero is told by a single error, and anything else is not told. -/
structure Outcome.ReportsDivision
    {answer : Type}
    (outcome : Outcome answer)
    (division : Division) : Prop where
  reported_iff : (∃ event, outcome.log = [event] ∧ event.level = .error) ↔
    outcome.result = .error (.divisionByZero division)
  quiet : outcome.result ≠ .error (.divisionByZero division) → outcome.log = []

namespace Outcome

variable {answer other : Type} {outcome : Outcome answer} {change : answer → other}

theorem result_map_eq_error_iff {failure : Failure} :
    (outcome.map change).result = .error failure ↔ outcome.result = .error failure := by
  unfold map
  cases outcome.result with
  | error cause => simp [Except.map]
  | ok value => simp [Except.map]

/-- Another answer is reported as the answer was. -/
theorem isReported_map_iff : (outcome.map change).IsReported ↔ outcome.IsReported := by
  constructor
  · intro reported
    refine ⟨?_, ?_⟩
    · intro value succeeds
      exact reported.success (change value) (result_map_eq_ok_iff.2 ⟨value, succeeds, rfl⟩)
    · intro failure fails
      exact reported.failure failure (result_map_eq_error_iff.2 fails)
  · intro reported
    refine ⟨?_, ?_⟩
    · intro value succeeds
      obtain ⟨between, succeeds, -⟩ := result_map_eq_ok_iff.1 succeeds
      exact reported.success between succeeds
    · intro failure fails
      exact reported.failure failure (result_map_eq_error_iff.1 fails)

theorem ReportsDivision.map
    {division : Division}
    (reports : outcome.ReportsDivision division) :
    (outcome.map change).ReportsDivision division where
  reported_iff := reports.reported_iff.trans result_map_eq_error_iff.symm
  quiet := fun otherwise => reports.quiet (mt result_map_eq_error_iff.2 otherwise)

theorem isReported_of_ok
    {value : answer}
    {event : Event}
    (mild : event.level ≠ .error) :
    IsReported { result := .ok value, log := [event] } where
  success := fun _ _ => ⟨event, rfl, mild⟩
  failure := fun _ => nofun

theorem isReported_recordFailed (error : RecordError) (rest : List Char) :
    (recordFailed error rest : Outcome answer).IsReported where
  success := fun _ => nofun
  failure := by
    rintro failure ⟨⟩
    exact ⟨[], .recordFailed error, rfl, rfl, rfl, nofun⟩

/-- A failure without an error in the log is not reported. -/
theorem not_isReported_of_silent
    {failure : Failure}
    (fails : outcome.result = .error failure)
    (silent : ∀ event ∈ outcome.log, event.level ≠ .error) :
    ¬outcome.IsReported := by
  intro reported
  obtain ⟨before, event, logs, isError, -⟩ := reported.failure failure fails
  exact silent event (logs ▸ List.mem_concat_self) isError

end Outcome

namespace LogicVector

/-! ## Reading -/

theorem isReported_readRecord (text : List Char) : (readRecord text).IsReported := by
  unfold readRecord
  cases Reader.record text with
  | ok vector rest => exact Outcome.isReported_of_ok nofun
  | error error rest => exact Outcome.isReported_recordFailed error rest

/-- A record that is read is told with its width and its kind. -/
theorem log_readRecord
    {text rest : List Char}
    {vector : LogicVector}
    (reads : (readRecord text).result = .ok (vector, rest)) :
    (readRecord text).log = [.recordRead vector.width vector.kind] := by
  unfold readRecord at reads ⊢
  split at reads
  · cases reads
    rfl
  · contradiction

/-! ## Merging -/

section

variable
  (vector : LogicVector)
  (text : List Char)
  (options : RecordOptions)

/-- The text starts with the header of a record that is skipped instead of merged. -/
structure Skips (width byte : Nat) : Prop where
  hasHeader : HasRecordHeader text width byte
  sameKind : Kind.ofCode byte = vector.kind
  otherWidth : width ≠ vector.width
  lenient : options.strictMerge = false

/-- What is skipped turns out to be no record. -/
def FailsToSkip : Prop :=
  ∃ width byte, vector.Skips text options width byte ∧ ¬HasRecord text width byte

/-- A merge takes a whole record, and tells whether it was merged or skipped. -/
structure TakesRecord (width byte : Nat) : Prop where
  hasRecord : HasRecord text width byte
  sameKind : Kind.ofCode byte = vector.kind
  succeeds : ∃ updated, vector.mergeRecord text options = {
    result := .ok (updated, Text.behind (2 + wordTokens width byte) text)
    log := [if width = vector.width then .recordMerged width vector.kind
      else .recordSkipped width vector.width] }

/-- A merge is refused, and tells why. -/
def RefusesRecord : Prop :=
  ∃ error rest, vector.mergeRecord text options = .recordFailed error rest

/-- A merge fails, and has told only that it skips. -/
structure LosesRecord (width byte : Nat) : Prop where
  skips : vector.Skips text options width byte
  noRecord : ¬HasRecord text width byte
  fails : ∃ error rest, vector.mergeRecord text options = {
    result := .error (.record error rest)
    log := [.recordSkipped width vector.width] }

variable {vector text options}

/-- Behind the header of a record of the kind and the width of the vector. -/
theorem takes_or_refuses_of_sameWidth
    {width byte : Nat}
    {descriptor : Descriptor}
    (hasHeader : HasRecordHeader text width byte)
    (decodes : Descriptor.decode? byte = some descriptor)
    (takesHeader : Reader.header text = .ok (width, descriptor) (Text.behind 2 text))
    (sameKind : descriptor.kind = vector.kind)
    (sameWidth : width = vector.width) :
    vector.TakesRecord text options width byte ∨ vector.RefusesRecord text options := by
  have merges : vector.mergeRecord text options = _ :=
    mergeRecord_of_sameWidth takesHeader sameKind sameWidth
  have kind := (Descriptor.kind_tokenCount_of_decode decodes width).1
  obtain ⟨hasRecord, run, takes⟩ | ⟨error, index, -, fails⟩ :=
    Reader.planes_cases hasHeader decodes
  · rw [takes] at merges
    refine Or.inl ⟨hasRecord, kind.symm.trans sameKind, ?_⟩
    rw [if_pos sameWidth, ← sameKind]
    exact ⟨_, merges⟩
  · rw [fails] at merges
    exact Or.inr ⟨error, _, merges⟩

/-- Behind the header of a record that is skipped. -/
theorem Skips.takes_or_loses
    {width byte : Nat}
    {descriptor : Descriptor}
    (skips : vector.Skips text options width byte)
    (decodes : Descriptor.decode? byte = some descriptor)
    (takesHeader : Reader.header text = .ok (width, descriptor) (Text.behind 2 text)) :
    vector.TakesRecord text options width byte ∨ vector.LosesRecord text options width byte := by
  have kind := (Descriptor.kind_tokenCount_of_decode decodes width).1
  have merges : vector.mergeRecord text options = _ :=
    mergeRecord_of_lenient takesHeader (kind.trans skips.sameKind) skips.otherWidth skips.lenient
  obtain ⟨hasRecord, run, takes⟩ | ⟨error, index, offends, fails⟩ :=
    Reader.planes_cases skips.hasHeader decodes
  · rw [takes] at merges
    refine Or.inl ⟨hasRecord, skips.sameKind, vector, ?_⟩
    rw [merges, if_neg skips.otherWidth]
  · rw [fails] at merges
    exact Or.inr ⟨skips, fun hasRecord => hasRecord.not_offends index offends, error, _, merges⟩

/-- The ways a merge ends: with a whole record taken, with an error that is told, or
with an error that is not told behind a skip that is. -/
theorem mergeRecord_cases (vector : LogicVector) (text : List Char) (options : RecordOptions) :
    (∃ width byte, vector.TakesRecord text options width byte) ∨
      (vector.RefusesRecord text options ∧ ¬vector.FailsToSkip text options) ∨
      ∃ width byte, vector.LosesRecord text options width byte := by
  obtain ⟨width, byte, descriptor, hasHeader, decodes, takesHeader⟩ |
    ⟨error, index, inHeader, offends, fails⟩ := Reader.header_cases text
  · have kind := (Descriptor.kind_tokenCount_of_decode decodes width).1
    -- The text has no other header that could be skipped.
    have unlessSkipped (suited : ¬vector.Skips text options width byte) :
        ¬vector.FailsToSkip text options := by
      rintro ⟨_, _, skips, -⟩
      obtain ⟨rfl, rfl⟩ := hasHeader.unique skips.hasHeader
      exact suited skips
    by_cases sameKind : descriptor.kind = vector.kind
    · by_cases sameWidth : width = vector.width
      · obtain takes | refuses :=
          takes_or_refuses_of_sameWidth hasHeader decodes takesHeader sameKind sameWidth
        · exact Or.inl ⟨width, byte, takes⟩
        · exact Or.inr (Or.inl ⟨refuses, unlessSkipped fun skips => skips.otherWidth sameWidth⟩)
      · cases strictness : options.strictMerge with
        | true =>
            refine Or.inr (Or.inl ⟨⟨_, _, mergeRecord_of_strict takesHeader sameKind sameWidth
              strictness⟩, unlessSkipped fun skips => ?_⟩)
            exact absurd (strictness.symm.trans skips.lenient) nofun
        | false =>
            have skips : vector.Skips text options width byte :=
              ⟨hasHeader, kind.symm.trans sameKind, sameWidth, strictness⟩
            obtain takes | loses := skips.takes_or_loses decodes takesHeader
            · exact Or.inl ⟨width, byte, takes⟩
            · exact Or.inr (Or.inr ⟨width, byte, loses⟩)
    · exact Or.inr (Or.inl ⟨⟨_, _, mergeRecord_of_otherKind takesHeader sameKind⟩,
        unlessSkipped fun skips => sameKind (kind.trans skips.sameKind)⟩)
  · refine Or.inr (Or.inl ⟨⟨error, Text.behind (index + 1) text, ?_⟩, ?_⟩)
    · rw [mergeRecord, fails]
    · rintro ⟨_, _, skips, -⟩
      exact skips.hasHeader.not_offends inHeader offends

/-- A record that can be taken is not lost. -/
theorem TakesRecord.not_failsToSkip
    {width byte : Nat}
    (takes : vector.TakesRecord text options width byte) :
    ¬vector.FailsToSkip text options := by
  rintro ⟨_, _, skips, noRecord⟩
  obtain ⟨rfl, rfl⟩ := takes.hasRecord.toHasRecordHeader.unique skips.hasHeader
  exact noRecord takes.hasRecord

/-- A merge is reported once, unless it fails while it skips. -/
theorem isReported_mergeRecord_iff :
    (vector.mergeRecord text options).IsReported ↔ ¬vector.FailsToSkip text options := by
  obtain ⟨width, byte, takes⟩ | ⟨⟨error, rest, refuses⟩, suited⟩ | ⟨width, byte, loses⟩ :=
    mergeRecord_cases vector text options
  · obtain ⟨updated, merges⟩ := takes.succeeds
    rw [merges]
    refine iff_of_true (Outcome.isReported_of_ok ?_) takes.not_failsToSkip
    split <;> nofun
  · rw [refuses]
    exact iff_of_true (Outcome.isReported_recordFailed error rest) suited
  · obtain ⟨error, rest, fails⟩ := loses.fails
    rw [fails]
    refine iff_of_false (Outcome.not_isReported_of_silent rfl ?_)
      (not_not_intro ⟨width, byte, loses.skips, loses.noRecord⟩)
    rintro event (_ | ⟨_, ⟨⟩⟩)
    nofun

/-- A merge that succeeds tells the width of its record, and whether it was skipped. -/
theorem log_mergeRecord
    {updated : LogicVector}
    {rest : List Char}
    (merges : (vector.mergeRecord text options).result = .ok (updated, rest)) :
    ∃ width byte, HasRecord text width byte ∧ Kind.ofCode byte = vector.kind ∧
      (vector.mergeRecord text options).log =
        [if width = vector.width then .recordMerged width vector.kind
          else .recordSkipped width vector.width] := by
  obtain ⟨width, byte, takes⟩ | ⟨⟨error, rest, refuses⟩, -⟩ | ⟨width, byte, loses⟩ :=
    mergeRecord_cases vector text options
  · obtain ⟨updated, succeeds⟩ := takes.succeeds
    refine ⟨width, byte, takes.hasRecord, takes.sameKind, ?_⟩
    rw [succeeds]
  · rw [refuses] at merges
    contradiction
  · obtain ⟨error, rest, fails⟩ := loses.fails
    rw [fails] at merges
    contradiction

/-- A merge that fails while it skips has told that it skips, and nothing else. -/
theorem FailsToSkip.mergeRecord_eq (failsToSkip : vector.FailsToSkip text options) :
    ∃ width error rest, vector.mergeRecord text options = {
      result := .error (.record error rest)
      log := [.recordSkipped width vector.width] } := by
  obtain ⟨width, byte, takes⟩ | ⟨-, suited⟩ | ⟨width, byte, loses⟩ :=
    mergeRecord_cases vector text options
  · exact absurd failsToSkip takes.not_failsToSkip
  · exact absurd failsToSkip suited
  · exact ⟨width, loses.fails⟩

end

/-! ## Dividing -/

/-- An operand without words breaks a condition of use; otherwise only zero is refused. -/
theorem failure_of_divide
    {division : Division}
    {width : Nat}
    {left right : LogicVector}
    {failure : Failure}
    (fails : Operator.divide division width left right = .error failure) :
    failure = .divisionByZero division ∨ ∃ fault, failure = .fault fault := by
  unfold Operator.divide at fails
  cases readsLeft : Buffer.ofVector left with
  | error fault =>
      rw [readsLeft] at fails
      cases fails
      exact Or.inr ⟨fault, rfl⟩
  | ok dividend =>
      cases readsRight : Buffer.ofVector right with
      | error fault =>
          rw [readsLeft, readsRight] at fails
          cases fails
          exact Or.inr ⟨fault, rfl⟩
      | ok divisor =>
          rw [readsLeft, readsRight] at fails
          change (if dividend.hasUnknown || divisor.hasUnknown then _ else _) = _ at fails
          split at fails
          · contradiction
          · by_cases divides : divisor.isNotZero = true
            · rw [require_bind_of_true divides] at fails
              split at fails <;> contradiction
            · rw [require_bind_of_false divides] at fails
              cases fails
              exact Or.inl rfl

/-- A division is refused by zero and shows its operands, or it logs nothing: then it
succeeds, or a condition of use is broken. -/
theorem operate_divide_cases (target left right : LogicVector) (division : Division) :
    target.operate (.divide division left right) = {
        result := .error (.divisionByZero division)
        log := [.dividedByZero division (String.ofList left.display)
          (String.ofList right.display)] } ∨
      (target.operate (.divide division left right)).log = [] ∧
        ∀ failure, (target.operate (.divide division left right)).result = .error failure →
          ∃ fault, failure = .fault fault := by
  unfold operate
  cases computes : (Operation.divide division left right).compute target with
  | error failure =>
      obtain rfl | ⟨fault, rfl⟩ := failure_of_divide computes
      · exact Or.inl rfl
      · refine Or.inr ⟨rfl, ?_⟩
        rintro _ ⟨⟩
        exact ⟨fault, rfl⟩
  | ok value =>
      refine Or.inr ⟨rfl, fun failure fails => ?_⟩
      change liftM (target.assignBuffer value 0 (target.width - 1)) = _ at fails
      cases assigns : target.assignBuffer value 0 (target.width - 1) with
      | error fault =>
          rw [assigns] at fails
          cases fails
          exact ⟨fault, rfl⟩
      | ok answer =>
          rw [assigns] at fails
          contradiction

theorem reportsDivision_operate (target left right : LogicVector) (division : Division) :
    (target.operate (.divide division left right)).ReportsDivision division := by
  obtain refuses | ⟨silent, isFault⟩ := operate_divide_cases target left right division
  · rw [refuses]
    exact ⟨iff_of_true ⟨_, rfl, rfl⟩ rfl, fun otherwise => absurd rfl otherwise⟩
  · refine ⟨iff_of_false ?_ ?_, fun _ => silent⟩
    · rintro ⟨event, isSingle, -⟩
      rw [silent] at isSingle
      contradiction
    · intro refuses
      obtain ⟨fault, isOther⟩ := isFault _ refuses
      contradiction

end LogicVector
end FourState
