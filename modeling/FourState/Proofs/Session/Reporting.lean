import FourState.Proofs.Reporting
import FourState.Proofs.Session.Aliasing
import FourState.Proofs.Session.Arithmetic
import FourState.Proofs.Session.RecordMerging

/-!
# Reports of a session

In every session a record that is read is reported once, and so is one that is
merged, with a single way out that is not: a record of another width that is to be
skipped and breaks off, or has a word that is none, fails behind a warning.  A
division reports the one failure it has.
-/

namespace FourState
namespace Session

variable {session : Session} {name left right : String}
variable {vector target dividend divisor : LogicVector}

/-! ## Single commands -/

theorem isReported_readRecord (session : Session) (name : String) (text : List Char) :
    (session.apply (.readRecord name text)).2.IsReported :=
  Outcome.isReported_map_iff.2
    (Outcome.isReported_map_iff.2 (LogicVector.isReported_readRecord text))

/-- A record that is read is told with the width and the kind that its name has then. -/
theorem log_apply_readRecord
    {text : List Char}
    {reply : Reply}
    (succeeds : (session.apply (.readRecord name text)).2.result = .ok reply) :
    ∃ vector, (session.apply (.readRecord name text)).1.vector name = .ok vector ∧
      (session.apply (.readRecord name text)).2.log =
        [.recordRead vector.width vector.kind] := by
  obtain ⟨_, places, rfl⟩ := Outcome.result_map_eq_ok_iff.1 succeeds
  obtain ⟨⟨vector, rest⟩, reads, rfl⟩ := Outcome.result_map_eq_ok_iff.1 places
  refine ⟨vector, ?_, LogicVector.log_readRecord reads⟩
  rw [apply, placeRead, places]
  exact vector_place vector

/-- The outcome of a division is that of the operation. -/
theorem outcome_divide
    (reads : session.vector name = .ok target)
    (readsLeft : session.vector left = .ok dividend)
    (readsRight : session.vector right = .ok divisor)
    (division : Division) :
    (session.apply (.update name (.operate (.divide division left right)))).2 =
      (target.operate (.divide division dividend divisor)).map fun answer =>
        .flag answer.2 := by
  have resolves := Update.traverse_operate (traverse_divide readsLeft readsRight division)
  rw [apply, update_of_noteReads_eq reads resolves rfl, LogicVector.update]
  cases operates : target.operate (.divide division dividend divisor) with
  | mk result log => cases result <;> rfl

/-- Vectors that can be read are divided, or refused by zero. -/
theorem failure_of_outcome_divide
    (reads : session.vector name = .ok target)
    (readsLeft : session.vector left = .ok dividend)
    (readsRight : session.vector right = .ok divisor)
    (readable : target.Readable)
    (leftReadable : dividend.Readable)
    (rightReadable : divisor.Readable)
    {division : Division}
    {failure : Failure}
    (fails : (session.apply (.update name (.operate (.divide division left right)))).2.result =
      .error failure) :
    failure = .divisionByZero division := by
  rw [outcome_divide reads readsLeft readsRight, Outcome.result_map_eq_error_iff] at fails
  by_cases isZero : dividend.IsKnown ∧ divisor.IsKnown ∧ divisor.integer false = 0
  · rw [LogicVector.operate_divide_of_zero leftReadable rightReadable isZero.1 isZero.2.1
      isZero.2.2] at fails
    exact (Except.error.inj fails).symm
  · obtain ⟨updated, changed, divides⟩ :=
      LogicVector.exists_operate_divide division readable leftReadable rightReadable isZero
    rw [divides] at fails
    contradiction

/-! ## All commands -/

/-- What a session reports of merging a record into the vector of a name. -/
structure ReportsMerge
    (session : Session)
    (name : String)
    (vector : LogicVector)
    (text : List Char)
    (options : RecordOptions) : Prop where
  /-- It is reported once, unless it fails while it skips. -/
  isReported_iff : (session.apply (.update name (.mergeRecord text options))).2.IsReported ↔
    ¬vector.FailsToSkip text options
  /-- A record that is taken is told as merged if it has the width of the vector, and
  with both widths as skipped if it has not. -/
  log : ∀ reply,
    (session.apply (.update name (.mergeRecord text options))).2.result = .ok reply →
    ∃ width byte, HasRecord text width byte ∧ Kind.ofCode byte = vector.kind ∧
      (session.apply (.update name (.mergeRecord text options))).2.log =
        [if width = vector.width then .recordMerged width vector.kind
          else .recordSkipped width vector.width]
  /-- A failure while it skips is an error that no event tells. -/
  lost : vector.FailsToSkip text options → ∃ width error rest,
    session.apply (.update name (.mergeRecord text options)) =
      (session, {
        result := .error (.record error rest)
        log := [.recordSkipped width vector.width] })

/-- What a session reports of records and divisions. -/
structure Reports (session : Session) : Prop where
  /-- Reading is reported once. -/
  read : ∀ name text, (session.apply (.readRecord name text)).2.IsReported
  /-- A record that is read is told with the width and the kind that its name has then. -/
  log : ∀ name text reply, (session.apply (.readRecord name text)).2.result = .ok reply →
    ∃ vector, (session.apply (.readRecord name text)).1.vector name = .ok vector ∧
      (session.apply (.readRecord name text)).2.log = [.recordRead vector.width vector.kind]
  merge : ∀ name vector, session.vector name = .ok vector →
    ∀ text options, session.ReportsMerge name vector text options
  /-- A division reports that it is one by zero, and nothing else. -/
  divide : ∀ name left right target dividend divisor,
    session.vector name = .ok target → session.vector left = .ok dividend →
    session.vector right = .ok divisor → ∀ division,
    (session.apply (.update name (.operate (.divide division left right)))).2.ReportsDivision
      division
  /-- With words on all sides it has no other failure. -/
  failure : ∀ name left right target dividend divisor,
    session.vector name = .ok target → session.vector left = .ok dividend →
    session.vector right = .ok divisor → target.storage.isAllocated = true →
    dividend.storage.isAllocated = true → divisor.storage.isAllocated = true →
    ∀ division failure,
    (session.apply (.update name (.operate (.divide division left right)))).2.result =
      .error failure → failure = .divisionByZero division

theorem reportsMerge
    (reads : session.vector name = .ok vector)
    (text : List Char)
    (options : RecordOptions) :
    session.ReportsMerge name vector text options := by
  refine ⟨?_, ?_, ?_⟩
  · rw [apply_mergeRecord reads]
    exact Outcome.isReported_map_iff.trans LogicVector.isReported_mergeRecord_iff
  · rw [apply_mergeRecord reads]
    intro reply succeeds
    obtain ⟨_, merges, -⟩ := Outcome.result_map_eq_ok_iff.1 succeeds
    exact LogicVector.log_mergeRecord merges
  · intro failsToSkip
    obtain ⟨width, error, rest, fails⟩ := failsToSkip.mergeRecord_eq
    rw [apply_mergeRecord reads, fails]
    exact ⟨width, error, rest, rfl⟩

/-- Every session that commands lead to reports each record and each division once, but
for a failure behind the header of a record that is skipped. -/
theorem reports_run_empty (commands : List Command) : (Session.empty.run commands).Reports := by
  refine ⟨isReported_readRecord _, fun _ _ _ => log_apply_readRecord,
    fun _ _ reads => reportsMerge reads, ?_, ?_⟩
  · intro name left right target dividend divisor reads readsLeft readsRight division
    rw [outcome_divide reads readsLeft readsRight]
    exact (LogicVector.reportsDivision_operate target dividend divisor division).map
  · intro name left right target dividend divisor reads readsLeft readsRight allocated
      leftAllocated rightAllocated division failure fails
    exact failure_of_outcome_divide reads readsLeft readsRight
      (readable_run_empty reads allocated) (readable_run_empty readsLeft leftAllocated)
      (readable_run_empty readsRight rightAllocated) fails

/-- A signal of eight bits that is zero. -/
def zeroSignal : List Command := [
  .create "v" 8 .signal true none none,
  .update "v" (.setNat 0)]

/-- By itself it cannot be divided, which is told once, and so is a record of its width
with a word that is none. -/
theorem reports_run_empty_zeroSignal :
    ∃ vector, (Session.empty.run zeroSignal).vector "v" = .ok vector ∧
      (∃ event, ((Session.empty.run zeroSignal).apply (.update "v"
          (.operate (.divide .quotient "v" "v")))).2.log = [event] ∧ event.level = .error) ∧
      ¬vector.FailsToSkip "8 17 zz".toList ⟨true, false⟩ ∧
      ((Session.empty.run zeroSignal).apply (.update "v"
        (.mergeRecord "8 17 zz".toList ⟨true, false⟩))).2.IsReported := by
  obtain ⟨vector, reads, width⟩ :
      ∃ vector, (Session.empty.run zeroSignal).vector "v" = .ok vector ∧ vector.width = 8 :=
    ⟨_, rfl, rfl⟩
  have reports := reports_run_empty zeroSignal
  have sameWidth : ¬vector.FailsToSkip "8 17 zz".toList ⟨true, false⟩ := by
    rintro ⟨_, _, skips, -⟩
    have first : (Text.tokens "8 17 zz".toList)[0]? = some "8".toList := by decide +kernel
    have denoted : Numeral.natural? 10 "8".toList = some 8 := by decide +kernel
    have denotes := (skips.hasHeader.isWidth.of_getElem? first).1
    rw [← Numeral.natural?_eq_some_iff (by decide), denoted] at denotes
    exact skips.otherWidth ((Option.some.inj denotes).symm.trans width.symm)
  refine ⟨vector, reads, ?_, sameWidth, ?_⟩
  · exact (reports.divide "v" "v" "v" vector vector vector reads reads reads
      .quotient).reported_iff.2 (by decide +kernel)
  · exact (reports.merge "v" vector reads "8 17 zz".toList ⟨true, false⟩).isReported_iff.2
      sameWidth

/-- The same word behind the header of a wider record, which is to be skipped, is an
error that no event tells. -/
theorem reports_run_empty_lostRecord :
    ((Session.empty.run zeroSignal).apply (.update "v"
        (.mergeRecord "16 17 zz".toList ⟨true, false⟩))).2.result =
          .error (.record (.malformed .plane "zz") []) ∧
      ((Session.empty.run zeroSignal).apply (.update "v"
        (.mergeRecord "16 17 zz".toList ⟨true, false⟩))).2.log = [.recordSkipped 16 8] ∧
      ¬((Session.empty.run zeroSignal).apply (.update "v"
        (.mergeRecord "16 17 zz".toList ⟨true, false⟩))).2.IsReported := by
  have fails : ((Session.empty.run zeroSignal).apply (.update "v"
      (.mergeRecord "16 17 zz".toList ⟨true, false⟩))).2.result =
        .error (.record (.malformed .plane "zz") []) := by decide +kernel
  have told : ((Session.empty.run zeroSignal).apply (.update "v"
      (.mergeRecord "16 17 zz".toList ⟨true, false⟩))).2.log = [.recordSkipped 16 8] := by
    decide +kernel
  refine ⟨fails, told, Outcome.not_isReported_of_silent fails ?_⟩
  rw [told]
  decide +kernel

end Session
end FourState
