import FourState.Proofs.Arithmetic
import FourState.Proofs.Session.NotedReads
import Mathlib.Data.Int.ModEq

/-!
# Exact arithmetic in a session

In every session that commands lead to, arithmetic on known vectors leaves the
exact integer in its target, modulo two to the target width.  A division fails
exactly when dividend and divisor are known and the divisor is zero; it then
logs one event and leaves the session as it was.
-/

namespace FourState

variable {clipped : Plane → Prop}

/-- An operation that succeeds on a vector is an update that succeeds. -/
theorem LogicVector.update_operate
    {target updated : LogicVector}
    {operation : Operation LogicVector}
    {changed : Bool}
    (operates : (target.operate operation).result = .ok (updated, changed)) :
    (target.update (.operate operation)).result = .ok (updated, .flag changed) := by
  rw [update, Outcome.result_map_eq_ok_iff]
  exact ⟨(updated, changed), operates, rfl⟩

namespace Session

/-- The command succeeds, and the name stands for the vector afterwards. -/
structure Leaves (session : Session) (command : Command) (name : String) (updated : LogicVector) :
    Prop where
  succeeds : ∃ reply, (session.apply command).2.result = .ok reply
  vector_eq : (session.apply command).1.vector name = .ok updated

section

variable
  {session : Session}
  {name : String}
  {target updated : LogicVector}
  {operation : Operation String}
  {resolved : Operation LogicVector}
  {changed : Bool}
  {change : Update String}
  {resolvedChange : Update LogicVector}
  {reply : Reply}

/-- An update that succeeds on the vector of its name leaves what it makes of the vector,
with reads of its own noted besides, and gives the answer that it gives for the vector. -/
theorem Sound.exists_noteRead_of_update
    (sound : session.Sound clipped)
    (reads : session.vector name = .ok target)
    (resolves : change.traverse session.vector = .ok resolvedChange)
    (updates : (target.update resolvedChange).result = .ok (updated, reply)) :
    ∃ isRead,
      (session.apply (.update name change)).2.result = .ok reply ∧
      (session.apply (.update name change)).1.vector name = .ok (updated.noteRead isRead) ∧
      ∀ position, isRead position = true → session.NotesRead name change position := by
  obtain ⟨handle, bound, rfl⟩ := (vector_eq_ok_iff _ _ _).1 reads
  obtain ⟨isRead, sameOutcome, readsAfter, only, -⟩ := update_of_resolved sound bound resolves
  refine ⟨isRead, ?_, ?_, only⟩
  · change (session.update name _).2.result = _
    rw [sameOutcome, Outcome.result_map_eq_ok_iff]
    exact ⟨_, updates, rfl⟩
  · change (session.update name _).1.vector name = _
    rw [readsAfter, LogicVector.updated, updates]

/-- An update that selects no bits leaves what it makes of the vector of its name. -/
theorem Sound.leaves_update
    (sound : session.Sound clipped)
    (reads : session.vector name = .ok target)
    (resolves : change.traverse session.vector = .ok resolvedChange)
    (selectsNone : ∀ source lsb msb, change ≠ .operate (.partSelect source lsb msb))
    (updates : (target.update resolvedChange).result = .ok (updated, reply)) :
    session.Leaves (.update name change) name updated := by
  obtain ⟨isRead, succeeds, readsAfter, only⟩ :=
    sound.exists_noteRead_of_update reads resolves updates
  have readsNothing : isRead = fun _ => false := by
    funext position
    rw [← Bool.not_eq_true]
    intro isTrue
    obtain ⟨source, lsb, msb, same, -⟩ := only position isTrue
    exact selectsNone source lsb msb same
  rw [readsNothing, LogicVector.noteRead_false] at readsAfter
  exact ⟨⟨_, succeeds⟩, readsAfter⟩

/-- An operation that succeeds on the vector of its name leaves what it makes of the
vector, with reads of its own noted besides, and answers whether a value changed. -/
theorem Sound.exists_noteRead_operate
    (sound : session.Sound clipped)
    (reads : session.vector name = .ok target)
    (resolves : operation.traverse session.vector = .ok resolved)
    (operates : (target.operate resolved).result = .ok (updated, changed)) :
    ∃ isRead,
      (session.apply (.update name (.operate operation))).2.result = .ok (.flag changed) ∧
      (session.apply (.update name (.operate operation))).1.vector name =
        .ok (updated.noteRead isRead) ∧
      ∀ position, isRead position = true →
        session.NotesRead name (.operate operation) position :=
  sound.exists_noteRead_of_update reads (Update.traverse_operate resolves)
    (LogicVector.update_operate operates)

/-- An operation that selects no bits leaves what it makes of the vector of its name. -/
theorem Sound.leaves_operate
    (sound : session.Sound clipped)
    (reads : session.vector name = .ok target)
    (resolves : operation.traverse session.vector = .ok resolved)
    (selectsNone : ∀ source lsb msb, operation ≠ .partSelect source lsb msb)
    (operates : (target.operate resolved).result = .ok (updated, changed)) :
    session.Leaves (.update name (.operate operation)) name updated := by
  refine sound.leaves_update reads (Update.traverse_operate resolves) ?_
    (LogicVector.update_operate operates)
  intro source lsb msb same
  cases same
  exact selectsNone source lsb msb rfl

end

/-- In every session that commands lead to, arithmetic on known vectors of any widths
succeeds on an allocated target of any width, two-state or not, and leaves its exact
integer modulo two to the width of the target. -/
theorem arithmetic_exact
    (commands : List Command)
    {name : String}
    {operation : Operation String}
    {target : LogicVector}
    {resolved : Operation LogicVector}
    {exact : Int}
    (reads : (Session.empty.run commands).vector name = .ok target)
    (allocated : target.storage.isAllocated = true)
    (resolves : operation.traverse (Session.empty.run commands).vector = .ok resolved)
    (known : ∀ operand ∈ resolved.operands target, operand.IsKnown)
    (isExact : resolved.integer? target = some exact) :
    ∃ updated,
      (Session.empty.run commands).Leaves (.update name (.operate operation)) name updated ∧
      updated.toHeader = target.toHeader ∧ updated.Holds exact := by
  have readable := readable_run_empty reads allocated
  have operandsReadable : ∀ operand ∈ resolved.operands target, operand.Readable := by
    intro operand isOperand
    obtain rfl | ⟨source, readsSource⟩ := Operation.mem_operands_of_traverse resolves isOperand
    · exact readable
    · exact readable_run_empty readsSource (known operand isOperand).isAllocated
  obtain ⟨updated, changed, operates, sameHeader, holds⟩ :=
    LogicVector.operate_holds readable operandsReadable known isExact
  refine ⟨updated, ?_, sameHeader, holds⟩
  apply (sound_run_empty commands).leaves_operate reads resolves ?_ operates
  rintro source lsb msb rfl
  obtain ⟨vector, -, same⟩ := bind_eq_ok_iff.1 resolves
  cases same
  contradiction

/-- Minus three times five, from eight and four bits into forty two-state ones. -/
def signedFactors : List Command := [
  .create "t" 40 .plain true none (some true),
  .create "a" 8 .plain true (some true) none,
  .update "a" (.setNat 253),
  .create "b" 4 .signal true (some true) none,
  .update "b" (.setNat 5)]

theorem arithmetic_exact_signedFactors :
    ∃ target resolved updated,
      (Session.empty.run signedFactors).vector "t" = .ok target ∧
      (Operation.multiply "a" "b").traverse (Session.empty.run signedFactors).vector =
        .ok resolved ∧
      resolved.integer? target = some (-15) ∧
      (Session.empty.run signedFactors).Leaves (.update "t" (.operate (.multiply "a" "b"))) "t"
        updated ∧
      updated.Holds (-15) := by
  obtain ⟨target, resolved, reads, allocated, resolves, known, isExact⟩ :
      ∃ target resolved,
        (Session.empty.run signedFactors).vector "t" = .ok target ∧
        target.storage.isAllocated = true ∧
        (Operation.multiply "a" "b").traverse (Session.empty.run signedFactors).vector =
          .ok resolved ∧
        (∀ operand ∈ resolved.operands target, operand.IsKnown) ∧
        resolved.integer? target = some (-15) :=
    ⟨_, _, rfl, rfl, rfl, by decide +kernel, by decide +kernel⟩
  obtain ⟨updated, leaves, -, holds⟩ :=
    arithmetic_exact signedFactors reads allocated resolves known isExact
  exact ⟨target, resolved, updated, reads, resolves, isExact, leaves, holds⟩

/-! ## Division -/

/-- Quotient and remainder make up the dividend, also when both are cut. -/
theorem tdiv_mul_add_tmod_emod (dividend divisor limit : Int) :
    (dividend.tdiv divisor % limit * divisor + dividend.tmod divisor % limit) % limit =
      dividend % limit := by
  have cut : dividend.tdiv divisor % limit * divisor + dividend.tmod divisor % limit ≡
      dividend.tdiv divisor * divisor + dividend.tmod divisor [ZMOD limit] :=
    ((Int.mod_modEq _ _).mul_right _).add (Int.mod_modEq _ _)
  rwa [Int.tdiv_mul_add_tmod] at cut

/-- What dividing two names into a third does. -/
structure Divides
    (session : Session)
    (name left right : String)
    (target dividend divisor : LogicVector) : Prop where
  /-- Only a known zero divisor of a known dividend is refused as zero. -/
  refused_iff : ∀ division,
    (session.apply (.update name (.operate (.divide division left right)))).2.result =
        .error (.divisionByZero division) ↔
      dividend.IsKnown ∧ divisor.IsKnown ∧ divisor.integer false = 0
  /-- A refused division changes nothing and logs one error, which shows the operands. -/
  refused : ∀ division,
    (session.apply (.update name (.operate (.divide division left right)))).2.result =
      .error (.divisionByZero division) →
    ∃ event,
      event = .dividedByZero division (String.ofList dividend.display)
        (String.ofList divisor.display) ∧
      event.level = .error ∧
      session.apply (.update name (.operate (.divide division left right))) =
        (session, { result := .error (.divisionByZero division), log := [event] })
  /-- A quotient and a remainder are those of the integers of the operands, and make
  up the dividend modulo two to the target width. -/
  exact : dividend.IsKnown → divisor.IsKnown → divisor.integer false ≠ 0 →
    ∃ quotient remainder,
      session.Leaves (.update name (.operate (.divide .quotient left right))) name quotient ∧
      session.Leaves (.update name (.operate (.divide .remainder left right))) name remainder ∧
      quotient.toHeader = target.toHeader ∧ remainder.toHeader = target.toHeader ∧
      quotient.Holds ((dividend.integer (bothSigned dividend divisor)).tdiv
        (divisor.integer (bothSigned dividend divisor))) ∧
      remainder.Holds ((dividend.integer (bothSigned dividend divisor)).tmod
        (divisor.integer (bothSigned dividend divisor))) ∧
      (quotient.integer false * divisor.integer (bothSigned dividend divisor) +
          remainder.integer false) % modulus target.width =
        dividend.integer (bothSigned dividend divisor) % modulus target.width

section

variable
  {session : Session}
  {name left right : String}
  {target dividend divisor : LogicVector}
  (sound : session.Sound clipped)
  (reads : session.vector name = .ok target)
  (readsLeft : session.vector left = .ok dividend)
  (readsRight : session.vector right = .ok divisor)

include readsLeft readsRight

theorem traverse_divide (division : Division) :
    (Operation.divide division left right).traverse session.vector =
      .ok (.divide division dividend divisor) := by
  rw [Operation.traverse, readsLeft, readsRight]
  rfl

include reads

/-- A refused division passes on what the operation says, and stores nothing. -/
theorem apply_divide_of_error
    {division : Division}
    {failure : Failure}
    {log : List Event}
    (refuses : target.operate (.divide division dividend divisor) =
      { result := .error failure, log }) :
    session.apply (.update name (.operate (.divide division left right))) =
      (session, { result := .error failure, log }) := by
  have resolves := Update.traverse_operate (traverse_divide readsLeft readsRight division)
  have fails : target.update (.operate (.divide division dividend divisor)) =
      { result := .error failure, log } := by
    rw [LogicVector.update, refuses]
    rfl
  change session.update name _ = _
  rw [update_of_noteReads_eq reads resolves rfl, fails]
  rfl

include sound

theorem Sound.leaves_divide
    {division : Division}
    {updated : LogicVector}
    {changed : Bool}
    (operates : (target.operate (.divide division dividend divisor)).result =
      .ok (updated, changed)) :
    session.Leaves (.update name (.operate (.divide division left right))) name updated :=
  sound.leaves_operate reads (traverse_divide readsLeft readsRight division)
    (fun _ _ _ => nofun) operates

variable
  (readable : target.Readable)
  (leftReadable : dividend.Readable)
  (rightReadable : divisor.Readable)

include readable leftReadable rightReadable

/-- Only a known zero divisor of a known dividend is refused as zero. -/
theorem Sound.refused_divide_iff (division : Division) :
    (session.apply (.update name (.operate (.divide division left right)))).2.result =
        .error (.divisionByZero division) ↔
      dividend.IsKnown ∧ divisor.IsKnown ∧ divisor.integer false = 0 := by
  constructor
  · intro isRefused
    by_contra notZero
    obtain ⟨updated, changed, operates⟩ := LogicVector.exists_operate_divide division readable
      leftReadable rightReadable notZero
    obtain ⟨reply, succeeds⟩ :=
      (sound.leaves_divide reads readsLeft readsRight operates).succeeds
    rw [succeeds] at isRefused
    contradiction
  · rintro ⟨leftKnown, rightKnown, divisorZero⟩
    rw [apply_divide_of_error reads readsLeft readsRight
      (LogicVector.operate_divide_of_zero leftReadable rightReadable leftKnown rightKnown
        divisorZero)]

/-- Known operands leave their quotient or remainder, unless the divisor is zero. -/
theorem Sound.leaves_divide_of_known
    (leftKnown : dividend.IsKnown)
    (rightKnown : divisor.IsKnown)
    (divisorNotZero : divisor.integer false ≠ 0)
    (division : Division) :
    ∃ updated,
      session.Leaves (.update name (.operate (.divide division left right))) name updated ∧
      updated.toHeader = target.toHeader ∧
      updated.Holds (division.ofInts (dividend.integer (bothSigned dividend divisor))
        (divisor.integer (bothSigned dividend divisor))) := by
  obtain ⟨updated, _, divides, sameHeader, holds⟩ :=
    LogicVector.operate_divide_of_known division readable leftReadable rightReadable leftKnown
      rightKnown divisorNotZero
  exact ⟨updated, sound.leaves_divide reads readsLeft readsRight divides, sameHeader, holds⟩

end

/-- In every session that commands lead to, dividing allocated vectors is exact
and fails cleanly. -/
theorem divides_run_empty
    (commands : List Command)
    {name left right : String}
    {target dividend divisor : LogicVector}
    (reads : (Session.empty.run commands).vector name = .ok target)
    (readsLeft : (Session.empty.run commands).vector left = .ok dividend)
    (readsRight : (Session.empty.run commands).vector right = .ok divisor)
    (allocated : target.storage.isAllocated = true)
    (leftAllocated : dividend.storage.isAllocated = true)
    (rightAllocated : divisor.storage.isAllocated = true) :
    (Session.empty.run commands).Divides name left right target dividend divisor := by
  have sound := sound_run_empty commands
  have readable := readable_run_empty reads allocated
  have leftReadable := readable_run_empty readsLeft leftAllocated
  have rightReadable := readable_run_empty readsRight rightAllocated
  have refused_iff := sound.refused_divide_iff reads readsLeft readsRight readable leftReadable
    rightReadable
  refine ⟨refused_iff, ?_, ?_⟩
  · intro division isRefused
    obtain ⟨leftKnown, rightKnown, divisorZero⟩ := (refused_iff division).1 isRefused
    exact ⟨_, rfl, rfl, apply_divide_of_error reads readsLeft readsRight
      (LogicVector.operate_divide_of_zero leftReadable rightReadable leftKnown rightKnown
        divisorZero)⟩
  · intro leftKnown rightKnown divisorNotZero
    have leaves := sound.leaves_divide_of_known reads readsLeft readsRight readable leftReadable
      rightReadable leftKnown rightKnown divisorNotZero
    obtain ⟨quotient, leavesQuotient, quotientHeader, quotientHolds⟩ := leaves .quotient
    obtain ⟨remainder, leavesRest, remainderHeader, remainderHolds⟩ := leaves .remainder
    refine ⟨quotient, remainder, leavesQuotient, leavesRest, quotientHeader, remainderHeader,
      quotientHolds, remainderHolds, ?_⟩
    have quotientWidth : quotient.width = target.width := congrArg Header.width quotientHeader
    have remainderWidth : remainder.width = target.width := congrArg Header.width remainderHeader
    rw [quotientHolds.integer_eq, remainderHolds.integer_eq, quotientWidth, remainderWidth]
    exact tdiv_mul_add_tmod_emod _ _ _

/-- The least number of four bits and minus one, whose quotient does not fit them. -/
def leastNumber : List Command := [
  .create "t" 4 .memory true none none,
  .create "a" 4 .plain true (some true) none,
  .update "a" (.setNat 8),
  .create "b" 33 .plain true (some true) none,
  .update "b" (.setWord (-1))]

theorem divides_leastNumber :
    ∃ target dividend divisor,
      (Session.empty.run leastNumber).vector "t" = .ok target ∧
      (Session.empty.run leastNumber).vector "a" = .ok dividend ∧
      (Session.empty.run leastNumber).vector "b" = .ok divisor ∧
      (Session.empty.run leastNumber).Divides "t" "a" "b" target dividend divisor ∧
      dividend.integer true = -8 ∧ divisor.integer true = -1 := by
  obtain ⟨target, dividend, divisor, reads, readsLeft, readsRight, allocated, leftAllocated,
      rightAllocated, isLeast, isMinusOne⟩ :
      ∃ target dividend divisor,
        (Session.empty.run leastNumber).vector "t" = .ok target ∧
        (Session.empty.run leastNumber).vector "a" = .ok dividend ∧
        (Session.empty.run leastNumber).vector "b" = .ok divisor ∧
        target.storage.isAllocated = true ∧ dividend.storage.isAllocated = true ∧
        divisor.storage.isAllocated = true ∧
        dividend.integer true = -8 ∧ divisor.integer true = -1 :=
    ⟨_, _, _, rfl, rfl, rfl, rfl, rfl, rfl, by decide +kernel, by decide +kernel⟩
  exact ⟨target, dividend, divisor, reads, readsLeft, readsRight,
    divides_run_empty leastNumber reads readsLeft readsRight allocated leftAllocated
      rightAllocated, isLeast, isMinusOne⟩

end Session
end FourState
