import FourState.Proofs.Guarded.Claiming
import FourState.Proofs.Session.Arithmetic
import FourState.Proofs.Session.Confinement
import FourState.Proofs.Session.ToggleHistory

/-!
# Race checks over runs

A signal answers each claim with yes exactly if the range meets one that was claimed since
its coverage was last cleared, through whatever names the claims and the resets came.  The
invariant is that the claimed bits of the block are the union of these ranges; assignments
and everything else that takes no coverage over keep it.
-/

namespace FourState

/-! ## Updates that keep claims -/

namespace Update

variable {operand other error : Type}

/-- The update takes over coverage from another vector or from a record. -/
def takesCoverage : Update operand → Bool
  | copyFrom _ => true
  | copyRange _ _ => true
  | merge _ => true
  | mergeRecord _ _ => true
  | _ => false

/-- The update neither claims bits nor gives up claims. -/
def keepsClaims : Update operand → Bool
  | claim _ _ => false
  | resetCoverage => false
  | change => !change.takesCoverage

@[simp] theorem keepsClaims_shape (change : Update operand) :
    change.shape.keepsClaims = change.keepsClaims := by
  cases change <;> rfl

/-- Exchanging the operands keeps an update one that keeps claims. -/
theorem keepsClaims_of_traverse
    {resolve : operand → Except error other}
    {change : Update operand}
    {resolved : Update other}
    (succeeds : change.traverse resolve = .ok resolved) :
    resolved.keepsClaims = change.keepsClaims := by
  rw [← keepsClaims_shape, shape_of_traverse succeeds, keepsClaims_shape]

end Update

namespace Command

/-- The command takes over coverage into a vector that there is. -/
def takesCoverage : Command → Bool
  | update _ change => change.takesCoverage
  | _ => false

/-- The command neither claims bits of a vector nor gives up claims. -/
def keepsClaims : Command → Bool
  | update _ change => change.keepsClaims
  | _ => true

end Command

/-- An update of a signal that keeps claims leaves the plane of the claims as it is. -/
theorem LogicVector.effect_keepsClaims
    {vector : LogicVector}
    {change : Update LogicVector}
    {answer : LogicVector × Reply}
    (isSignal : vector.kind = Kind.signal)
    (keeps : change.keepsClaims = true)
    (succeeds : (vector.update change).result = .ok answer)
    (position : Nat)
    (cell : Cell) :
    (vector.effect change).apply position cell Plane.assigned = cell Plane.assigned := by
  have assigned (assignment? : Option Assignment) :
      (vector.assignmentEffect assignment?).apply position cell Plane.assigned =
        cell Plane.assigned := by
    cases assignment? with
    | none => rfl
    | some assignment =>
        rw [assignmentEffect, isSignal]
        simp only [Effect.apply, Assignment.change]
        split
        · rw [Cell.accept_coverage _ _ _ rfl, Cell.gains_other (by decide) fun _ => by decide,
            Bool.or_false]
        · rfl
  cases change with
  | assign | applyChange | setNat | setWord | setUnknown | extendFrom | setValue | commit
  | operate =>
      rw [vector.effect_of_isAssigning rfl]
      exact assigned _
  | setSigned => rfl
  | setTwoState twoState =>
      cases twoState with
      | false => rfl
      | true => exact cell.collapse_of_isCoverage rfl
  -- Only expressions are evaluated.
  | evaluateUnary =>
      obtain ⟨evaluates, -⟩ := Outcome.ofChange_eq_ok_iff.1 succeeds
      have isExpression := (evaluateUnary_eq_ok_iff.1 evaluates).1
      rw [isSignal] at isExpression
      contradiction
  | evaluate evaluation left right =>
      obtain ⟨evaluates, -⟩ := Outcome.ofChange_eq_ok_iff.1 succeeds
      have isExpression := (evaluate_eq_ok_iff.1 evaluates).2.2.1
      rw [isSignal] at isExpression
      contradiction
  | claim | resetCoverage | copyFrom | copyRange | merge | mergeRecord => contradiction

namespace Session

instance (session : Session) (name : String) (number : Nat) :
    Decidable (session.Refers name number) :=
  decidable_of_iff
    (((session.vectors.get? name).bind fun handle => handle.storage.content?) = some number)
    Option.bind_eq_some_iff

/-! ## The claims of a run -/

/-- The ranges that are claimed in a block of a signal after a command, if some were claimed
before it.  A range counts if it lies inside the width. -/
def claimsAfter (session : Session) (number width : Nat) (ranges : List BitRange) :
    Command → List BitRange
  | .update name (.claim msb lsb) =>
      if session.Refers name number ∧ BitRange.Inside ⟨msb, lsb⟩ width then ranges ++ [⟨msb, lsb⟩]
      else ranges
  | .update name .resetCoverage => if session.Refers name number then [] else ranges
  | _ => ranges

/-- The ranges that are claimed in a block of a signal after a run. -/
def claimsFrom (session : Session) (number width : Nat) (ranges : List BitRange) :
    List Command → List BitRange
  | [] => ranges
  | command :: commands =>
      (session.apply command).1.claimsFrom number width
        (session.claimsAfter number width ranges command) commands

section

variable
  {session : Session}
  {number width : Nat}
  {name : String}
  {range : BitRange}
  {ranges : List BitRange}
  {command : Command}

/-- An update that reads no other vector has the effects of the change itself. -/
theorem effects_update_of_traverse
    {change : Update String}
    {resolved : Update LogicVector}
    (resolves : change.traverse session.vector = .ok resolved)
    (notes : session.noteReads change = session)
    (readsNothing : session.readEffects number change = []) :
    session.effects number (.update name change) = session.changeEffects number name resolved := by
  change session.updateEffects number name change = _
  unfold updateEffects
  rw [resolves, notes, readsNothing]
  cases reads : session.handle name with
  | error failure => simp only [changeEffects, reads]
  | ok handle => rfl

theorem effects_claim
    (session : Session)
    (number : Nat)
    (name : String)
    (msb lsb : Nat) :
    session.effects number (.update name (.claim msb lsb)) =
      session.changeEffects number name (.claim msb lsb) :=
  effects_update_of_traverse rfl rfl rfl

theorem effects_resetCoverage (session : Session) (number : Nat) (name : String) :
    session.effects number (.update name .resetCoverage) =
      session.changeEffects number name .resetCoverage :=
  effects_update_of_traverse rfl rfl rfl

/-- What an update does to a block that its name refers to, if it succeeds. -/
theorem changeEffects_of_refers
    {handle : Handle}
    (bound : session.Binds name handle)
    (refers : handle.storage.content? = some number)
    {change : Update LogicVector}
    {answer : LogicVector × Reply}
    (succeeds : ((session.load handle).update change).result = .ok answer) :
    session.changeEffects number name change = [(session.load handle).effect change] := by
  have reads := (handle_eq_ok_iff _ _ _).2 bound
  simp only [changeEffects, reads, succeeds, if_pos refers]

theorem changeEffects_of_not_refers
    (notRefers : ¬session.Refers name number)
    (change : Update LogicVector) :
    session.changeEffects number name change = [] := by
  rw [List.eq_nil_iff_forall_not_mem]
  intro effect isMember
  obtain ⟨handle, bound, refers, -⟩ := mem_changeEffects isMember
  exact notRefers ⟨handle, bound, refers⟩

/-- A command that keeps claims leaves the plane of the claims of a signal as it is. -/
theorem RefersAs.bit_assigned_apply
    (refersAs : session.RefersAs number width Kind.signal)
    (sound : session.Sound fun plane => plane.isCoverage = false)
    (inBounds : number < session.blocks.size)
    (keeps : command.keepsClaims = true)
    (position : Nat) :
    ((session.apply command).1.block number).bit Plane.assigned position =
      (session.block number).bit Plane.assigned position := by
  rw [block_apply sound command inBounds]
  apply Block.bit_replay_of_keeps
  intro effect isMember position cell
  obtain ⟨name, change, requests, isRead | isChange⟩ := mem_effects isMember
  · obtain ⟨source, handle, lsb, msb, bound, refers, -, rfl⟩ := isRead
    have notMemory : ¬(session.load handle).kind = Kind.memory := by
      change ¬handle.kind = Kind.memory
      rw [(refersAs source handle bound refers).2]
      decide
    rw [LogicVector.readEffect, if_neg notMemory]
    rfl
  · obtain ⟨handle, resolved, bound, refers, resolves, ⟨answer, succeeds⟩, rfl⟩ := isChange
    refine LogicVector.effect_keepsClaims (refersAs name handle bound refers).2 ?_ succeeds
      position cell
    rw [Update.keepsClaims_of_traverse resolves]
    obtain rfl | ⟨value, rfl⟩ := eq_update_of_request requests
    · exact keeps
    · rfl

section

variable
  (refersAs : session.RefersAs number width Kind.signal)
  (sound : session.Sound fun plane => plane.isCoverage = false)

include refersAs sound

/-- A name of a signal takes every claim inside the width. -/
theorem RefersAs.exists_claim
    {handle : Handle}
    (bound : session.Binds name handle)
    (refers : handle.storage.content? = some number)
    (inside : range.Inside width) :
    range.msb < 32 * (session.block number).size ∧ ∃ answer,
      (session.load handle).claim range.msb range.lsb =
        .ok ((session.load handle).alter (Effect.claim range).apply, answer) ∧
      (answer = true ↔ ∃ position, range.Covers position ∧
        (session.block number).bit Plane.assigned position = true) := by
  obtain ⟨sameWidth, isSignal⟩ := refersAs name handle bound refers
  have stored : (session.load handle).block = .ok (session.block number) := block_load refers
  have size : Array.size (session.block number) = wordCount width := by
    rw [((sound.wellFormed name handle bound).block_fits _ stored).size_eq]
    exact congrArg wordCount sameWidth
  have inWords : range.msb / 32 < Array.size (session.block number) := by
    rw [size]
    exact div_lt_wordCount inside.2
  refine ⟨by omega, LogicVector.exists_claim stored isSignal ?_ inWords⟩
  change range.Inside handle.width
  rwa [sameWidth]

/-- A claim that counts adds its range, and any other claim changes nothing. -/
theorem RefersAs.isClaimed_claim
    (inBounds : number < session.blocks.size)
    (claimed : (session.block number).IsClaimed ranges)
    (msb lsb : Nat) :
    Block.IsClaimed ((session.apply (.update name (.claim msb lsb))).1.block number)
      (session.claimsAfter number width ranges (.update name (.claim msb lsb))) := by
  rw [block_apply sound _ inBounds, effects_claim, claimsAfter]
  by_cases counts : session.Refers name number ∧ BitRange.Inside ⟨msb, lsb⟩ width
  · obtain ⟨⟨handle, bound, refers⟩, inside⟩ := id counts
    obtain ⟨inWords, answer, claims, -⟩ := refersAs.exists_claim sound bound refers inside
    have updates : ((session.load handle).update (.claim msb lsb)).result =
        .ok ((session.load handle).alter (Effect.claim ⟨msb, lsb⟩).apply, .flag answer) :=
      Outcome.ofFlagged_of_ok claims
    rw [if_pos counts, changeEffects_of_refers bound refers updates, LogicVector.effect_claim,
      Block.replay_cons, Block.replay_nil]
    exact claimed.claim inWords
  · have hasNone : session.changeEffects number name (.claim msb lsb) = [] := by
      rw [List.eq_nil_iff_forall_not_mem]
      intro effect isMember
      obtain ⟨handle, bound, refers, ⟨⟨updated, reply⟩, succeeds⟩, -⟩ := mem_changeEffects isMember
      obtain ⟨answer, claims, -⟩ := Outcome.ofFlagged_eq_ok_iff.1 succeeds
      have inside := (LogicVector.claim_eq_alter (liftM_fault_eq_ok_iff.1 claims)).2.1
      refine counts ⟨⟨handle, bound, refers⟩, ?_⟩
      rw [← (refersAs name handle bound refers).1]
      exact inside
    rw [if_neg counts, hasNone]
    exact claimed

omit refersAs in
/-- A reset gives up all claims, if it is one of the signal. -/
theorem isClaimed_resetCoverage
    (inBounds : number < session.blocks.size)
    (claimed : (session.block number).IsClaimed ranges) :
    Block.IsClaimed ((session.apply (.update name .resetCoverage)).1.block number)
      (session.claimsAfter number width ranges (.update name .resetCoverage)) := by
  rw [block_apply sound _ inBounds, effects_resetCoverage, claimsAfter]
  by_cases refersTo : session.Refers name number
  · obtain ⟨handle, bound, refers⟩ := id refersTo
    have resets : ∃ updated, (session.load handle).resetCoverage = .ok updated := by
      rw [LogicVector.resetCoverage, block_load refers]
      exact ⟨_, rfl⟩
    obtain ⟨updated, succeeds⟩ := resets
    have updates : ((session.load handle).update .resetCoverage).result = .ok (updated, .done) :=
      Outcome.ofChange_eq_ok_iff.2 ⟨succeeds, rfl⟩
    rw [if_pos refersTo, changeEffects_of_refers bound refers updates, LogicVector.effect,
      Block.replay_cons, Block.replay_nil]
    exact Block.isClaimed_clearCoverage _
  · rw [if_neg refersTo, changeEffects_of_not_refers refersTo]
    exact claimed

/-- One command keeps the invariant: the claimed bits are the union of the claimed ranges. -/
theorem RefersAs.isClaimed_apply
    (inBounds : number < session.blocks.size)
    (claimed : (session.block number).IsClaimed ranges)
    (suitable : command.takesCoverage = false) :
    Block.IsClaimed ((session.apply command).1.block number)
      (session.claimsAfter number width ranges command) := by
  have kept (keeps : command.keepsClaims = true) :
      Block.IsClaimed ((session.apply command).1.block number) ranges := by
    intro position
    rw [refersAs.bit_assigned_apply sound inBounds keeps]
    exact claimed position
  cases command with
  | update name change =>
      cases change with
      | claim msb lsb => exact refersAs.isClaimed_claim sound inBounds claimed msb lsb
      | resetCoverage => exact isClaimed_resetCoverage sound inBounds claimed
      | copyFrom | copyRange | merge | mergeRecord => contradiction
      | _ => exact kept rfl
  | _ => exact kept rfl

/-- A run keeps the invariant. -/
theorem RefersAs.isClaimed_run
    {commands : List Command}
    (inBounds : number < session.blocks.size)
    (claimed : (session.block number).IsClaimed ranges)
    (suitable : ∀ command ∈ commands, command.takesCoverage = false) :
    Block.IsClaimed ((session.run commands).block number)
      (session.claimsFrom number width ranges commands) := by
  induction commands generalizing session ranges with
  | nil => exact claimed
  | cons command commands inductionHypothesis =>
      exact inductionHypothesis (refersAs.apply sound inBounds command) (sound.applyAny command)
        (Nat.lt_of_lt_of_le inBounds (session.size_le_size_apply command))
        (refersAs.isClaimed_apply sound inBounds claimed
          (suitable command (List.mem_cons_self ..)))
        (fun other isMember => suitable other (List.mem_cons_of_mem _ isMember))

end

/-! ## Races of a new signal -/

/-- How a name of a signal checks for races, when ranges are claimed. -/
structure ChecksRaces (session : Session) (name : String) (vector : LogicVector)
    (ranges : List BitRange) : Prop where
  /-- The plane of the claims is the union of the ranges. -/
  plane : ∃ block, vector.block = .ok block ∧ ∀ position,
    (block.bit Plane.assigned position = true ↔ ∃ range ∈ ranges, range.Covers position)
  /-- A claim inside the width, bit by bit or not, answers whether it meets one of the ranges,
  and changes nothing but the plane of the claims. -/
  claim : ∀ range : BitRange, range.Inside vector.width → ∃ answer updated,
    (session.apply (.update name (.claim range.msb range.lsb))).2.result = .ok (.flag answer) ∧
    (session.apply (.update name (.claim range.msb range.lsb))).1.vector name = .ok updated ∧
    Guarded.claim vector range.msb range.lsb = .ok (updated, answer) ∧
    (answer = true ↔ ∃ other ∈ ranges, other.Meets range) ∧
    updated.toHeader = vector.toHeader ∧
    ∀ position plane, plane ≠ Plane.assigned →
      updated.cell position plane = vector.cell position plane

/-- The invariant makes the answers of every name of the signal right. -/
theorem RefersAs.checksRaces
    (refersAs : session.RefersAs number width Kind.signal)
    (sound : session.Sound fun plane => plane.isCoverage = false)
    (claimed : (session.block number).IsClaimed ranges)
    {vector : LogicVector}
    (reads : session.vector name = .ok vector)
    (refersTo : session.Refers name number) :
    vector.width = width ∧ session.ChecksRaces name vector ranges := by
  obtain ⟨handle, bound, refers⟩ := refersTo
  obtain ⟨other, otherBound, rfl⟩ := (vector_eq_ok_iff _ _ _).1 reads
  cases bound.symm.trans otherBound
  have sameWidth : (session.load handle).width = width := (refersAs name handle bound refers).1
  refine ⟨sameWidth, ⟨_, block_load refers, claimed⟩, ?_⟩
  intro range inside
  obtain ⟨inWords, answer, claims, answers⟩ :=
    refersAs.exists_claim sound bound refers (sameWidth ▸ inside)
  obtain ⟨left, succeedsBitwise, claimsToo, -⟩ := Guarded.claim_agrees (block_load refers)
    (refersAs name handle bound refers).2 inside inWords
  cases claims.symm.trans claimsToo
  rw [claimed.exists_covered_iff] at answers
  have resolves : (Update.claim range.msb range.lsb).traverse session.vector =
      .ok (.claim range.msb range.lsb) := rfl
  have updates := Outcome.ofFlagged_of_ok claims
  obtain ⟨-, succeeds, -, -⟩ := sound.exists_noteRead_of_update reads resolves updates
  have leaves := sound.leaves_update reads resolves (fun _ _ _ => nofun) updates
  refine ⟨answer, _, succeeds, leaves.vector_eq, succeedsBitwise, answers, rfl, ?_⟩
  intro position plane notAssigned
  exact LogicVector.bit_alter_of_keeps _
    fun cell => Effect.claim_apply_of_ne range notAssigned position cell

end

/-- Race checks are exact.  After any run on a signal that was new in a session reached by any
commands, if the run took no coverage over from elsewhere, the plane of the claims is the union of
the ranges claimed since the last reset, and every name for the signal answers a claim with yes
exactly if its range meets one of them. -/
theorem signal_checks_races
    (earlier later : List Command)
    (name : String)
    {width : Nat}
    (signed? twoState? : Option Bool)
    (inLimits : 0 < width ∧ width ≤ maxWidth)
    (suitable : ∀ command ∈ later, command.takesCoverage = false) :
    let number := (Session.empty.run earlier).blocks.size
    let start := (Session.empty.run earlier).withSignal name width signed? twoState?
    ∀ reference vector,
      (start.run later).vector reference = .ok vector →
      (start.run later).Refers reference number →
      vector.width = width ∧
        (start.run later).ChecksRaces reference vector
          (start.claimsFrom number width [] later) := by
  intro number start reference vector reads refersTo
  have soundBefore := sound_run_empty earlier
  obtain ⟨signal, block, placed, sameWidth, isSignal, storage, -, clear⟩ :=
    (Session.empty.run earlier).withSignal_eq_place name signed? twoState? inLimits
  have stored := content?_of_eq_owned storage
  have isPlaced : start = (Session.empty.run earlier).place name signal := placed
  have sound : start.Sound fun plane => plane.isCoverage = false := soundBefore.applyAny _
  have refersAs : start.RefersAs number width Kind.signal := by
    rw [isPlaced, ← sameWidth, ← isSignal]
    exact soundBefore.refersAs_place
  have inBounds : number < start.blocks.size := by
    rw [isPlaced]
    exact size_lt_size_place stored
  have claimed : (start.block number).IsClaimed [] := by
    rw [isPlaced, (block_place _ name stored).2]
    exact Block.isClaimed_nil fun position => clear position Plane.assigned rfl
  exact (refersAs.run sound inBounds later).checksRaces (sound.runAny later)
    (refersAs.isClaimed_run sound inBounds claimed suitable) reads refersTo

/-- Two names for a signal of two words: a claim that is given up, and two over the boundary of
the words, with values assigned in between. -/
def aliasedClaims : List Command := [
  .share "b" "a",
  .update "a" (.claim 5 2),
  .update "b" .resetCoverage,
  .update "b" (.claim 35 30),
  .update "a" (.setNat 1099511627775),
  .update "a" (.claim 31 31),
  .update "b" (.setNat 0)]

/-- The first claim has been given up; the other two are met. -/
theorem signal_checks_races_aliasedClaims :
    (0 < 40 ∧ 40 ≤ maxWidth) ∧ (∀ command ∈ aliasedClaims, command.takesCoverage = false) ∧
    ∃ session vector block,
      session = ((Session.empty.run []).withSignal "a" 40 none none).run aliasedClaims ∧
      session.vector "b" = .ok vector ∧ vector.block = .ok block ∧
      block.bit Plane.assigned 33 = true ∧ block.bit Plane.assigned 2 = false ∧
      (session.apply (.update "b" (.claim 29 0))).2.result = .ok (.flag false) ∧
      (session.apply (.update "b" (.claim 39 35))).2.result = .ok (.flag true) := by
  have inLimits : 0 < 40 ∧ 40 ≤ maxWidth := by decide
  have suitable : ∀ command ∈ aliasedClaims, command.takesCoverage = false := by decide
  have refers : (((Session.empty.run []).withSignal "a" 40 none none).run aliasedClaims).Refers
      "b" (Session.empty.run []).blocks.size := by decide +kernel
  have claims : ((Session.empty.run []).withSignal "a" 40 none none).claimsFrom
      (Session.empty.run []).blocks.size 40 [] aliasedClaims = [⟨35, 30⟩, ⟨31, 31⟩] := by
    decide +kernel
  obtain ⟨handle, bound, -⟩ := id refers
  have reads := (vector_eq_ok_iff _ _ _).2 ⟨handle, bound, rfl⟩
  obtain ⟨sameWidth, checks⟩ := signal_checks_races [] aliasedClaims "a" none none inLimits
    suitable "b" _ reads refers
  rw [claims] at checks
  obtain ⟨block, stored, marks⟩ := checks.plane
  obtain ⟨free, -, answersFree, -, -, free_iff, -⟩ := checks.claim ⟨29, 0⟩
    (by rw [sameWidth]; decide)
  obtain ⟨taken, -, answersTaken, -, -, taken_iff, -⟩ := checks.claim ⟨39, 35⟩
    (by rw [sameWidth]; decide)
  have isFree : free = false := by
    rw [← Bool.not_eq_true, free_iff]
    decide
  have isTaken : taken = true := taken_iff.2 (by decide)
  subst isFree isTaken
  refine ⟨inLimits, suitable, _, _, block, rfl, reads, stored, (marks 33).2 (by decide), ?_,
    answersFree, answersTaken⟩
  rw [← Bool.not_eq_true, marks 2]
  decide

end Session
end FourState
