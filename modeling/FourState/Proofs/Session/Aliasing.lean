import FourState.Proofs.Copying
import FourState.Proofs.Operands
import FourState.Proofs.Session.NotedReads
import FourState.Proofs.Session.Stepwise

/-!
# Operands that share words with the target

When an update runs word by word, an operand that shares its words with the target
changes while the target is written.  That does no harm, because every operator has
read its operands by then: the outcome and the target are the same as with a copy of
the operand that was made just before.  Only reads that a part-select notes in its
source show in the target as well, if it has the words of the source.
-/

namespace FourState

variable {clipped : Plane → Prop}

namespace LogicVector

/-- A copy is the vector with words of its own. -/
theorem deepClone?_eq_owning
    {vector : LogicVector}
    (allocated : vector.storage.isAllocated = true) :
    vector.deepClone? = some vector.owning := by
  rcases vector with ⟨header, storage⟩
  cases storage with
  | absent => contradiction
  | owned block => rfl
  | borrowed block => rfl

@[simp] theorem owning_owning (vector : LogicVector) : vector.owning.owning = vector.owning := by
  rcases vector with ⟨header, storage⟩
  cases storage <;> rfl

/-- Two vectors agree in everything but the noted reads of a memory. -/
structure AgreesButReads (noted : Nat → Prop) (first second : LogicVector) : Prop where
  header_eq : first.toHeader = second.toHeader
  isOwned_eq : first.storage.isOwned = second.storage.isOwned
  isAllocated_eq : first.storage.isAllocated = second.storage.isAllocated
  bit_eq : ∀ position plane,
    ¬(first.kind = Kind.memory ∧ plane = Plane.read ∧ noted position) →
      first.cell position plane = second.cell position plane

/-- Noting reads twice over gives vectors that agree in everything else. -/
theorem agreesButReads_noteRead
    (vector : LogicVector)
    {noted : Nat → Prop}
    {firstReads secondReads : Nat → Bool}
    (firstOnly : ∀ position, firstReads position = true → noted position)
    (secondOnly : ∀ position, secondReads position = true → noted position) :
    (vector.noteRead firstReads).AgreesButReads noted (vector.noteRead secondReads) where
  header_eq := rfl
  isOwned_eq := (isOwned_noteRead _ _).trans (isOwned_noteRead _ _).symm
  isAllocated_eq := (isAllocated_noteRead _ _).trans (isAllocated_noteRead _ _).symm
  bit_eq := by
    intro position plane elsewhere
    have unread {isRead : Nat → Bool}
        (only : ∀ position, isRead position = true → noted position) :
        (vector.noteRead isRead).cell position plane = vector.cell position plane := by
      apply cell_noteRead_of_unread
      intro isMemory isReadPlane
      rw [← Bool.not_eq_true]
      exact fun reads => elsewhere ⟨isMemory, isReadPlane, only position reads⟩
    rw [unread firstOnly, unread secondOnly]

end LogicVector

namespace Session

variable {session : Session} {name operand fresh : String} {change copied : Update String}

/-! ## The session with a copy -/

theorem apply_clone
    {source : LogicVector}
    (reads : session.vector operand = .ok source)
    (allocated : source.storage.isAllocated = true) :
    (session.apply (.clone fresh operand)).1 = session.place fresh source.owning := by
  simp only [apply, reads, LogicVector.deepClone?_eq_owning allocated, settle, bind, Except.bind,
    pure, Except.pure]

/-- Every other name stands for what it stood for. -/
theorem vector_place_of_ne
    (sound : session.Sound clipped)
    {other : String}
    (apart : other ≠ fresh)
    (vector : LogicVector) :
    (session.place fresh vector).vector other = session.vector other := by
  have sameHandle : (session.place fresh vector).handle other = session.handle other := by
    simp only [Session.handle, place, Bindings.get?_bind, apart, if_false]
  unfold Session.vector
  rw [sameHandle]
  cases reads : session.handle other with
  | error failure => rfl
  | ok handle =>
      have bound := (handle_eq_ok_iff _ _ _).1 reads
      have sameWords : (session.place fresh vector).load handle = session.load handle :=
        load_congr fun number refers =>
          block_place_of_lt session fresh vector (sound.lt_size bound refers)
      exact congrArg Except.ok sameWords

theorem vector_place (vector : LogicVector) :
    (session.place fresh vector).vector fresh = .ok vector :=
  (vector_eq_ok_iff _ _ _).2 ⟨session.placedHandle vector,
    (binds_place_iff _ _ _ _ _).2 (.inl ⟨rfl, rfl⟩), load_place _ _ _⟩

/-- The operands of the update with copies are those of the update itself, some of
them with words of their own. -/
theorem map_owning_traverse_copied
    (sound : session.Sound clipped)
    {source : LogicVector}
    (reads : session.vector operand = .ok source)
    (copies : copied.map (fun other => if other = fresh then operand else other) = change) :
    (copied.traverse (session.place fresh source.owning).vector).map
        (Update.map LogicVector.owning) =
      (change.traverse session.vector).map (Update.map LogicVector.owning) := by
  rw [Update.map_traverse, Update.map_traverse, ← copies, Update.traverse_map]
  congr 1
  funext other
  by_cases isCopy : other = fresh
  · subst isCopy
    rw [if_pos rfl, vector_place, reads]
    exact congrArg Except.ok source.owning_owning
  · rw [if_neg isCopy, vector_place_of_ne sound isCopy]

/-- Copies have new words, so what is read from one is noted in no old vector. -/
theorem notesRead_of_copied
    (sound : session.Sound clipped)
    (apart : fresh ≠ name)
    (vector : LogicVector)
    (copies : copied.map (fun other => if other = fresh then operand else other) = change)
    {position : Nat}
    (reads : (session.place fresh vector).NotesRead name copied position) :
    session.NotesRead name change position := by
  obtain ⟨source, lsb, msb, rfl, shares, inRange⟩ := reads
  obtain ⟨first, second, number, firstBound, secondBound, firstRefers, secondRefers⟩ := shares
  obtain ⟨isFresh, -⟩ | ⟨-, secondBefore⟩ := (binds_place_iff _ _ _ _ _).1 secondBound
  · exact absurd isFresh.symm apart
  · have isOld := sound.lt_size secondBefore secondRefers
    obtain ⟨-, rfl⟩ | ⟨notFresh, firstBefore⟩ := (binds_place_iff _ _ _ _ _).1 firstBound
    · have isNew := number_of_placedHandle firstRefers
      omega
    · refine ⟨source, lsb, msb, ?_, ⟨first, second, number, firstBefore, secondBefore,
        firstRefers, secondRefers⟩, inRange⟩
      rw [← copies]
      simp only [Update.map, Operation.map, if_neg notFresh]

/-! ## Updates with copied operands -/

/-- In a sound session, an update with a copy in place of an operand has the same
outcome and makes the same of its target, apart from noted reads. -/
theorem update_copied
    (sound : session.Sound clipped)
    {target source : LogicVector}
    (readsTarget : session.vector name = .ok target)
    (reads : session.vector operand = .ok source)
    (apart : fresh ≠ name)
    (copies : copied.map (fun other => if other = fresh then operand else other) = change) :
    (session.update name change).2 =
        ((session.place fresh source.owning).update name copied).2 ∧
      ∃ after afterCopied,
        (session.update name change).1.vector name = .ok after ∧
        ((session.place fresh source.owning).update name copied).1.vector name =
          .ok afterCopied ∧
        after.AgreesButReads (session.NotesRead name change) afterCopied := by
  have soundCopied : (session.place fresh source.owning).Sound clipped :=
    sound.place fresh ((sound.vector reads).congr rfl rfl source.content?_owning)
  obtain ⟨handle, bound, rfl⟩ := (vector_eq_ok_iff _ _ _).1 readsTarget
  have boundCopied : (session.place fresh source.owning).Binds name handle :=
    (binds_place_iff _ _ _ _ _).2 (.inr ⟨apart.symm, bound⟩)
  have sameTarget : (session.place fresh source.owning).load handle = session.load handle :=
    load_congr fun number refers =>
      block_place_of_lt session fresh source.owning (sound.lt_size bound refers)
  have resolvedAlike := map_owning_traverse_copied sound reads copies
  cases resolves : change.traverse session.vector with
  | error failure =>
      cases resolvesCopied : copied.traverse (session.place fresh source.owning).vector with
      | ok resolved =>
          rw [resolves, resolvesCopied] at resolvedAlike
          contradiction
      | error failureCopied =>
          rw [resolves, resolvesCopied] at resolvedAlike
          cases resolvedAlike
          rw [update_of_unresolved bound resolves, update_of_unresolved boundCopied resolvesCopied]
          refine ⟨rfl, _, _, readsTarget, (vector_eq_ok_iff _ _ _).2 ⟨handle, boundCopied, rfl⟩, ?_⟩
          rw [sameTarget]
          exact ⟨rfl, rfl, rfl, fun _ _ _ => rfl⟩
  | ok resolved =>
      cases resolvesCopied : copied.traverse (session.place fresh source.owning).vector with
      | error failure =>
          rw [resolves, resolvesCopied] at resolvedAlike
          contradiction
      | ok resolvedCopied =>
          rw [resolves, resolvesCopied] at resolvedAlike
          have sameOperands : resolvedCopied.map LogicVector.owning =
              resolved.map LogicVector.owning :=
            Except.ok.inj resolvedAlike
          have updatesAlike : (session.load handle).update resolvedCopied =
              (session.load handle).update resolved := by
            rw [← LogicVector.update_map_owning, sameOperands, LogicVector.update_map_owning]
          obtain ⟨isRead, outcome, readsAfter, only, -⟩ := update_of_resolved sound bound resolves
          obtain ⟨isReadCopied, outcomeCopied, readsAfterCopied, onlyCopied, -⟩ :=
            update_of_resolved soundCopied boundCopied resolvesCopied
          have sameUpdated : (session.load handle).updated resolvedCopied =
              (session.load handle).updated resolved := by
            rw [LogicVector.updated, LogicVector.updated, updatesAlike]
          rw [sameTarget, updatesAlike] at outcomeCopied
          rw [sameTarget, sameUpdated] at readsAfterCopied
          refine ⟨outcome.trans outcomeCopied.symm, _, _, readsAfter, readsAfterCopied, ?_⟩
          exact LogicVector.agreesButReads_noteRead _ only fun position isTrue =>
            notesRead_of_copied sound apart _ copies (onlyCopied position isTrue)

/-! ## Copies between vectors with the same words -/

/-- Copying or merging planes that the target has already changes nothing. -/
theorem update_shared
    (sound : session.Sound clipped)
    {target : LogicVector}
    (readsTarget : session.vector name = .ok target)
    (shares : session.Shares operand name)
    (moves : change = .copyFrom operand ∨ change = .merge operand) :
    (session.update name change).2.result = .ok .done ∧
      (session.update name change).1.Alike session := by
  obtain ⟨source, handle, number, sourceBound, bound, sourceRefers, refers⟩ := shares
  obtain ⟨sameHandle, boundAgain, rfl⟩ := (vector_eq_ok_iff _ _ _).1 readsTarget
  cases bound.symm.trans boundAgain
  have readsSource : session.vector operand = .ok (session.load source) :=
    (vector_eq_ok_iff _ _ _).2 ⟨source, sourceBound, rfl⟩
  have stored : (session.load handle).block = .ok (session.block number) := block_load refers
  have sourceStored : (session.load source).block = .ok (session.block number) :=
    block_load sourceRefers
  obtain ⟨sameWidth, sameKind⟩ := sound.agree _ _ _ _ _ sourceBound bound sourceRefers refers
  obtain ⟨resolved, resolves, updates⟩ : ∃ resolved,
      change.traverse session.vector = .ok resolved ∧
        ((session.load handle).update resolved).result = .ok (session.load handle, .done) := by
    obtain rfl | rfl := moves
    · refine ⟨.copyFrom (session.load source), ?_, ?_⟩
      · rw [Update.traverse, readsSource]
        rfl
      · exact Outcome.ofChange_eq_ok_iff.2
          ⟨LogicVector.copyFrom_of_same_block stored sourceStored sameWidth sameKind, rfl⟩
    · refine ⟨.merge (session.load source), ?_, ?_⟩
      · rw [Update.traverse, readsSource]
        rfl
      · exact Outcome.ofChange_eq_ok_iff.2
          ⟨LogicVector.merge_of_same_block stored sourceStored sameWidth sameKind, rfl⟩
  have notes : session.noteReads change = session := by
    obtain rfl | rfl := moves <;> rfl
  have updatesSession := update_of_noteReads_eq readsTarget resolves notes
  rw [updates] at updatesSession
  rw [updatesSession]
  refine ⟨?_, alike_store_self bound⟩
  rw [Outcome.map, updates]
  rfl

/-! ## Every session that commands lead to -/

/-- The session with a copy, word by word. -/
theorem executed_clone
    {commands : List Command}
    {source : LogicVector}
    (reads : (Session.empty.executed commands).vector operand = .ok source)
    (allocated : source.storage.isAllocated = true) :
    Session.empty.executed (commands ++ [.clone fresh operand]) =
      (Session.empty.executed commands).place fresh source.owning := by
  rw [executed_append, executed_cons, executed_nil]
  exact apply_clone reads allocated

/-- Operands that share words with the target do no harm, even though they change while
the target is written word by word.  With a copy, made just before, in place of some
occurrences of an operand, an update gives the same answer or stops for the same reason,
logs the same, and leaves the same in its target, apart from the reads that a part-select
notes in a memory with the words of its source.  Copying or merging between vectors that
share words changes nothing at all.  With and without the copy, what runs word by word
answers, logs and leaves what the update of the whole vector does. -/
theorem aliased_operands_harmless
    (commands : List Command)
    {name operand fresh : String}
    {change copied : Update String}
    {target source : LogicVector}
    (readsTarget : (Session.empty.executed commands).vector name = .ok target)
    (readsOperand : (Session.empty.executed commands).vector operand = .ok source)
    (allocated : source.storage.isAllocated = true)
    (apart : fresh ≠ name)
    (copies : copied.map (fun other => if other = fresh then operand else other) = change) :
    let session := Session.empty.executed commands
    let performed := session.execute (.update name change)
    let withCopy := commands ++ [.clone fresh operand]
    let performedCopied := (Session.empty.executed withCopy).execute (.update name copied)
    (performed.result = performedCopied.result ∧ performed.log = performedCopied.log) ∧
      (∃ after afterCopied,
        performed.session.vector name = .ok after ∧
        performedCopied.session.vector name = .ok afterCopied ∧
        after.AgreesButReads (session.NotesRead name change) afterCopied) ∧
      ((change = .copyFrom operand ∨ change = .merge operand) → session.Shares operand name →
        performed.result = .ok .done ∧ performed.session.Alike session) ∧
      performed.Agrees ((Session.empty.run commands).apply (.update name change)) ∧
      performedCopied.Agrees ((Session.empty.run withCopy).apply (.update name copied)) := by
  intro session performed withCopy performedCopied
  have sound := sound_executed commands
  have soundCopied := sound_executed withCopy
  have agrees : performed.Agrees (session.update name change) :=
    perform_agrees sound name change
  have agreesCopied : performedCopied.Agrees
      ((session.place fresh source.owning).update name copied) := by
    rw [← executed_clone readsOperand allocated]
    exact perform_agrees soundCopied name copied
  obtain ⟨sameOutcome, after, afterCopied, readsAfter, readsAfterCopied, alikeAfter⟩ :=
    update_copied sound readsTarget readsOperand apart copies
  refine ⟨⟨?_, ?_⟩, ⟨after, afterCopied, ?_, ?_, alikeAfter⟩, ?_,
    execute_executed_agrees commands _, execute_executed_agrees withCopy _⟩
  · rw [agrees.result_eq, agreesCopied.result_eq, sameOutcome]
  · rw [agrees.log_eq, agreesCopied.log_eq, sameOutcome]
  · rw [agrees.alike.vector_eq, readsAfter]
  · rw [agreesCopied.alike.vector_eq, readsAfterCopied]
  · intro moves shares
    obtain ⟨done, unchanged⟩ := update_shared sound readsTarget shares moves
    exact ⟨by rw [agrees.result_eq, done]; rfl, agrees.alike.trans unchanged⟩

/-- A signal is added to itself under another name. -/
theorem aliased_operands_harmless_sum :
    ∃ (commands : List Command) (after afterCopied : LogicVector),
      (Session.empty.executed commands).Shares "t" "s" ∧
      ((Session.empty.executed commands).execute
        (.update "s" (.operate (.add "t" "s")))).session.vector "s" = .ok after ∧
      ((Session.empty.executed (commands ++ [.clone "copy" "t"])).execute
        (.update "s" (.operate (.add "copy" "s")))).session.vector "s" = .ok afterCopied ∧
      ((Session.empty.executed (commands ++ [.clone "copy" "t"])).execute
        (.update "s" (.operate (.add "copy" "s")))).result = .ok (.flag true) ∧
      after.AgreesButReads ((Session.empty.executed commands).NotesRead "s"
        (.operate (.add "t" "s"))) afterCopied := by
  obtain ⟨commands, isCommands⟩ : ∃ commands : List Command, commands = [
      .create "s" 4 .signal true none none,
      .update "s" (.setNat 5),
      .share "t" "s"] := ⟨_, rfl⟩
  have alike := executed_alike (.refl Session.empty) sound_empty commands
  obtain ⟨target, source, readsTarget, readsSource, allocated, shares⟩ :
      ∃ target source, (Session.empty.executed commands).vector "s" = .ok target ∧
        (Session.empty.executed commands).vector "t" = .ok source ∧
        source.storage.isAllocated = true ∧ (Session.empty.executed commands).Shares "t" "s" := by
    unfold Shares Binds
    simp only [alike.vector_eq, alike.vectors_eq]
    rw [isCommands]
    exact ⟨_, _, rfl, rfl, rfl, _, _, 0, rfl, rfl, rfl, rfl⟩
  have changes : ((Session.empty.run commands).apply
      (.update "s" (.operate (.add "t" "s")))).2.result = .ok (.flag true) := by
    rw [isCommands]
    decide +kernel
  obtain ⟨⟨sameResult, -⟩, ⟨after, afterCopied, readsAfter, readsAfterCopied, agreesButReads⟩, -,
      agrees, -⟩ :=
    @aliased_operands_harmless commands "s" "t" "copy" (.operate (.add "t" "s"))
      (.operate (.add "copy" "s")) _ _ readsTarget readsSource allocated (by decide)
      (by simp [Update.map, Operation.map])
  refine ⟨commands, after, afterCopied, shares, readsAfter, readsAfterCopied, ?_, agreesButReads⟩
  rw [← sameResult, agrees.result_eq, changes]
  rfl

end Session
end FourState
