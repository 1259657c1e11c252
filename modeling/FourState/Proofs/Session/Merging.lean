import FourState.Proofs.CoverageUnion
import FourState.Proofs.Session.Run

/-!
# Merging many vectors

The coverage of several vectors is added to one, in any order and as often as
wanted, each time in memory or by a record.  Every merge succeeds and takes its
record as a whole; in the end the coverage is the union of all, and the value
is the one there was.
-/

namespace FourState

/-- How coverage is handed over: in memory, or by a record that is written with
some options and merged with others. -/
inductive Handover
  | direct
  | record (written merged : RecordOptions)

/-- What a merge answers; nothing of a record remains unread. -/
def Handover.reply : Handover → Reply
  | direct => .done
  | record _ _ => .rest []

namespace Session

/-! ## Sequences of merges -/

/-- The request to merge a named vector. -/
def mergeRequest (session : Session) (source : String) :
    Handover → Except Failure (Update String)
  | .direct => return .merge source
  | .record written merged => do
      let vector ← session.vector source
      let text ← (vector.writeRecord written none).result
      return .mergeRecord text merged

/-- Merge named vectors one after the other, and collect the answers. -/
def mergeAll (session : Session) (base : String) :
    List (String × Handover) → Except Failure (Session × List Reply)
  | [] => return (session, [])
  | (source, handover) :: others => do
      let change ← session.mergeRequest source handover
      let (changed, outcome) := session.apply (.update base change)
      let reply ← outcome.result
      let (last, replies) ← changed.mergeAll base others
      return (last, reply :: replies)

/-- Two names stand for vectors with the same words. -/
def Shares (session : Session) (first second : String) : Prop :=
  ∃ handle otherHandle number,
    session.Binds first handle ∧ session.Binds second otherHandle ∧
      handle.storage.content? = some number ∧ otherHandle.storage.content? = some number

/-- A name stands for an owner of words with the width and kind of a base, other
words than those of the base, and no bit past its width. -/
structure Offers
    (session : Session)
    (base : String)
    (vector : LogicVector)
    (name : String)
    (source : LogicVector) : Prop where
  reads : session.vector name = .ok source
  isOwned : source.storage.isOwned = true
  width_eq : source.width = vector.width
  kind_eq : source.kind = vector.kind
  wellFormed : source.WellFormed fun _ => True
  separate : ¬session.Shares name base

/-- A name stands for an allocated vector without bits past its width, and other
names for vectors whose coverage can be merged into it. -/
structure Mergeable
    (session : Session)
    (base : String)
    (vector : LogicVector)
    (names : List String)
    (sources : String → LogicVector) : Prop where
  sound : session.Sound fun plane => plane.isCoverage = false
  reads : session.vector base = .ok vector
  isAllocated : vector.storage.isAllocated = true
  wellFormed : vector.WellFormed fun _ => True
  offers : ∀ name ∈ names, session.Offers base vector name (sources name)

/-! ## One merge -/

/-- An update that notes no reads stores what it makes of the vector, and gives
the answer. -/
theorem apply_update_of_ok
    {session : Session}
    {name : String}
    {change : Update String}
    {resolved : Update LogicVector}
    {vector updated : LogicVector}
    {reply : Reply}
    (reads : session.vector name = .ok vector)
    (resolves : change.traverse session.vector = .ok resolved)
    (notes : session.noteReads change = session)
    (succeeds : (vector.update resolved).result = .ok (updated, reply)) :
    ∃ outcome, session.apply (.update name change) = (session.store name updated, outcome) ∧
      outcome.result = .ok reply := by
  refine ⟨(vector.update resolved).map fun answer => answer.2, ?_, ?_⟩
  · rw [apply, update_of_noteReads_eq reads resolves notes, succeeds]
  · exact Outcome.result_map_eq_ok_iff.2 ⟨_, succeeds, rfl⟩

variable {session : Session} {base : String} {vector : LogicVector} {names : List String}
variable {sources : String → LogicVector}

/-- Storing a vector with added coverage leaves every name with its handle. -/
theorem binds_store_addCoverageOf_iff
    {handle : Handle}
    (bound : session.Binds base handle)
    (source : LogicVector)
    (name : String)
    (other : Handle) :
    (session.store base ((session.load handle).addCoverageOf source)).Binds name other ↔
      session.Binds name other := by
  rw [binds_store_iff bound]
  constructor
  · rintro (⟨rfl, rfl⟩ | ⟨-, before⟩)
    · exact bound
    · exact before
  · intro before
    by_cases same : name = base
    · subst same
      exact Or.inl ⟨rfl, Option.some.inj (before.symm.trans bound)⟩
    · exact Or.inr ⟨same, before⟩

/-- After the coverage of one of the vectors has been added, the coverage of all
of them can still be added. -/
theorem Mergeable.store
    (mergeable : session.Mergeable base vector names sources)
    {name : String}
    (offered : name ∈ names) :
    (session.store base (vector.addCoverageOf (sources name))).Mergeable base
      (vector.addCoverageOf (sources name)) names sources := by
  obtain ⟨handle, bound, rfl⟩ := (vector_eq_ok_iff _ _ _).1 mergeable.reads
  have offer := mergeable.offers name offered
  have replaces : session.Replaces handle
      (fun block => block.alter (Effect.mark (sources name).cell).apply)
      ((session.load handle).addCoverageOf (sources name)) := ⟨rfl, rfl, rfl⟩
  have binds_iff := binds_store_addCoverageOf_iff bound (sources name)
  have loads : (session.store base ((session.load handle).addCoverageOf (sources name))).load
      handle = (session.load handle).addCoverageOf (sources name) :=
    load_store mergeable.sound bound replaces
  refine ⟨?_, ?_, ?_, ?_, ?_⟩
  · exact mergeable.sound.store bound replaces
      ((mergeable.sound.wellFormed base handle bound).addCoverageOf
        (mergeable.sound.vector offer.reads) offer.width_eq offer.kind_eq)
  · exact (vector_eq_ok_iff _ _ _).2 ⟨handle, (binds_iff base handle).2 bound, loads⟩
  · rw [LogicVector.addCoverageOf, LogicVector.alter, Storage.isAllocated_map]
    exact mergeable.isAllocated
  · exact mergeable.wellFormed.addCoverageOf offer.wellFormed offer.width_eq offer.kind_eq
  · intro other otherOffered
    have otherOffer := mergeable.offers other otherOffered
    obtain ⟨otherHandle, otherBound, otherLoads⟩ :=
      (vector_eq_ok_iff _ _ _).1 otherOffer.reads
    -- The words of an offered vector are not those of the base, so they stay as they are.
    have unchanged : (session.store base
        ((session.load handle).addCoverageOf (sources name))).load otherHandle =
        session.load otherHandle := by
      apply load_congr
      intro number refers
      rw [block_store bound replaces (mergeable.sound.lt_size otherBound refers), if_neg]
      intro shared
      exact otherOffer.separate ⟨otherHandle, handle, number, otherBound, bound, refers, shared⟩
    refine ⟨?_, otherOffer.isOwned, otherOffer.width_eq, otherOffer.kind_eq,
      otherOffer.wellFormed, ?_⟩
    · exact (vector_eq_ok_iff _ _ _).2
        ⟨otherHandle, (binds_iff other otherHandle).2 otherBound, unchanged.trans otherLoads⟩
    · rintro ⟨first, second, number, firstBound, secondBound, refers⟩
      exact otherOffer.separate ⟨first, second, number, (binds_iff _ _).1 firstBound,
        (binds_iff _ _).1 secondBound, refers⟩

/-- A merge succeeds, in memory and by a record. -/
theorem Mergeable.apply
    (mergeable : session.Mergeable base vector names sources)
    {name : String}
    (offered : name ∈ names)
    (handover : Handover) :
    ∃ change outcome, session.mergeRequest name handover = .ok change ∧
      session.apply (.update base change) =
        (session.store base (vector.addCoverageOf (sources name)), outcome) ∧
      outcome.result = .ok handover.reply := by
  have offer := mergeable.offers name offered
  cases handover with
  | direct =>
      have merges : (vector.update (.merge (sources name))).result =
          .ok (vector.addCoverageOf (sources name), .done) :=
        Outcome.ofChange_eq_ok_iff.2 ⟨LogicVector.merge_eq_ok mergeable.isAllocated
          (Storage.isAllocated_of_isOwned offer.isOwned) offer.width_eq offer.kind_eq, rfl⟩
      have resolves : (Update.merge name).traverse session.vector =
          .ok (.merge (sources name)) := by
        rw [Update.traverse, offer.reads]
        rfl
      obtain ⟨outcome, applies, answers⟩ :=
        apply_update_of_ok mergeable.reads resolves rfl merges
      exact ⟨_, outcome, rfl, applies, answers⟩
  | record written merged =>
      have takes := LogicVector.mergeRecord_recordText mergeable.wellFormed offer.wellFormed
        offer.isOwned offer.width_eq offer.kind_eq written merged Text.breaks_nil
      rw [List.append_nil] at takes
      have merges : (vector.update
          (.mergeRecord ((sources name).recordText written) merged)).result =
          .ok (vector.addCoverageOf (sources name), .rest []) :=
        Outcome.result_map_eq_ok_iff.2 ⟨_, takes, rfl⟩
      have resolves : (Update.mergeRecord ((sources name).recordText written) merged).traverse
          session.vector = .ok (.mergeRecord ((sources name).recordText written) merged) := rfl
      obtain ⟨outcome, applies, answers⟩ :=
        apply_update_of_ok mergeable.reads resolves rfl merges
      refine ⟨_, outcome, ?_, applies, answers⟩
      rw [mergeRequest, offer.reads]
      exact bind_eq_ok_iff.2 ⟨_, rfl, bind_eq_ok_iff.2
        ⟨_, (sources name).writeRecord_none written, rfl⟩⟩

/-! ## Many merges -/

theorem Mergeable.mergeAll
    (mergeable : session.Mergeable base vector names sources)
    {steps : List (String × Handover)}
    (offered : ∀ step ∈ steps, step.1 ∈ names) :
    ∃ changed,
      session.mergeAll base steps = .ok (changed, steps.map fun step => step.2.reply) ∧
      changed.Mergeable base
        ((steps.map fun step => sources step.1).foldl LogicVector.addCoverageOf vector)
        names sources := by
  induction steps generalizing session vector with
  | nil => exact ⟨session, rfl, mergeable⟩
  | cons step others inductionHypothesis =>
      obtain ⟨name, handover⟩ := step
      have isOffered : name ∈ names := offered (name, handover) (by simp)
      obtain ⟨change, outcome, requests, applies, answers⟩ := mergeable.apply isOffered handover
      obtain ⟨changed, merges, stillMergeable⟩ := inductionHypothesis
        (mergeable.store isOffered) fun step mem => offered step (by simp [mem])
      refine ⟨changed, ?_, stillMergeable⟩
      rw [Session.mergeAll, requests]
      refine bind_eq_ok_iff.2 ⟨_, rfl, ?_⟩
      simp only [applies, answers, merges]
      rfl

/-- Merging owners of words into a vector of their width and kind, in any order
and with any repetitions, each time in memory or by a record written and merged
with any options: every merge succeeds and takes its record as a whole.  In the
end the vector has its header, place and value as before, and its coverage is
the union of all. -/
theorem mergeAll_eq_union
    (mergeable : session.Mergeable base vector names sources)
    {steps : List (String × Handover)}
    (coversAll : ∀ name, name ∈ steps.map Prod.fst ↔ name ∈ names) :
    ∃ changed merged,
      session.mergeAll base steps = .ok (changed, steps.map fun step => step.2.reply) ∧
      changed.vector base = .ok merged ∧
      merged.toHeader = vector.toHeader ∧
      merged.storage.isOwned = vector.storage.isOwned ∧
      (∀ plane, plane.isCoverage = false → ∀ position,
        merged.cell position plane = vector.cell position plane) ∧
      ∀ plane, plane.isCoverage = true → ∀ position,
        merged.cell position plane = (vector.cell position plane ||
          names.any fun name => (sources name).cell position plane) := by
  have offered : ∀ step ∈ steps, step.1 ∈ names := fun step mem =>
    (coversAll step.1).1 (List.mem_map_of_mem mem)
  obtain ⟨changed, merges, after⟩ := mergeable.mergeAll offered
  have fitting : ∀ source ∈ steps.map fun step => sources step.1,
      (source.WellFormed fun _ => True) ∧ source.width = vector.width ∧
        source.kind = vector.kind := by
    intro source mem
    obtain ⟨step, isStep, rfl⟩ := List.mem_map.1 mem
    have offer := mergeable.offers step.1 (offered step isStep)
    exact ⟨offer.wellFormed, offer.width_eq, offer.kind_eq⟩
  obtain ⟨header, owned, cells⟩ :=
    LogicVector.foldl_addCoverageOf mergeable.wellFormed mergeable.isAllocated fitting
  refine ⟨changed, _, merges, after.reads, header, owned, ?_, ?_⟩
  · intro plane notCoverage position
    rw [cells, Cell.mark, notCoverage, Bool.false_and, Bool.or_false]
  · intro plane coverage position
    -- Only which names take part counts for the union.
    have sameUnion : ((steps.map fun step => sources step.1).any fun source =>
        source.cell position plane) = names.any fun name => (sources name).cell position plane := by
      rw [Bool.eq_iff_iff]
      simp only [List.any_eq_true, List.mem_map, exists_exists_and_eq_and]
      constructor
      · rintro ⟨step, isStep, set⟩
        exact ⟨step.1, offered step isStep, set⟩
      · rintro ⟨name, isName, set⟩
        obtain ⟨step, isStep, rfl⟩ := List.mem_map.1 ((coversAll name).2 isName)
        exact ⟨step, isStep, set⟩
    rw [cells, Cell.mark, coverage, Bool.true_and, sameUnion]

/-- A signal that has been assigned to is merged into a new one, first by a
record without data and then in memory. -/
theorem mergeAll_signal_twice :
    ∃ (session changed : Session) (base run merged : LogicVector),
      session.Mergeable "base" base ["run"] (fun _ => run) ∧
      base.cell 2 Plane.signalSet = false ∧ run.cell 2 Plane.signalSet = true ∧
      session.mergeAll "base" [("run", .record ⟨false, true⟩ ⟨true, false⟩), ("run", .direct)] =
        .ok (changed, [.rest [], .done]) ∧
      changed.vector "base" = .ok merged ∧ merged.toHeader = base.toHeader ∧
      merged.cell 2 Plane.signalSet = true := by
  obtain ⟨commands, isCommands⟩ : ∃ commands : List Command, commands = [
      .create "base" 3 .signal true none none,
      .create "run" 3 .signal true none none,
      .update "run" (.setNat 5)] := ⟨_, rfl⟩
  obtain ⟨baseHandle, base, bindsBase, baseOwns, readsBase, baseAllocated, baseWidth, baseKind,
      baseCell⟩ :
      ∃ handle base, (Session.empty.run commands).Binds "base" handle ∧
        handle.storage = .owned 0 ∧ (Session.empty.run commands).vector "base" = .ok base ∧
        base.storage.isAllocated = true ∧ base.width = 3 ∧ base.kind = .signal ∧
        base.cell 2 Plane.signalSet = false := by
    rw [isCommands]
    exact ⟨_, _, rfl, rfl, rfl, rfl, rfl, rfl, rfl⟩
  obtain ⟨runHandle, run, bindsRun, runOwns, readsRun, runOwned, runWidth, runKind, runCell⟩ :
      ∃ handle run, (Session.empty.run commands).Binds "run" handle ∧
        handle.storage = .owned 1 ∧ (Session.empty.run commands).vector "run" = .ok run ∧
        run.storage.isOwned = true ∧ run.width = 3 ∧ run.kind = .signal ∧
        run.cell 2 Plane.signalSet = true := by
    rw [isCommands]
    exact ⟨_, _, rfl, rfl, rfl, rfl, rfl, rfl, rfl⟩
  have clean : (Session.empty.run commands).Sound fun _ => True := by
    apply sound_empty.run
    intro name change isCommand evaluates
    rw [isCommands] at isCommand
    simp only [List.mem_cons, reduceCtorEq, Command.update.injEq, List.not_mem_nil, or_false,
      false_or] at isCommand
    rw [isCommand.2] at evaluates
    contradiction
  have separate : ¬(Session.empty.run commands).Shares "run" "base" := by
    rintro ⟨handle, otherHandle, number, binds, otherBinds, refers, otherRefers⟩
    rw [Option.some.inj (binds.symm.trans bindsRun), runOwns] at refers
    rw [Option.some.inj (otherBinds.symm.trans bindsBase), baseOwns] at otherRefers
    cases refers
    contradiction
  have mergeable : (Session.empty.run commands).Mergeable "base" base ["run"] fun _ => run := by
    refine ⟨sound_run_empty commands, readsBase, baseAllocated, clean.vector readsBase, ?_⟩
    intro name isName
    cases List.mem_singleton.1 isName
    exact ⟨readsRun, runOwned, runWidth.trans baseWidth.symm, runKind.trans baseKind.symm,
      clean.vector readsRun, separate⟩
  obtain ⟨changed, merged, merges, readsMerged, header, -, -, union⟩ :=
    @mergeAll_eq_union _ _ _ _ _ mergeable
      [("run", .record ⟨false, true⟩ ⟨true, false⟩), ("run", .direct)] (by simp)
  refine ⟨_, changed, base, run, merged, mergeable, baseCell, runCell, merges, readsMerged, header,
    ?_⟩
  rw [union Plane.signalSet rfl, baseCell]
  simp [runCell]

end Session
end FourState
