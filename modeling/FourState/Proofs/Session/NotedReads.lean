import FourState.Proofs.NotedReads
import FourState.Proofs.Session.Merging

/-!
# Noted reads in a session

A part-select notes the bits that it reads in its source before it gives the
target a value.  The note shows in every vector that has the words of the source,
the target included if it is one of them, and nowhere else.
-/

namespace FourState

variable {clipped : Plane → Prop}

/-- Bits that have been selected can be noted as read. -/
theorem LogicVector.exists_markRead
    {target source : LogicVector}
    {lsb msb : Nat}
    {answer : LogicVector × Reply}
    (succeeds : (target.update (.operate (.partSelect source lsb msb))).result = .ok answer) :
    ∃ marked, source.markRead lsb msb = .ok marked := by
  obtain ⟨selected, operates, -⟩ := Outcome.result_map_eq_ok_iff.1 succeeds
  obtain ⟨value, computes⟩ := exists_compute_of_operate operates
  have selects := liftM_fault_eq_ok_iff.1 computes
  obtain ⟨⟨⟩, inRange, selects⟩ := bind_eq_ok_iff.1 selects
  obtain ⟨bits, reads, -⟩ := bind_eq_ok_iff.1 selects
  obtain ⟨block, stored, -⟩ := bind_eq_ok_iff.1 reads
  unfold markRead
  rw [inRange, stored]
  exact ⟨_, (apply_ite Except.ok _ _ _).symm⟩

theorem Outcome.map_map
    {first second third : Type}
    (outcome : Outcome first)
    (change : first → second)
    (next : second → third) :
    (outcome.map change).map next = outcome.map fun answer => next (change answer) := by
  rcases outcome with ⟨result, log⟩
  cases result <;> rfl

@[simp] theorem Outcome.map_id {answer : Type} (outcome : Outcome answer) :
    (outcome.map fun answer => answer) = outcome := by
  rcases outcome with ⟨result, log⟩
  cases result <;> rfl

/-- The vector after an update; one that fails leaves it as it was. -/
def LogicVector.updated (vector : LogicVector) (change : Update LogicVector) : LogicVector :=
  match (vector.update change).result with
  | .ok answer => answer.1
  | .error _ => vector

namespace Session

variable {session : Session} {name : String} {change : Update String} {handle : Handle}

/-- The update selects bits of a vector that shares its words with the name, and the
position is one of them. -/
def NotesRead
    (session : Session)
    (name : String)
    (change : Update String)
    (position : Nat) : Prop :=
  ∃ source lsb msb, change = .operate (.partSelect source lsb msb) ∧
    session.Shares source name ∧ lsb ≤ position ∧ position ≤ msb

theorem notesRead_partSelect_iff
    {source : String}
    {lsb msb position : Nat} :
    session.NotesRead name (.operate (.partSelect source lsb msb)) position ↔
      session.Shares source name ∧ lsb ≤ position ∧ position ≤ msb := by
  constructor
  · rintro ⟨_, _, _, same, reads⟩
    cases same
    exact reads
  · exact fun reads => ⟨source, lsb, msb, rfl, reads⟩

/-! ## What noting reads does to a session -/

theorem noteReads_eq_store
    {source : String}
    {lsb msb : Nat}
    {marked : LogicVector}
    (bound : session.Binds source handle)
    (marks : (session.load handle).markRead lsb msb = .ok marked) :
    session.noteReads (.operate (.partSelect source lsb msb)) = session.store source marked := by
  have reads : session.vector source = .ok (session.load handle) :=
    (vector_eq_ok_iff _ _ _).2 ⟨handle, bound, rfl⟩
  simp only [noteReads, reads, marks]

/-- A handle shows its words as they have been changed. -/
theorem load_alter
    {other : Session}
    {number : Nat}
    {change : Nat → Cell → Cell}
    (refers : handle.storage.content? = some number)
    (altered : other.block number = (session.block number).alter change) :
    other.load handle = (session.load handle).alter change := by
  unfold load LogicVector.alter
  cases stored : handle.storage with
  | absent =>
      rw [stored] at refers
      contradiction
  | owned words =>
      rw [stored] at refers
      cases refers
      simp only [Storage.map, altered]
  | borrowed words =>
      rw [stored] at refers
      cases refers
      simp only [Storage.map, altered]

/-- The reads of a part-select show in the vectors with the words of its source. -/
theorem load_store_marked
    (sound : session.Sound clipped)
    {source : String}
    {sourceHandle : Handle}
    (bound : session.Binds name handle)
    (sourceBound : session.Binds source sourceHandle)
    {lsb msb : Nat}
    {marked : LogicVector}
    (marks : (session.load sourceHandle).markRead lsb msb = .ok marked) :
    ∃ isRead, (session.store source marked).load handle =
        (session.load handle).noteRead isRead ∧
      ∀ position, isRead position = true ↔
        session.Shares source name ∧ lsb ≤ position ∧ position ≤ msb := by
  by_cases shares : session.Shares source name
  · obtain ⟨first, second, number, firstBound, secondBound, sourceRefers, refers⟩ := shares
    cases sourceBound.symm.trans firstBound
    cases bound.symm.trans secondBound
    have altered := block_store sourceBound (replaces_of_markRead marks)
      (sound.lt_size bound refers)
    rw [if_pos sourceRefers] at altered
    have sameKind := (sound.agree _ _ _ _ _ sourceBound bound sourceRefers refers).2
    refine ⟨_, (load_alter refers altered).trans (LogicVector.alter_readEffect sameKind lsb msb), ?_⟩
    intro position
    rw [decide_eq_true_iff]
    exact (and_iff_right
      ⟨sourceHandle, handle, number, sourceBound, bound, sourceRefers, refers⟩).symm
  · refine ⟨fun _ => false, ?_, ?_⟩
    · rw [LogicVector.noteRead_false]
      apply load_congr
      intro number refers
      rw [block_store sourceBound (replaces_of_markRead marks) (sound.lt_size bound refers), if_neg]
      intro sourceRefers
      exact shares ⟨sourceHandle, handle, number, sourceBound, bound, sourceRefers, refers⟩
    · intro position
      exact iff_of_false Bool.false_ne_true fun reads => shares reads.1

/-- A resolved part-select selects from the vector of its source. -/
theorem exists_source_of_partSelect
    {source : String}
    {lsb msb : Nat}
    {resolved : Update LogicVector}
    (resolves : (Update.operate (.partSelect source lsb msb)).traverse session.vector =
      .ok resolved) :
    ∃ handle, session.Binds source handle ∧
      resolved = .operate (.partSelect (session.load handle) lsb msb) := by
  obtain ⟨operation, resolvesOperation, same⟩ := bind_eq_ok_iff.1 resolves
  obtain ⟨vector, reads, sameOperation⟩ := bind_eq_ok_iff.1 resolvesOperation
  cases sameOperation
  cases same
  obtain ⟨handle, bound, rfl⟩ := (vector_eq_ok_iff _ _ _).1 reads
  exact ⟨handle, bound, rfl⟩

/-- Before an update is carried out, bits that it reads have been noted; all of them,
if it can succeed. -/
theorem exists_noteRead
    (sound : session.Sound clipped)
    (bound : session.Binds name handle)
    {resolved : Update LogicVector}
    (resolves : change.traverse session.vector = .ok resolved) :
    ∃ isRead, (session.noteReads change).load handle = (session.load handle).noteRead isRead ∧
      (∀ position, isRead position = true → session.NotesRead name change position) ∧
      ∀ target answer, (LogicVector.update target resolved).result = .ok answer →
        ∀ position, session.NotesRead name change position → isRead position = true := by
  by_cases marksReads : ∃ source lsb msb sourceHandle marked,
      change = .operate (.partSelect source lsb msb) ∧ session.Binds source sourceHandle ∧
        (session.load sourceHandle).markRead lsb msb = .ok marked
  · obtain ⟨source, lsb, msb, sourceHandle, marked, rfl, sourceBound, marks⟩ := marksReads
    obtain ⟨isRead, loads, tells⟩ := load_store_marked sound bound sourceBound marks
    rw [noteReads_eq_store sourceBound marks]
    refine ⟨isRead, loads, ?_, ?_⟩
    · exact fun position reads => notesRead_partSelect_iff.2 ((tells position).1 reads)
    · exact fun _ _ _ position reads => (tells position).2 (notesRead_partSelect_iff.1 reads)
  · have same : session.noteReads change = session := by
      obtain same | ⟨source, lsb, msb, sourceHandle, marked, selects, sourceBound, marks, -⟩ :=
        session.noteReads_cases change
      · exact same
      · exact absurd ⟨source, lsb, msb, sourceHandle, marked, selects, sourceBound, marks⟩
          marksReads
    refine ⟨fun _ => false, ?_, fun _ isTrue => absurd isTrue Bool.false_ne_true, ?_⟩
    · rw [same, LogicVector.noteRead_false]
    · rintro target answer succeeds position ⟨source, lsb, msb, rfl, -⟩
      obtain ⟨sourceHandle, sourceBound, rfl⟩ := exists_source_of_partSelect resolves
      obtain ⟨marked, marks⟩ := LogicVector.exists_markRead succeeds
      exact absurd ⟨source, lsb, msb, sourceHandle, marked, rfl, sourceBound, marks⟩ marksReads

/-- Noted reads in a target do not show in what an update makes of it, but in
themselves. -/
theorem update_noteRead
    {resolved : Update LogicVector}
    (resolves : change.traverse session.vector = .ok resolved)
    {isRead : Nat → Bool}
    (tells : ∀ position, isRead position = true → session.NotesRead name change position)
    (target : LogicVector) :
    (target.noteRead isRead).update resolved =
      (target.update resolved).map fun answer => (answer.1.noteRead isRead, answer.2) := by
  by_cases selects : ∃ source lsb msb, change = .operate (.partSelect source lsb msb)
  · obtain ⟨source, lsb, msb, rfl⟩ := selects
    obtain ⟨sourceHandle, -, rfl⟩ := exists_source_of_partSelect resolves
    exact target.update_partSelect_noteRead _ isRead lsb msb
  · have readsNothing : isRead = fun _ => false := by
      funext position
      rw [← Bool.not_eq_true]
      intro reads
      obtain ⟨source, lsb, msb, same, -⟩ := tells position reads
      exact selects ⟨source, lsb, msb, same⟩
    simp only [readsNothing, LogicVector.noteRead_false]
    exact (Outcome.map_id _).symm

/-! ## Updates after noted reads -/

/-- An update with operands that stand for vectors gives the outcome that it has for
the target as it was.  The target is what it becomes by the update, with reads noted
besides: some that the update makes, and all of them if it succeeds. -/
theorem update_of_resolved
    (sound : session.Sound clipped)
    (bound : session.Binds name handle)
    {resolved : Update LogicVector}
    (resolves : change.traverse session.vector = .ok resolved) :
    ∃ isRead,
      (session.update name change).2 =
        ((session.load handle).update resolved).map (fun answer => answer.2) ∧
      (session.update name change).1.vector name =
        .ok (((session.load handle).updated resolved).noteRead isRead) ∧
      (∀ position, isRead position = true → session.NotesRead name change position) ∧
      ∀ answer, ((session.load handle).update resolved).result = .ok answer →
        ∀ position, session.NotesRead name change position → isRead position = true := by
  obtain ⟨isRead, loads, only, all⟩ := exists_noteRead sound bound resolves
  have noted := sound.noteReads change
  have boundNoted := (binds_noteReads_iff session change name handle).2 bound
  have wellFormed := noted.wellFormed name handle boundNoted
  have readsNoted : (session.noteReads change).vector name =
      .ok ((session.noteReads change).load handle) :=
    (vector_eq_ok_iff _ _ _).2 ⟨handle, boundNoted, rfl⟩
  have updates := update_noteRead resolves only (session.load handle)
  rw [← loads] at updates
  rw [update_eq_of_resolved bound resolves, LogicVector.updated]
  refine ⟨isRead, ?_, ?_, only, all _⟩
  · rw [updates]
    exact Outcome.map_map _ _ _
  · cases outcome : ((session.load handle).update resolved).result with
    | ok answer =>
        have succeeds : (((session.noteReads change).load handle).update resolved).result =
            .ok (answer.1.noteRead isRead, answer.2) := by
          rw [updates]
          exact Outcome.result_map_eq_ok_iff.2 ⟨answer, outcome, rfl⟩
        simp only [succeeds]
        have replaces := replaces_of_update wellFormed (sound.source resolves) succeeds
        exact (vector_eq_ok_iff _ _ _).2 ⟨_, (binds_store_iff boundNoted _ _ _).2
          (.inl ⟨rfl, rfl⟩), load_store noted boundNoted replaces⟩
    | error failure =>
        have fails : (((session.noteReads change).load handle).update resolved).result =
            .error failure := by
          rw [updates, Outcome.map, outcome]
          rfl
        simp only [fails]
        rw [readsNoted, loads]

end Session
end FourState
