import FourState.Proofs.Operands
import FourState.Proofs.Session.Sound

/-!
# Commands and runs

What a command can do to a session, and that every run from the empty session
ends in a sound one.  Without evaluations, no bit is set past the width in any
plane; with them, the value planes are still clipped.
-/

namespace FourState

variable {clipped : Plane → Prop}

/-! ## Resolved updates -/

namespace Update

variable {operand other error : Type}

/-- Exchanging the operands exchanges the source. -/
theorem source_of_traverse
    {resolve : operand → Except error other}
    {change : Update operand}
    {resolved : Update other}
    (succeeds : change.traverse resolve = .ok resolved)
    {source : other}
    (isSource : resolved.source? = some source) :
    ∃ name, resolve name = .ok source := by
  cases change with
  | copyFrom name =>
      obtain ⟨vector, resolves, succeeds⟩ := bind_eq_ok_iff.1 succeeds
      cases succeeds
      cases isSource
      exact ⟨name, resolves⟩
  | copyRange name lsb =>
      obtain ⟨vector, resolves, succeeds⟩ := bind_eq_ok_iff.1 succeeds
      cases succeeds
      cases isSource
      exact ⟨name, resolves⟩
  | merge name =>
      obtain ⟨vector, resolves, succeeds⟩ := bind_eq_ok_iff.1 succeeds
      cases succeeds
      cases isSource
      exact ⟨name, resolves⟩
  | setValue name =>
      obtain ⟨vector, resolves, succeeds⟩ := bind_eq_ok_iff.1 succeeds
      cases succeeds
      contradiction
  | operate operation =>
      obtain ⟨resolvedOperation, resolves, succeeds⟩ := bind_eq_ok_iff.1 succeeds
      cases succeeds
      contradiction
  | evaluate evaluation left right =>
      obtain ⟨leftVector, resolvesLeft, succeeds⟩ := bind_eq_ok_iff.1 succeeds
      obtain ⟨rightVector, resolvesRight, succeeds⟩ := bind_eq_ok_iff.1 succeeds
      cases succeeds
      contradiction
  | setSigned | setTwoState | assign | applyChange | setNat | setWord | setUnknown | extendFrom
  | commit | claim | resetCoverage | evaluateUnary | mergeRecord =>
      cases succeeds
      contradiction

end Update

namespace Command

/-- The name that a command binds to a vector, or whose vector it updates. -/
def target? : Command → Option String
  | create name _ _ _ _ _ => some name
  | literal name _ => some name
  | quoted name _ => some name
  | readRecord name _ => some name
  | share name _ => some name
  | clone name _ => some name
  | resize name _ => some name
  | update name _ => some name
  | commit name _ => some name
  | makeBuffer _ _ => none
  | signBuffer _ _ => none
  | setBufferBit _ _ _ => none

/-- The command gives its name new words. -/
def makesWords : Command → Bool
  | create _ _ _ _ _ _ => true
  | literal _ _ => true
  | quoted _ _ => true
  | readRecord _ _ => true
  | clone _ _ => true
  | resize _ _ => true
  | _ => false

end Command

namespace Session

/-! ## Updates in a session -/

/-- Noting reads does nothing, or stores a memory with the range marked. -/
theorem noteReads_cases (session : Session) (change : Update String) :
    session.noteReads change = session ∨
      ∃ source lsb msb handle marked,
        change = .operate (.partSelect source lsb msb) ∧ session.Binds source handle ∧
          (session.load handle).markRead lsb msb = .ok marked ∧
          session.noteReads change = session.store source marked := by
  unfold noteReads
  split
  · rename_i source lsb msb
    split
    · rename_i vector reads
      obtain ⟨handle, bound, rfl⟩ := (vector_eq_ok_iff _ _ _).1 reads
      split
      · rename_i marked marks
        exact Or.inr ⟨source, lsb, msb, handle, marked, rfl, bound, marks, rfl⟩
      · exact Or.inl rfl
    · exact Or.inl rfl
  · exact Or.inl rfl

theorem replaces_of_markRead
    {session : Session}
    {handle : Handle}
    {lsb msb : Nat}
    {marked : LogicVector}
    (marks : (session.load handle).markRead lsb msb = .ok marked) :
    session.Replaces handle
      (fun block => block.alter ((session.load handle).readEffect lsb msb).apply) marked := by
  obtain ⟨-, rfl⟩ := LogicVector.markRead_eq_alter marks
  exact ⟨rfl, rfl, rfl⟩

/-- Noting reads leaves every name with its handle. -/
theorem binds_noteReads_iff
    (session : Session)
    (change : Update String)
    (name : String)
    (handle : Handle) :
    (session.noteReads change).Binds name handle ↔ session.Binds name handle := by
  obtain same | ⟨source, lsb, msb, sourceHandle, marked, -, bound, marks, same⟩ :=
    session.noteReads_cases change
  · rw [same]
  · obtain ⟨-, rfl⟩ := LogicVector.markRead_eq_alter marks
    rw [same, binds_store_iff bound]
    constructor
    · rintro (⟨rfl, rfl⟩ | ⟨-, before⟩)
      · exact bound
      · exact before
    · intro before
      by_cases isSource : name = source
      · subst isSource
        exact Or.inl ⟨rfl, Option.some.inj (before.symm.trans bound)⟩
      · exact Or.inr ⟨isSource, before⟩

theorem Sound.noteReads
    {session : Session}
    (sound : session.Sound clipped)
    (change : Update String) :
    (session.noteReads change).Sound clipped := by
  obtain same | ⟨source, lsb, msb, handle, marked, -, bound, marks, same⟩ :=
    session.noteReads_cases change
  · rw [same]
    exact sound
  · rw [same]
    exact sound.store bound (replaces_of_markRead marks)
      ((sound.wellFormed source handle bound).markRead marks)

/-- An update of a name does nothing if its operands cannot be resolved.  Else
it notes what is read, and then stores the changed vector or changes nothing
more. -/
theorem update_cases (session : Session) (name : String) (change : Update String) :
    (session.update name change).1 = session ∨
      ∃ handle resolved,
        session.Binds name handle ∧ change.traverse session.vector = .ok resolved ∧
          ((∃ updated reply,
              (((session.noteReads change).load handle).update resolved).result =
                .ok (updated, reply) ∧
              (session.update name change).1 = (session.noteReads change).store name updated) ∨
            ((∃ failure,
              (((session.noteReads change).load handle).update resolved).result =
                .error failure) ∧
              (session.update name change).1 = session.noteReads change)) := by
  unfold update
  dsimp only
  split
  · exact Or.inl rfl
  · rename_i resolved resolves
    obtain ⟨vector, reads, traverses⟩ := bind_eq_ok_iff.1 resolves
    obtain ⟨handle, bound, rfl⟩ := (vector_eq_ok_iff _ _ _).1 reads
    have readsNoted : (session.noteReads change).vector name =
        .ok ((session.noteReads change).load handle) :=
      (vector_eq_ok_iff _ _ _).2 ⟨handle, (binds_noteReads_iff _ _ _ _).2 bound, rfl⟩
    rw [readsNoted]
    refine Or.inr ⟨handle, resolved, bound, traverses, ?_⟩
    dsimp only
    cases outcome : (((session.noteReads change).load handle).update resolved).result with
    | ok answer => exact Or.inl ⟨answer.1, answer.2, rfl, rfl⟩
    | error failure => exact Or.inr ⟨⟨failure, rfl⟩, rfl⟩

/-- An update with an operand that stands for nothing fails without a trace. -/
theorem update_of_unresolved
    {session : Session}
    {name : String}
    {change : Update String}
    {handle : Handle}
    {failure : Failure}
    (bound : session.Binds name handle)
    (fails : change.traverse session.vector = .error failure) :
    session.update name change = (session, .quiet (.error failure)) := by
  have reads : session.vector name = .ok (session.load handle) :=
    (vector_eq_ok_iff _ _ _).2 ⟨handle, bound, rfl⟩
  have failsBoth : (session.vector name >>= fun _ => change.traverse session.vector) =
      .error failure := by
    rw [reads]
    exact fails
  unfold update
  simp only [failsBoth]

/-- An update fails without a trace, or its name and its operands stand for vectors. -/
theorem update_refused_or_resolved
    (session : Session)
    (name : String)
    (change : Update String) :
    (∃ failure, session.update name change = (session, .quiet (.error failure))) ∨
      ∃ handle resolved,
        session.Binds name handle ∧ change.traverse session.vector = .ok resolved := by
  cases reads : session.vector name with
  | error failure =>
      refine Or.inl ⟨failure, ?_⟩
      rw [Session.update, reads]
      rfl
  | ok vector =>
      obtain ⟨handle, bound, rfl⟩ := (vector_eq_ok_iff _ _ _).1 reads
      cases resolves : change.traverse session.vector with
      | error failure => exact Or.inl ⟨failure, update_of_unresolved bound resolves⟩
      | ok resolved => exact Or.inr ⟨handle, resolved, bound, rfl⟩

/-- An update with operands that stand for vectors notes what it reads, and then
stores what it makes of the vector, if it succeeds. -/
theorem update_eq_of_resolved
    {session : Session}
    {name : String}
    {change : Update String}
    {resolved : Update LogicVector}
    {handle : Handle}
    (bound : session.Binds name handle)
    (resolves : change.traverse session.vector = .ok resolved) :
    session.update name change =
      (match (((session.noteReads change).load handle).update resolved).result with
        | .ok (updated, _) => (session.noteReads change).store name updated
        | .error _ => session.noteReads change,
        (((session.noteReads change).load handle).update resolved).map
          fun answer => answer.2) := by
  have reads : session.vector name = .ok (session.load handle) :=
    (vector_eq_ok_iff _ _ _).2 ⟨handle, bound, rfl⟩
  have readsNoted : (session.noteReads change).vector name =
      .ok ((session.noteReads change).load handle) :=
    (vector_eq_ok_iff _ _ _).2 ⟨handle, (binds_noteReads_iff _ _ _ _).2 bound, rfl⟩
  have resolvesBoth : (session.vector name >>= fun _ => change.traverse session.vector) =
      .ok resolved := by
    rw [reads]
    exact resolves
  cases outcome : (((session.noteReads change).load handle).update resolved).result with
  | ok answer => simp only [update, resolvesBoth, readsNoted, outcome]
  | error failure => simp only [update, resolvesBoth, readsNoted, outcome]

/-- An update that notes no reads stores what it makes of the vector, if it succeeds,
and leaves no trace if it fails. -/
theorem update_of_noteReads_eq
    {session : Session}
    {name : String}
    {change : Update String}
    {resolved : Update LogicVector}
    {vector : LogicVector}
    (reads : session.vector name = .ok vector)
    (resolves : change.traverse session.vector = .ok resolved)
    (notes : session.noteReads change = session) :
    session.update name change =
      (match (vector.update resolved).result with
        | .ok (updated, _) => session.store name updated
        | .error _ => session,
        (vector.update resolved).map fun answer => answer.2) := by
  obtain ⟨handle, bound, rfl⟩ := (vector_eq_ok_iff _ _ _).1 reads
  have updates := update_eq_of_resolved bound resolves
  rwa [notes] at updates

/-- The operands that an update of a sound session takes planes from are well-formed. -/
theorem Sound.source
    {session : Session}
    (sound : session.Sound clipped)
    {change : Update String}
    {resolved : Update LogicVector}
    (resolves : change.traverse session.vector = .ok resolved) :
    ∀ source, resolved.source? = some source → source.WellFormed clipped := by
  intro source isSource
  obtain ⟨name, reads⟩ := Update.source_of_traverse resolves isSource
  exact sound.vector reads

theorem replaces_of_update
    {session : Session}
    {handle : Handle}
    {change : Update LogicVector}
    {updated : LogicVector}
    {reply : Reply}
    (wellFormed : (session.load handle).WellFormed clipped)
    (sourceWellFormed : ∀ source, change.source? = some source → source.WellFormed clipped)
    (succeeds : ((session.load handle).update change).result = .ok (updated, reply)) :
    session.Replaces handle
      (fun block => block.alter ((session.load handle).effect change).apply) updated := by
  obtain ⟨sameWidth, sameKind, storage⟩ :=
    LogicVector.update_frame wellFormed sourceWellFormed succeeds
  exact ⟨sameWidth, sameKind, storage⟩

theorem Sound.update
    {session : Session}
    (sound : session.Sound clipped)
    (name : String)
    {change : Update String}
    (mayEvaluate : change.isEvaluation = true → ∀ plane : Plane, plane.isCoverage = true →
      ¬clipped plane) :
    (session.update name change).1.Sound clipped := by
  obtain same | ⟨handle, resolved, bound, resolves, outcome⟩ := session.update_cases name change
  · rw [same]
    exact sound
  · have noted := sound.noteReads change
    obtain ⟨updated, reply, succeeds, same⟩ | ⟨-, same⟩ := outcome
    · have boundNoted := (binds_noteReads_iff session change name handle).2 bound
      have wellFormed := noted.wellFormed name handle boundNoted
      have sources := sound.source resolves
      rw [same]
      refine noted.store boundNoted (replaces_of_update wellFormed sources succeeds) ?_
      refine wellFormed.update sources ?_ succeeds
      intro evaluates
      exact mayEvaluate ((Update.isEvaluation_of_traverse resolves).symm.trans evaluates)
    · rw [same]
      exact noted

/-- After an update every name has its handle, apart from the flags that are set. -/
theorem binds_before_update
    {session : Session}
    (sound : session.Sound clipped)
    {name other : String}
    {change : Update String}
    {handle : Handle}
    (after : (session.update name change).1.Binds other handle) :
    session.Binds other handle ∨
      (other = name ∧ ∃ old, session.Binds name old ∧
        handle = { old with toHeader := change.header old.toHeader }) := by
  obtain same | ⟨old, resolved, bound, resolves, outcome⟩ := session.update_cases name change
  · rw [same] at after
    exact Or.inl after
  · obtain ⟨updated, reply, succeeds, same⟩ | ⟨-, same⟩ := outcome
    · have noted := sound.noteReads change
      have boundNoted := (binds_noteReads_iff session change name old).2 bound
      have header := congrArg LogicVector.toHeader (LogicVector.update_eq_alter
        (noted.wellFormed name old boundNoted) (sound.source resolves) succeeds)
      rw [same, binds_store_iff boundNoted, header, Update.header_of_traverse resolves] at after
      obtain ⟨rfl, rfl⟩ | ⟨-, before⟩ := after
      · exact Or.inr ⟨rfl, old, bound, rfl⟩
      · exact Or.inl ((binds_noteReads_iff _ _ _ _).1 before)
    · rw [same] at after
      exact Or.inl ((binds_noteReads_iff _ _ _ _).1 after)

/-- After an update every name that stood for a vector stands for it still. -/
theorem exists_binds_update
    {session : Session}
    (sound : session.Sound clipped)
    {name other : String}
    {change : Update String}
    {handle : Handle}
    (before : session.Binds other handle) :
    ∃ after, (session.update name change).1.Binds other after ∧ after.width = handle.width ∧
      after.kind = handle.kind ∧ after.storage = handle.storage := by
  have unchanged : (session.noteReads change).Binds other handle :=
    (binds_noteReads_iff _ _ _ _).2 before
  obtain same | ⟨old, resolved, bound, resolves, outcome⟩ := session.update_cases name change
  · rw [same]
    exact ⟨handle, before, rfl, rfl, rfl⟩
  · obtain ⟨updated, reply, succeeds, same⟩ | ⟨-, same⟩ := outcome
    · have noted := sound.noteReads change
      have boundNoted := (binds_noteReads_iff session change name old).2 bound
      have replaces := replaces_of_update (noted.wellFormed name old boundNoted)
        (sound.source resolves) succeeds
      rw [same]
      by_cases isTarget : other = name
      · subst isTarget
        cases before.symm.trans bound
        exact ⟨_, (binds_store_iff boundNoted _ _ _).2 (Or.inl ⟨rfl, rfl⟩), replaces.width_eq,
          replaces.kind_eq, rfl⟩
      · exact ⟨handle, (binds_store_iff boundNoted _ _ _).2 (Or.inr ⟨isTarget, unchanged⟩), rfl,
          rfl, rfl⟩
    · rw [same]
      exact ⟨handle, unchanged, rfl, rfl, rfl⟩

/-! ## Commands -/

/-- The update of a name that a command asks for. -/
def request? (session : Session) : Command → Option (String × Update String)
  | .update name change => some (name, change)
  | .commit name buffer =>
      match session.buffer buffer with
      | .ok value => some (name, .commit value)
      | .error _ => none
  | _ => none

/-- What a command that asks for no update can do to a session. -/
inductive Rebinds (session : Session) : Session → Prop
  | same : Rebinds session session
  | place
      (name : String)
      (vector : LogicVector)
      (wellFormed : ∀ clipped, session.Sound clipped → vector.WellFormed clipped) :
      Rebinds session (session.place name vector)
  | share
      (name source : String)
      (handle : Handle)
      (bound : session.Binds source handle) :
      Rebinds session (session.share name handle)
  | keep (name : String) (buffer : Buffer) : Rebinds session (session.keep name buffer)

/-- What a command that asks for no update does to a session, and what it answers. -/
inductive Rebinding (session : Session) :
    Command → Session → Except Failure Reply → Prop
  | refuse (command : Command) (failure : Failure) :
      Rebinding session command session (.error failure)
  /-- There are no words to copy. -/
  | noWords (name source : String) :
      Rebinding session (.clone name source) session (.ok (.flag false))
  | place
      {command : Command}
      {name : String}
      {reply : Reply}
      (isTarget : command.target? = some name)
      (makesWords : command.makesWords = true)
      (vector : LogicVector)
      (wellFormed : ∀ clipped, session.Sound clipped → vector.WellFormed clipped)
      (makes : reply ≠ .flag false) :
      Rebinding session command (session.place name vector) (.ok reply)
  | share
      (name source : String)
      (handle : Handle)
      (bound : session.Binds source handle) :
      Rebinding session (.share name source) (session.share name handle) (.ok .done)
  | keep
      {command : Command}
      (noTarget : command.target? = none)
      (name : String)
      (buffer : Buffer) :
      Rebinding session command (session.keep name buffer) (.ok .done)

theorem Rebinding.rebinds
    {session changed : Session}
    {command : Command}
    {result : Except Failure Reply}
    (rebinding : session.Rebinding command changed result) :
    session.Rebinds changed := by
  cases rebinding with
  | refuse | noWords => exact .same
  | place isTarget makesWords vector wellFormed makes => exact .place _ vector wellFormed
  | share name source handle bound => exact .share name source handle bound
  | keep noTarget name buffer => exact .keep name buffer

/-- What holds of a session, and of the one that a command leaves if it succeeds, holds when the
command is finished. -/
theorem settle_induction
    {session : Session}
    {motive : Session → Prop}
    {result : Except Failure (Session × Reply)}
    (start : motive session)
    (succeeds : ∀ changed reply, result = .ok (changed, reply) → motive changed) :
    motive (session.settle result).1 := by
  unfold Session.settle
  split
  · rename_i changed reply
    exact succeeds changed reply rfl
  · exact start

theorem rebinding_settle
    {session : Session}
    {command : Command}
    {result : Except Failure (Session × Reply)}
    (succeeds : ∀ changed reply, result = .ok (changed, reply) →
      session.Rebinding command changed (.ok reply)) :
    session.Rebinding command (session.settle result).1 (session.settle result).2.result := by
  unfold Session.settle
  split
  · rename_i changed reply
    exact succeeds changed reply rfl
  · exact .refuse command _

theorem rebinding_placeRead
    {session : Session}
    {command : Command}
    {name : String}
    (isTarget : command.target? = some name)
    (makesWords : command.makesWords = true)
    {outcome : Outcome (LogicVector × Reply)}
    (succeeds : ∀ vector reply, outcome.result = .ok (vector, reply) →
      reply ≠ .flag false ∧ ∀ clipped, vector.WellFormed clipped) :
    session.Rebinding command (session.placeRead name outcome).1
      (session.placeRead name outcome).2.result := by
  unfold Session.placeRead Outcome.map
  dsimp only
  cases reads : outcome.result with
  | error failure => exact .refuse command failure
  | ok answer =>
      obtain ⟨makes, wellFormed⟩ := succeeds answer.1 answer.2 reads
      exact .place isTarget makesWords answer.1 (fun clipped _ => wellFormed clipped) makes

/-- A command carries out the update it asks for. -/
theorem apply_of_request
    {session : Session}
    {command : Command}
    {name : String}
    {change : Update String}
    (requests : session.request? command = some (name, change)) :
    session.apply command = session.update name change := by
  cases command with
  | update target requested =>
      cases requests
      rfl
  | commit target buffer =>
      cases reads : session.buffer buffer with
      | ok value =>
          simp only [request?, reads] at requests
          cases requests
          simp only [Session.apply, reads]
      | error failure =>
          simp only [request?, reads] at requests
          contradiction
  | _ => contradiction

/-- An update that a command asks for is its own, or assigns a buffer. -/
theorem eq_update_of_request
    {session : Session}
    {command : Command}
    {name : String}
    {change : Update String}
    (requests : session.request? command = some (name, change)) :
    command = .update name change ∨ ∃ value, change = .commit value := by
  cases command with
  | update target requested =>
      cases requests
      exact Or.inl rfl
  | commit target buffer =>
      simp only [request?] at requests
      split at requests
      · cases requests
        exact Or.inr ⟨_, rfl⟩
      · contradiction
  | _ => contradiction

/-- A command without an update binds at most its target, to a vector of its own or
to the words of another name. -/
theorem rebinding_apply
    {session : Session}
    {command : Command}
    (requestsNone : session.request? command = none) :
    session.Rebinding command (session.apply command).1 (session.apply command).2.result := by
  cases command with
  | create name width kind allocate signed? twoState? =>
      apply rebinding_settle
      intro changed reply succeeds
      obtain ⟨vector, creates, succeeds⟩ := bind_eq_ok_iff.1 succeeds
      cases succeeds
      refine .place rfl rfl _ (fun clipped _ => ?_) nofun
      have created : vector.WellFormed clipped :=
        LogicVector.create_wellFormed (liftM_fault_eq_ok_iff.1 creates)
      cases signed? with
      | none =>
          cases twoState? with
          | none => exact created
          | some twoState => exact created.setTwoState twoState
      | some signed =>
          have signedVector : (vector.setSigned signed).WellFormed clipped :=
            created.congr rfl rfl rfl
          cases twoState? with
          | none => exact signedVector
          | some twoState => exact signedVector.setTwoState twoState
  | literal name text =>
      apply rebinding_placeRead rfl rfl
      intro vector reply succeeds
      cases reads : LogicVector.ofLiteral text with
      | error failure =>
          rw [reads] at succeeds
          contradiction
      | ok answer =>
          rw [reads] at succeeds
          cases succeeds
          exact ⟨nofun, fun clipped => LogicVector.ofLiteral_wellFormed reads⟩
  | quoted name text =>
      apply rebinding_placeRead rfl rfl
      intro vector reply succeeds
      cases reads : LogicVector.ofQuoted text with
      | error failure =>
          rw [reads] at succeeds
          contradiction
      | ok answer =>
          rw [reads] at succeeds
          cases succeeds
          exact ⟨nofun, fun clipped => LogicVector.ofQuoted_wellFormed reads⟩
  | readRecord name text =>
      apply rebinding_placeRead rfl rfl
      intro vector reply succeeds
      obtain ⟨⟨read, rest⟩, reads, same⟩ := Outcome.result_map_eq_ok_iff.1 succeeds
      cases same
      exact ⟨nofun, fun clipped => LogicVector.readRecord_wellFormed reads⟩
  | share name source =>
      apply rebinding_settle
      intro changed reply succeeds
      obtain ⟨handle, reads, succeeds⟩ := bind_eq_ok_iff.1 succeeds
      cases succeeds
      exact .share name source handle ((handle_eq_ok_iff _ _ _).1 reads)
  | clone name source =>
      apply rebinding_settle
      intro changed reply succeeds
      obtain ⟨vector, reads, succeeds⟩ := bind_eq_ok_iff.1 succeeds
      split at succeeds
      · rename_i clone clones
        cases succeeds
        exact .place rfl rfl clone (fun clipped sound => (sound.vector reads).deepClone clones)
          (by decide)
      · cases succeeds
        exact .noWords name source
  | resize name width =>
      apply rebinding_settle
      intro changed reply succeeds
      obtain ⟨vector, reads, succeeds⟩ := bind_eq_ok_iff.1 succeeds
      obtain ⟨resized, resizes, succeeds⟩ := bind_eq_ok_iff.1 succeeds
      cases succeeds
      exact .place rfl rfl resized (fun clipped sound =>
        (sound.vector reads).resize (liftM_fault_eq_ok_iff.1 resizes)) nofun
  | update name change => contradiction
  | commit name buffer =>
      cases reads : session.buffer buffer with
      | ok value =>
          simp only [request?, reads] at requestsNone
          contradiction
      | error failure =>
          simp only [Session.apply, reads]
          exact .refuse _ failure
  | makeBuffer name source =>
      apply rebinding_settle
      intro changed reply succeeds
      obtain ⟨buffer, -, succeeds⟩ := bind_eq_ok_iff.1 succeeds
      cases succeeds
      exact .keep rfl name buffer
  | signBuffer name signed =>
      apply rebinding_settle
      intro changed reply succeeds
      obtain ⟨buffer, -, succeeds⟩ := bind_eq_ok_iff.1 succeeds
      cases succeeds
      exact .keep rfl name (buffer.setSigned signed)
  | setBufferBit name position bit =>
      apply rebinding_settle
      intro changed reply succeeds
      obtain ⟨buffer, -, succeeds⟩ := bind_eq_ok_iff.1 succeeds
      obtain ⟨set, -, succeeds⟩ := bind_eq_ok_iff.1 succeeds
      cases succeeds
      exact .keep rfl name set

/-- A command without an update only changes what names stand for. -/
theorem rebinds_apply
    {session : Session}
    {command : Command}
    (requestsNone : session.request? command = none) :
    session.Rebinds (session.apply command).1 :=
  (rebinding_apply requestsNone).rebinds

/-- After the command the name stands for the same vector as before: the command
is an update, or it leaves the name with its handle. -/
def KeepsVector (session : Session) (name : String) (command : Command) : Prop :=
  (session.request? command).isSome = true ∨
    (session.apply command).1.handle name = session.handle name

theorem Sound.rebinds
    {session changed : Session}
    (sound : session.Sound clipped)
    (rebinds : session.Rebinds changed) :
    changed.Sound clipped := by
  cases rebinds with
  | same => exact sound
  | place name vector wellFormed => exact sound.place name (wellFormed clipped sound)
  | share name source handle bound => exact sound.share name bound
  | keep name buffer => exact sound.keep name buffer

/-- A command keeps a sound session sound; an evaluation does if the coverage
planes are not clipped. -/
theorem Sound.apply
    {session : Session}
    (sound : session.Sound clipped)
    (command : Command)
    (mayEvaluate : ∀ name change, command = .update name change → change.isEvaluation = true →
      ∀ plane : Plane, plane.isCoverage = true → ¬clipped plane) :
    (session.apply command).1.Sound clipped := by
  cases requests : session.request? command with
  | none => exact sound.rebinds (rebinds_apply requests)
  | some request =>
      obtain ⟨name, change⟩ := request
      rw [apply_of_request requests]
      apply sound.update
      intro evaluates
      obtain isUpdate | ⟨value, rfl⟩ := eq_update_of_request requests
      · exact mayEvaluate name change isUpdate evaluates
      · contradiction

/-- Any command keeps a session sound whose values alone are clipped. -/
theorem Sound.applyAny
    {session : Session}
    (sound : session.Sound fun plane => plane.isCoverage = false)
    (command : Command) :
    (session.apply command).1.Sound fun plane => plane.isCoverage = false := by
  apply sound.apply command
  intro name change _ _ plane coverage notCoverage
  rw [coverage] at notCoverage
  contradiction

/-- What holds of a session and is kept by each command of a run holds after it. -/
theorem run_induction
    {session : Session}
    {motive : Session → Prop}
    (commands : List Command)
    (start : motive session)
    (step : ∀ before command, before ++ [command] <+: commands →
      motive (session.run before) → motive ((session.run before).apply command).1) :
    motive (session.run commands) := by
  induction commands generalizing session with
  | nil => exact start
  | cons command commands inductionHypothesis =>
      rw [run_cons]
      apply inductionHypothesis
      · exact step [] command (List.prefix_append _ _) start
      · intro before next isPrefix
        exact step (command :: before) next (List.cons_prefix_cons.2 ⟨rfl, isPrefix⟩)

/-- A run keeps a sound session sound. -/
theorem Sound.run
    {session : Session}
    (sound : session.Sound clipped)
    {commands : List Command}
    (mayEvaluate : ∀ name change, Command.update name change ∈ commands →
      change.isEvaluation = true → ∀ plane : Plane, plane.isCoverage = true → ¬clipped plane) :
    (session.run commands).Sound clipped := by
  induction commands generalizing session with
  | nil => exact sound
  | cons command commands inductionHypothesis =>
      rw [run_cons]
      apply inductionHypothesis
      · apply sound.apply command
        rintro name change rfl
        exact mayEvaluate name change (List.mem_cons_self ..)
      · intro name change isMember
        exact mayEvaluate name change (List.mem_cons_of_mem _ isMember)

/-- Runs of any commands keep a session in which the value planes are clipped sound. -/
theorem Sound.runAny
    {session : Session}
    (sound : session.Sound fun plane => plane.isCoverage = false)
    (commands : List Command) :
    (session.run commands).Sound fun plane => plane.isCoverage = false := by
  apply sound.run
  intro name change _ _ plane coverage clippedPlane
  rw [coverage] at clippedPlane
  contradiction

/-- In every session that commands lead to, values are clipped at the width and
dead planes are clear. -/
theorem sound_run_empty (commands : List Command) :
    (Session.empty.run commands).Sound fun plane => plane.isCoverage = false :=
  sound_empty.runAny commands

/-- Every allocated vector that commands lead to can be read as an operand. -/
theorem readable_run_empty
    {commands : List Command}
    {name : String}
    {vector : LogicVector}
    (reads : (Session.empty.run commands).vector name = .ok vector)
    (allocated : vector.storage.isAllocated = true) :
    vector.Readable :=
  ⟨allocated, (sound_run_empty commands).vector reads⟩

/-- A name of a session that stands for an allocated vector. -/
structure AllocatedName (session : Session) where
  name : String
  vector : LogicVector
  reads : session.vector name = .ok vector
  isAllocated : vector.storage.isAllocated = true

/-- An operation on names of allocated vectors is resolved as the operation on the
vectors. -/
theorem AllocatedName.traverse
    {session : Session}
    (operation : Operation session.AllocatedName) :
    (operation.map AllocatedName.name).traverse session.vector =
      .ok (operation.map AllocatedName.vector) := by
  have resolves : (fun operand : session.AllocatedName => session.vector operand.name) =
      fun operand => .ok operand.vector :=
    funext AllocatedName.reads
  rw [Operation.traverse_map, resolves]
  cases operation <;> rfl

theorem Sound.readable
    {session : Session}
    (sound : session.Sound fun plane => plane.isCoverage = false)
    (operand : session.AllocatedName) :
    operand.vector.Readable :=
  ⟨operand.isAllocated, sound.vector operand.reads⟩

theorem AllocatedName.readable
    {commands : List Command}
    (operand : (Session.empty.run commands).AllocatedName) :
    operand.vector.Readable :=
  (sound_run_empty commands).readable operand

/-! ## The representation of vectors -/

/-- How the vectors of a session are laid out, as far as they have words. -/
structure Represented (session : Session) : Prop where
  width_inLimits : ∀ name vector, session.vector name = .ok vector →
    1 ≤ vector.width ∧ vector.width ≤ 65536
  /-- The words are as many as the width needs. -/
  size_eq : ∀ name vector block, session.vector name = .ok vector → vector.block = .ok block →
    block.size = (vector.width + 31) / 32
  /-- No plane has a bit past the width. -/
  bit_outside : ∀ name vector block, session.vector name = .ok vector →
    vector.block = .ok block → ∀ plane position, vector.width ≤ position →
    block.bit plane position = false
  /-- A plane that the kind does not use is clear. -/
  bit_dead : ∀ name vector block, session.vector name = .ok vector →
    vector.block = .ok block → ∀ (plane : Plane) position, vector.kind.planeCount ≤ plane.val →
    block.bit plane position = false
  /-- Vectors that share words have the same width and kind. -/
  sharing_agrees : ∀ first second firstHandle secondHandle number,
    session.Binds first firstHandle → session.Binds second secondHandle →
    firstHandle.storage.content? = some number → secondHandle.storage.content? = some number →
    firstHandle.width = secondHandle.width ∧ firstHandle.kind = secondHandle.kind
  /-- Words are owned by one vector at most. -/
  owner_unique : ∀ first second firstHandle secondHandle number,
    session.Binds first firstHandle → session.Binds second secondHandle →
    firstHandle.storage = .owned number → secondHandle.storage = .owned number → first = second

/-- Every session that commands lead to from the empty one is represented
canonically, whether the commands succeed or fail, if none of them records an
evaluation of two operands. -/
theorem represented_run_empty
    (commands : List Command)
    (noEvaluation : ∀ name evaluation left right,
      Command.update name (.evaluate evaluation left right) ∉ commands) :
    (Session.empty.run commands).Represented := by
  have sound : (Session.empty.run commands).Sound fun _ => True := by
    apply sound_empty.run
    intro name change isMember evaluates
    cases change with
    | evaluate evaluation left right => exact absurd isMember (noEvaluation _ _ _ _)
    | _ => contradiction
  refine ⟨?_, ?_, ?_, ?_, sound.agree, sound.singleOwner⟩
  · intro name vector reads
    have wellFormed := sound.vector reads
    exact ⟨wellFormed.width_pos, wellFormed.width_le⟩
  · intro name vector block reads stored
    exact ((sound.vector reads).block_fits block stored).size_eq
  · intro name vector block reads stored plane position outside
    exact ((sound.vector reads).block_fits block stored).bit_of_width_le trivial outside
  · intro name vector block reads stored plane position dead
    exact ((sound.vector reads).block_fits block stored).bit_of_planeCount_le dead position

/-- The words of a shared, updated and resized signal. -/
theorem represented_shared_signal :
    (Session.empty.run [
      .create "a" 40 .signal true none (some true),
      .share "b" "a",
      .update "b" (.setNat 5),
      .update "a" (.copyRange "b" 3),
      .resize "a" 7]).Represented :=
  represented_run_empty _ (by simp)

end Session
end FourState
