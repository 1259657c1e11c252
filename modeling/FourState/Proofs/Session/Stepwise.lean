import FourState.Proofs.Session.Run
import FourState.Proofs.Stepwise.Update

/-!
# Sessions that run word by word

In such a session an update is a stepwise program on the blocks of all vectors: an
operand that has the words of the target changes while the target is written, and
what an update has written stays if it stops.  Nothing of this shows.  Whatever
commands run word by word, they answer and log what the commands on whole vectors do,
and leave the same words under the same names.
-/

namespace FourState

variable {clipped : Plane → Prop}

namespace Session

/-- The names stand for the same, and the words are the same. -/
structure Alike (first second : Session) : Prop where
  vectors_eq : ∀ name, first.vectors.get? name = second.vectors.get? name
  buffers_eq : ∀ name, first.buffers.get? name = second.buffers.get? name
  blocks_eq : first.blocks = second.blocks

/-- What two commands leave is alike, and their outcomes are the same. -/
structure AlikeAfter (first second : Session × Outcome Reply) : Prop where
  alike : first.1.Alike second.1
  outcome_eq : first.2 = second.2

/-- Two results are one failure, or one reply with sessions that are alike. -/
inductive AlikeResults :
    Except Failure (Session × Reply) → Except Failure (Session × Reply) → Prop
  | fail (failure : Failure) : AlikeResults (.error failure) (.error failure)
  | succeed
      {first second : Session}
      (reply : Reply)
      (alike : first.Alike second) :
      AlikeResults (.ok (first, reply)) (.ok (second, reply))

end Session

/-- What becomes of a session by a command that runs word by word. -/
structure Performed where
  /-- The session that is left, also if the command stops. -/
  session : Session
  /-- The answer, or why the command stops. -/
  result : Except Stop Reply
  /-- The events, oldest first. -/
  log : List Event

/-- What has run word by word answers, logs and leaves what a command on whole vectors does. -/
structure Performed.Agrees
    (performed : Performed)
    (applied : Session × Outcome Reply) : Prop where
  alike : performed.session.Alike applied.1
  result_eq : performed.result = applied.2.result.mapError Stop.failure
  log_eq : performed.log = applied.2.log

namespace Session

/-- The blocks of a session, with nothing logged. -/
def heap (session : Session) : Heap where
  blocks := session.blocks
  log := []

/-- Update the vector of a name word by word. -/
def perform (session : Session) (name : String) (change : Update String) : Performed :=
  let resolved := do
    let target ← session.handle name
    let handles ← change.traverse session.handle
    return (target, handles)
  match resolved with
  | .error failure => { session, result := .error (.failure failure), log := [] }
  | .ok (target, handles) =>
      let (result, heap) :=
        Stepwise.run (Stepwise.update target handles) Borrows.none session.heap
      let vectors := match result with
        | .ok _ =>
            session.vectors.bind name { target with toHeader := change.header target.toHeader }
        | .error _ => session.vectors
      { session := { session with vectors, blocks := heap.blocks }, result, log := heap.log }

/-- Carry out a command, updates word by word. -/
def execute (session : Session) (command : Command) : Performed :=
  match session.request? command with
  | some (name, change) => session.perform name change
  | none =>
      let (after, outcome) := session.apply command
      { session := after, result := outcome.result.mapError Stop.failure, log := outcome.log }

/-- The session after a run of commands, updates word by word. -/
def executed (session : Session) (commands : List Command) : Session :=
  commands.foldl (fun session command => (session.execute command).session) session

/-! ## Sessions that cannot be told apart -/

namespace Alike

variable {first second third : Session}

theorem refl (session : Session) : session.Alike session :=
  ⟨fun _ => rfl, fun _ => rfl, rfl⟩

theorem trans (alike : first.Alike second) (next : second.Alike third) : first.Alike third where
  vectors_eq := fun name => (alike.vectors_eq name).trans (next.vectors_eq name)
  buffers_eq := fun name => (alike.buffers_eq name).trans (next.buffers_eq name)
  blocks_eq := alike.blocks_eq.trans next.blocks_eq

variable (alike : first.Alike second)

include alike

theorem symm : second.Alike first :=
  ⟨fun name => (alike.vectors_eq name).symm, fun name => (alike.buffers_eq name).symm,
    alike.blocks_eq.symm⟩

theorem load_eq : first.load = second.load := by
  funext handle
  unfold Session.load Session.block
  rw [alike.blocks_eq]

theorem handle_eq : first.handle = second.handle := by
  funext name
  unfold Session.handle
  rw [alike.vectors_eq]

theorem vector_eq : first.vector = second.vector := by
  funext name
  unfold Session.vector
  rw [alike.handle_eq, alike.load_eq]

theorem buffer_eq : first.buffer = second.buffer := by
  funext name
  unfold Session.buffer
  rw [alike.buffers_eq]

theorem sound (isSound : first.Sound clipped) : second.Sound clipped where
  wellFormed := fun name handle bound =>
    alike.load_eq ▸ isSound.wellFormed name handle ((alike.vectors_eq name).trans bound)
  agree := fun name other handle otherHandle number bound otherBound =>
    isSound.agree name other handle otherHandle number ((alike.vectors_eq name).trans bound)
      ((alike.vectors_eq other).trans otherBound)
  singleOwner := fun name other handle otherHandle number bound otherBound =>
    isSound.singleOwner name other handle otherHandle number ((alike.vectors_eq name).trans bound)
      ((alike.vectors_eq other).trans otherBound)

/-! ## Commands on sessions that are alike -/

theorem bind
    (name : String)
    (handle : Handle)
    {blocks otherBlocks : Array Block}
    (sameBlocks : blocks = otherBlocks) :
    Alike { first with vectors := first.vectors.bind name handle, blocks }
      { second with vectors := second.vectors.bind name handle, blocks := otherBlocks } where
  vectors_eq := fun other => by simp only [Bindings.get?_bind, alike.vectors_eq]
  buffers_eq := alike.buffers_eq
  blocks_eq := sameBlocks

theorem place (name : String) (vector : LogicVector) :
    (first.place name vector).Alike (second.place name vector) := by
  unfold Session.place
  rw [alike.blocks_eq]
  exact alike.bind name _ rfl

theorem store (name : String) (vector : LogicVector) :
    (first.store name vector).Alike (second.store name vector) := by
  unfold Session.store
  rw [alike.vectors_eq]
  cases second.vectors.get? name with
  | none => exact alike
  | some handle =>
      dsimp only
      rw [alike.blocks_eq]
      exact alike.bind name _ rfl

theorem share (name : String) (handle : Handle) :
    (first.share name handle).Alike (second.share name handle) :=
  alike.bind name _ alike.blocks_eq

theorem keep (name : String) (buffer : Buffer) :
    (first.keep name buffer).Alike (second.keep name buffer) where
  vectors_eq := alike.vectors_eq
  buffers_eq := fun other => by simp only [Session.keep, Bindings.get?_bind, alike.buffers_eq]
  blocks_eq := alike.blocks_eq

theorem noteReads (change : Update String) :
    (first.noteReads change).Alike (second.noteReads change) := by
  unfold Session.noteReads
  rw [alike.vector_eq]
  split
  · split
    · split
      · exact alike.store _ _
      · exact alike
    · exact alike
  · exact alike

theorem update (name : String) (change : Update String) :
    AlikeAfter (first.update name change) (second.update name change) := by
  have noted := alike.noteReads change
  unfold Session.update
  rw [alike.vector_eq]
  dsimp only
  rw [noted.vector_eq]
  split
  · exact ⟨alike, rfl⟩
  · split
    · exact ⟨noted, rfl⟩
    · refine ⟨?_, rfl⟩
      dsimp only
      split
      · exact noted.store _ _
      · exact noted

/-- Finished results are alike if they go on alike from the same first part. -/
theorem settle
    {content : Type}
    {result : Except Failure content}
    {firstNext secondNext : content → Except Failure (Session × Reply)}
    (next : ∀ value, AlikeResults (firstNext value) (secondNext value)) :
    AlikeAfter (first.settle (result >>= firstNext)) (second.settle (result >>= secondNext)) := by
  cases result with
  | error failure => exact ⟨alike, rfl⟩
  | ok value =>
      change AlikeAfter (first.settle (firstNext value)) (second.settle (secondNext value))
      have related := next value
      generalize firstNext value = firstResult at related ⊢
      generalize secondNext value = secondResult at related ⊢
      cases related with
      | fail failure => exact ⟨alike, rfl⟩
      | succeed reply alikeAfter => exact ⟨alikeAfter, rfl⟩

theorem placeRead (name : String) (outcome : Outcome (LogicVector × Reply)) :
    AlikeAfter (first.placeRead name outcome) (second.placeRead name outcome) := by
  unfold Session.placeRead
  refine ⟨?_, rfl⟩
  dsimp only
  split
  · exact alike.place _ _
  · exact alike

theorem makeBuffer (source : BufferSource) :
    first.makeBuffer source = second.makeBuffer source := by
  cases source with
  | vector name => rw [Session.makeBuffer, Session.makeBuffer, alike.vector_eq]
  | resized name width signExtend => rw [Session.makeBuffer, Session.makeBuffer, alike.buffer_eq]
  | zero | unknown | number | integer => rfl

/-- A command does not tell apart sessions that are alike. -/
theorem apply (command : Command) :
    AlikeAfter (first.apply command) (second.apply command) := by
  cases command with
  | create name width kind allocate signed? twoState? =>
      exact alike.settle fun _ => .succeed _ (alike.place _ _)
  | literal name text => exact alike.placeRead _ _
  | quoted name text => exact alike.placeRead _ _
  | readRecord name text => exact alike.placeRead _ _
  | share name source =>
      simp only [Session.apply, alike.handle_eq]
      exact alike.settle fun _ => .succeed _ (alike.share _ _)
  | clone name source =>
      simp only [Session.apply, alike.vector_eq]
      refine alike.settle fun vector => ?_
      cases vector.deepClone? with
      | none => exact .succeed _ alike
      | some clone => exact .succeed _ (alike.place _ _)
  | resize name width =>
      simp only [Session.apply, alike.vector_eq]
      refine alike.settle fun vector => ?_
      cases vector.resize width with
      | error fault => exact .fail _
      | ok resized => exact .succeed _ (alike.place _ _)
  | update name change => exact alike.update name change
  | commit name buffer =>
      simp only [Session.apply, alike.buffer_eq]
      split
      · exact alike.update _ _
      · exact ⟨alike, rfl⟩
  | makeBuffer name source =>
      simp only [Session.apply, alike.makeBuffer source]
      exact alike.settle fun _ => .succeed _ (alike.keep _ _)
  | signBuffer name signed =>
      simp only [Session.apply, alike.buffer_eq]
      exact alike.settle fun _ => .succeed _ (alike.keep _ _)
  | setBufferBit name position bit =>
      simp only [Session.apply, alike.buffer_eq]
      refine alike.settle fun buffer => ?_
      cases buffer.setBitInside position bit with
      | error fault => exact .fail _
      | ok changed => exact .succeed _ (alike.keep _ _)

end Alike

/-! ## Updates word by word -/

section Updates

variable {session : Session} {name : String} {change : Update String} {handle : Handle}

@[simp] theorem load_heap (session : Session) : session.heap.load = session.load :=
  rfl

/-- Storing a vector leaves the buffers. -/
@[simp] theorem buffers_store (session : Session) (name : String) (vector : LogicVector) :
    (session.store name vector).buffers = session.buffers := by
  unfold store
  split <;> rfl

/-- Storing a vector puts its words into the block of the name. -/
theorem heap_store (bound : session.Binds name handle) (vector : LogicVector) :
    (session.store name vector).heap = session.heap.put handle vector := by
  unfold Binds at bound
  cases refers : handle.storage.content? with
  | none => simp only [store, bound, Heap.put, refers, heap]
  | some number =>
      cases stored : vector.storage.content? with
      | none => simp only [store, bound, Heap.put, refers, stored, heap]
      | some block => simp only [store, bound, Heap.put, refers, stored, heap, Heap.setBlock]

/-- Storing a vector binds its name anew and changes words. -/
theorem store_eq (bound : session.Binds name handle) (vector : LogicVector) :
    session.store name vector =
      { session with
        vectors := session.vectors.bind name { handle with toHeader := vector.toHeader }
        blocks := (session.store name vector).blocks } := by
  unfold Binds at bound
  simp only [store, bound]

/-- Storing a vector as it was changes nothing. -/
theorem alike_store_self (bound : session.Binds name handle) :
    (session.store name (session.load handle)).Alike session where
  vectors_eq := fun other => by
    rw [store_eq bound]
    simp only [Bindings.get?_bind]
    split
    · rename_i isName
      rw [isName]
      exact bound.symm
    · rfl
  buffers_eq := fun _ => by rw [buffers_store]
  blocks_eq := congrArg Heap.blocks ((heap_store bound _).trans session.heap.put_load)

/-- The operands are the vectors of the handles. -/
theorem traverse_vector (session : Session) (change : Update String) :
    change.traverse session.vector =
      (change.traverse session.handle).map (Update.map session.load) := by
  rw [Update.map_traverse]
  congr 1

/-- The reads that an update notes word by word are those that it notes at once. -/
theorem noted_heap
    {handles : Update Handle}
    (resolves : change.traverse session.handle = .ok handles) :
    session.heap.noted handles = (session.noteReads change).heap := by
  by_cases selects : ∃ source lsb msb, change = .operate (.partSelect source lsb msb)
  · obtain ⟨source, lsb, msb, rfl⟩ := selects
    obtain ⟨operation, resolvesOperation, same⟩ := bind_eq_ok_iff.1 resolves
    obtain ⟨handle, reads, sameOperation⟩ := bind_eq_ok_iff.1 resolvesOperation
    cases sameOperation
    cases same
    have bound := (handle_eq_ok_iff _ _ _).1 reads
    have readsVector : session.vector source = .ok (session.load handle) :=
      (vector_eq_ok_iff _ _ _).2 ⟨handle, bound, rfl⟩
    simp only [Heap.noted, Heap.noteReads, load_heap, noteReads, readsVector]
    cases (session.load handle).markRead lsb msb with
    | error fault => rfl
    | ok marked => exact (heap_store bound marked).symm
  · have unnoted : session.noteReads change = session := by
      unfold noteReads
      split
      · exact absurd ⟨_, _, _, rfl⟩ selects
      · rfl
    rw [unnoted]
    have shape := Update.shape_of_traverse resolves
    unfold Heap.noted
    split
    · unfold Heap.noteReads
      split
      · cases change with
        | operate operation =>
            cases operation with
            | partSelect source lsb msb => exact absurd ⟨_, _, _, rfl⟩ selects
            | _ => simp [Update.shape, Update.map, Operation.map] at shape
        | _ => contradiction
      · rfl
    · rfl

/-- Noting reads leaves the buffers. -/
@[simp] theorem buffers_noteReads (session : Session) (change : Update String) :
    (session.noteReads change).buffers = session.buffers := by
  obtain same | ⟨source, lsb, msb, handle, marked, -, -, -, same⟩ :=
    session.noteReads_cases change
  · rw [same]
  · rw [same, buffers_store]

/-- Noting reads changes no handle. -/
theorem alike_noteReads (session : Session) (change : Update String) :
    Alike { session with blocks := (session.noteReads change).blocks }
      (session.noteReads change) where
  vectors_eq := fun name => Option.ext fun handle => by
    exact (binds_noteReads_iff session change name handle).symm
  buffers_eq := fun name => by rw [buffers_noteReads]
  blocks_eq := rfl

/-- What is left of an update word by word. -/
theorem perform_of_resolved
    (sound : session.Sound clipped)
    (bound : session.Binds name handle)
    {handles : Update Handle}
    (resolves : change.traverse session.handle = .ok handles) :
    let noted := session.noteReads change
    let outcome := (noted.load handle).update (handles.map session.load)
    session.perform name change =
      match outcome.result with
      | .ok (updated, reply) =>
          { session := { session with
              vectors := session.vectors.bind name
                { handle with toHeader := change.header handle.toHeader }
              blocks := (noted.store name updated).blocks }
            result := .ok reply
            log := outcome.log }
      | .error failure =>
          { session := { session with blocks := noted.blocks }
            result := .error (.failure failure)
            log := outcome.log } := by
  intro noted outcome
  have soundNoted : noted.Sound clipped := sound.noteReads change
  have boundNoted : noted.Binds name handle := (binds_noteReads_iff _ _ _ _).2 bound
  have same : session.heap.noted handles = noted.heap := noted_heap resolves
  have runs := @Stepwise.update_run clipped session.heap handle handles
    (sound.wellFormed name handle bound) (fun operand isOperand => by
      obtain rfl | ⟨other, reads⟩ := Update.mem_operands_of_traverse resolves isOperand
      · exact sound.wellFormed name operand bound
      · exact sound.wellFormed other operand ((handle_eq_ok_iff _ _ _).1 reads))
    (by
      rw [same]
      exact soundNoted.wellFormed name handle boundNoted)
  rw [same] at runs
  have resolvesBoth : (do
      let target ← session.handle name
      let handles ← change.traverse session.handle
      return (target, handles)) = (.ok (handle, handles) : Except Failure _) := by
    rw [(handle_eq_ok_iff _ _ _).2 bound, resolves]
    rfl
  change Stepwise.run _ _ _ = Stepwise.finished noted.heap handle outcome at runs
  unfold perform
  simp only [resolvesBoth, runs, Stepwise.finished]
  cases outcome.result with
  | error failure => rfl
  | ok answer =>
      simp only [Stepwise.settled, ← heap_store boundNoted answer.1]
      rfl

/-- An update fails without a trace, word by word and at once, or its name and its operands
stand for handles. -/
theorem perform_refused_or_resolved
    (session : Session)
    (name : String)
    (change : Update String) :
    (∃ failure,
      session.perform name change =
          { session, result := .error (.failure failure), log := [] } ∧
        session.update name change = (session, .quiet (.error failure))) ∨
      ∃ handle handles,
        session.Binds name handle ∧ change.traverse session.handle = .ok handles := by
  cases reads : session.handle name with
  | error failure =>
      refine .inl ⟨failure, ?_, ?_⟩
      · rw [perform, reads]
        rfl
      · rw [Session.update, Session.vector, reads]
        rfl
  | ok handle =>
      have bound := (handle_eq_ok_iff _ _ _).1 reads
      cases resolves : change.traverse session.handle with
      | error failure =>
          have fails := traverse_vector session change
          rw [resolves] at fails
          refine .inl ⟨failure, ?_, update_of_unresolved bound fails⟩
          rw [perform, reads, resolves]
          rfl
      | ok handles => exact .inr ⟨handle, handles, bound, rfl⟩

/-- An update word by word answers, logs and leaves what the update of the whole vector does. -/
theorem perform_agrees
    (sound : session.Sound clipped)
    (name : String)
    (change : Update String) :
    (session.perform name change).Agrees (session.update name change) := by
  obtain ⟨failure, performs, updates⟩ | ⟨handle, handles, bound, resolves⟩ :=
    session.perform_refused_or_resolved name change
  · rw [performs, updates]
    exact ⟨.refl session, rfl, rfl⟩
  have vectors := traverse_vector session change
  rw [resolves] at vectors
  have soundNoted := sound.noteReads change
  have boundNoted := (binds_noteReads_iff session change name handle).2 bound
  have alikeNoted := session.alike_noteReads change
  rw [update_eq_of_resolved bound vectors, perform_of_resolved sound bound resolves]
  cases updates : (((session.noteReads change).load handle).update
      (handles.map session.load)).result with
  | error failure =>
      refine ⟨alikeNoted, ?_, rfl⟩
      dsimp only [Outcome.map]
      rw [updates]
      rfl
  | ok answer =>
      obtain ⟨updated, reply⟩ := answer
      have header : updated.toHeader = change.header handle.toHeader := by
        rw [LogicVector.update_eq_alter (soundNoted.wellFormed name handle boundNoted)
          (sound.source vectors) updates]
        exact congrFun (Update.header_of_traverse vectors) _
      have alikeAfter := alikeNoted.bind name { handle with toHeader := updated.toHeader }
        (Eq.refl ((session.noteReads change).store name updated).blocks)
      rw [← store_eq boundNoted, header] at alikeAfter
      refine ⟨alikeAfter, ?_, rfl⟩
      dsimp only [Outcome.map]
      rw [updates]
      rfl

/-- An update that stops leaves every word as it was, if it notes no reads. -/
theorem session_perform_of_stop
    (sound : session.Sound clipped)
    (notes : session.noteReads change = session)
    {stop : Stop}
    (stops : (session.perform name change).result = .error stop) :
    (session.perform name change).session = session := by
  obtain ⟨failure, performs, -⟩ | ⟨handle, handles, bound, resolves⟩ :=
    session.perform_refused_or_resolved name change
  · rw [performs]
  · have performs := perform_of_resolved sound bound resolves
    rw [notes] at performs
    rw [performs] at stops ⊢
    cases updates : ((session.load handle).update (handles.map session.load)).result with
    | error failure => rfl
    | ok answer =>
        rw [updates] at stops
        contradiction

end Updates

/-! ## Runs word by word -/

section Runs

variable {session : Session}

@[simp] theorem executed_nil (session : Session) : session.executed [] = session :=
  rfl

@[simp] theorem executed_cons (session : Session) (command : Command) (commands : List Command) :
    session.executed (command :: commands) = (session.execute command).session.executed commands :=
  rfl

theorem executed_append (session : Session) (first second : List Command) :
    session.executed (first ++ second) = (session.executed first).executed second := by
  simp [executed]

/-- A command word by word answers, logs and leaves what the command on whole vectors does. -/
theorem execute_agrees (sound : session.Sound clipped) (command : Command) :
    (session.execute command).Agrees (session.apply command) := by
  unfold execute
  cases requests : session.request? command with
  | none => exact ⟨.refl _, rfl, rfl⟩
  | some request =>
      rw [apply_of_request requests]
      exact perform_agrees sound request.1 request.2

/-- What a run of commands leaves word by word is what it leaves on whole vectors. -/
theorem executed_alike
    {other : Session}
    (alike : session.Alike other)
    (sound : other.Sound fun plane => plane.isCoverage = false)
    (commands : List Command) :
    (session.executed commands).Alike (other.run commands) := by
  induction commands generalizing session other with
  | nil => exact alike
  | cons command commands inductionHypothesis =>
      have agrees := execute_agrees (alike.symm.sound sound) command
      exact inductionHypothesis (agrees.alike.trans (alike.apply command).alike)
        (sound.applyAny command)

/-- Every session that commands lead to word by word is sound. -/
theorem sound_executed (commands : List Command) :
    (Session.empty.executed commands).Sound fun plane => plane.isCoverage = false :=
  (executed_alike (.refl Session.empty) sound_empty commands).symm.sound (sound_run_empty commands)

/-- After any run, every command answers and logs word by word what it does on whole vectors. -/
theorem execute_executed_agrees (commands : List Command) (command : Command) :
    ((Session.empty.executed commands).execute command).Agrees
      ((Session.empty.run commands).apply command) := by
  have alike := executed_alike (.refl Session.empty) sound_empty commands
  have agrees := execute_agrees (sound_executed commands) command
  obtain ⟨alikeAfter, sameOutcome⟩ := alike.apply command
  exact ⟨agrees.alike.trans alikeAfter, sameOutcome ▸ agrees.result_eq,
    sameOutcome ▸ agrees.log_eq⟩

end Runs

end Session
end FourState
