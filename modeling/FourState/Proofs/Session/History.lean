import FourState.Proofs.Session.Run

/-!
# The history of a block

The words of a block change only by updates of names that refer to it and by
noted reads.  `Session.history` lists the effects that a run has on one block,
in order; the words after the run are the words before it with these effects
carried out one after the other.
-/

namespace FourState

variable {clipped : Plane → Prop}

/-! ## Effects in order -/

/-- Carry out effects on the cells of a block, the first one first. -/
def Block.replay (block : Block) (effects : List Effect) : Block :=
  effects.foldl (fun block effect => block.alter effect.apply) block

namespace Block

@[simp] theorem replay_nil (block : Block) : block.replay [] = block :=
  rfl

@[simp] theorem replay_cons (block : Block) (effect : Effect) (effects : List Effect) :
    block.replay (effect :: effects) = (block.alter effect.apply).replay effects :=
  rfl

theorem replay_append (block : Block) (first second : List Effect) :
    block.replay (first ++ second) = (block.replay first).replay second := by
  simp [replay]

@[simp] theorem size_replay (block : Block) (effects : List Effect) :
    (block.replay effects).size = block.size := by
  induction effects generalizing block with
  | nil => rfl
  | cons effect effects inductionHypothesis =>
      rw [replay_cons, inductionHypothesis, size_alter]

/-- Each cell goes through the effects on its own. -/
theorem cell_replay
    (block : Block)
    (effects : List Effect)
    {position : Nat}
    (inBounds : position < 32 * block.size) :
    (block.replay effects).cell position =
      effects.foldl (fun cell effect => effect.apply position cell) (block.cell position) := by
  induction effects generalizing block with
  | nil => rfl
  | cons effect effects inductionHypothesis =>
      rw [replay_cons, inductionHypothesis _ (by simpa using inBounds),
        cell_alter _ _ inBounds, List.foldl_cons]

/-- A plane that each effect keeps is kept by all of them. -/
theorem bit_replay_of_keeps
    (block : Block)
    {effects : List Effect}
    {plane : Plane}
    (keeps : ∀ effect ∈ effects, ∀ position cell, effect.apply position cell plane = cell plane)
    (position : Nat) :
    (block.replay effects).bit plane position = block.bit plane position := by
  induction effects generalizing block with
  | nil => rfl
  | cons effect effects inductionHypothesis =>
      rw [replay_cons, inductionHypothesis _ fun other isMember =>
        keeps other (List.mem_cons_of_mem _ isMember)]
      exact block.bit_alter_of_keeps (keeps effect (List.mem_cons_self ..) position)

end Block

namespace Session

/-! ## The effects of a command on a block -/

/-- The effect on a block of noting what an update reads. -/
def readEffects (session : Session) (number : Nat) : Update String → List Effect
  | .operate (.partSelect source lsb msb) =>
      match session.handle source with
      | .ok handle =>
          match (session.load handle).markRead lsb msb with
          | .ok _ =>
              if handle.storage.content? = some number then
                [(session.load handle).readEffect lsb msb]
              else []
          | .error _ => []
      | .error _ => []
  | _ => []

/-- The effect on a block of a resolved update of a name. -/
def changeEffects (session : Session) (number : Nat) (name : String)
    (change : Update LogicVector) : List Effect :=
  match session.handle name with
  | .ok handle =>
      match ((session.load handle).update change).result with
      | .ok _ =>
          if handle.storage.content? = some number then [(session.load handle).effect change]
          else []
      | .error _ => []
  | .error _ => []

/-- The effects of an update of a name on a block. -/
def updateEffects (session : Session) (number : Nat) (name : String) (change : Update String) :
    List Effect :=
  match session.handle name, change.traverse session.vector with
  | .ok _, .ok resolved =>
      session.readEffects number change ++
        (session.noteReads change).changeEffects number name resolved
  | _, _ => []

/-- The effects of a command on a block. -/
def effects (session : Session) (number : Nat) (command : Command) : List Effect :=
  match session.request? command with
  | some (name, change) => session.updateEffects number name change
  | none => []

/-- The effects of a run on a block, the first one first. -/
def history (session : Session) (number : Nat) : List Command → List Effect
  | [] => []
  | command :: commands =>
      session.effects number command ++ (session.apply command).1.history number commands

@[simp] theorem history_nil (session : Session) (number : Nat) :
    session.history number [] = [] :=
  rfl

@[simp] theorem history_cons
    (session : Session)
    (number : Nat)
    (command : Command)
    (commands : List Command) :
    session.history number (command :: commands) =
      session.effects number command ++ (session.apply command).1.history number commands :=
  rfl

/-! ## Words after a command -/

/-- Storing a vector that has been altered alters its own block. -/
theorem block_store_alter
    {session : Session}
    {name : String}
    {handle : Handle}
    {effect : Effect}
    {vector : LogicVector}
    (bound : session.Binds name handle)
    (replaces : session.Replaces handle (fun block => block.alter effect.apply) vector)
    {number : Nat}
    (inBounds : number < session.blocks.size) :
    (session.store name vector).block number =
      (session.block number).replay
        (if handle.storage.content? = some number then [effect] else []) := by
  rw [block_store bound replaces inBounds]
  split
  · rfl
  · rfl

theorem block_noteReads
    (session : Session)
    (change : Update String)
    {number : Nat}
    (inBounds : number < session.blocks.size) :
    (session.noteReads change).block number =
      (session.block number).replay (session.readEffects number change) := by
  cases change with
  | operate operation =>
      cases operation with
      | partSelect source lsb msb =>
          simp only [noteReads, readEffects, Session.vector]
          cases reads : session.handle source with
          | error failure => rfl
          | ok handle =>
              have bound := (handle_eq_ok_iff _ _ _).1 reads
              simp only [bind, Except.bind, pure, Except.pure]
              cases marks : (session.load handle).markRead lsb msb with
              | error fault => rfl
              | ok marked => exact block_store_alter bound (replaces_of_markRead marks) inBounds
      | _ => rfl
  | _ => rfl

theorem size_noteReads (session : Session) (change : Update String) :
    (session.noteReads change).blocks.size = session.blocks.size := by
  obtain same | ⟨source, lsb, msb, handle, marked, -, -, -, same⟩ := session.noteReads_cases change
  · rw [same]
  · rw [same, size_store]

/-- The words of a block after an update are those before it with the effects of
the update. -/
theorem block_update
    {session : Session}
    (sound : session.Sound clipped)
    (name : String)
    (change : Update String)
    {number : Nat}
    (inBounds : number < session.blocks.size) :
    (session.update name change).1.block number =
      (session.block number).replay (session.updateEffects number name change) := by
  unfold Session.update updateEffects
  cases reads : session.handle name with
  | error failure =>
      have unread : session.vector name = .error failure := by
        rw [Session.vector, reads]
        rfl
      rw [unread]
      rfl
  | ok handle =>
      have bound := (handle_eq_ok_iff _ _ _).1 reads
      have boundNoted := (binds_noteReads_iff session change name handle).2 bound
      have readsVector : session.vector name = .ok (session.load handle) :=
        (vector_eq_ok_iff _ _ _).2 ⟨handle, bound, rfl⟩
      have readsNoted : (session.noteReads change).vector name =
          .ok ((session.noteReads change).load handle) :=
        (vector_eq_ok_iff _ _ _).2 ⟨handle, boundNoted, rfl⟩
      have readsNotedHandle : (session.noteReads change).handle name = .ok handle :=
        (handle_eq_ok_iff _ _ _).2 boundNoted
      rw [readsVector]
      simp only [bind, Except.bind]
      cases resolves : change.traverse session.vector with
      | error failure => rfl
      | ok resolved =>
          have noted := sound.noteReads change
          have inNoted : number < (session.noteReads change).blocks.size := by
            rwa [size_noteReads]
          simp only [readsNoted, changeEffects, readsNotedHandle, Block.replay_append,
            ← block_noteReads session change inBounds]
          cases outcome : (((session.noteReads change).load handle).update resolved).result with
          | error failure => rfl
          | ok answer =>
              exact block_store_alter boundNoted (replaces_of_update
                (noted.wellFormed name handle boundNoted) (sound.source resolves) outcome) inNoted

/-- A command that asks for no update keeps the words of the old blocks. -/
theorem block_rebinds
    {session changed : Session}
    (rebinds : session.Rebinds changed)
    {number : Nat}
    (inBounds : number < session.blocks.size) :
    changed.block number = session.block number := by
  cases rebinds with
  | same => rfl
  | place name vector => exact block_place_of_lt session name vector inBounds
  | share => rfl
  | keep => rfl

/-- The words of a block after a command are those before it with the effects of
the command. -/
theorem block_apply
    {session : Session}
    (sound : session.Sound clipped)
    (command : Command)
    {number : Nat}
    (inBounds : number < session.blocks.size) :
    (session.apply command).1.block number =
      (session.block number).replay (session.effects number command) := by
  unfold effects
  cases requests : session.request? command with
  | none => exact block_rebinds (rebinds_apply requests) inBounds
  | some request =>
      obtain ⟨name, change⟩ := request
      rw [apply_of_request requests]
      exact block_update sound name change inBounds

theorem size_le_size_rebinds
    {session changed : Session}
    (rebinds : session.Rebinds changed) :
    session.blocks.size ≤ changed.blocks.size := by
  cases rebinds with
  | same => exact Nat.le_refl _
  | place name vector =>
      unfold place
      dsimp only
      split
      · rw [Array.size_push]
        exact Nat.le_succ _
      · exact Nat.le_refl _
  | share => exact Nat.le_refl _
  | keep => exact Nat.le_refl _

/-- Blocks are never given up. -/
theorem size_le_size_apply (session : Session) (command : Command) :
    session.blocks.size ≤ (session.apply command).1.blocks.size := by
  cases requests : session.request? command with
  | none => exact size_le_size_rebinds (rebinds_apply requests)
  | some request =>
      obtain ⟨name, change⟩ := request
      rw [apply_of_request requests]
      obtain same | ⟨handle, resolved, -, -, outcome⟩ := session.update_cases name change
      · exact Nat.le_of_eq (by rw [same])
      · obtain ⟨updated, reply, -, same⟩ | ⟨-, same⟩ := outcome
        · exact Nat.le_of_eq (by rw [same, size_store, size_noteReads])
        · exact Nat.le_of_eq (by rw [same, size_noteReads])

/-! ## Words after a run -/

/-- The words of a block after a run are those before it with the history of the
run. -/
theorem block_run
    {session : Session}
    (sound : session.Sound fun plane => plane.isCoverage = false)
    (commands : List Command)
    {number : Nat}
    (inBounds : number < session.blocks.size) :
    (session.run commands).block number =
      (session.block number).replay (session.history number commands) := by
  induction commands generalizing session with
  | nil => rfl
  | cons command commands inductionHypothesis =>
      have inBoundsAfter := Nat.lt_of_lt_of_le inBounds (session.size_le_size_apply command)
      rw [run_cons, history_cons, Block.replay_append, ← block_apply sound command inBounds]
      exact inductionHypothesis (sound.applyAny command) inBoundsAfter

/-! ## Handles of a block -/

/-- All names that refer to a block have one width and kind. -/
def RefersAs (session : Session) (number width : Nat) (kind : Kind) : Prop :=
  ∀ name handle, session.Binds name handle → handle.storage.content? = some number →
    handle.width = width ∧ handle.kind = kind

theorem RefersAs.store
    {session : Session}
    {number width : Nat}
    {kind : Kind}
    (refersAs : session.RefersAs number width kind)
    {name : String}
    {handle : Handle}
    {change : Block → Block}
    {vector : LogicVector}
    (bound : session.Binds name handle)
    (replaces : session.Replaces handle change vector) :
    (session.store name vector).RefersAs number width kind := by
  intro other otherHandle otherBound refers
  obtain ⟨-, rfl⟩ | ⟨-, before⟩ := (binds_store_iff bound _ _ _).1 otherBound
  · have same := refersAs name handle bound refers
    exact ⟨replaces.width_eq.trans same.1, replaces.kind_eq.trans same.2⟩
  · exact refersAs other otherHandle before refers

theorem RefersAs.noteReads
    {session : Session}
    {number width : Nat}
    {kind : Kind}
    (refersAs : session.RefersAs number width kind)
    (change : Update String) :
    (session.noteReads change).RefersAs number width kind :=
  fun name handle bound => refersAs name handle ((binds_noteReads_iff _ _ _ _).1 bound)

theorem RefersAs.rebinds
    {session changed : Session}
    {number width : Nat}
    {kind : Kind}
    (refersAs : session.RefersAs number width kind)
    (inBounds : number < session.blocks.size)
    (rebinds : session.Rebinds changed) :
    changed.RefersAs number width kind := by
  cases rebinds with
  | same => exact refersAs
  | place name vector =>
      intro other handle bound refers
      obtain ⟨-, rfl⟩ | ⟨-, before⟩ := (binds_place_iff _ _ _ _ _).1 bound
      · have isNew := number_of_placedHandle refers
        omega
      · exact refersAs other handle before refers
  | share name source handle bound =>
      intro other otherHandle otherBound refers
      obtain ⟨-, rfl⟩ | ⟨-, before⟩ := (binds_share_iff _ _ _ _ _).1 otherBound
      · rw [content?_borrow] at refers
        exact refersAs source handle bound refers
      · exact refersAs other otherHandle before refers
  | keep => exact refersAs

/-- Commands do not change the width and kind that a block is referred to with. -/
theorem RefersAs.apply
    {session : Session}
    {number width : Nat}
    {kind : Kind}
    (refersAs : session.RefersAs number width kind)
    (sound : session.Sound clipped)
    (inBounds : number < session.blocks.size)
    (command : Command) :
    (session.apply command).1.RefersAs number width kind := by
  cases requests : session.request? command with
  | none => exact refersAs.rebinds inBounds (rebinds_apply requests)
  | some request =>
      obtain ⟨name, change⟩ := request
      rw [apply_of_request requests]
      have refersNoted := refersAs.noteReads change
      obtain same | ⟨handle, resolved, bound, resolves, outcome⟩ := session.update_cases name change
      · rw [same]
        exact refersAs
      · obtain ⟨updated, reply, succeeds, same⟩ | ⟨-, same⟩ := outcome
        · have noted := sound.noteReads change
          have boundNoted := (binds_noteReads_iff session change name handle).2 bound
          rw [same]
          exact refersNoted.store boundNoted (replaces_of_update
            (noted.wellFormed name handle boundNoted) (sound.source resolves) succeeds)
        · rw [same]
          exact refersNoted

theorem RefersAs.run
    {session : Session}
    {number width : Nat}
    {kind : Kind}
    (refersAs : session.RefersAs number width kind)
    (sound : session.Sound fun plane => plane.isCoverage = false)
    (inBounds : number < session.blocks.size)
    (commands : List Command) :
    (session.run commands).RefersAs number width kind := by
  induction commands generalizing session with
  | nil => exact refersAs
  | cons command commands inductionHypothesis =>
      rw [run_cons]
      exact inductionHypothesis (refersAs.apply sound inBounds command) (sound.applyAny command)
        (Nat.lt_of_lt_of_le inBounds (session.size_le_size_apply command))

/-! ## Written kinds -/

/-- What an update writes is written as the kind of the vector says. -/
theorem kind_of_effect_eq_write
    {vector : LogicVector}
    {change : Update LogicVector}
    {kind : Kind}
    {assignment : Assignment}
    (writes : vector.effect change = .write kind assignment) :
    kind = vector.kind := by
  have assigned
      (writesAssigned : vector.assignmentEffect (vector.assignment? change) =
        .write kind assignment) :
      kind = vector.kind := by
    cases carried : vector.assignment? change with
    | none =>
        rw [carried] at writesAssigned
        contradiction
    | some carriedAssignment =>
        rw [carried] at writesAssigned
        cases writesAssigned
        rfl
  cases change with
  | assign | applyChange | setNat | setWord | setUnknown | extendFrom | setValue | commit
  | operate | setSigned => exact assigned writes
  | setTwoState twoState => cases twoState <;> contradiction
  | claim | copyFrom | copyRange | merge | resetCoverage | evaluateUnary | evaluate =>
      contradiction
  | mergeRecord text options =>
      simp only [LogicVector.effect] at writes
      split at writes <;> contradiction

theorem mem_readEffects
    {session : Session}
    {number : Nat}
    {change : Update String}
    {effect : Effect}
    (isMember : effect ∈ session.readEffects number change) :
    ∃ source handle lsb msb, session.Binds source handle ∧
      handle.storage.content? = some number ∧
      (∃ marked, (session.load handle).markRead lsb msb = .ok marked) ∧
      effect = (session.load handle).readEffect lsb msb := by
  unfold readEffects at isMember
  split at isMember
  · rename_i source lsb msb
    split at isMember
    · rename_i handle reads
      split at isMember
      · rename_i marked marks
        split at isMember
        · rename_i refers
          exact ⟨source, handle, lsb, msb, (handle_eq_ok_iff _ _ _).1 reads, refers,
            ⟨marked, marks⟩, List.mem_singleton.1 isMember⟩
        · contradiction
      · contradiction
    · contradiction
  · contradiction

theorem mem_changeEffects
    {session : Session}
    {number : Nat}
    {name : String}
    {change : Update LogicVector}
    {effect : Effect}
    (isMember : effect ∈ session.changeEffects number name change) :
    ∃ handle, session.Binds name handle ∧ handle.storage.content? = some number ∧
      (∃ answer, ((session.load handle).update change).result = .ok answer) ∧
      effect = (session.load handle).effect change := by
  unfold changeEffects at isMember
  split at isMember
  · rename_i handle reads
    split at isMember
    · rename_i answer succeeds
      split at isMember
      · rename_i refers
        exact ⟨handle, (handle_eq_ok_iff _ _ _).1 reads, refers, ⟨answer, succeeds⟩,
          List.mem_singleton.1 isMember⟩
      · contradiction
    · contradiction
  · contradiction

/-- An effect of a command on a block is that of noting a read or that of the
update itself, either of which succeeded on a vector that refers to the block. -/
theorem mem_effects
    {session : Session}
    {number : Nat}
    {command : Command}
    {effect : Effect}
    (isMember : effect ∈ session.effects number command) :
    ∃ name change, session.request? command = some (name, change) ∧
      ((∃ source handle lsb msb, session.Binds source handle ∧
          handle.storage.content? = some number ∧
          (∃ marked, (session.load handle).markRead lsb msb = .ok marked) ∧
          effect = (session.load handle).readEffect lsb msb) ∨
        ∃ handle resolved, session.Binds name handle ∧
          handle.storage.content? = some number ∧
          change.traverse session.vector = .ok resolved ∧
          (∃ answer,
            (((session.noteReads change).load handle).update resolved).result = .ok answer) ∧
          effect = ((session.noteReads change).load handle).effect resolved) := by
  unfold effects at isMember
  split at isMember
  · rename_i name change requests
    refine ⟨name, change, requests, ?_⟩
    unfold updateEffects at isMember
    split at isMember
    · rename_i target resolved reads resolves
      obtain inReads | inChange := List.mem_append.1 isMember
      · exact Or.inl (mem_readEffects inReads)
      · obtain ⟨handle, boundNoted, refers, succeeds, same⟩ := mem_changeEffects inChange
        have bound := (binds_noteReads_iff _ _ _ _).1 boundNoted
        exact Or.inr ⟨handle, resolved, bound, refers, resolves, succeeds, same⟩
    · contradiction
  · contradiction

/-- What a command writes to a block is written as the kind of the block says. -/
theorem RefersAs.kind_of_mem_effects
    {session : Session}
    {number width : Nat}
    {kind : Kind}
    (refersAs : session.RefersAs number width kind)
    {command : Command}
    {writtenKind : Kind}
    {assignment : Assignment}
    (isMember : Effect.write writtenKind assignment ∈ session.effects number command) :
    writtenKind = kind := by
  obtain ⟨name, change, -, isRead | isChange⟩ := mem_effects isMember
  · obtain ⟨source, handle, lsb, msb, -, -, -, isRead⟩ := isRead
    unfold LogicVector.readEffect at isRead
    split at isRead <;> contradiction
  · obtain ⟨handle, resolved, bound, refers, -, -, isWrite⟩ := isChange
    exact (kind_of_effect_eq_write isWrite.symm).trans (refersAs name handle bound refers).2

/-- What holds of every effect that a command of a run has on a block holds of the
whole history of the block. -/
theorem RefersAs.of_mem_history
    {session : Session}
    {number width : Nat}
    {kind : Kind}
    (refersAs : session.RefersAs number width kind)
    (sound : session.Sound fun plane => plane.isCoverage = false)
    (inBounds : number < session.blocks.size)
    {commands : List Command}
    {motive : Effect → Prop}
    (step : ∀ (before : Session) command, command ∈ commands →
      before.RefersAs number width kind →
      ∀ effect ∈ before.effects number command, motive effect)
    {effect : Effect}
    (isMember : effect ∈ session.history number commands) :
    motive effect := by
  induction commands generalizing session with
  | nil => contradiction
  | cons command commands inductionHypothesis =>
      rw [history_cons] at isMember
      obtain inFirst | inRest := List.mem_append.1 isMember
      · exact step session command (List.mem_cons_self ..) refersAs effect inFirst
      · exact inductionHypothesis (refersAs.apply sound inBounds command) (sound.applyAny command)
          (Nat.lt_of_lt_of_le inBounds (session.size_le_size_apply command))
          (fun before other isOther => step before other (List.mem_cons_of_mem _ isOther)) inRest

/-- What a run writes to a block is written as the kind of the block says. -/
theorem RefersAs.kind_of_mem_history
    {session : Session}
    {number width : Nat}
    {kind : Kind}
    (refersAs : session.RefersAs number width kind)
    (sound : session.Sound fun plane => plane.isCoverage = false)
    (inBounds : number < session.blocks.size)
    {commands : List Command}
    {writtenKind : Kind}
    {assignment : Assignment}
    (isMember : Effect.write writtenKind assignment ∈ session.history number commands) :
    writtenKind = kind := by
  refine refersAs.of_mem_history sound inBounds (motive := fun effect =>
    ∀ writtenKind assignment, effect = .write writtenKind assignment → writtenKind = kind)
    ?_ isMember _ _ rfl
  rintro before command _ stillRefersAs effect inEffects writtenKind assignment rfl
  exact stillRefersAs.kind_of_mem_effects inEffects

end Session
end FourState
