import FourState.Proofs.Known
import FourState.Proofs.Session.History

/-!
# Two-state vectors

A two-state vector settles every bit it is given, so no write through it leaves
an unknown bit.  Planes that are moved as they are can bring one, and so can
another vector that shares the words and keeps unknown bits.  The main result is
that there is no third way: while the words are shared among two-state vectors
and no unknown bit is moved into them, a two-state vector shows known bits only.
-/

namespace FourState

theorem Block.IsKnown.replay
    {block : Block}
    (known : block.IsKnown)
    {effects : List Effect}
    (keep : ∀ effect ∈ effects, effect.KeepsKnown) :
    (block.replay effects).IsKnown := by
  induction effects generalizing block with
  | nil => exact known
  | cons effect effects inductionHypothesis =>
      rw [replay_cons]
      exact inductionHypothesis (known.alter (keep effect (List.mem_cons_self ..)))
        fun other isMember => keep other (List.mem_cons_of_mem _ isMember)

namespace Session

variable {session : Session} {watched : String → Prop} {number : Nat}

/-! ## Watching the vectors of a block -/

/-- A watched two-state vector that has its words in the block shows known bits. -/
def ShowsKnown (session : Session) (watched : String → Prop) (number : Nat) : Prop :=
  ∀ name handle, watched name → session.Binds name handle →
    handle.storage.content? = some number → handle.twoState = true →
    (session.block number).IsKnown

/-- Every vector that shares the words of the block with a watched one is two-state. -/
def SharesTwoState (session : Session) (watched : String → Prop) (number : Nat) : Prop :=
  ∀ name other handle otherHandle, watched name → other ≠ name →
    session.Binds name handle → session.Binds other otherHandle →
    handle.storage.content? = some number → otherHandle.storage.content? = some number →
    otherHandle.twoState = true

/-- A command that takes planes over as they are into the block, for a two-state
vector, takes known bits only. -/
def TakesKnown (session : Session) (number : Nat) : Command → Prop
  | .update name change =>
      ∀ handle resolved, session.Binds name handle → handle.storage.content? = some number →
        handle.twoState = true → change.traverse session.vector = .ok resolved →
        resolved.TakesKnown handle.width
  | .readRecord _ text =>
      ∀ vector rest, number = session.blocks.size →
        (LogicVector.readRecord text).result = .ok (vector, rest) → vector.twoState = true →
        vector.KnownBetween 0 vector.width
  | .clone _ source =>
      ∀ vector, number = session.blocks.size → session.vector source = .ok vector →
        vector.twoState = true → vector.KnownBetween 0 vector.width
  | .resize name width =>
      ∀ vector, number = session.blocks.size → session.vector name = .ok vector →
        vector.twoState = true → vector.KnownBetween 0 width
  | _ => True

/-! ## One update -/

/-- A flag is set by an update only if the update says so. -/
theorem twoState_header
    {change : Update String}
    {before : Header}
    (twoState : (change.header before).twoState = true) :
    before.twoState = true ∨ change = .setTwoState true := by
  cases change with
  | setTwoState chosen =>
      cases twoState
      exact Or.inr rfl
  | _ => exact Or.inl twoState

/-- Setting the flag of a vector collapses its words. -/
theorem effects_setTwoState
    {name : String}
    {handle : Handle}
    (bound : session.Binds name handle)
    (refers : handle.storage.content? = some number) :
    session.updateEffects number name (.setTwoState true) = [Effect.collapse] := by
  have reads := (handle_eq_ok_iff _ _ _).2 bound
  simp only [updateEffects, reads, Update.traverse, pure, Except.pure, readEffects, noteReads,
    changeEffects, refers, if_true, List.nil_append]
  rfl

/-- Commands leave known words known if the vector they update is two-state. -/
theorem keepsKnown_of_mem_effects
    (sound : session.Sound fun plane => plane.isCoverage = false)
    {command : Command}
    (takes : session.TakesKnown number command)
    {target : String}
    {change : Update String}
    (requests : session.request? command = some (target, change))
    (twoState : ∀ handle, session.Binds target handle →
      handle.storage.content? = some number → handle.twoState = true) :
    ∀ effect ∈ session.effects number command, effect.KeepsKnown := by
  intro effect isMember
  obtain ⟨name, requested, requestsAgain, isRead | isChange⟩ := mem_effects isMember
  · obtain ⟨source, handle, lsb, msb, -, -, -, rfl⟩ := isRead
    unfold LogicVector.readEffect
    split
    · exact Effect.keepsKnown_mark _
    · exact fun _ _ known => known
  · obtain ⟨handle, resolved, bound, refers, resolves, -, rfl⟩ := isChange
    rw [requests, Option.some.injEq, Prod.mk.injEq] at requestsAgain
    obtain ⟨rfl, rfl⟩ := requestsAgain
    have flagged := twoState handle bound refers
    refine LogicVector.effect_keepsKnown flagged (sound.source resolves) ?_
    obtain rfl | ⟨value, rfl⟩ := eq_update_of_request requests
    · exact takes handle resolved bound refers flagged resolves
    · cases resolves
      trivial

/-- An update keeps watched two-state vectors known: it writes through a two-state
vector, or it collapses the words. -/
theorem ShowsKnown.update
    (shows : session.ShowsKnown watched number)
    (sound : session.Sound fun plane => plane.isCoverage = false)
    (shares : session.SharesTwoState watched number)
    {command : Command}
    (takes : session.TakesKnown number command)
    {target : String}
    {change : Update String}
    (requests : session.request? command = some (target, change)) :
    (session.apply command).1.ShowsKnown watched number := by
  intro name handle isWatched after refers twoState
  rw [apply_of_request requests] at after
  have effects : session.effects number command = session.updateEffects number target change := by
    simp only [Session.effects, requests]
  -- Words known before stay known: whoever the update goes through is two-state.
  have keeps {old : Handle} (before : session.Binds name old)
      (oldRefers : old.storage.content? = some number) (oldTwoState : old.twoState = true) :
      ((session.apply command).1.block number).IsKnown := by
    rw [block_apply sound command (sound.lt_size before oldRefers)]
    apply (shows name old isWatched before oldRefers oldTwoState).replay
    apply keepsKnown_of_mem_effects sound takes requests
    intro targetHandle targetBound targetRefers
    by_cases same : target = name
    · subst same
      cases before.symm.trans targetBound
      exact oldTwoState
    · exact shares name target old targetHandle isWatched same before targetBound oldRefers
        targetRefers
  obtain before | ⟨rfl, old, before, rfl⟩ := binds_before_update sound after
  · exact keeps before refers twoState
  · obtain oldTwoState | rfl := twoState_header twoState
    · exact keeps before refers oldTwoState
    · rw [block_apply sound command (sound.lt_size before refers), effects,
        effects_setTwoState before refers]
      exact Block.isKnown_collapse _

/-! ## One new vector -/

theorem ShowsKnown.place
    (shows : session.ShowsKnown (fun _ => True) number)
    (sound : session.Sound fun plane => plane.isCoverage = false)
    (name : String)
    {vector : LogicVector}
    (known : number = session.blocks.size → vector.twoState = true →
      ∀ block, vector.block = .ok block → block.IsKnown) :
    (session.place name vector).ShowsKnown (fun _ => True) number := by
  intro other handle _ after refers twoState
  obtain ⟨-, rfl⟩ | ⟨-, before⟩ := (binds_place_iff _ _ _ _ _).1 after
  · have isNew := number_of_placedHandle refers
    have stored : ((session.place name vector).load (session.placedHandle vector)).block =
        .ok ((session.place name vector).block number) := block_load refers
    rw [load_place] at stored
    exact known isNew twoState _ stored
  · rw [block_place_of_lt session name vector (sound.lt_size before refers)]
    exact shows other handle trivial before refers twoState

theorem ShowsKnown.share
    (shows : session.ShowsKnown (fun _ => True) number)
    (name : String)
    {source : String}
    {handle : Handle}
    (bound : session.Binds source handle) :
    (session.share name handle).ShowsKnown (fun _ => True) number := by
  intro other otherHandle _ after refers twoState
  obtain ⟨-, rfl⟩ | ⟨-, before⟩ := (binds_share_iff _ _ _ _ _).1 after
  · rw [content?_borrow] at refers
    exact shows source handle trivial bound refers twoState
  · exact shows other otherHandle trivial before refers twoState

theorem ShowsKnown.settle
    (shows : session.ShowsKnown watched number)
    {result : Except Failure (Session × Reply)}
    (succeeds : ∀ changed reply, result = .ok (changed, reply) →
      changed.ShowsKnown watched number) :
    (session.settle result).1.ShowsKnown watched number :=
  settle_induction (motive := fun changed => changed.ShowsKnown watched number) shows succeeds

theorem ShowsKnown.placeRead
    (shows : session.ShowsKnown (fun _ => True) number)
    (sound : session.Sound fun plane => plane.isCoverage = false)
    (name : String)
    {outcome : Outcome (LogicVector × Reply)}
    (known : ∀ vector reply, outcome.result = .ok (vector, reply) →
      number = session.blocks.size → vector.twoState = true →
      ∀ block, vector.block = .ok block → block.IsKnown) :
    (session.placeRead name outcome).1.ShowsKnown (fun _ => True) number := by
  unfold Session.placeRead
  dsimp only
  split
  · rename_i vector reply reads
    exact shows.place sound name (known vector reply reads)
  · exact shows

/-- A command without an update keeps all two-state vectors known: a new one takes
over known bits, starts with zeros, or shares known words. -/
theorem ShowsKnown.bind
    (shows : session.ShowsKnown (fun _ => True) number)
    (sound : session.Sound fun plane => plane.isCoverage = false)
    {command : Command}
    (takes : session.TakesKnown number command)
    (requestsNone : session.request? command = none) :
    (session.apply command).1.ShowsKnown (fun _ => True) number := by
  cases command with
  | create name width kind allocate signed? twoState? =>
      apply shows.settle
      intro changed reply succeeds
      obtain ⟨vector, creates, succeeds⟩ := bind_eq_ok_iff.1 succeeds
      cases succeeds
      apply shows.place sound
      intro _ twoState block stored
      have fourState := LogicVector.twoState_create (liftM_fault_eq_ok_iff.1 creates)
      cases twoState? with
      | none =>
          cases signed? <;> exact absurd (fourState.symm.trans twoState) (by decide)
      | some chosen =>
          cases chosen with
          | false => cases signed? <;> contradiction
          | true => exact LogicVector.isKnown_setTwoState stored
  | literal name text =>
      apply shows.placeRead sound
      intro vector reply succeeds _ twoState
      cases reads : LogicVector.ofLiteral text with
      | error failure =>
          rw [reads] at succeeds
          contradiction
      | ok answer =>
          rw [reads] at succeeds
          cases succeeds
          exact absurd twoState (by rw [LogicVector.twoState_ofLiteral reads]; decide)
  | quoted name text =>
      apply shows.placeRead sound
      intro vector reply succeeds _ twoState
      cases reads : LogicVector.ofQuoted text with
      | error failure =>
          rw [reads] at succeeds
          contradiction
      | ok answer =>
          rw [reads] at succeeds
          cases succeeds
          exact absurd twoState (by rw [LogicVector.twoState_ofQuoted reads]; decide)
  | readRecord name text =>
      apply shows.placeRead sound
      intro vector reply succeeds isNew twoState block stored
      obtain ⟨⟨read, rest⟩, reads, same⟩ := Outcome.result_map_eq_ok_iff.1 succeeds
      cases same
      exact (takes read rest isNew reads twoState).isKnown
        (LogicVector.readRecord_wellFormed reads) stored
  | share name source =>
      apply shows.settle
      intro changed reply succeeds
      obtain ⟨handle, reads, succeeds⟩ := bind_eq_ok_iff.1 succeeds
      cases succeeds
      exact shows.share name ((handle_eq_ok_iff _ _ _).1 reads)
  | clone name source =>
      apply shows.settle
      intro changed reply succeeds
      obtain ⟨vector, reads, succeeds⟩ := bind_eq_ok_iff.1 succeeds
      split at succeeds
      · rename_i clone clones
        cases succeeds
        apply shows.place sound
        intro isNew twoState block stored
        obtain ⟨words, content, rfl⟩ := Option.map_eq_some_iff.1 clones
        cases stored
        exact (takes vector isNew reads twoState).isKnown (sound.vector reads)
          ((LogicVector.block_eq_ok_iff _ _).2 content)
      · cases succeeds
        exact shows
  | resize name width =>
      apply shows.settle
      intro changed reply succeeds
      obtain ⟨vector, reads, succeeds⟩ := bind_eq_ok_iff.1 succeeds
      obtain ⟨resized, resizes, succeeds⟩ := bind_eq_ok_iff.1 succeeds
      cases succeeds
      apply shows.place sound
      intro isNew twoState block stored
      exact LogicVector.isKnown_resize (sound.vector reads) (liftM_fault_eq_ok_iff.1 resizes)
        twoState (takes vector isNew reads) stored
  | update name change => contradiction
  | commit name buffer =>
      cases reads : session.buffer buffer with
      | ok value =>
          simp only [request?, reads] at requestsNone
          contradiction
      | error failure =>
          simp only [Session.apply, reads]
          exact shows
  | makeBuffer name source =>
      apply shows.settle
      intro changed reply succeeds
      obtain ⟨buffer, -, succeeds⟩ := bind_eq_ok_iff.1 succeeds
      cases succeeds
      exact shows
  | signBuffer name signed =>
      apply shows.settle
      intro changed reply succeeds
      obtain ⟨buffer, -, succeeds⟩ := bind_eq_ok_iff.1 succeeds
      cases succeeds
      exact shows
  | setBufferBit name position bit =>
      apply shows.settle
      intro changed reply succeeds
      obtain ⟨buffer, -, succeeds⟩ := bind_eq_ok_iff.1 succeeds
      obtain ⟨set, -, succeeds⟩ := bind_eq_ok_iff.1 succeeds
      cases succeeds
      exact shows

/-! ## Runs -/

/-- A command keeps a watched two-state vector known as long as its name stands
for it. -/
theorem ShowsKnown.apply_of_keepsVector
    {name : String}
    (shows : session.ShowsKnown (· = name) number)
    (sound : session.Sound fun plane => plane.isCoverage = false)
    (shares : session.SharesTwoState (· = name) number)
    {command : Command}
    (takes : session.TakesKnown number command)
    (keeps : session.KeepsVector name command) :
    (session.apply command).1.ShowsKnown (· = name) number := by
  cases requests : session.request? command with
  | some request => exact shows.update sound shares takes requests
  | none =>
      have sameHandle : (session.apply command).1.handle name = session.handle name := by
        obtain updates | same := keeps
        · rw [requests] at updates
          contradiction
        · exact same
      intro other handle isName after refers twoState
      have before : session.Binds name handle := by
        rwa [isName, ← handle_eq_ok_iff, sameHandle, handle_eq_ok_iff] at after
      rw [block_rebinds (rebinds_apply requests) (sound.lt_size before refers)]
      exact shows name handle rfl before refers twoState

/-- A two-state vector never shows an unknown bit.  Take any run that ends with a
two-state vector whose words are in a block, and split it where the name came to
stand for this vector.  If, before that, vectors that shared the words were all
two-state, if since then every other vector that shared the words was, and if no
copy, range copy, clone, resizing or record took an unknown bit over for a
two-state vector of these words, then the high value words are zero and every
bit reads as known. -/
theorem twoState_shows_known
    (earlier later : List Command)
    {name : String}
    {handle : Handle}
    {number : Nat}
    (bound : (Session.empty.run (earlier ++ later)).Binds name handle)
    (refers : handle.storage.content? = some number)
    (twoState : handle.twoState = true)
    (keeps : ∀ before command, before ++ [command] <+: later →
      (Session.empty.run (earlier ++ before)).KeepsVector name command)
    (sharedBefore : ∀ before, before <+: earlier →
      (Session.empty.run before).SharesTwoState (fun _ => True) number)
    (sharedSince : ∀ before, before <+: later →
      (Session.empty.run (earlier ++ before)).SharesTwoState (· = name) number)
    (takes : ∀ before command, before ++ [command] <+: earlier ++ later →
      (Session.empty.run before).TakesKnown number command) :
    ∃ block,
      ((Session.empty.run (earlier ++ later)).load handle).block = .ok block ∧
      (∀ index, block.word Plane.valueHigh index = 0) ∧
      ∀ position bit,
        ((Session.empty.run (earlier ++ later)).load handle).bit position = .ok bit →
        bit.isKnown = true := by
  -- Until the vector is there, every vector of the block is watched.
  have showsBefore : (Session.empty.run earlier).ShowsKnown (fun _ => True) number := by
    apply run_induction (motive := fun session => session.ShowsKnown (fun _ => True) number)
    · intro other otherHandle _ isBound
      contradiction
    · intro before command isPrefix shows
      have takesNext := takes before command (isPrefix.trans (List.prefix_append _ _))
      have sound := sound_run_empty before
      cases requests : (Session.empty.run before).request? command with
      | none => exact shows.bind sound takesNext requests
      | some request =>
          exact shows.update sound
            (sharedBefore before ((List.prefix_append _ _).trans isPrefix)) takesNext requests
  -- From then on only the vector itself is.
  have showsAfter : ((Session.empty.run earlier).run later).ShowsKnown (· = name) number := by
    apply run_induction (motive := fun session => session.ShowsKnown (· = name) number)
    · intro other otherHandle _
      exact showsBefore other otherHandle trivial
    · intro before command isPrefix shows
      rw [← run_append] at shows ⊢
      apply shows.apply_of_keepsVector (sound_run_empty _)
      · exact sharedSince before ((List.prefix_append _ _).trans isPrefix)
      · apply takes
        rw [List.append_assoc]
        exact (List.prefix_append_right_inj earlier).2 isPrefix
      · exact keeps before command isPrefix
  rw [← run_append] at showsAfter
  have known := showsAfter name handle rfl bound refers twoState
  refine ⟨_, block_load refers, known.word_eq_zero, ?_⟩
  intro position bit reads
  obtain ⟨⟨⟩, -, reads⟩ := bind_eq_ok_iff.1 reads
  obtain ⟨block, stored, reads⟩ := bind_eq_ok_iff.1 reads
  obtain ⟨⟨⟩, -, reads⟩ := bind_eq_ok_iff.1 reads
  rw [block_load refers] at stored
  cases stored
  cases reads
  exact known.isKnown_value position

/-- A bound name is one of the entries of the session. -/
theorem mem_entries_of_binds
    {name : String}
    {handle : Handle}
    (bound : session.Binds name handle) :
    (name, handle) ∈ session.vectors.entries := by
  obtain ⟨front, back, split, -⟩ := List.lookup_eq_some_iff.1 bound
  rw [split]
  exact List.mem_append_right _ (List.mem_cons_self ..)

/-- A two-state vector and another one that shares its words. -/
def flaggedPair : List Command := [
  .create "a" 4 .signal true none (some true),
  .share "b" "a"]

/-- The flag of the first is taken away for a while. -/
def flagWithdrawn : List Command := [
  .update "a" (.setTwoState false),
  .update "a" .setUnknown,
  .update "a" (.setTwoState true)]

/-- The vector keeps an `x` only while it is not two-state. -/
theorem twoState_shows_known_flagWithdrawn :
    ∃ handle block,
      (Session.empty.run (flaggedPair ++ flagWithdrawn)).Binds "a" handle ∧
      ((Session.empty.run (flaggedPair ++ flagWithdrawn)).load handle).block = .ok block ∧
      block.word Plane.valueHigh 0 = 0 := by
  have bound : (Session.empty.run (flaggedPair ++ flagWithdrawn)).Binds "a" {
      width := 4
      kind := .signal
      format := .bits32
      signed := false
      twoState := true
      storage := .owned 0 } := by
    unfold Binds
    decide +kernel
  have keeps : ∀ before command, before ++ [command] <+: flagWithdrawn →
      (Session.empty.run (flaggedPair ++ before)).KeepsVector "a" command := by
    intro before command isPrefix
    have isMember := isPrefix.subset (List.mem_append_right before (List.mem_singleton.2 rfl))
    simp only [flagWithdrawn, List.mem_cons, List.not_mem_nil, or_false] at isMember
    obtain rfl | rfl | rfl := isMember <;> exact Or.inl rfl
  have sharedBefore : ∀ before, before <+: flaggedPair →
      (Session.empty.run before).SharesTwoState (fun _ => True) 0 := by
    have flagged : ∀ count < 3, ∀ entry ∈
        (Session.empty.run (flaggedPair.take count)).vectors.entries,
        entry.2.twoState = true := by
      decide +kernel
    intro before isPrefix name other handle otherHandle _ _ _ otherBound _ _
    rw [List.prefix_iff_eq_take.1 isPrefix] at otherBound
    exact flagged _ (Nat.lt_succ_of_le isPrefix.length_le) _ (mem_entries_of_binds otherBound)
  have sharedSince : ∀ before, before <+: flagWithdrawn →
      (Session.empty.run (flaggedPair ++ before)).SharesTwoState (· = "a") 0 := by
    have flagged : ∀ count < 4, ∀ entry ∈
        (Session.empty.run (flaggedPair ++ flagWithdrawn.take count)).vectors.entries,
        entry.1 ≠ "a" → entry.2.twoState = true := by
      decide +kernel
    intro before isPrefix name other handle otherHandle isName differs _ otherBound _ _
    rw [List.prefix_iff_eq_take.1 isPrefix] at otherBound
    exact flagged _ (Nat.lt_succ_of_le isPrefix.length_le) _ (mem_entries_of_binds otherBound)
      (isName ▸ differs)
  have takes : ∀ before command, before ++ [command] <+: flaggedPair ++ flagWithdrawn →
      (Session.empty.run before).TakesKnown 0 command := by
    intro before command isPrefix
    have isMember := isPrefix.subset (List.mem_append_right before (List.mem_singleton.2 rfl))
    simp only [flaggedPair, flagWithdrawn, List.cons_append, List.nil_append, List.mem_cons,
      List.not_mem_nil, or_false] at isMember
    obtain rfl | rfl | rfl | rfl | rfl := isMember
    · trivial
    · trivial
    all_goals
      intro handle resolved _ _ _ resolves
      cases resolves
      trivial
  obtain ⟨block, stored, zero, -⟩ := twoState_shows_known flaggedPair flagWithdrawn bound rfl rfl
    keeps sharedBefore sharedSince takes
  exact ⟨_, block, bound, stored, zero 0⟩

/-- A two-state vector that is given the planes of a new four-state one. -/
def copiedUnknown : List Command := [
  .create "s" 4 .signal true none none,
  .create "t" 4 .signal true none (some true),
  .update "t" (.copyFrom "s")]

/-- Copying planes is no assignment, so it does not settle unknown bits: a
two-state vector that never shared its words shows an `x`. -/
theorem twoState_shows_copied_unknown :
    (∀ before, before <+: copiedUnknown → ∀ name handle,
      (Session.empty.run before).Binds name handle → handle.storage.content? = some 1 →
      name = "t") ∧
    ∃ handle block,
      (Session.empty.run copiedUnknown).Binds "t" handle ∧
      handle.storage = .owned 1 ∧ handle.twoState = true ∧
      ((Session.empty.run copiedUnknown).load handle).block = .ok block ∧
      block.word Plane.valueHigh 0 = 0xf#32 ∧
      ((Session.empty.run copiedUnknown).load handle).bit 0 = .ok Bit.x := by
  have bound : (Session.empty.run copiedUnknown).Binds "t" {
      width := 4
      kind := .signal
      format := .bits32
      signed := false
      twoState := true
      storage := .owned 1 } := by
    unfold Binds
    decide +kernel
  have alone : ∀ count < 4, ∀ entry ∈
      (Session.empty.run (copiedUnknown.take count)).vectors.entries,
      entry.2.storage.content? = some 1 → entry.1 = "t" := by
    decide +kernel
  constructor
  · intro before isPrefix name handle isBound refers
    rw [List.prefix_iff_eq_take.1 isPrefix] at isBound
    exact alone _ (Nat.lt_succ_of_le isPrefix.length_le) _ (mem_entries_of_binds isBound) refers
  · refine ⟨_, _, bound, rfl, rfl, block_load rfl, by decide +kernel, ?_⟩
    have value : ((Session.empty.run copiedUnknown).block 1).value 0 = Bit.x := by decide +kernel
    rw [← value]
    exact LogicVector.bit_eq_ok ((sound_run_empty copiedUnknown).wellFormed _ _ bound)
      (block_load rfl) (by decide)

end Session
end FourState
