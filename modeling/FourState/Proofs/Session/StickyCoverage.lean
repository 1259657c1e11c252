import FourState.Proofs.Session.History
import FourState.Proofs.StickyCoverage

/-!
# Sticky coverage in a session

Coverage that a vector has gathered is never lost by a run that does not clear
coverage or put other planes in its place, whatever else the run does, through
whatever names, and whether its commands succeed or fail.  Only a smaller width
drops bits, and only those that it does not reach.
-/

namespace FourState

variable {clipped : Plane → Prop}

/-- The command clears the coverage of a vector, or puts other planes in its place. -/
def Command.clearsCoverage : Command → Bool
  | update _ change => change.clearsCoverage
  | _ => false

namespace Session

variable {session : Session} {name : String} {command : Command}

/-! ## One command -/

/-- No command but the three has an effect on a block that loses coverage. -/
theorem RefersAs.keepsCoverage_of_mem_effects
    {number width : Nat}
    {kind : Kind}
    (refersAs : session.RefersAs number width kind)
    (lasting : command.clearsCoverage = false)
    {effect : Effect}
    (isMember : effect ∈ session.effects number command) :
    effect.KeepsCoverage width := by
  obtain ⟨target, change, requests, isRead | isChange⟩ := mem_effects isMember
  · obtain ⟨source, handle, lsb, msb, -, -, -, rfl⟩ := isRead
    exact LogicVector.readEffect_keepsCoverage _ _ _ _
  · obtain ⟨handle, resolved, bound, refers, resolves, -, rfl⟩ := isChange
    have lastingChange : change.clearsCoverage = false := by
      obtain rfl | ⟨value, rfl⟩ := eq_update_of_request requests
      · exact lasting
      · rfl
    rw [← (refersAs target handle bound refers).1]
    exact ((session.noteReads change).load handle).effect_keepsCoverage
      ((Update.clearsCoverage_of_traverse resolves).trans lastingChange)

/-- An update that does not clear coverage keeps that of every vector. -/
theorem Sound.retains_update
    (sound : session.Sound clipped)
    (lasting : command.clearsCoverage = false)
    {target : String}
    {change : Update String}
    (requests : session.request? command = some (target, change))
    {handle : Handle}
    (bound : session.Binds name handle)
    (positions : Nat → Prop) :
    ∃ after, (session.apply command).1.Binds name after ∧
      (session.load handle).Retains positions ((session.apply command).1.load after) := by
  obtain ⟨after, boundAfter, sameWidth, sameKind, sameStorage⟩ :
      ∃ after, (session.apply command).1.Binds name after ∧ after.width = handle.width ∧
        after.kind = handle.kind ∧ after.storage = handle.storage := by
    rw [apply_of_request requests]
    exact exists_binds_update sound bound
  refine ⟨after, boundAfter, sameKind, fun _ _ inside => sameWidth.symm ▸ inside, ?_⟩
  intro position plane _ inside coverage set
  cases refers : handle.storage.content? with
  | none =>
      simp only [LogicVector.cell, load, Storage.content?_map, refers] at set
      contradiction
  | some number =>
      have refersAfter : after.storage.content? = some number := sameStorage ▸ refers
      rw [LogicVector.cell_eq_block_cell (block_load refers)] at set
      rw [LogicVector.cell_eq_block_cell (block_load refersAfter),
        block_apply sound command (sound.lt_size bound refers)]
      have fits := (sound.wellFormed name handle bound).block_fits _ (block_load refers)
      have inWords : position < 32 * (session.block number).size := by
        rw [fits.size_eq]
        exact Nat.lt_of_lt_of_le inside (le_wordCount handle.width)
      rw [Block.cell_replay _ _ inWords]
      have refersAs : session.RefersAs number handle.width handle.kind :=
        fun other otherHandle otherBound otherRefers =>
          sound.agree _ _ _ _ _ otherBound bound otherRefers refers
      exact Effect.keepsCoverage_foldl handle.width
        (fun effect isMember => refersAs.keepsCoverage_of_mem_effects lasting isMember) inside
        coverage set

/-- A vector that is resized has its old coverage as far as the new width reaches; a
width that is refused changes nothing. -/
theorem retains_resize
    {width : Nat}
    {positions : Nat → Prop}
    (holds : ∀ position, positions position → width = 0 ∨ position < width)
    {vector : LogicVector}
    (reads : session.vector name = .ok vector) :
    ∃ after, (session.apply (.resize name width)).1.vector name = .ok after ∧
      vector.Retains positions after := by
  cases resizes : vector.resize width with
  | error fault =>
      refine ⟨vector, ?_, LogicVector.retains_refl _ _⟩
      simp only [Session.apply, settle, reads, bind, Except.bind, resizes]
      exact reads
  | ok resized =>
      have positive : width ≠ 0 := by
        obtain ⟨⟨⟩, inLimits, -⟩ := bind_eq_ok_iff.1 resizes
        exact Nat.ne_of_gt (require_eq_ok_iff.1 inLimits).1
      have placed : (session.apply (.resize name width)).1 = session.place name resized := by
        simp only [Session.apply, settle, reads, bind, Except.bind, resizes]
        rfl
      refine ⟨resized, ?_, LogicVector.retains_resize resizes fun position watched =>
        (holds position watched).resolve_left positive⟩
      rw [placed, vector_eq_ok_iff]
      exact ⟨_, (binds_place_iff _ _ _ _ _).2 (Or.inl ⟨rfl, rfl⟩), load_place _ _ _⟩

/-- A command that does not clear coverage keeps that of the vector of a name, as
long as the name stands for this vector, apart from what a new width drops. -/
theorem Sound.retains_apply
    (sound : session.Sound clipped)
    (lasting : command.clearsCoverage = false)
    (stays : session.KeepsVector name command ∨ ∃ width, command = .resize name width)
    {positions : Nat → Prop}
    (holds : ∀ width, command = .resize name width → ∀ position, positions position →
      width = 0 ∨ position < width)
    {vector : LogicVector}
    (reads : session.vector name = .ok vector) :
    ∃ after, (session.apply command).1.vector name = .ok after ∧
      vector.Retains positions after := by
  obtain ⟨handle, bound, rfl⟩ := (vector_eq_ok_iff _ _ _).1 reads
  cases requests : session.request? command with
  | some request =>
      obtain ⟨after, boundAfter, retains⟩ := sound.retains_update lasting requests bound positions
      exact ⟨_, (vector_eq_ok_iff _ _ _).2 ⟨after, boundAfter, rfl⟩, retains⟩
  | none =>
      obtain (updates | sameHandle) | ⟨width, rfl⟩ := stays
      · rw [requests] at updates
        contradiction
      · have boundAfter : (session.apply command).1.Binds name handle := by
          rwa [← handle_eq_ok_iff, sameHandle, handle_eq_ok_iff]
        have sameVector : (session.apply command).1.load handle = session.load handle :=
          load_congr fun number refers =>
            block_rebinds (rebinds_apply requests) (sound.lt_size bound refers)
        exact ⟨_, (vector_eq_ok_iff _ _ _).2 ⟨handle, boundAfter, rfl⟩,
          sameVector.symm ▸ LogicVector.retains_refl _ _⟩
      · exact retains_resize (holds width rfl) reads

/-! ## Runs -/

/-- Coverage is sticky.  Take a vector that any commands have led to, and any run
in which its name goes on to stand for it, resized or not.  If no command of the
run clears coverage or puts other planes in its place, then every coverage bit
that read as set before the run reads as set after it, unless the vector was given
a width that does not reach the bit.  A width of zero is refused and drops nothing. -/
theorem coverage_sticky
    (earlier later : List Command)
    {name : String}
    {vector : LogicVector}
    (reads : (Session.empty.run earlier).vector name = .ok vector)
    (lasting : ∀ command ∈ later, command.clearsCoverage = false)
    (stays : ∀ before command, before ++ [command] <+: later →
      (Session.empty.run (earlier ++ before)).KeepsVector name command ∨
        ∃ width, command = .resize name width) :
    ∃ last,
      (Session.empty.run (earlier ++ later)).vector name = .ok last ∧
      last.kind = vector.kind ∧
      ∀ (plane : Plane) position, plane.isCoverage = true →
        (∀ width, Command.resize name width ∈ later → width = 0 ∨ position < width) →
        vector.planeBit plane position = .ok true →
        last.planeBit plane position = .ok true := by
  let positions (position : Nat) : Prop :=
    ∀ width, Command.resize name width ∈ later → width = 0 ∨ position < width
  obtain ⟨last, readsLast, retains⟩ :
      ∃ last, ((Session.empty.run earlier).run later).vector name = .ok last ∧
        vector.Retains positions last := by
    apply run_induction (motive := fun session =>
      ∃ last, session.vector name = .ok last ∧ vector.Retains positions last)
    · exact ⟨vector, reads, LogicVector.retains_refl _ _⟩
    · rintro before command isPrefix ⟨middle, readsMiddle, retains⟩
      rw [← run_append] at readsMiddle ⊢
      have isMember := isPrefix.subset (List.mem_append_right before (List.mem_singleton.2 rfl))
      have holds (width : Nat) (isResize : command = .resize name width) (position : Nat)
          (watched : positions position) : width = 0 ∨ position < width :=
        watched width (isResize ▸ isMember)
      obtain ⟨after, readsAfter, retainsAfter⟩ := (sound_run_empty _).retains_apply
        (lasting command isMember) (stays before command isPrefix) holds readsMiddle
      exact ⟨after, readsAfter, retains.trans retainsAfter⟩
  rw [← run_append] at readsLast
  refine ⟨last, readsLast, retains.kind_eq, ?_⟩
  intro plane position coverage watched covered
  rw [((sound_run_empty _).vector reads).planeBit_eq_ok_true_iff] at covered
  rw [((sound_run_empty _).vector readsLast).planeBit_eq_ok_true_iff]
  exact ⟨retains.lt_width position watched covered.1,
    retains.covered position plane watched covered.1 coverage covered.2⟩

/-- A signal that is given a value through another name. -/
def coveredSignal : List Command := [
  .create "a" 40 .signal true none none,
  .share "b" "a",
  .update "b" (.setNat 5)]

/-- New values, a collapse, a claim out of range, a refused width and a smaller one. -/
def narrowedSignal : List Command := [
  .update "b" .setUnknown,
  .update "a" (.setTwoState true),
  .update "a" (.claim 50 0),
  .resize "a" 0,
  .resize "a" 36,
  .update "a" (.setNat 0)]

/-- The highest bit that the smaller width holds stays set. -/
theorem coverage_sticky_narrowedSignal :
    ∃ vector last,
      (Session.empty.run coveredSignal).vector "a" = .ok vector ∧
      vector.planeBit Plane.signalSet 35 = .ok true ∧
      (Session.empty.run (coveredSignal ++ narrowedSignal)).vector "a" = .ok last ∧
      last.planeBit Plane.signalSet 35 = .ok true := by
  have bound : (Session.empty.run coveredSignal).Binds "a" {
      width := 40
      kind := .signal
      format := .bits32
      signed := false
      twoState := false
      storage := .owned 0 } := by
    unfold Binds
    decide +kernel
  have reads := (vector_eq_ok_iff _ _ _).2 ⟨_, bound, rfl⟩
  have stays : ∀ before command, before ++ [command] <+: narrowedSignal →
      (Session.empty.run (coveredSignal ++ before)).KeepsVector "a" command ∨
        ∃ width, command = .resize "a" width := by
    intro before command isPrefix
    have isMember := isPrefix.subset (List.mem_append_right before (List.mem_singleton.2 rfl))
    simp only [narrowedSignal, List.mem_cons, List.not_mem_nil, or_false] at isMember
    obtain rfl | rfl | rfl | rfl | rfl | rfl := isMember
    · exact Or.inl (Or.inl rfl)
    · exact Or.inl (Or.inl rfl)
    · exact Or.inl (Or.inl rfl)
    · exact Or.inr ⟨_, rfl⟩
    · exact Or.inr ⟨_, rfl⟩
    · exact Or.inl (Or.inl rfl)
  obtain ⟨last, readsLast, -, sticky⟩ := coverage_sticky coveredSignal narrowedSignal reads
    (by decide) stays
  have covered := sticky Plane.signalSet 35 rfl ?_ (by decide +kernel)
  · exact ⟨_, last, reads, by decide +kernel, readsLast, covered⟩
  intro width isMember
  simp only [narrowedSignal, List.mem_cons, List.not_mem_nil, or_false, reduceCtorEq, false_or,
    Command.resize.injEq, true_and] at isMember
  omega

end Session
end FourState
