import FourState.Proofs.Copying
import FourState.Proofs.Session.Aliasing
import FourState.Proofs.Session.Arithmetic

/-!
# Copied and resized vectors in a session

In every session that commands lead to, a range can be copied out of every vector of
the same kind, at any distance from a word boundary and also out of the words of the
target, and a vector can be given every width.  No plane is treated differently: a
bit is where it has been moved to, or it is as new.
-/

namespace FourState
namespace Session

/-! ## One command -/

section

variable {session : Session} (target source : session.AllocatedName)

/-- A range of a vector of the same kind can be copied; the words may be shared. -/
theorem Sound.exists_copyRange
    (sound : session.Sound fun plane => plane.isCoverage = false)
    (sameKind : target.vector.kind = source.vector.kind)
    {lsb : Nat}
    (inSource : lsb < source.vector.width) :
    ∃ updated,
      session.Leaves (.update target.name (.copyRange source.name lsb)) target.name updated ∧
      updated.toHeader = target.vector.toHeader ∧
      ∀ position, updated.cell position =
        if position < target.vector.width ∧ lsb + position < source.vector.width then
          source.vector.cell (lsb + position)
        else Cell.empty := by
  obtain ⟨updated, copies, sameHeader, cells⟩ := LogicVector.exists_copyRange
    (sound.readable target) source.isAllocated sameKind inSource
  have resolves : (Update.copyRange source.name lsb).traverse session.vector =
      .ok (.copyRange source.vector lsb) := by
    rw [Update.traverse, source.reads]
    rfl
  refine ⟨updated, sound.leaves_update target.reads resolves (by simp)
    (Outcome.ofChange_eq_ok_iff.2 ⟨copies, rfl⟩), sameHeader, cells⟩

/-- Copying a vector and copying its range from the lowest bit on leave the same. -/
theorem Sound.exists_copyFrom
    (sound : session.Sound fun plane => plane.isCoverage = false)
    (sameWidth : target.vector.width = source.vector.width)
    (sameKind : target.vector.kind = source.vector.kind)
    (ends : source.vector.EndsAtWidth) :
    ∃ updated,
      session.Leaves (.update target.name (.copyFrom source.name)) target.name updated ∧
      session.Leaves (.update target.name (.copyRange source.name 0)) target.name updated := by
  obtain ⟨updated, copies, copiesRange⟩ := LogicVector.copyRange_zero_eq_copyFrom
    (sound.readable target) (sound.readable source) sameWidth sameKind ends
  have resolves : (Update.copyFrom source.name).traverse session.vector =
      .ok (.copyFrom source.vector) := by
    rw [Update.traverse, source.reads]
    rfl
  have resolvesRange : (Update.copyRange source.name 0).traverse session.vector =
      .ok (.copyRange source.vector 0) := by
    rw [Update.traverse, source.reads]
    rfl
  exact ⟨updated,
    sound.leaves_update target.reads resolves (by simp)
      (Outcome.ofChange_eq_ok_iff.2 ⟨copies, rfl⟩),
    sound.leaves_update target.reads resolvesRange (by simp)
      (Outcome.ofChange_eq_ok_iff.2 ⟨copiesRange, rfl⟩)⟩

/-- An allocated vector can be resized to every width inside the limits. -/
theorem exists_resize
    {width : Nat}
    (inLimits : 0 < width ∧ width ≤ maxWidth) :
    ∃ resized, session.Leaves (.resize target.name width) target.name resized ∧
      target.vector.IsResized width resized := by
  obtain ⟨resized, resizes, isResized⟩ := LogicVector.exists_resize target.isAllocated inLimits
  have applies : session.apply (.resize target.name width) =
      (session.place target.name resized, .quiet (.ok .done)) := by
    simp only [apply, target.reads, resizes, settle, bind, Except.bind, pure, Except.pure]
    rfl
  refine ⟨resized, ⟨⟨.done, by rw [applies]; rfl⟩, ?_⟩, isResized⟩
  rw [applies]
  exact vector_place resized

end

/-! ## All of them -/

/-- What range copies and new widths do to the allocated vectors of a session. -/
structure MovesPlanes (session : Session) : Prop where
  /-- The planes of the target have the old bits of the range, and zeros past the end of
  the source. -/
  copyRange : ∀ (target source : session.AllocatedName) (lsb : Nat),
    target.vector.kind = source.vector.kind → lsb < source.vector.width →
    ∃ updated,
      session.Leaves (.update target.name (.copyRange source.name lsb)) target.name updated ∧
      updated.toHeader = target.vector.toHeader ∧
      ∀ position, updated.cell position =
        if position < target.vector.width ∧ lsb + position < source.vector.width then
          source.vector.cell (lsb + position)
        else Cell.empty
  /-- The planes keep the bits below both widths, and are as new above them. -/
  resize : ∀ (target : session.AllocatedName) (width : Nat), 1 ≤ width → width ≤ 65536 →
    ∃ resized, session.Leaves (.resize target.name width) target.name resized ∧
      target.vector.IsResized width resized
  /-- A vector without bits past its width that is widened, and then resized to its old
  width, has all its planes as before. -/
  restore : ∀ (target : session.AllocatedName) (width : Nat), target.vector.EndsAtWidth →
    target.vector.width ≤ width → width ≤ 65536 →
    ∃ restored,
      (session.apply (.resize target.name width)).1.Leaves
        (.resize target.name target.vector.width) target.name restored ∧
      restored.toHeader = target.vector.toHeader ∧ restored.storage.isOwned = true ∧
      ∀ position, restored.cell position = target.vector.cell position
  /-- Out of a vector without bits past its width, the range from the lowest bit on is
  the whole vector to a target of the same width. -/
  copyAll : ∀ target source : session.AllocatedName,
    target.vector.width = source.vector.width → target.vector.kind = source.vector.kind →
    source.vector.EndsAtWidth →
    ∃ updated,
      session.Leaves (.update target.name (.copyFrom source.name)) target.name updated ∧
      session.Leaves (.update target.name (.copyRange source.name 0)) target.name updated

/-- In every session that commands lead to, range copies and new widths are exact on every
plane. -/
theorem movesPlanes_run_empty (commands : List Command) :
    (Session.empty.run commands).MovesPlanes where
  copyRange target source _ sameKind inSource :=
    (sound_run_empty commands).exists_copyRange target source sameKind inSource
  resize target _ positive inLimit := exists_resize target ⟨positive, inLimit⟩
  restore target width ends wider inLimit := by
    have positive : 0 < target.vector.width := target.readable.wellFormed.width_pos
    obtain ⟨widened, widens, isWidened⟩ :=
      exists_resize target ⟨Nat.lt_of_lt_of_le positive wider, inLimit⟩
    obtain ⟨restored, narrows, isRestored⟩ := exists_resize
      ⟨target.name, widened, widens.vector_eq, Storage.isAllocated_of_isOwned isWidened.isOwned⟩
      ⟨positive, target.readable.wellFormed.width_le⟩
    obtain ⟨sameHeader, sameCells⟩ := isWidened.restores isRestored wider ends
    exact ⟨restored, narrows, sameHeader, isRestored.isOwned, sameCells⟩
  copyAll target source sameWidth sameKind ends :=
    (sound_run_empty commands).exists_copyFrom target source sameWidth sameKind ends

/-- A signal of two words with three bits given in the second one, and another name of its
words. -/
def sharedSignal : List Command := [
  .create "a" 40 .signal true none none,
  .update "a" (.applyChange ['1', 'z', '0'] 36 34),
  .share "b" "a"]

theorem movesPlanes_run_empty_sharedSignal :
    (Session.empty.run sharedSignal).MovesPlanes ∧
    (∃ updated, (Session.empty.run sharedSignal).Leaves
        (.update "a" (.copyRange "b" 35)) "a" updated ∧
      (updated.cell 0).value = Bit.z ∧ updated.cell 1 Plane.signalSet = true ∧
      updated.cell 5 = Cell.empty) ∧
    (∃ restored, ((Session.empty.run sharedSignal).apply (.resize "a" 65)).1.Leaves
        (.resize "a" 40) "a" restored ∧
      restored.cell 36 Plane.signalSet = true) ∧
    ∃ updated, (Session.empty.run sharedSignal).Leaves (.update "a" (.copyFrom "b")) "a" updated ∧
      (Session.empty.run sharedSignal).Leaves (.update "a" (.copyRange "b" 0)) "a" updated := by
  obtain ⟨target, source, isTarget, isSource, targetWidth, sourceWidth, sameKind, highZ, given,
      sourceGiven⟩ :
      ∃ target source : (Session.empty.run sharedSignal).AllocatedName,
        target.name = "a" ∧ source.name = "b" ∧ target.vector.width = 40 ∧
        source.vector.width = 40 ∧ target.vector.kind = source.vector.kind ∧
        (source.vector.cell 35).value = Bit.z ∧ target.vector.cell 36 Plane.signalSet = true ∧
        source.vector.cell 36 Plane.signalSet = true :=
    ⟨⟨"a", _, rfl, rfl⟩, ⟨"b", _, rfl, rfl⟩, rfl, rfl, rfl, rfl, rfl, rfl, rfl, rfl⟩
  have clean : (Session.empty.run sharedSignal).Sound fun _ => True := by
    apply sound_empty.run
    intro name change isCommand evaluates
    simp only [sharedSignal, List.mem_cons, reduceCtorEq, Command.update.injEq, List.not_mem_nil,
      or_false, false_or] at isCommand
    rw [isCommand.2] at evaluates
    contradiction
  have ends := (clean.vector target.reads).endsAtWidth
  have sourceEnds := (clean.vector source.reads).endsAtWidth
  have moves := movesPlanes_run_empty sharedSignal
  obtain ⟨ranged, copiesRange, -, cells⟩ := moves.copyRange target source 35 sameKind (by omega)
  obtain ⟨restored, restores, -, -, sameCells⟩ :=
    moves.restore target 65 ends (by omega) (by decide)
  have copiesAll := moves.copyAll target source (targetWidth.trans sourceWidth.symm) sameKind
    sourceEnds
  rw [isTarget, isSource] at copiesRange copiesAll
  rw [isTarget, targetWidth] at restores
  refine ⟨moves, ⟨ranged, copiesRange, ?_, ?_, ?_⟩, ⟨restored, restores, ?_⟩, copiesAll⟩
  · rw [cells, if_pos (by omega), highZ]
  · rw [cells, if_pos (by omega), sourceGiven]
  · rw [cells, if_neg (by omega)]
  · rw [sameCells, given]

end Session
end FourState
