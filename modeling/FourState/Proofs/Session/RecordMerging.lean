import FourState.Proofs.Session.Stepwise
import Mathlib.Data.List.Basic

/-!
# Merging a record into a session

A record is merged as a whole or not at all, and it touches coverage only.  A
record that cannot be read, wherever it breaks off, or that does not suit the
vector, leaves the session as it was; a record that is skipped changes no vector;
and a record that is merged adds its coverage inside the width.
-/

namespace FourState

variable {clipped : Plane → Prop}

namespace LogicVector

/-- A vector without words has nothing that coverage could be added to. -/
theorem addCoverage_of_not_isAllocated
    {vector : LogicVector}
    (widthOnly : ¬vector.storage.isAllocated = true)
    (added : Block) :
    vector.addCoverage added = vector := by
  rcases vector with ⟨header, storage⟩
  cases storage with
  | absent => rfl
  | owned words => exact absurd rfl widthOnly
  | borrowed words => exact absurd rfl widthOnly

/-- Added coverage is united with the coverage there was, inside the width; values
stay, and so does what is past the width if nothing is set there. -/
theorem cell_addCoverage
    {vector : LogicVector}
    (wellFormed : vector.WellFormed clipped)
    (allocated : vector.storage.isAllocated = true)
    (clear : ∀ position (plane : Plane), vector.width ≤ position →
      vector.cell position plane = false)
    (added : Block)
    (position : Nat)
    (plane : Plane) :
    (vector.addCoverage added).cell position plane =
      (vector.cell position plane ||
        (plane.isCoverage && decide (position < vector.width) && added.cell position plane)) := by
  obtain ⟨block, stored⟩ := exists_block allocated
  rw [addCoverage_eq_alter]
  by_cases inside : position < vector.width
  · have inWords : position < 32 * block.size := by
      rw [(wellFormed.block_fits block stored).size_eq]
      exact Nat.lt_of_lt_of_le inside (le_wordCount vector.width)
    rw [cell_alter stored _ inWords]
    simp only [Effect.apply, if_pos inside, Cell.mark, decide_eq_true inside, Bool.and_true]
  · rw [clear position plane (Nat.not_lt.1 inside), decide_eq_false inside]
    by_cases inWords : position < 32 * block.size
    · rw [cell_alter stored _ inWords]
      simp [Effect.apply, inside]
    · rw [cell_eq_block_cell (block_alter stored _),
        Block.cell_of_size_le _ (by simpa using inWords)]
      simp

end LogicVector

namespace Session

/-- Merging a record stores the vector with the coverage of the record, or leaves
the session alone. -/
theorem apply_mergeRecord
    {session : Session}
    {name : String}
    {vector : LogicVector}
    (reads : session.vector name = .ok vector)
    (text : List Char)
    (options : RecordOptions) :
    session.apply (.update name (.mergeRecord text options)) =
      (match (vector.mergeRecord text options).result with
        | .ok (updated, _) => session.store name updated
        | .error _ => session,
        (vector.mergeRecord text options).map fun answer => .rest answer.2) := by
  have resolves : (Update.mergeRecord text options).traverse session.vector =
      .ok (.mergeRecord text options) := rfl
  rw [Session.apply, update_of_noteReads_eq reads resolves rfl, LogicVector.update]
  cases merges : vector.mergeRecord text options with
  | mk result log => cases result <;> rfl

/-- Merging a record is atomic, and touches coverage only.  Whatever commands have
led to a vector without bits past its width, and whatever text and options a record
is merged with: if the merge fails, the session is what it was.  If it succeeds, a
header and its words have been taken from the text, the kind is that of the vector,
and every name has its handle, so width, kind, flags and place of the words stay.  A
record of the same width that holds words, merged into a vector that has words, adds
its coverage bits inside the width and changes no other bit of the vector; any other
record changes no vector at all.  A merge that runs word by word does the same, and if
it stops, it has written no word. -/
theorem mergeRecord_atomic
    (commands : List Command)
    {name : String}
    {vector : LogicVector}
    (reads : (Session.empty.run commands).vector name = .ok vector)
    (clear : ∀ position (plane : Plane), vector.width ≤ position →
      vector.cell position plane = false)
    (text : List Char)
    (options : RecordOptions) :
    let session := Session.empty.run commands
    let after := (session.apply (.update name (.mergeRecord text options))).1
    let outcome := (session.apply (.update name (.mergeRecord text options))).2
    let performed := session.execute (.update name (.mergeRecord text options))
    (∀ failure, outcome.result = .error failure → after = session) ∧
      (∀ reply, outcome.result = .ok reply →
        ∃ width descriptor middle added rest,
          Reader.header text = .ok (width, descriptor) middle ∧
          Reader.words width descriptor middle = .ok added rest ∧
          reply = .rest rest ∧ descriptor.kind = vector.kind ∧
          (∀ other, after.handle other = session.handle other) ∧
          if width = vector.width ∧ descriptor.ownsStorage = true ∧
              vector.storage.isAllocated = true then
            ∃ merged, after.vector name = .ok merged ∧
              ∀ position (plane : Plane), merged.cell position plane =
                (vector.cell position plane ||
                  (plane.isCoverage && decide (position < vector.width) &&
                    added.cell position plane))
          else ∀ other, after.vector other = session.vector other) ∧
      performed.Agrees (session.apply (.update name (.mergeRecord text options))) ∧
      ∀ stop, performed.result = .error stop → performed.session = session := by
  generalize starts : Session.empty.run commands = session at reads
  have sound : session.Sound fun plane => plane.isCoverage = false :=
    starts ▸ sound_run_empty commands
  obtain ⟨handle, bound, rfl⟩ := (vector_eq_ok_iff _ _ _).1 reads
  dsimp only
  refine ⟨?_, ?_, execute_agrees sound _, fun _ => session_perform_of_stop sound rfl⟩
  all_goals rw [apply_mergeRecord reads]
  · intro failure fails
    cases merges : ((session.load handle).mergeRecord text options).result with
    | error cause => rfl
    | ok answer =>
        rw [Outcome.map, merges] at fails
        contradiction
  · intro reply succeeds
    obtain ⟨⟨updated, rest⟩, merges, rfl⟩ := Outcome.result_map_eq_ok_iff.1 succeeds
    obtain ⟨width, descriptor, middle, added, takesHeader, sameKind, -, takesWords, rfl⟩ :=
      LogicVector.mergeRecord_eq_ok_iff.1 merges
    refine ⟨width, descriptor, middle, added, rest, takesHeader, takesWords, rfl, sameKind, ?_⟩
    rw [merges]
    dsimp only
    by_cases suitable : width = (session.load handle).width ∧ descriptor.ownsStorage = true
    · rw [if_pos suitable]
      refine ⟨handle_store bound rfl, ?_⟩
      by_cases allocated : (session.load handle).storage.isAllocated = true
      · rw [if_pos ⟨suitable.1, suitable.2, allocated⟩]
        have replaces : session.Replaces handle (fun block => block.alter
            (Effect.absorb handle.width added.cell).apply)
            ((session.load handle).addCoverage added) := by
          rw [LogicVector.addCoverage_eq_alter]
          exact ⟨rfl, rfl, rfl⟩
        refine ⟨(session.load handle).addCoverage added, ?_, ?_⟩
        · rw [vector_eq_ok_iff]
          refine ⟨handle, ?_, load_store sound bound replaces⟩
          rw [← handle_eq_ok_iff, handle_store bound rfl, handle_eq_ok_iff]
          exact bound
        · exact LogicVector.cell_addCoverage (sound.wellFormed name handle bound) allocated clear
            added
      · rw [if_neg fun all => allocated all.2.2,
          LogicVector.addCoverage_of_not_isAllocated allocated]
        exact congrFun (alike_store_self bound).vector_eq
    · rw [if_neg suitable, if_neg fun all => suitable ⟨all.1, all.2.1⟩]
      exact ⟨handle_store bound rfl, congrFun (alike_store_self bound).vector_eq⟩

/-- A signal that has been given a value. -/
def assignedSignal : List Command := [
  .create "a" 4 .signal true none none,
  .update "a" (.setNat 5)]

/-- Records for it, one that ends early and one whose set plane has bits past the
width: the first leaves no trace, the second is merged. -/
theorem mergeRecord_atomic_assignedSignal :
    ∃ vector merged,
      (Session.empty.run assignedSignal).vector "a" = .ok vector ∧
      ((Session.empty.run assignedSignal).apply (.update "a"
        (.mergeRecord "4 17 0 f 2 0 ff".toList ⟨true, true⟩))).1 =
          Session.empty.run assignedSignal ∧
      ((Session.empty.run assignedSignal).apply (.update "a"
        (.mergeRecord "4 17 0 f 2 0 ff 0 next".toList ⟨true, true⟩))).1.vector "a" =
          .ok merged ∧
      vector.cell 1 Plane.toggle01 = false ∧ merged.cell 1 Plane.toggle01 = true ∧
      merged.cell 5 Plane.signalSet = false := by
  obtain ⟨vector, reads, allocated, width, unmarked⟩ :
      ∃ vector, (Session.empty.run assignedSignal).vector "a" = .ok vector ∧
        vector.storage.isAllocated = true ∧ vector.width = 4 ∧
        vector.cell 1 Plane.toggle01 = false :=
    ⟨_, rfl, rfl, rfl, rfl⟩
  have clean : (Session.empty.run assignedSignal).Sound fun _ => True := by
    apply sound_empty.run
    intro name change isCommand evaluates
    simp only [assignedSignal, List.mem_cons, reduceCtorEq, Command.update.injEq,
      List.not_mem_nil, or_false, false_or] at isCommand
    rw [isCommand.2] at evaluates
    contradiction
  have clear (position : Nat) (plane : Plane) (outside : vector.width ≤ position) :
      vector.cell position plane = false :=
    (clean.vector reads).cell_of_width_le outside plane
  have cut := (mergeRecord_atomic assignedSignal reads clear "4 17 0 f 2 0 ff".toList
    ⟨true, true⟩).1 (.record (.unexpectedEnd .plane) []) (by decide +kernel)
  obtain ⟨_, _, _, added, _, takesHeader, takesWords, -, -, -, merges⟩ :=
    (mergeRecord_atomic assignedSignal reads clear "4 17 0 f 2 0 ff 0 next".toList
      ⟨true, true⟩).2.1 (.rest " next".toList) (by decide +kernel)
  have header : Reader.header "4 17 0 f 2 0 ff 0 next".toList =
      .ok (4, ⟨.signal, .bits32, true, false, false⟩) " 0 f 2 0 ff 0 next".toList := by
    decide +kernel
  cases header.symm.trans takesHeader
  have marked : added.cell 1 Plane.toggle01 = true := by
    have test : ((fun block => Block.cell block 1 Plane.toggle01) <$>
        Reader.words 4 ⟨.signal, .bits32, true, false, false⟩) " 0 f 2 0 ff 0 next".toList =
        .ok true " next".toList := by decide +kernel
    rw [Reader.map_of_ok _ takesWords] at test
    exact (EStateM.Result.ok.inj test).1
  rw [if_pos ⟨width.symm, rfl, allocated⟩] at merges
  obtain ⟨merged, readsMerged, cells⟩ := merges
  refine ⟨vector, merged, reads, cut, readsMerged, unmarked, ?_, ?_⟩
  · rw [cells, width, marked, unmarked]
    rfl
  · rw [cells, width, clear 5 _ (by omega)]
    rfl

end Session
end FourState
