import FourState.Proofs.Gate
import FourState.Proofs.Session.NotedReads

/-!
# The gate for values in a session

Whatever command gives a value to a name, its target passes the gate for values.
A part-select notes what it reads before the target is given its value, so a
memory that is read into itself, or into a vector with the same words, shows both
traces; nothing else leaves one.
-/

namespace FourState

variable {clipped : Plane → Prop}

namespace Update

variable {operand other error : Type}

theorem isEvaluation_of_isAssigning
    {change : Update operand}
    (assigns : change.isAssigning = true) :
    change.isEvaluation = false := by
  cases change with
  | evaluate => contradiction
  | _ => rfl

/-- The vector whose value is assigned is one that an operand stands for. -/
theorem exists_operand_of_setValue
    {resolve : operand → Except error other}
    {change : Update operand}
    {source : other}
    (succeeds : change.traverse resolve = .ok (.setValue source)) :
    ∃ name, resolve name = .ok source := by
  cases change with
  | setValue name =>
      obtain ⟨vector, resolves, same⟩ := bind_eq_ok_iff.1 succeeds
      cases same
      exact ⟨name, resolves⟩
  | copyFrom name | merge name | copyRange name lsb | operate operation =>
      obtain ⟨vector, resolves, same⟩ := bind_eq_ok_iff.1 succeeds
      cases same
  | evaluate evaluation left right =>
      obtain ⟨leftVector, resolvesLeft, succeeds⟩ := bind_eq_ok_iff.1 succeeds
      obtain ⟨rightVector, resolvesRight, same⟩ := bind_eq_ok_iff.1 succeeds
      cases same
  | setSigned | setTwoState | assign | applyChange | setNat | setWord | setUnknown | extendFrom
  | commit | claim | resetCoverage | evaluateUnary | mergeRecord => cases succeeds

end Update

namespace Session

variable {session : Session} {name : String} {change : Update String}

/-- A part-select reads inside the target that it shares words with. -/
theorem reaches_of_notesRead
    (sound : session.Sound clipped)
    {handle : Handle}
    (bound : session.Binds name handle)
    {resolved : Update LogicVector}
    (resolves : change.traverse session.vector = .ok resolved)
    {target : LogicVector}
    {answer : LogicVector × Reply}
    (succeeds : (target.update resolved).result = .ok answer)
    {position : Nat}
    (reads : session.NotesRead name change position) :
    position < handle.width ∧ resolved.Reaches handle.width position := by
  obtain ⟨source, lsb, msb, rfl, shares, -, belowTop⟩ := reads
  obtain ⟨sourceHandle, sourceBound, rfl⟩ := exists_source_of_partSelect resolves
  obtain ⟨first, second, number, firstBound, secondBound, sourceRefers, refers⟩ := shares
  cases sourceBound.symm.trans firstBound
  cases bound.symm.trans secondBound
  obtain ⟨marked, marks⟩ := LogicVector.exists_markRead succeeds
  have inSource : msb < sourceHandle.width := (LogicVector.markRead_eq_alter marks).1.2
  rw [(sound.agree _ _ _ _ _ sourceBound bound sourceRefers refers).1] at inSource
  have inside := Nat.lt_of_le_of_lt belowTop inSource
  exact ⟨inside, inside⟩

/-! ## Every command that gives a value -/

/-- In a sound session, an update that gives an allocated vector a value and succeeds
has passed the gate. -/
theorem gated_of_update
    (sound : session.Sound clipped)
    (assigns : change.isAssigning = true)
    {target : LogicVector}
    (reads : session.vector name = .ok target)
    (allocated : target.storage.isAllocated = true)
    {reply : Reply}
    (succeeds : (session.update name change).2.result = .ok reply) :
    ∃ resolved updated,
      change.traverse session.vector = .ok resolved ∧
      (session.update name change).1.vector name = .ok updated ∧
      target.Gated resolved (session.NotesRead name change) reply updated := by
  obtain ⟨handle, bound, rfl⟩ := (vector_eq_ok_iff _ _ _).1 reads
  obtain ⟨resolved, resolves⟩ : ∃ resolved, change.traverse session.vector = .ok resolved := by
    cases resolves : change.traverse session.vector with
    | ok resolved => exact ⟨resolved, rfl⟩
    | error failure =>
        rw [update_of_unresolved bound resolves] at succeeds
        contradiction
  have wellFormed := sound.wellFormed name handle bound
  have assignsResolved := (Update.isAssigning_of_traverse resolves).trans assigns
  obtain ⟨isRead, sameOutcome, readsAfter, only, all⟩ := update_of_resolved sound bound resolves
  rw [sameOutcome] at succeeds
  obtain ⟨⟨updated, _⟩, updates, same⟩ := Outcome.result_map_eq_ok_iff.1 succeeds
  cases same
  have isUpdated : (session.load handle).updated resolved = updated := by
    rw [LogicVector.updated, updates]
  rw [isUpdated] at readsAfter
  have sourceNotEmpty (source : LogicVector) (sets : resolved = .setValue source) :
      0 < source.width := by
    rw [sets] at resolves
    obtain ⟨operand, readsOperand⟩ := Update.exists_operand_of_setValue resolves
    exact (sound.vector readsOperand).width_pos
  have gated := LogicVector.gated_of_update wellFormed allocated sourceNotEmpty assignsResolved
    updates
  have wellFormedAfter : updated.WellFormed clipped := by
    refine wellFormed.update (sound.source resolves) ?_ updates
    intro evaluates
    rw [Update.isEvaluation_of_isAssigning assignsResolved] at evaluates
    contradiction
  have tells (position : Nat) :
      isRead position = true ↔ session.NotesRead name change position :=
    ⟨only position, all _ updates position⟩
  refine ⟨resolved, updated.noteRead isRead, resolves, readsAfter, ?_⟩
  rw [← funext fun position => propext (tells position)]
  exact gated.noteRead wellFormedAfter fun position isTrue =>
    reaches_of_notesRead sound bound resolves updates (only position isTrue)

/-- The single gate for values: in every session that commands lead to, a command that
gives an allocated vector a value and succeeds leaves exactly the traces of the gate.
Outside its reach nothing changes; inside it every bit becomes the computed one, the
coverage follows from the change of the bit, and every other plane is left as it was. -/
theorem assigning_passes_gate
    (commands : List Command)
    {command : Command}
    {name : String}
    {change : Update String}
    (requests : (Session.empty.run commands).request? command = some (name, change))
    (assigns : change.isAssigning = true)
    {target : LogicVector}
    (reads : (Session.empty.run commands).vector name = .ok target)
    (allocated : target.storage.isAllocated = true)
    {reply : Reply}
    (succeeds : ((Session.empty.run commands).apply command).2.result = .ok reply) :
    ∃ resolved updated,
      change.traverse (Session.empty.run commands).vector = .ok resolved ∧
      ((Session.empty.run commands).apply command).1.vector name = .ok updated ∧
      target.Gated resolved ((Session.empty.run commands).NotesRead name change) reply
        updated := by
  rw [apply_of_request requests] at succeeds ⊢
  exact gated_of_update (sound_run_empty commands) assigns reads allocated succeeds

/-- A memory whose upper bits are selected into it as a whole. -/
theorem assigning_passes_gate_selectedMemory :
    ∃ commands target resolved updated,
      (Session.empty.run commands).vector "m" = .ok target ∧
      ((Session.empty.run commands).apply
        (.update "m" (.operate (.partSelect "m" 2 4)))).1.vector "m" = .ok updated ∧
      target.Gated resolved ((Session.empty.run commands).NotesRead "m"
        (.operate (.partSelect "m" 2 4))) (.flag true) updated := by
  obtain ⟨commands, isCommands⟩ : ∃ commands : List Command, commands = [
      .create "m" 5 .memory true none none,
      .update "m" (.setNat 21)] := ⟨_, rfl⟩
  obtain ⟨target, reads, allocated, succeeds⟩ :
      ∃ target, (Session.empty.run commands).vector "m" = .ok target ∧
        target.storage.isAllocated = true ∧
        ((Session.empty.run commands).apply
          (.update "m" (.operate (.partSelect "m" 2 4)))).2.result = .ok (.flag true) := by
    rw [isCommands]
    exact ⟨_, rfl, rfl, by decide +kernel⟩
  obtain ⟨resolved, updated, -, readsAfter, gated⟩ :=
    assigning_passes_gate commands rfl rfl reads allocated succeeds
  exact ⟨commands, target, resolved, updated, reads, readsAfter, gated⟩

end Session
end FourState
