import FourState.Proofs.Guarded.Operator
import FourState.Proofs.Operands
import FourState.Proofs.Session.NotedReads

/-!
# Guarded operators in a session

An operator on the vectors of a session, with each machine step guarded: reading
the operands, computing the value, noting the reads of a part-select and assigning
the target.  In every session that commands lead to, it runs as the operator does,
so none of these steps can fail.
-/

namespace FourState

namespace Operation

variable {operation : Operation LogicVector} {target other : LogicVector}

/-- Another target can be operated on if it can be read itself. -/
theorem readable_of_target
    (otherReadable : other.Readable)
    (readable : ∀ vector ∈ operation.operands target, vector.Readable) :
    ∀ vector ∈ operation.operands other, vector.Readable := by
  cases operation with
  | increment | decrement => simpa [operands] using otherReadable
  | _ => exact readable

/-- Only the width of the target counts for the range of an operation. -/
theorem InRange.of_width
    (inRange : operation.InRange target)
    (sameWidth : other.width = target.width) :
    operation.InRange other := by
  cases operation with
  | partAssign source lsb msb => exact ⟨inRange.1, sameWidth ▸ inRange.2⟩
  | _ => exact inRange

end Operation

namespace Guarded

/-- Note the bits that an operation reads from a memory. -/
def noteReads (session : Session) : Operation String → Guarded Session
  | .partSelect source lsb msb =>
      match session.vector source with
      | .ok vector => do
          let marked ← markRead vector lsb msb
          return session.store source marked
      | .error _ => return session
  | _ => return session

/-- Carry out an operation on the vector of a name. -/
def update (session : Session) (name : String) (operation : Operation String) :
    Guarded (Session × Outcome Reply) :=
  let resolved := do
    let _ ← session.vector name
    operation.traverse session.vector
  match resolved with
  | .error failure => return (session, .quiet (.error failure))
  | .ok resolved => do
      let noted ← noteReads session operation
      match noted.vector name with
      | .error failure => return (noted, .quiet (.error failure))
      | .ok target => do
          let outcome ← operate target resolved
          let stored := match outcome.result with
            | .ok answer => noted.store name answer.1
            | .error _ => noted
          return (stored, outcome.map fun answer => .flag answer.2)

end Guarded

namespace Session

section Steps

variable
  {session : Session}
  {name : String}
  {operation : Operation String}
  {target : LogicVector}
  {resolved : Operation LogicVector}

/-- The reads of an operation whose operands can be read are noted without a fault. -/
theorem noteReads_eq_ok
    (resolves : operation.traverse session.vector = .ok resolved)
    (readable : ∀ vector ∈ resolved.operands target, vector.Readable)
    (inRange : resolved.InRange target) :
    Guarded.noteReads session operation = .ok (session.noteReads (.operate operation)) := by
  cases operation with
  | partSelect source lsb msb =>
      obtain ⟨vector, reads, same⟩ := bind_eq_ok_iff.1 resolves
      cases same
      have sourceReadable := readable vector (List.mem_singleton_self vector)
      obtain ⟨block, stored⟩ := LogicVector.exists_block sourceReadable.isAllocated
      have inBlock : msb / 32 < block.size := by
        rw [(sourceReadable.wellFormed.block_fits block stored).size_eq]
        exact div_lt_wordCount inRange.2
      obtain ⟨marked, marks, runs, -⟩ := Guarded.markRead_agrees stored inRange
        sourceReadable.wellFormed.width_le inBlock
      unfold Guarded.noteReads noteReads
      simp only [reads, runs]
      rw [Guarded.bind_of_ok marks]
      rfl
  | _ => rfl

/-- An operation on readable vectors is carried out without a fault. -/
theorem Sound.guarded_update
    (sound : session.Sound fun plane => plane.isCoverage = false)
    (reads : session.vector name = .ok target)
    (resolves : operation.traverse session.vector = .ok resolved)
    (allocated : target.storage.isAllocated = true)
    (readable : ∀ vector ∈ resolved.operands target, vector.Readable)
    (inRange : resolved.InRange target) :
    Guarded.update session name operation = .ok (session.update name (.operate operation)) ∧
      ((∃ reply, (session.update name (.operate operation)).2.result = .ok reply) ∨
        ∃ division left right, resolved = .divide division left right ∧
          (session.update name (.operate operation)).2.result =
            .error (.divisionByZero division)) := by
  obtain ⟨handle, bound, rfl⟩ := (vector_eq_ok_iff _ _ _).1 reads
  have boundNoted := (binds_noteReads_iff session (.operate operation) name handle).2 bound
  have readsNoted := (vector_eq_ok_iff _ _ _).2 ⟨handle, boundNoted, rfl⟩
  have notedReadable : ((session.noteReads (.operate operation)).load handle).Readable := by
    refine ⟨?_, (sound.noteReads _).wellFormed name handle boundNoted⟩
    simpa [load] using allocated
  obtain ⟨operates, outcome⟩ := Guarded.operate_eq_ok notedReadable
    (Operation.readable_of_target notedReadable readable) (inRange.of_width rfl)
  have resolvesBoth : (session.vector name >>= fun _ => operation.traverse session.vector) =
      .ok resolved := by
    rw [reads]
    exact resolves
  have updates : ((session.noteReads (.operate operation)).load handle).update
      (.operate resolved) =
        (((session.noteReads (.operate operation)).load handle).operate resolved).map
          fun answer => (answer.1, Reply.flag answer.2) := rfl
  rw [update_eq_of_resolved bound (Update.traverse_operate resolves), updates]
  constructor
  · unfold Guarded.update
    simp only [resolvesBoth]
    rw [Guarded.bind_of_ok (noteReads_eq_ok resolves readable inRange)]
    simp only [readsNoted]
    rw [Guarded.bind_of_ok operates]
    generalize ((session.noteReads (.operate operation)).load handle).operate resolved = computed
    rcases computed with ⟨result, log⟩
    cases result <;> rfl
  · obtain ⟨answer, succeeds⟩ | ⟨division, left, right, divides, fails⟩ := outcome
    · refine Or.inl ⟨.flag answer.2, ?_⟩
      simp only [Outcome.map, succeeds]
      rfl
    · refine Or.inr ⟨division, left, right, divides, ?_⟩
      simp only [Outcome.map, fails]
      rfl

end Steps

/-- In every session that commands lead to, every operator on an allocated target and
allocated operands of any widths, kinds, flags and contents runs to its end with each
of its machine steps guarded: no word or plane is missing, no shift is as long as a
word, no difference, sum or product leaves the machine integers, and every assertion
holds.  It gives an answer, or, a division only, the failure for a zero divisor. -/
theorem operators_never_fault
    (commands : List Command)
    {name : String}
    {operation : Operation String}
    {target : LogicVector}
    {resolved : Operation LogicVector}
    (reads : (Session.empty.run commands).vector name = .ok target)
    (resolves : operation.traverse (Session.empty.run commands).vector = .ok resolved)
    (allocated : target.storage.isAllocated = true)
    (operandsAllocated : ∀ operand ∈ resolved.operands target,
      operand.storage.isAllocated = true)
    (inRange : resolved.InRange target) :
    Guarded.update (Session.empty.run commands) name operation =
        .ok ((Session.empty.run commands).update name (.operate operation)) ∧
      ((∃ reply, ((Session.empty.run commands).update name (.operate operation)).2.result =
          .ok reply) ∨
        ∃ division left right, resolved = .divide division left right ∧
          ((Session.empty.run commands).update name (.operate operation)).2.result =
            .error (.divisionByZero division)) := by
  refine (sound_run_empty commands).guarded_update reads resolves allocated ?_ inRange
  intro operand isOperand
  obtain rfl | ⟨source, readsSource⟩ := Operation.mem_operands_of_traverse resolves isOperand
  · exact readable_run_empty reads allocated
  · exact readable_run_empty readsSource (operandsAllocated operand isOperand)

/-- A memory of three words under two names. -/
def sharedMemory : List Command := [
  .create "m" 70 .memory true none none,
  .update "m" (.setWord (-2)),
  .share "n" "m"]

theorem operators_never_fault_sharedMemory :
    Guarded.update (Session.empty.run sharedMemory) "m" (.partSelect "n" 3 69) =
        .ok ((Session.empty.run sharedMemory).update "m" (.operate (.partSelect "n" 3 69))) ∧
      ∃ reply, ((Session.empty.run sharedMemory).update "m"
        (.operate (.partSelect "n" 3 69))).2.result = .ok reply := by
  obtain ⟨target, source, reads, resolves, allocated, sourceAllocated, inRange⟩ :
      ∃ target source,
        (Session.empty.run sharedMemory).vector "m" = .ok target ∧
        (Operation.partSelect "n" 3 69).traverse (Session.empty.run sharedMemory).vector =
          .ok (.partSelect source 3 69) ∧
        target.storage.isAllocated = true ∧ source.storage.isAllocated = true ∧
        (3 ≤ 69 ∧ 69 < source.width) :=
    ⟨_, _, rfl, rfl, rfl, rfl, by decide +kernel⟩
  obtain ⟨runs, answers | ⟨division, left, right, divides, -⟩⟩ :=
    operators_never_fault sharedMemory reads resolves allocated
      (by simpa [Operation.operands] using sourceAllocated) inRange
  · exact ⟨runs, answers⟩
  · contradiction

end Session
end FourState
