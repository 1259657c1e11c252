import FourState.Proofs.Queries
import FourState.Proofs.Session.Run

/-!
# Word-level queries in a session

In every session that commands lead to, the queries of an allocated vector whose planes end
at its width are told by its bits.  Only an evaluation of wider operands sets a bit past the
width.
-/

namespace FourState
namespace Session

/-- In every session that commands lead to, the queries of an allocated vector of any kind and
width are told by its bits, if no plane of it has a bit past the width. -/
theorem answersByBits_run_empty
    (commands : List Command)
    (source : (Session.empty.run commands).AllocatedName)
    (ends : source.vector.EndsAtWidth) :
    source.vector.AnswersByBits :=
  source.readable.answersByBits ends

/-- A signal that rises and falls on both sides of a word boundary, and then shows a `z`. -/
def toggledSignal : List Command := [
  .create "s" 34 .signal true none none,
  .update "s" (.setNat 8589934593),
  .update "s" (.setNat 4294967296),
  .update "s" (.applyChange ['z'] 31 31)]

theorem answersByBits_run_empty_toggledSignal :
    ∃ source : (Session.empty.run toggledSignal).AllocatedName, ∃ risen fallen,
      source.name = "s" ∧ source.vector.EndsAtWidth ∧ source.vector.AnswersByBits ∧
      source.vector.isUnknown = .ok true ∧ source.vector.isNotZero = .ok true ∧
      source.vector.toggleDigits Plane.toggle01 = .ok risen ∧ risen.count '1' = 1 ∧
      source.vector.toggleDigits Plane.toggle10 = .ok fallen ∧ fallen.count '1' = 2 ∧
      fallen.reverse[33]? = some '1' := by
  have sound : (Session.empty.run toggledSignal).Sound fun _ => True := by
    apply sound_empty.run
    intro name change isMember evaluates
    simp only [toggledSignal, List.mem_cons, List.not_mem_nil, reduceCtorEq, false_or, or_false,
      Command.update.injEq] at isMember
    rcases isMember with ⟨-, rfl⟩ | ⟨-, rfl⟩ | ⟨-, rfl⟩ <;> contradiction
  obtain ⟨source, isSource, isSignal, high, one, counts, fell⟩ :
      ∃ source : (Session.empty.run toggledSignal).AllocatedName,
        source.name = "s" ∧ source.vector.kind = Kind.signal ∧
        source.vector.bit 31 = .ok Bit.z ∧ source.vector.bit 32 = .ok Bit.one ∧
        source.vector.toggleCount = .ok (1, 2) ∧
        source.vector.planeBit Plane.toggle10 33 = .ok true :=
    ⟨⟨"s", _, rfl, rfl⟩, rfl, rfl, by decide +kernel, by decide +kernel, by decide +kernel,
      by decide +kernel⟩
  have ends := (sound.vector source.reads).endsAtWidth
  have answers := answersByBits_run_empty toggledSignal source ends
  obtain ⟨unknown, asksUnknown, unknown_iff, -⟩ := answers.isUnknown
  obtain ⟨notZero, asksNotZero, notZero_iff⟩ := answers.isNotZero
  obtain ⟨rises, falls, risen, fallen, counted, writesRisen, writesFallen, showsRisen,
    showsFallen⟩ := answers.toggles (Or.inl isSignal)
  cases counts.symm.trans counted
  have isWide := (((sound.vector source.reads).planeBit_eq_ok_true_iff _ _).1 fell).1
  rw [unknown_iff.2 ⟨31, by omega, Or.inr high⟩] at asksUnknown
  rw [notZero_iff.2 ⟨32, by omega, one⟩] at asksNotZero
  obtain ⟨set, readsSet, digit⟩ := showsFallen.digit_eq 33 isWide
  cases fell.symm.trans readsSet
  exact ⟨source, risen, fallen, isSource, ends, answers, asksUnknown, asksNotZero, writesRisen,
    showsRisen.count_eq, writesFallen, showsFallen.count_eq, digit⟩

end Session
end FourState
