import FourState.Proofs.Display
import FourState.Proofs.Session.ValueChange

/-!
# Display texts of a session

The display text of an allocated vector carries its value from one session to another:
as a literal it makes a plain vector of the same bits, and its letters give them to any
four-state vector of the width.
-/

namespace FourState

/-- What the display text of a vector tells. -/
structure LogicVector.DisplaysValue (vector : LogicVector) : Prop where
  /-- Behind the width there are as many letters as bits. -/
  display_eq : vector.display = Numeral.decimal vector.width ++ '\x27' :: 'b' :: vector.digits
  length_eq : vector.digits.length = vector.width
  /-- As a literal, the text is an unsigned plain vector of the width with the bits. -/
  literal : ∃ read, ofLiteral vector.display = .ok (read, .digits .binary) ∧
    read.IsPlain vector.width false ∧ ∀ position, read.bit? position = vector.bit? position
  /-- In any session, the letters give the bits to a four-state vector of the width. -/
  change : ∀ commands, ∀ target : (Session.empty.run commands).AllocatedName,
    target.vector.twoState = false → target.vector.width = vector.width →
    ∃ updated, (Session.empty.run commands).Leaves
        (.applyChange target.name vector.digits (vector.width - 1) 0) target.name updated ∧
      updated.toHeader = target.vector.toHeader ∧
      ∀ position, updated.bit? position = vector.bit? position
  /-- Another vector has the same text exactly if it has the same width and bits. -/
  separates : ∀ other : LogicVector, other.display = vector.display ↔
    other.width = vector.width ∧ ∀ position, other.bit? position = vector.bit? position

namespace Session

/-- In every session that commands lead to, the display text of an allocated vector of any
kind and width tells its value. -/
theorem displaysValue_run_empty
    (commands : List Command)
    (source : (Session.empty.run commands).AllocatedName) :
    source.vector.DisplaysValue where
  display_eq := rfl
  length_eq := source.vector.length_digits source.isAllocated
  literal := source.readable.ofLiteral_display
  change others target fourState sameWidth := by
    obtain ⟨updated, changed, applies, sameHeader, shows⟩ :=
      source.readable.exists_applyChange_digits target.readable fourState sameWidth
    refine ⟨updated, ?_, sameHeader, shows⟩
    exact (sound_run_empty others).leaves_update target.reads rfl (by simp)
      (Outcome.ofFlagged_eq_ok_iff.2 ⟨changed, applies, rfl⟩)
  separates other := other.display_eq_iff source.vector

/-- A signed memory that shows an `x`, a one and a `z`, and a new expression. -/
def mixedMemory : List Command := [
  .create "m" 3 .memory true (some true) none,
  .update "m" (.applyChange ['X', '1', 'Z'] 2 0),
  .create "e" 3 .expression true none none]

theorem displaysValue_run_empty_mixedMemory :
    ∃ source target : (Session.empty.run mixedMemory).AllocatedName, ∃ read updated,
      source.name = "m" ∧ target.name = "e" ∧ source.vector.DisplaysValue ∧
      LogicVector.ofLiteral ['3', '\x27', 'b', 'x', '1', 'z'] = .ok (read, .digits .binary) ∧
      read.bit? 1 = some Bit.one ∧ read.bit? 2 = some Bit.x ∧
      (Session.empty.run mixedMemory).Leaves (.applyChange "e" ['x', '1', 'z'] 2 0) "e" updated ∧
      updated.bit? 0 = some Bit.z := by
  obtain ⟨source, target, isSource, isTarget, fourState, wide, sameWidth, low, middle, high,
      letters⟩ :
      ∃ source target : (Session.empty.run mixedMemory).AllocatedName,
        source.name = "m" ∧ target.name = "e" ∧ target.vector.twoState = false ∧
        source.vector.width = 3 ∧ target.vector.width = source.vector.width ∧
        source.vector.bit? 0 = some Bit.z ∧ source.vector.bit? 1 = some Bit.one ∧
        source.vector.bit? 2 = some Bit.x ∧ source.vector.digits = ['x', '1', 'z'] :=
    ⟨⟨"m", _, rfl, rfl⟩, ⟨"e", _, rfl, rfl⟩, rfl, rfl, rfl, rfl, rfl, by decide +kernel,
      by decide +kernel, by decide +kernel, by decide +kernel⟩
  have displays := displaysValue_run_empty mixedMemory source
  obtain ⟨read, accepts, -, readShows⟩ := displays.literal
  obtain ⟨updated, leaves, -, updatedShows⟩ := displays.change mixedMemory target fourState sameWidth
  rw [displays.display_eq, letters, wide] at accepts
  rw [isTarget, letters, wide] at leaves
  exact ⟨source, target, read, updated, isSource, isTarget, displays, accepts,
    (readShows 1).trans middle, (readShows 2).trans high, leaves, (updatedShows 0).trans low⟩

end Session
end FourState
