import FourState.Proofs.Session.Arithmetic
import FourState.Proofs.Shifting

/-!
# Shifts in a session

In every session that commands lead to, a shift moves the bits of its operand exactly,
whatever the widths are and however large the amount is.
-/

namespace FourState
namespace Session

/-- In every session that commands lead to, a shift succeeds on allocated operands and an
allocated four-state target of any widths.  An unknown bit of the amount leaves `x`
everywhere.  Otherwise the operand, extended to the wider of the target and itself, is
moved by the unsigned number of the amount and cut to the target. -/
theorem shift_moves
    (commands : List Command)
    (kind : Shift)
    (target source amount : (Session.empty.run commands).AllocatedName)
    (fourState : target.vector.twoState = false) :
    ∃ updated,
      (Session.empty.run commands).Leaves
        (.update target.name (.operate (.shift kind source.name amount.name))) target.name
        updated ∧
      updated.toHeader = target.vector.toHeader ∧
      (amount.vector.UnknownBelow amount.vector.width →
        ∀ position, position < target.vector.width → updated.bit? position = some Bit.x) ∧
      (¬amount.vector.UnknownBelow amount.vector.width →
        ∀ position, position < target.vector.width → updated.bit? position =
          some (kind.bitAt (max target.vector.width source.vector.width)
            amount.vector.pattern.toNat
            (source.vector.extended (source.vector.signed || decide (kind = .arithmetic)))
            position)) := by
  obtain ⟨updated, changed, operates, sameHeader, shows⟩ :=
    LogicVector.operate_shift kind target.readable fourState source.readable amount.readable
  refine ⟨updated, (sound_run_empty commands).leaves_operate target.reads
    (AllocatedName.traverse (.shift kind source amount)) (by simp) operates, sameHeader, ?_, ?_⟩
  · intro unknown position inside
    have notKnown : ¬amount.vector.IsKnown :=
      fun known => amount.readable.isKnown_iff.1 known unknown
    rw [shows position inside, Shift.bitOf, if_neg notKnown]
  · intro noUnknown position inside
    have known : amount.vector.IsKnown := amount.readable.isKnown_iff.2 noUnknown
    rw [shows position inside, Shift.bitOf, if_pos known]
    rfl

/-- An unsigned value with an `x` on top, and an amount of more than 64 bits. -/
def largeAmount : List Command := [
  .create "t" 3 .signal true none none,
  .create "v" 40 .plain true none none,
  .update "v" (.applyChange ['x', '1', '0', '1'] 39 36),
  .create "n" 70 .plain true none none,
  .update "n" (.assign #[0, 0, 32] #[0, 0, 0] 0 69)]

theorem shift_moves_largeAmount :
    ∃ target source amount : (Session.empty.run largeAmount).AllocatedName, ∃ updated,
      target.name = "t" ∧ source.name = "v" ∧ amount.name = "n" ∧
      source.vector.signed = false ∧ amount.vector.pattern.toNat = 2 ^ 69 ∧
      (Session.empty.run largeAmount).Leaves
        (.update "t" (.operate (.shift .arithmetic "v" "n"))) "t" updated ∧
      updated.bit? 0 = some Bit.x ∧ updated.bit? 2 = some Bit.x := by
  obtain ⟨target, source, amount, isTarget, isSource, isAmount, fourState, notSigned, known,
      isLarge, wide, narrow, top⟩ :
      ∃ target source amount : (Session.empty.run largeAmount).AllocatedName,
        target.name = "t" ∧ source.name = "v" ∧ amount.name = "n" ∧
        target.vector.twoState = false ∧ source.vector.signed = false ∧
        amount.vector.IsKnown ∧ amount.vector.pattern.toNat = 2 ^ 69 ∧
        source.vector.width = 40 ∧ target.vector.width = 3 ∧
        source.vector.extended true 39 = Bit.x :=
    ⟨⟨"t", _, rfl, rfl⟩, ⟨"v", _, rfl, rfl⟩, ⟨"n", _, rfl, rfl⟩, rfl, rfl, rfl, rfl, rfl,
      by decide +kernel, by decide +kernel, rfl, rfl, by decide +kernel⟩
  obtain ⟨updated, leaves, -, -, shows⟩ :=
    shift_moves largeAmount .arithmetic target source amount fourState
  have bits := shows (amount.readable.isKnown_iff.1 known)
  rw [isTarget, isSource, isAmount] at leaves
  have unknown (position : Nat) (inside : position < 3) : updated.bit? position = some Bit.x := by
    have movedOut : ¬position + 2 ^ 69 < max 3 40 := by omega
    rw [bits position (narrow ▸ inside), isLarge, wide, narrow, notSigned, Shift.bitAt,
      if_neg movedOut]
    exact congrArg some top
  exact ⟨target, source, amount, updated, isTarget, isSource, isAmount, notSigned, isLarge,
    leaves, unknown 0 (by decide), unknown 2 (by decide)⟩

end Session
end FourState
