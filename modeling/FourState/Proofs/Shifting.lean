import FourState.Proofs.Arithmetic
import FourState.Proofs.Extension

/-!
# Shifts bit by bit

A shift extends its operand to the wider of the target and itself, moves the bits, and
cuts the result to the target.  Each bit of the result is one bit of the extended
operand or a filler.  Amounts past the largest count move all bits out of the value, so
that cutting them to this count makes no difference.
-/

namespace FourState

namespace Shift

/-- The bit at a position after the bits below a width have been shifted. -/
def bitAt (kind : Shift) (width amount : Nat) (bits : Nat → Bit) (position : Nat) : Bit :=
  match kind with
  | left => if amount ≤ position then bits (position - amount) else Bit.zero
  | right => if position + amount < width then bits (position + amount) else Bit.zero
  | arithmetic => if position + amount < width then bits (position + amount) else bits (width - 1)

variable {width amount position : Nat} {bits : Nat → Bit}

/-- Amounts that move all bits out are not told apart. -/
theorem bitAt_min
    (kind : Shift)
    {limit : Nat}
    (bounded : width ≤ limit)
    (inside : position < width) :
    kind.bitAt width (min amount limit) bits position = kind.bitAt width amount bits position := by
  by_cases small : amount ≤ limit
  · rw [Nat.min_eq_left small]
  · rw [Nat.min_eq_right (by omega)]
    have notBelow : ¬limit ≤ position := by omega
    have amountNotBelow : ¬amount ≤ position := by omega
    have past : ¬position + limit < width := by omega
    have amountPast : ¬position + amount < width := by omega
    cases kind with
    | left => simp only [bitAt, notBelow, amountNotBelow, if_false]
    | right | arithmetic => simp only [bitAt, past, amountPast, if_false]

/-- A shifted buffer has the shifted bits of its value. -/
theorem bit_apply
    (kind : Shift)
    {value : Buffer}
    (canonical : value.Canonical)
    (sameBits : ∀ position, position < value.width → value.bit position = bits position)
    (inside : position < value.width) :
    (kind.apply value amount).bit position = kind.bitAt value.width amount bits position := by
  cases kind with
  | left =>
      rw [apply, Buffer.bit_shiftLeft canonical, bitAt]
      by_cases reached : amount ≤ position
      · rw [if_pos ⟨reached, inside⟩, if_pos reached, sameBits _ (by omega)]
      · rw [if_neg fun both => reached both.1, if_neg reached]
  | right =>
      rw [apply, Buffer.bit_shiftRight canonical, bitAt]
      split
      · rename_i moved
        exact sameBits _ moved
      · rename_i past
        exact value.bit_of_width_le (Nat.not_lt.1 past)
  | arithmetic =>
      rw [apply, Buffer.bit_fill (Buffer.canonical_shiftRight canonical _),
        Buffer.bit_shiftRight canonical, Buffer.width_shiftRight, bitAt]
      by_cases moved : position + amount < value.width
      · rw [if_pos moved, if_neg (by omega), sameBits _ moved]
      · rw [if_neg moved, if_pos (by omega)]
        exact sameBits _ (by omega)

theorem canonical_apply
    (kind : Shift)
    {value : Buffer}
    (canonical : value.Canonical) :
    (kind.apply value amount).Canonical := by
  cases kind with
  | left => exact Buffer.canonical_shiftLeft _ _
  | right => exact Buffer.canonical_shiftRight canonical _
  | arithmetic => exact Buffer.canonical_fill (Buffer.canonical_shiftRight canonical _) _ _ _

/-- The most significant bit of the operand is repeated above it. -/
def extendsSign (kind : Shift) (source : LogicVector) : Bool :=
  source.signed || decide (kind = arithmetic)

/-- The bit that a shift of a vector gives a position of a target of the width: `x`
everywhere if the amount is not known. -/
def bitOf (kind : Shift) (width : Nat) (source amount : LogicVector) (position : Nat) : Bit :=
  if amount.IsKnown then
    kind.bitAt (max width source.width) amount.pattern.toNat
      (source.extended (kind.extendsSign source)) position
  else Bit.x

end Shift

/-- A shift of readable operands is computed with the bits that it gives its target. -/
theorem Operator.exists_shift
    (kind : Shift)
    {width : Nat}
    (bounded : width ≤ maxWidth)
    {source amount : LogicVector}
    (sourceReadable : source.Readable)
    (amountReadable : amount.Readable) :
    ∃ value, shift kind width source amount = .ok value ∧ value.Canonical ∧
      ∀ position, position < width →
        value.bit position = kind.bitOf width source amount position := by
  by_cases known : amount.IsKnown
  · obtain ⟨count, readsCount, holds⟩ := amountReadable.holds_ofVector known
    obtain ⟨value, reads, canonical, wide, sameBits⟩ :=
      sourceReadable.bit_operand (max width source.width) (kind.extendsSign source)
    have computes : shift kind width source amount = .ok (kind.apply value count.toCount) := by
      rw [shift, readsCount]
      change (if count.hasUnknown then _ else _) = _
      rw [holds.hasUnknown_eq, if_neg Bool.false_ne_true]
      change (source.operand _ (kind.extendsSign source) >>= _) = _
      rw [reads]
      rfl
    have limited : max width source.width ≤ Buffer.maxCount := by
      have sourceBounded := sourceReadable.wellFormed.width_le
      have limit : maxWidth ≤ Buffer.maxCount := by decide
      omega
    refine ⟨_, computes, kind.canonical_apply canonical, ?_⟩
    intro position inside
    rw [kind.bit_apply canonical (by rwa [wide]) (by rw [wide]; omega), wide, Buffer.toCount,
      kind.bitAt_min limited (by omega), holds.toNat_eq, Shift.bitOf, if_pos known]
  · obtain ⟨count, readsCount, -⟩ := amountReadable.ofVector
    have unknown : count.hasUnknown = true := by
      rw [LogicVector.hasUnknown_ofVector_iff amountReadable readsCount]
      rwa [amountReadable.isKnown_iff, not_not] at known
    have computes : shift kind width source amount = .ok (Buffer.unknown width) := by
      rw [shift, readsCount]
      exact if_pos unknown
    refine ⟨_, computes, Buffer.canonical_unknown _, ?_⟩
    intro position inside
    rw [Buffer.bit_unknown, if_pos inside, Shift.bitOf, if_neg known]

/-- A shift of readable operands succeeds on a four-state target and leaves the bits
that it gives it. -/
theorem LogicVector.operate_shift
    (kind : Shift)
    {target source amount : LogicVector}
    (readable : target.Readable)
    (fourState : target.twoState = false)
    (sourceReadable : source.Readable)
    (amountReadable : amount.Readable) :
    ∃ updated changed, (target.operate (.shift kind source amount)).result =
        .ok (updated, changed) ∧
      updated.toHeader = target.toHeader ∧
      ∀ position, position < target.width →
        updated.bit? position = some (kind.bitOf target.width source amount position) := by
  obtain ⟨value, shifts, canonical, sameBits⟩ :=
    Operator.exists_shift kind readable.wellFormed.width_le sourceReadable amountReadable
  have computes : (Operation.shift kind source amount).compute target = .ok value :=
    liftM_fault_eq_ok_iff.2 shifts
  obtain ⟨updated, changed, operates, sameHeader, shows⟩ :=
    operate_whole readable fourState rfl computes canonical
  refine ⟨updated, changed, operates, sameHeader, ?_⟩
  intro position inside
  rw [shows position inside, sameBits position inside]

end FourState
