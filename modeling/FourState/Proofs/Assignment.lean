import FourState.LogicVector.Assign
import FourState.Proofs.Cell

/-!
# Assignments

An assignment gives new bits to a range of positions.  A cell that is given a
bit remembers in its coverage planes what the change was; which planes those
are depends on the kind.  The main statements, `LogicVector.assign_eq_alter`
and `LogicVector.assign_succeeds`, say that the one gate for value changes
writes every covered cell, leaves all others, and fails only for a range or
word sequences that do not fit.
-/

namespace FourState

/-! ## Writing one cell -/

/-- The plane that remembers which bits an assignment has covered. -/
def Kind.givenPlane? : Kind → Option Plane
  | plain => none
  | signal => some Plane.signalSet
  | expression => some Plane.expressionSet
  | memory => some Plane.written

namespace Cell

/-- Giving the bit takes the cell from a known zero to a known one. -/
def rises (cell : Cell) (bit : Bit) : Bool :=
  decide (cell.value = Bit.zero ∧ bit = Bit.one)

/-- Giving the bit takes the cell from a known one to a known zero. -/
def falls (cell : Cell) (bit : Bit) : Bool :=
  decide (cell.value = Bit.one ∧ bit = Bit.zero)

/-- The coverage that a cell gains with a bit.  A signal counts a change only
where it had been given a value before. -/
def gains (kind : Kind) (cell : Cell) (bit : Bit) : Cell :=
  match kind with
  | .plain => empty
  | .signal => fun plane =>
      if plane = Plane.toggle01 then cell.rises bit && cell Plane.signalSet
      else if plane = Plane.toggle10 then cell.falls bit && cell Plane.signalSet
      else decide (plane = Plane.signalSet)
  | .expression => fun plane => decide (plane = Plane.expressionSet)
  | .memory => fun plane =>
      if plane = Plane.toggle01 then cell.rises bit
      else if plane = Plane.toggle10 then cell.falls bit
      else decide (plane = Plane.written)

/-- A cell that is given a bit always gains the plane that remembers it. -/
theorem gains_given
    {kind : Kind}
    {plane : Plane}
    (isGiven : kind.givenPlane? = some plane)
    (cell : Cell)
    (bit : Bit) :
    gains kind cell bit plane = true := by
  cases kind with
  | plain => contradiction
  | signal =>
      cases isGiven
      rfl
  | expression =>
      cases isGiven
      rfl
  | memory =>
      cases isGiven
      rfl

/-- The rise of a bit counts, in a signal only if the bit had been given before. -/
theorem gains_toggle01
    {kind : Kind}
    (toggles : kind.hasToggles = true)
    (cell : Cell)
    (bit : Bit) :
    gains kind cell bit Plane.toggle01 = true ↔
      cell.value = Bit.zero ∧ bit = Bit.one ∧
        (kind = Kind.signal → cell Plane.signalSet = true) := by
  cases kind with
  | plain => contradiction
  | signal => simp [gains, rises, and_assoc]
  | expression => contradiction
  | memory => simp [gains, rises]

/-- The fall of a bit counts, in a signal only if the bit had been given before. -/
theorem gains_toggle10
    {kind : Kind}
    (toggles : kind.hasToggles = true)
    (cell : Cell)
    (bit : Bit) :
    gains kind cell bit Plane.toggle10 = true ↔
      cell.value = Bit.one ∧ bit = Bit.zero ∧
        (kind = Kind.signal → cell Plane.signalSet = true) := by
  have differs : ¬Plane.toggle10 = Plane.toggle01 := by decide
  cases kind with
  | plain => contradiction
  | signal => simp [gains, falls, differs, and_assoc]
  | expression => contradiction
  | memory => simp [gains, falls, differs]

/-- Nothing else is gained. -/
theorem gains_other
    {kind : Kind}
    {plane : Plane}
    (notGiven : kind.givenPlane? ≠ some plane)
    (notToggle : kind.hasToggles = true →
      plane ≠ Plane.toggle01 ∧ plane ≠ Plane.toggle10)
    (cell : Cell)
    (bit : Bit) :
    gains kind cell bit plane = false := by
  cases kind with
  | plain => rfl
  | signal =>
      obtain ⟨notRise, notFall⟩ := notToggle rfl
      have notSet : ¬plane = Plane.signalSet := fun same => notGiven (congrArg some same.symm)
      simp [gains, notRise, notFall, notSet]
  | expression =>
      have notSet : ¬plane = Plane.expressionSet := fun same => notGiven (congrArg some same.symm)
      simp [gains, notSet]
  | memory =>
      obtain ⟨notRise, notFall⟩ := notToggle rfl
      have notWritten : ¬plane = Plane.written := fun same => notGiven (congrArg some same.symm)
      simp [gains, notRise, notFall, notWritten]

/-- The cell after it is given a bit. -/
def accept (kind : Kind) (bit : Bit) (cell : Cell) : Cell := fun plane =>
  if plane = Plane.valueLow then bit.low
  else if plane = Plane.valueHigh then bit.high
  else cell plane || gains kind cell bit plane

@[simp] theorem value_accept (kind : Kind) (bit : Bit) (cell : Cell) :
    (cell.accept kind bit).value = bit := by
  simp [value, accept]

/-- Coverage is sticky: giving a bit only adds to it. -/
theorem accept_coverage
    (kind : Kind)
    (bit : Bit)
    (cell : Cell)
    {plane : Plane}
    (coverage : plane.isCoverage = true) :
    cell.accept kind bit plane = (cell plane || gains kind cell bit plane) := by
  have notLow : plane ≠ Plane.valueLow := by
    rintro rfl
    simp [Plane.isCoverage] at coverage
  have notHigh : plane ≠ Plane.valueHigh := by
    rintro rfl
    simp [Plane.isCoverage] at coverage
  simp [accept, notLow, notHigh]

end Cell

/-! ## Writing a word of cells -/

namespace Slice

private theorem getLsbD_rises
    (slice : Slice 32)
    (low high : Word)
    {offset : Nat}
    (inWord : offset < 32) :
    (slice.rises low high).getLsbD offset =
      (slice.cell offset).rises (Bit.ofPlanes (low.getLsbD offset) (high.getLsbD offset)) := by
  rw [Bool.eq_iff_iff]
  simp only [rises, Cell.rises, Cell.value, cell, bit, BitVec.getLsbD_and, BitVec.getLsbD_not,
    inWord, decide_true, Bool.true_and, Bool.and_eq_true, Bool.not_eq_true', decide_eq_true_eq,
    Bit.ofPlanes_eq_zero_iff, Bit.ofPlanes_eq_one_iff]

private theorem getLsbD_falls
    (slice : Slice 32)
    (low high : Word)
    {offset : Nat}
    (inWord : offset < 32) :
    (slice.falls low high).getLsbD offset =
      (slice.cell offset).falls (Bit.ofPlanes (low.getLsbD offset) (high.getLsbD offset)) := by
  rw [Bool.eq_iff_iff]
  simp only [falls, Cell.falls, Cell.value, cell, bit, BitVec.getLsbD_and, BitVec.getLsbD_not,
    inWord, decide_true, Bool.true_and, Bool.and_eq_true, Bool.not_eq_true', decide_eq_true_eq,
    Bit.ofPlanes_eq_zero_iff, Bit.ofPlanes_eq_one_iff]

/-- The coverage words hold what each cell under the mask gains. -/
private theorem getLsbD_coverage
    (kind : Kind)
    (slice : Slice 32)
    (mask low high : Word)
    (plane : Plane)
    {offset : Nat}
    (inWord : offset < 32) :
    (slice.coverage kind mask low high plane).getLsbD offset =
      (mask.getLsbD offset && Cell.gains kind (slice.cell offset)
        (Bit.ofPlanes (low.getLsbD offset) (high.getLsbD offset)) plane) := by
  have rises := slice.getLsbD_rises low high inWord
  have falls := slice.getLsbD_falls low high inWord
  have set : (slice.get Plane.signalSet).getLsbD offset =
      slice.cell offset Plane.signalSet := rfl
  cases kind with
  | plain => simp [coverage, Cell.gains]
  | signal =>
      simp only [coverage, Cell.gains]
      split
      · rw [BitVec.getLsbD_and, BitVec.getLsbD_and, rises, set]
        ac_rfl
      · split
        · rw [BitVec.getLsbD_and, BitVec.getLsbD_and, falls, set]
          ac_rfl
        · split <;> simp [*]
  | expression =>
      simp only [coverage, Cell.gains]
      split <;> simp [*]
  | memory =>
      simp only [coverage, Cell.gains]
      split
      · rw [BitVec.getLsbD_and, rises, Bool.and_comm]
      · split
        · rw [BitVec.getLsbD_and, falls, Bool.and_comm]
        · split <;> simp [*]

/-- Accepting words gives every cell under the mask its bit. -/
theorem cell_accept
    (kind : Kind)
    (slice : Slice 32)
    (mask low high : Word)
    {offset : Nat}
    (inWord : offset < 32) :
    (slice.accept kind mask low high).cell offset =
      if mask.getLsbD offset then
        (slice.cell offset).accept kind
          (Bit.ofPlanes (low.getLsbD offset) (high.getLsbD offset))
      else slice.cell offset := by
  funext plane
  have gained := slice.getLsbD_coverage kind mask low high plane inWord
  have marked : ((slice.mark (slice.coverage kind mask low high)).get plane).getLsbD offset =
      ((slice.get plane).getLsbD offset || (slice.coverage kind mask low high plane).getLsbD
        offset) := by
    rw [get_mark, BitVec.getLsbD_or]
  simp only [accept, assign, cell, bit, get_ofPlanes]
  split
  · rename_i isLow
    rw [BitWord.getLsbD_replace _ _ _ inWord, marked, gained]
    cases mask.getLsbD offset <;> simp [Cell.accept, isLow, cell, bit]
  · split
    · rename_i isHigh
      rw [BitWord.getLsbD_replace _ _ _ inWord, marked, gained]
      cases mask.getLsbD offset <;> simp [Cell.accept, isHigh, cell, bit]
    · rename_i notLow notHigh
      rw [marked, gained]
      cases mask.getLsbD offset <;> simp [Cell.accept, notLow, notHigh, cell, bit]

end Slice

/-! ## Assignments to vectors -/

/-- New bits for the positions from `first` up to and including `last`. -/
structure Assignment where
  /-- The lowest position. -/
  first : Nat
  /-- The highest position. -/
  last : Nat
  /-- The new bit of a position. -/
  bit : Nat → Bit

namespace Assignment

/-- The position is given a new bit. -/
def Covers (assignment : Assignment) (position : Nat) : Prop :=
  assignment.first ≤ position ∧ position ≤ assignment.last

instance (assignment : Assignment) (position : Nat) : Decidable (assignment.Covers position) :=
  inferInstanceAs (Decidable (_ ∧ _))

/-- The assignment that two word sequences describe. -/
def ofWords (low high : Array Word) (first last : Nat) : Assignment where
  first
  last
  bit := fun position => Bit.ofPlanes (Words.bit low position) (Words.bit high position)

/-- The assignment as a handle carries it out: a two-state one keeps zeros in
place of unknown bits. -/
def settle (twoState : Bool) (assignment : Assignment) : Assignment :=
  { assignment with
    bit := fun position =>
      if twoState then (assignment.bit position).collapse else assignment.bit position }

/-- What the assignment does to the cell at a position. -/
def change (kind : Kind) (assignment : Assignment) (position : Nat) (cell : Cell) : Cell :=
  if assignment.Covers position then cell.accept kind (assignment.bit position) else cell

@[simp] theorem covers_settle (twoState : Bool) (assignment : Assignment) (position : Nat) :
    (assignment.settle twoState).Covers position ↔ assignment.Covers position :=
  Iff.rfl

end Assignment

/-- Settled words hold the settled bits under the mask. -/
private theorem ofPlanes_settle
    (twoState : Bool)
    (mask low high : Word)
    {offset : Nat}
    (inWord : offset < 32)
    (masked : mask.getLsbD offset = true) :
    Bit.ofPlanes ((settle twoState mask low high).1.getLsbD offset)
        ((settle twoState mask low high).2.getLsbD offset) =
      if twoState then
        (Bit.ofPlanes (low.getLsbD offset) (high.getLsbD offset)).collapse
      else Bit.ofPlanes (low.getLsbD offset) (high.getLsbD offset) := by
  cases twoState with
  | false => simp [settle, masked]
  | true =>
      simp only [settle, if_true, Bit.collapse_ofPlanes, BitVec.getLsbD_and, BitVec.getLsbD_not,
        BitVec.ofNat_eq_ofNat, BitVec.getLsbD_zero, masked, inWord, decide_true, Bool.true_and,
        Bool.and_true]

namespace LogicVector

/-- The words that the gate leaves are the old ones with every covered cell written. -/
theorem mapIdx_accept_eq_alter
    (vector : LogicVector)
    (block : Block)
    (low high : Array Word)
    (lsb msb : Nat) :
    (block.mapIdx fun index slice =>
      slice.accept vector.kind (Mask.span lsb (msb + 1) index)
        (vector.settled low high lsb msb index).1 (vector.settled low high lsb msb index).2) =
      block.alter (((Assignment.ofWords low high lsb msb).settle vector.twoState).change
        vector.kind) := by
  apply Block.mapIdx_eq_alter
  intro index slice offset inWord
  have inMask := Mask.getLsbD_span lsb (msb + 1) index inWord
  have lowBit := Words.getLsbD_word low index inWord
  have highBit := Words.getLsbD_word high index inWord
  rw [Slice.cell_accept _ _ _ _ _ inWord, Assignment.change]
  by_cases covered : (Assignment.ofWords low high lsb msb).Covers (32 * index + offset)
  · have masked : (Mask.span lsb (msb + 1) index).getLsbD offset = true := by
      rw [inMask, decide_eq_true_eq]
      exact ⟨covered.1, Nat.lt_succ_of_le covered.2⟩
    have settledBit := ofPlanes_settle vector.twoState (Mask.span lsb (msb + 1) index)
      (Words.word low index) (Words.word high index) inWord masked
    rw [if_pos masked, if_pos (by simpa using covered)]
    simp only [settled, settledBit, Assignment.settle, Assignment.ofWords, ← lowBit, ← highBit]
  · have notMasked : ¬(Mask.span lsb (msb + 1) index).getLsbD offset = true := by
      rw [inMask, decide_eq_true_eq]
      intro inside
      exact covered ⟨inside.1, Nat.le_of_lt_succ inside.2⟩
    rw [if_neg notMasked, if_neg (by simpa using covered)]

/-- A successful assignment writes the covered cells and nothing else. -/
theorem assign_eq_alter
    {vector updated : LogicVector}
    {low high : Array Word}
    {lsb msb : Nat}
    {changed : Bool}
    (succeeds : vector.assign low high lsb msb = .ok (updated, changed)) :
    (lsb ≤ msb ∧ msb < vector.width) ∧
      updated = vector.alter
        (((Assignment.ofWords low high lsb msb).settle vector.twoState).change vector.kind) := by
  unfold assign at succeeds
  obtain ⟨⟨⟩, inRange, succeeds⟩ := bind_eq_ok_iff.1 succeeds
  obtain ⟨⟨⟩, longEnough, succeeds⟩ := bind_eq_ok_iff.1 succeeds
  obtain ⟨block, stored, succeeds⟩ := bind_eq_ok_iff.1 succeeds
  obtain ⟨⟨⟩, inBlock, succeeds⟩ := bind_eq_ok_iff.1 succeeds
  cases succeeds
  refine ⟨require_eq_ok_iff.1 inRange, ?_⟩
  rw [← withBlock_alter stored, ← mapIdx_accept_eq_alter]

/-- An assignment inside an allocated vector succeeds if its words reach the
highest position. -/
theorem assign_succeeds
    {vector : LogicVector}
    {block : Block}
    {low high : Array Word}
    {lsb msb : Nat}
    (stored : vector.block = .ok block)
    (inRange : lsb ≤ msb ∧ msb < vector.width)
    (longEnough : msb / 32 < low.size ∧ msb / 32 < high.size)
    (inBlock : msb / 32 < block.size) :
    ∃ changed, vector.assign low high lsb msb =
      .ok (vector.alter
        (((Assignment.ofWords low high lsb msb).settle vector.twoState).change vector.kind),
        changed) := by
  unfold assign
  rw [require_bind_of_true inRange, require_bind_of_true longEnough, stored]
  change ∃ changed, (require (msb / 32 < block.size) Fault.wordIndex >>= _) = _
  rw [require_bind_of_true inBlock, ← withBlock_alter stored, ← mapIdx_accept_eq_alter]
  exact ⟨_, rfl⟩

end LogicVector
end FourState
