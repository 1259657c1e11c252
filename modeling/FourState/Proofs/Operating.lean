import FourState.Proofs.Assigning
import FourState.Proofs.Preservation

/-!
# Operating on vectors

An operation that succeeds has computed a value, and has put it into its range
of the target.  The target stays readable.
-/

namespace FourState

/-! ## Operands -/

namespace Operation

variable {operand other : Type}

/-- Exchange the operands. -/
def map (resolve : operand → other) : Operation operand → Operation other
  | add left right => add (resolve left) (resolve right)
  | subtract left right => subtract (resolve left) (resolve right)
  | multiply left right => multiply (resolve left) (resolve right)
  | negate source => negate (resolve source)
  | increment => increment
  | decrement => decrement
  | divide division left right => divide division (resolve left) (resolve right)
  | bitwise function left right => bitwise function (resolve left) (resolve right)
  | invert source => invert (resolve source)
  | compare relation left right => compare relation (resolve left) (resolve right)
  | caseCompare operator left right => caseCompare operator (resolve left) (resolve right)
  | logical connective left right => logical connective (resolve left) (resolve right)
  | reduce reduction source => reduce reduction (resolve source)
  | shift kind source amount => shift kind (resolve source) (resolve amount)
  | partSelect source lsb msb => partSelect (resolve source) lsb msb
  | partAssign source lsb msb => partAssign (resolve source) lsb msb
  | expand count value => expand (resolve count) (resolve value)
  | concat left right => concat (resolve left) (resolve right)

/-- The vectors whose value an operation reads, for a target. -/
def operands (target : operand) : Operation operand → List operand
  | add left right => [left, right]
  | subtract left right => [left, right]
  | multiply left right => [left, right]
  | negate source => [source]
  | increment => [target]
  | decrement => [target]
  | divide _ left right => [left, right]
  | bitwise _ left right => [left, right]
  | invert source => [source]
  | compare _ left right => [left, right]
  | caseCompare _ left right => [left, right]
  | logical _ left right => [left, right]
  | reduce _ source => [source]
  | shift _ source amount => [source, amount]
  | partSelect source _ _ => [source]
  | partAssign source _ _ => [source]
  | expand count value => [count, value]
  | concat left right => [left, right]

/-- The range depends on the operator only. -/
theorem range_map (resolve : operand → other) (operation : Operation operand) (width : Nat) :
    (operation.map resolve).range width = operation.range width := by
  cases operation <;> rfl

end Operation

/-! ## Targets -/

namespace LogicVector

/-- Updating a readable vector leaves it readable. -/
theorem Readable.update
    {vector updated : LogicVector}
    {change : Update LogicVector}
    {reply : Reply}
    (readable : vector.Readable)
    (sourceWellFormed : ∀ source, change.source? = some source →
      source.WellFormed fun plane => plane.isCoverage = false)
    (succeeds : (vector.update change).result = .ok (updated, reply)) :
    updated.Readable := by
  obtain ⟨-, -, storage⟩ := update_frame readable.wellFormed sourceWellFormed succeeds
  refine ⟨?_, readable.wellFormed.update sourceWellFormed ?_ succeeds⟩
  · rw [storage, Storage.isAllocated_map, readable.isAllocated]
  · intro _ plane coverage notCoverage
    rw [coverage] at notCoverage
    contradiction

theorem Readable.operate
    {vector updated : LogicVector}
    {operation : Operation LogicVector}
    {changed : Bool}
    (readable : vector.Readable)
    (succeeds : (vector.operate operation).result = .ok (updated, changed)) :
    updated.Readable := by
  have updates : (vector.update (.operate operation)).result = .ok (updated, .flag changed) :=
    Outcome.result_map_eq_ok_iff.2 ⟨(updated, changed), succeeds, rfl⟩
  refine readable.update ?_ updates
  intro source isSource
  contradiction

/-- An operation that succeeds has computed a value. -/
theorem exists_compute_of_operate
    {vector : LogicVector}
    {operation : Operation LogicVector}
    {answer : LogicVector × Bool}
    (succeeds : (vector.operate operation).result = .ok answer) :
    ∃ value, operation.compute vector = .ok value := by
  unfold operate at succeeds
  cases computes : operation.compute vector with
  | error failure =>
      rw [computes] at succeeds
      contradiction
  | ok value => exact ⟨value, rfl⟩

/-- The bits of a readable four-state vector after an operation: the computed
ones in its range, and the old ones elsewhere. -/
theorem bit?_operate
    {vector updated : LogicVector}
    {operation : Operation LogicVector}
    {value : Buffer}
    {changed : Bool}
    (readable : vector.Readable)
    (fourState : vector.twoState = false)
    (computes : operation.compute vector = .ok value)
    (succeeds : (vector.operate operation).result = .ok (updated, changed))
    {position : Nat}
    (inside : position < vector.width) :
    updated.bit? position =
      if (operation.range vector.width).1 ≤ position ∧
          position ≤ (operation.range vector.width).2 then
        some ((value.fitted vector.width).bit position)
      else vector.bit? position := by
  obtain ⟨block, stored⟩ := exists_block readable.isAllocated
  have sized := (readable.wellFormed.block_fits block stored).size_eq
  have inBounds : position < 32 * block.size := by
    rw [sized]
    exact Nat.lt_of_lt_of_le inside (le_wordCount _)
  obtain ⟨-, rfl⟩ := operate_eq_accept computes succeeds
  rw [bit?_accept stored _ inside inBounds]
  simp only [Assignment.Covers, Assignment.settle, fourState, Bool.false_eq_true, if_false]
  split
  · rfl
  · exact ((bit?_eq_some_iff stored position _).2 ⟨inside, rfl⟩).symm

/-- An operation with a range inside its target succeeds once its value can be
computed, and puts the bits of the value there. -/
theorem operate_stores
    {vector : LogicVector}
    {operation : Operation LogicVector}
    {value : Buffer}
    (readable : vector.Readable)
    (fourState : vector.twoState = false)
    (computes : operation.compute vector = .ok value)
    (canonical : value.Canonical)
    (inRange : (operation.range vector.width).1 ≤ (operation.range vector.width).2 ∧
      (operation.range vector.width).2 < vector.width) :
    ∃ updated changed, (vector.operate operation).result = .ok (updated, changed) ∧
      updated.toHeader = vector.toHeader ∧
      ∀ position, position < vector.width →
        updated.bit? position =
          if (operation.range vector.width).1 ≤ position ∧
              position ≤ (operation.range vector.width).2 then some (value.bit position)
          else vector.bit? position := by
  obtain ⟨block, stored⟩ := exists_block readable.isAllocated
  have inWords := div_lt_wordCount inRange.2
  have fitted := Buffer.canonical_fitted canonical vector.width
  have lastInside : (operation.range vector.width).2 < (value.fitted vector.width).width := by
    rw [Buffer.width_fitted]
    exact inRange.2
  obtain ⟨changed, assigns⟩ := assign_succeeds stored inRange (fitted.has_word lastInside)
    (by rwa [(readable.wellFormed.block_fits block stored).size_eq])
  obtain ⟨updated, operates⟩ :
      ∃ updated, (vector.operate operation).result = .ok (updated, changed) := by
    rw [operate, computes]
    exact ⟨_, liftM_fault_eq_ok_iff.2 assigns⟩
  have sameHeader : updated.toHeader = vector.toHeader := by
    rw [(operate_eq_accept computes operates).2]
    rfl
  refine ⟨updated, changed, operates, sameHeader, ?_⟩
  intro position inside
  rw [bit?_operate readable fourState computes operates inside,
    Buffer.bit_fitted canonical inside]

/-- An assignment leaves every plane as it was at the positions that it does not cover. -/
theorem cell_accept_of_not_covers
    (vector : LogicVector)
    {assignment : Assignment}
    {position : Nat}
    (notCovered : ¬assignment.Covers position) :
    (vector.accept assignment).cell position = vector.cell position := by
  funext plane
  exact vector.bit_alter_of_keeps fun cell => congrFun (if_neg notCovered) plane

/-- An operation changes no plane of a bit outside its range. -/
theorem cell_operate_of_outside
    {vector updated : LogicVector}
    {operation : Operation LogicVector}
    {changed : Bool}
    (succeeds : (vector.operate operation).result = .ok (updated, changed))
    {position : Nat}
    (outside : ¬((operation.range vector.width).1 ≤ position ∧
      position ≤ (operation.range vector.width).2)) :
    updated.cell position = vector.cell position := by
  obtain ⟨value, computes⟩ := exists_compute_of_operate succeeds
  obtain ⟨-, rfl⟩ := operate_eq_accept computes succeeds
  exact vector.cell_accept_of_not_covers outside

end LogicVector
end FourState
