import FourState.Coverage.Evaluation
import FourState.Proofs.WellFormed

/-!
# Evaluation marks

Which cells of an expression are marked when an evaluation is recorded.  A
combination occurs at a position where the operands have bits, and they are the
known ones that the combination names.
-/

namespace FourState

/-! ## Known bits of a word -/

namespace Buffer

/-- The mask of known zeros holds the positions whose bit is a known zero. -/
theorem getLsbD_knownZeros
    (buffer : Buffer)
    (index : Nat)
    {offset : Nat}
    (inWord : offset < 32) :
    (buffer.knownZeros index).getLsbD offset =
      decide (buffer.bit? (32 * index + offset) = some Bit.zero) := by
  rw [Bool.eq_iff_iff, decide_eq_true_eq, bit?_eq_some_iff, Bit.ofPlanes_eq_zero_iff]
  simp only [knownZeros, word, BitVec.getLsbD_and, BitVec.getLsbD_not, inWord,
    Words.getLsbD_word _ _ inWord, Mask.getLsbD_inside _ _ inWord, decide_true, Bool.true_and,
    Bool.and_eq_true, Bool.not_eq_true', decide_eq_true_eq]
  exact and_comm

/-- The mask of known ones holds the positions whose bit is a known one. -/
theorem getLsbD_knownOnes
    (buffer : Buffer)
    (index : Nat)
    {offset : Nat}
    (inWord : offset < 32) :
    (buffer.knownOnes index).getLsbD offset =
      decide (buffer.bit? (32 * index + offset) = some Bit.one) := by
  rw [Bool.eq_iff_iff, decide_eq_true_eq, bit?_eq_some_iff, Bit.ofPlanes_eq_one_iff]
  simp only [knownOnes, word, BitVec.getLsbD_and, BitVec.getLsbD_not, inWord,
    Words.getLsbD_word _ _ inWord, Mask.getLsbD_inside _ _ inWord, decide_true, Bool.true_and,
    Bool.and_eq_true, Bool.not_eq_true', decide_eq_true_eq]
  exact and_comm

end Buffer

/-! ## Combinations -/

namespace Evaluation

/-- The planes whose combination the operand bits at a position show. -/
def occurs (evaluation : Evaluation) (left right : Option Bit) : Cell := fun plane =>
  match evaluation with
  | and =>
      if plane = Plane.evalA then decide (left = some Bit.zero)
      else if plane = Plane.evalB then decide (right = some Bit.zero)
      else if plane = Plane.evalC then decide (left = some Bit.one ∧ right = some Bit.one)
      else false
  | or =>
      if plane = Plane.evalA then decide (left = some Bit.one)
      else if plane = Plane.evalB then decide (right = some Bit.one)
      else if plane = Plane.evalC then decide (left = some Bit.zero ∧ right = some Bit.zero)
      else false
  | table =>
      if plane = Plane.evalA then decide (left = some Bit.zero ∧ right = some Bit.zero)
      else if plane = Plane.evalB then decide (left = some Bit.zero ∧ right = some Bit.one)
      else if plane = Plane.evalC then decide (left = some Bit.one ∧ right = some Bit.zero)
      else if plane = Plane.evalD then decide (left = some Bit.one ∧ right = some Bit.one)
      else false

/-- The marks of a word hold the positions where the combinations occur. -/
theorem getLsbD_marks
    (evaluation : Evaluation)
    (left right : Buffer)
    (index : Nat)
    (plane : Plane)
    {offset : Nat}
    (inWord : offset < 32) :
    (evaluation.marks left right index plane).getLsbD offset =
      evaluation.occurs (left.bit? (32 * index + offset)) (right.bit? (32 * index + offset))
        plane := by
  have leftZero := left.getLsbD_knownZeros index inWord
  have leftOne := left.getLsbD_knownOnes index inWord
  have rightZero := right.getLsbD_knownZeros index inWord
  have rightOne := right.getLsbD_knownOnes index inWord
  cases evaluation <;>
    simp only [marks, occurs] <;>
    repeat' split
  all_goals
    simp only [BitVec.getLsbD_and, leftZero, leftOne, rightZero, rightOne, Bool.decide_and,
      BitVec.ofNat_eq_ofNat, BitVec.getLsbD_zero]

/-- Where neither operand has a bit, no combination occurs. -/
theorem occurs_none (evaluation : Evaluation) : evaluation.occurs none none = Cell.empty := by
  funext plane
  cases evaluation <;> simp [occurs]

/-- Combinations occur in evaluation planes only. -/
theorem mem_of_occurs
    {evaluation : Evaluation}
    {left right : Option Bit}
    {plane : Plane}
    (occurring : evaluation.occurs left right plane = true) :
    plane ∈ [Plane.evalA, Plane.evalB, Plane.evalC, Plane.evalD] := by
  apply Classical.byContradiction
  intro other
  simp only [List.mem_cons, List.not_mem_nil, or_false, not_or] at other
  obtain ⟨notA, notB, notC, notD⟩ := other
  cases evaluation <;> simp [occurs, notA, notB, notC, notD] at occurring

theorem isCoverage_and_occurs
    (evaluation : Evaluation)
    (left right : Option Bit)
    (plane : Plane) :
    (plane.isCoverage && evaluation.occurs left right plane) =
      evaluation.occurs left right plane := by
  cases occurring : evaluation.occurs left right plane with
  | false => exact Bool.and_false _
  | true =>
      have inPlanes := mem_of_occurs occurring
      simp only [List.mem_cons, List.not_mem_nil, or_false] at inPlanes
      obtain rfl | rfl | rfl | rfl := inPlanes <;> rfl

/-- The planes that the value of an expression itself is recorded in. -/
def shows (bit : Option Bit) : Cell := fun plane =>
  if plane = Plane.evalA then decide (bit = some Bit.zero)
  else if plane = Plane.evalB then decide (bit = some Bit.one)
  else false

theorem isCoverage_and_shows (bit : Option Bit) (plane : Plane) :
    (plane.isCoverage && shows bit plane) = shows bit plane := by
  unfold shows
  split
  · rename_i isA
    rw [isA]
    rfl
  · split
    · rename_i isB
      rw [isB]
      rfl
    · exact Bool.and_false _

/-- A value is recorded only where there is a bit. -/
theorem shows_none : shows none = Cell.empty := by
  funext plane
  simp [shows]

end Evaluation

/-! ## Marked cells -/

namespace LogicVector

/-- Marks of evaluation planes that are given word by word mark the cells of an
expression. -/
theorem markEvaluations_eq_ok_iff
    {vector updated : LogicVector}
    {wordMarks : Nat → Plane → Word}
    {marks : Nat → Cell}
    (agree : ∀ index plane offset, offset < 32 →
      (wordMarks index plane).getLsbD offset =
        (plane.isCoverage && marks (32 * index + offset) plane)) :
    vector.markEvaluations wordMarks = .ok updated ↔
      vector.kind = Kind.expression ∧ vector.storage.isAllocated = true ∧
        updated = vector.alter fun position cell => cell.mark (marks position) := by
  unfold markEvaluations
  rw [bind_eq_ok_iff]
  constructor
  · rintro ⟨⟨⟩, isExpression, succeeds⟩
    obtain ⟨block, stored, succeeds⟩ := bind_eq_ok_iff.1 succeeds
    cases succeeds
    refine ⟨require_eq_ok_iff.1 isExpression, isAllocated_of_block stored, ?_⟩
    rw [Block.mapIdx_mark_eq_alter block wordMarks marks agree, withBlock_alter stored]
  · rintro ⟨isExpression, allocated, rfl⟩
    obtain ⟨block, stored⟩ := exists_block allocated
    refine ⟨(), require_eq_ok_iff.2 isExpression, ?_⟩
    rw [stored, ← withBlock_alter stored, ← Block.mapIdx_mark_eq_alter block wordMarks marks agree]
    rfl

/-- Recording an evaluation marks the combinations that occur, also in the
padding of the last word. -/
theorem evaluate_eq_ok_iff
    {vector left right updated : LogicVector}
    {evaluation : Evaluation} :
    vector.evaluate evaluation left right = .ok updated ↔
      left.storage.isAllocated = true ∧ right.storage.isAllocated = true ∧
        vector.kind = Kind.expression ∧ vector.storage.isAllocated = true ∧
        updated = vector.alter fun position cell =>
          cell.mark (evaluation.occurs (left.bit? position) (right.bit? position)) := by
  have agree : ∀ {leftValue rightValue : Buffer},
      Buffer.ofVector left = .ok leftValue → Buffer.ofVector right = .ok rightValue →
      ∀ index plane offset, offset < 32 →
        (evaluation.marks leftValue rightValue index plane).getLsbD offset =
          (plane.isCoverage && evaluation.occurs (left.bit? (32 * index + offset))
            (right.bit? (32 * index + offset)) plane) := by
    intro leftValue rightValue readsLeft readsRight index plane offset inWord
    rw [Evaluation.getLsbD_marks _ _ _ _ _ inWord, Buffer.bit?_ofVector readsLeft,
      Buffer.bit?_ofVector readsRight, Evaluation.isCoverage_and_occurs]
  unfold evaluate
  rw [bind_eq_ok_iff]
  constructor
  · rintro ⟨leftValue, readsLeft, succeeds⟩
    obtain ⟨rightValue, readsRight, succeeds⟩ := bind_eq_ok_iff.1 succeeds
    refine ⟨(ofVector_succeeds_iff left).1 ⟨_, readsLeft⟩,
      (ofVector_succeeds_iff right).1 ⟨_, readsRight⟩, ?_⟩
    exact (markEvaluations_eq_ok_iff (agree readsLeft readsRight)).1 succeeds
  · rintro ⟨leftAllocated, rightAllocated, marked⟩
    obtain ⟨leftValue, readsLeft⟩ := (ofVector_succeeds_iff left).2 leftAllocated
    obtain ⟨rightValue, readsRight⟩ := (ofVector_succeeds_iff right).2 rightAllocated
    refine ⟨leftValue, readsLeft, ?_⟩
    rw [readsRight]
    exact (markEvaluations_eq_ok_iff (agree readsLeft readsRight)).2 marked

/-- Recording a value marks where it is known. -/
theorem evaluateUnary_eq_ok_iff {vector updated : LogicVector} :
    vector.evaluateUnary = .ok updated ↔
      vector.kind = Kind.expression ∧ vector.storage.isAllocated = true ∧
        updated = vector.alter fun position cell =>
          cell.mark (Evaluation.shows (vector.bit? position)) := by
  have agree : ∀ {value : Buffer}, Buffer.ofVector vector = .ok value →
      ∀ index (plane : Plane) offset, offset < 32 →
        (if plane = Plane.evalA then value.knownZeros index
          else if plane = Plane.evalB then value.knownOnes index
          else 0).getLsbD offset =
          (plane.isCoverage && Evaluation.shows (vector.bit? (32 * index + offset)) plane) := by
    intro value reads index plane offset inWord
    rw [Evaluation.isCoverage_and_shows, ← Buffer.bit?_ofVector reads, Evaluation.shows]
    split
    · exact value.getLsbD_knownZeros index inWord
    · split
      · exact value.getLsbD_knownOnes index inWord
      · simp
  unfold evaluateUnary
  rw [bind_eq_ok_iff]
  constructor
  · rintro ⟨value, reads, succeeds⟩
    exact (markEvaluations_eq_ok_iff (agree reads)).1 succeeds
  · rintro ⟨isExpression, allocated, same⟩
    obtain ⟨value, reads⟩ := (ofVector_succeeds_iff vector).2 allocated
    exact ⟨value, reads,
      (markEvaluations_eq_ok_iff (agree reads)).2 ⟨isExpression, allocated, same⟩⟩

end LogicVector

end FourState
