import FourState.Proofs.Counting
import FourState.Proofs.Evaluation

/-!
# Evaluation coverage

Recording an evaluation marks every position of the target's words where a
combination occurs.  The words can reach past the width of the target, and an
operand that does so as well is seen there.  The marks stay inside the width,
and the counts agree with what can be read bit by bit, exactly when no
combination occurs in the padding.
-/

namespace FourState

/-- No combination occurs in the last word past the width. -/
def Evaluation.Contained
    (evaluation : Evaluation)
    (width : Nat)
    (left right : LogicVector) : Prop :=
  ∀ position, width ≤ position → position < 32 * wordCount width → ∀ plane,
    evaluation.occurs (left.bit? position) (right.bit? position) plane = false

/-- Operands that are not wider than the target show nothing in its padding. -/
theorem Evaluation.contained_of_width_le
    (evaluation : Evaluation)
    {width : Nat}
    {left right : LogicVector}
    (leftFits : left.width ≤ width)
    (rightFits : right.width ≤ width) :
    evaluation.Contained width left right := by
  intro position outside _ plane
  have leftOutside : ¬position < left.width := by omega
  have rightOutside : ¬position < right.width := by omega
  rw [LogicVector.bit?, LogicVector.bit?, if_neg leftOutside, if_neg rightOutside,
    Evaluation.occurs_none]
  rfl

namespace LogicVector

/-- The number of bits in some planes that show as set when they are read one by
one. -/
def countReadable (vector : LogicVector) (planes : List Plane) : Nat :=
  (planes.map fun plane =>
    (List.range vector.width).countP fun position =>
      decide (vector.planeBit plane position = .ok true)).sum

/-- The bits read one by one are the positions below the width that are set. -/
theorem countReadable_eq_sum
    {vector : LogicVector}
    {block : Block}
    (stored : vector.block = .ok block)
    (size : block.size = wordCount vector.width)
    (isExpression : vector.kind = Kind.expression)
    (planes : List Plane) :
    vector.countReadable planes =
      (planes.map fun plane =>
        (List.range vector.width).countP fun position => block.bit plane position).sum := by
  unfold countReadable
  congr 1
  apply List.map_congr_left
  intro plane _
  apply List.countP_congr
  intro position inRange
  have live : plane.val < vector.kind.planeCount := by
    rw [isExpression]
    exact plane.isLt
  rw [planeBit_eq_ok stored size live (List.mem_range.1 inRange)]
  simp

/-- After marks, a bit is set if it was before or if its combination occurs in the
words. -/
theorem bit_marked
    (before : Block)
    (evaluation : Evaluation)
    (left right : LogicVector)
    (plane : Plane)
    (position : Nat) :
    (before.alter fun position cell =>
      cell.mark (evaluation.occurs (left.bit? position) (right.bit? position))).bit plane position =
      (before.bit plane position ||
        (decide (position < 32 * before.size) &&
          evaluation.occurs (left.bit? position) (right.bit? position) plane)) := by
  by_cases inBounds : position < 32 * before.size
  · have marked := congrFun (before.cell_alter (fun position cell =>
      cell.mark (evaluation.occurs (left.bit? position) (right.bit? position))) inBounds) plane
    rw [decide_eq_true inBounds, Bool.true_and, ← Evaluation.isCoverage_and_occurs]
    exact marked
  · have emptyAfter := congrFun (Block.cell_of_size_le (before.alter fun position cell =>
      cell.mark (evaluation.occurs (left.bit? position) (right.bit? position)))
      (by simpa using inBounds)) plane
    have emptyBefore := congrFun (before.cell_of_size_le (Nat.not_lt.1 inBounds)) plane
    rw [decide_eq_false inBounds, Bool.false_and, Bool.or_false]
    exact emptyAfter.trans emptyBefore.symm

section Marked

variable
  {evaluation : Evaluation}
  {left right : LogicVector}
  {width : Nat}
  {before after : Block}

/-- Marks end at the width exactly when no combination occurs in the padding. -/
theorem clean_marked_iff_contained
    (clean : ∀ plane position, width ≤ position → before.bit plane position = false)
    (marked : ∀ plane position, after.bit plane position =
      (before.bit plane position || (decide (position < 32 * wordCount width) &&
        evaluation.occurs (left.bit? position) (right.bit? position) plane))) :
    (∀ plane position, width ≤ position → after.bit plane position = false) ↔
      evaluation.Contained width left right := by
  constructor
  · intro cleanAfter position outside inWords plane
    have unset := cleanAfter plane position outside
    rw [marked, clean plane position outside, decide_eq_true inWords, Bool.false_or,
      Bool.true_and] at unset
    exact unset
  · intro contained plane position outside
    rw [marked, clean plane position outside, Bool.false_or]
    by_cases inWords : position < 32 * wordCount width
    · rw [contained position outside inWords plane, Bool.and_false]
    · rw [decide_eq_false inWords, Bool.false_and]

/-- Marks that end at the width are marks inside the width. -/
theorem exact_iff_clean_marked
    (clean : ∀ plane position, width ≤ position → before.bit plane position = false)
    (marked : ∀ plane position, after.bit plane position =
      (before.bit plane position || (decide (position < 32 * wordCount width) &&
        evaluation.occurs (left.bit? position) (right.bit? position) plane))) :
    (∀ plane position, after.bit plane position =
      (before.bit plane position || (decide (position < width) &&
        evaluation.occurs (left.bit? position) (right.bit? position) plane))) ↔
      ∀ plane position, width ≤ position → after.bit plane position = false := by
  constructor
  · intro markedInside plane position outside
    rw [markedInside, clean plane position outside, decide_eq_false (Nat.not_lt.2 outside),
      Bool.false_and, Bool.or_false]
  · intro cleanAfter plane position
    by_cases inside : position < width
    · have inWords := Nat.lt_of_lt_of_le inside (le_wordCount width)
      rw [marked, decide_eq_true inside, decide_eq_true inWords]
    · have outside := Nat.not_lt.1 inside
      rw [cleanAfter plane position outside, clean plane position outside,
        decide_eq_false inside, Bool.false_and, Bool.or_false]

end Marked

/-- Clean planes are counted as they are read. -/
theorem countPlanes_eq_countReadable
    {vector : LogicVector}
    {block : Block}
    (stored : vector.block = .ok block)
    (size : block.size = wordCount vector.width)
    (isExpression : vector.kind = Kind.expression)
    (clean : ∀ plane position, vector.width ≤ position → block.bit plane position = false)
    (planes : List Plane) :
    vector.countPlanes planes = .ok (vector.countReadable planes) := by
  rw [countPlanes_eq_sum stored, countReadable_eq_sum stored size isExpression]
  congr 2
  apply List.map_congr_left
  intro plane _
  apply (Block.countPlane_eq_iff size plane).2
  intro position outside _
  exact clean plane position outside

/-- Planes that are counted as they are read are clean. -/
theorem clean_of_countPlanes
    {vector : LogicVector}
    {block : Block}
    (stored : vector.block = .ok block)
    (size : block.size = wordCount vector.width)
    (isExpression : vector.kind = Kind.expression)
    (counted : vector.countPlanes [Plane.evalA, Plane.evalB, Plane.evalC, Plane.evalD] =
      .ok (vector.countReadable [Plane.evalA, Plane.evalB, Plane.evalC, Plane.evalD])) :
    ∀ plane ∈ [Plane.evalA, Plane.evalB, Plane.evalC, Plane.evalD], ∀ position,
      vector.width ≤ position → position < 32 * wordCount vector.width →
      block.bit plane position = false := by
  rw [countPlanes_eq_sum stored, countReadable_eq_sum stored size isExpression] at counted
  have same := Except.ok.inj counted
  have atLeast (plane : Plane) :
      (List.range vector.width).countP (fun position => block.bit plane position) ≤
        block.countPlane plane := by
    rw [Block.countPlane, size]
    exact countP_range_mono (le_wordCount vector.width) _
  have inA := atLeast Plane.evalA
  have inB := atLeast Plane.evalB
  have inC := atLeast Plane.evalC
  have inD := atLeast Plane.evalD
  simp only [List.map_cons, List.map_nil, List.sum_cons, List.sum_nil] at same
  intro plane isPlane
  apply (Block.countPlane_eq_iff size plane).1
  simp only [List.mem_cons, List.not_mem_nil, or_false] at isPlane
  obtain rfl | rfl | rfl | rfl := isPlane <;> omega

/-- Recording an evaluation on a clean expression sets exactly the planes whose
combination occurs, at every position of the words.  The result is the one that
marks inside the width would give if and only if no combination occurs in the
padding; so are the counts. -/
theorem evaluate_exact_iff_contained
    {vector left right : LogicVector}
    {before : Block}
    (evaluation : Evaluation)
    (wellFormed : vector.WellFormed fun _ => True)
    (isExpression : vector.kind = Kind.expression)
    (stored : vector.block = .ok before)
    (leftAllocated : left.storage.isAllocated = true)
    (rightAllocated : right.storage.isAllocated = true) :
    ∃ updated after,
      vector.evaluate evaluation left right = .ok updated ∧
      updated.toHeader = vector.toHeader ∧ updated.block = .ok after ∧
      (∀ plane position, after.bit plane position =
        (before.bit plane position || (decide (position < 32 * wordCount vector.width) &&
          evaluation.occurs (left.bit? position) (right.bit? position) plane))) ∧
      ((∀ plane position, after.bit plane position =
          (before.bit plane position || (decide (position < vector.width) &&
            evaluation.occurs (left.bit? position) (right.bit? position) plane))) ↔
        evaluation.Contained vector.width left right) ∧
      ((∀ plane position, vector.width ≤ position → after.bit plane position = false) ↔
        evaluation.Contained vector.width left right) ∧
      (evaluation.Contained vector.width left right → ∀ planes,
        updated.countPlanes planes = .ok (updated.countReadable planes)) ∧
      (updated.countPlanes [Plane.evalA, Plane.evalB, Plane.evalC, Plane.evalD] =
          .ok (updated.countReadable [Plane.evalA, Plane.evalB, Plane.evalC, Plane.evalD]) →
        evaluation.Contained vector.width left right) := by
  have fits := wellFormed.block_fits before stored
  have size := fits.size_eq
  have inWords := le_wordCount vector.width
  have clean : ∀ plane position, vector.width ≤ position → before.bit plane position = false :=
    fun plane position outside => fits.bit_of_width_le trivial outside
  have evaluates : vector.evaluate evaluation left right =
      .ok (vector.alter fun position cell =>
        cell.mark (evaluation.occurs (left.bit? position) (right.bit? position))) :=
    evaluate_eq_ok_iff.2 ⟨leftAllocated, rightAllocated, isExpression,
      isAllocated_of_block stored, rfl⟩
  have storedAfter := block_alter stored fun position cell =>
    cell.mark (evaluation.occurs (left.bit? position) (right.bit? position))
  have marked := bit_marked before evaluation left right
  rw [size] at marked
  have sizeAfter := before.size_alter fun position cell =>
    cell.mark (evaluation.occurs (left.bit? position) (right.bit? position))
  rw [size] at sizeAfter
  have cleanIff := clean_marked_iff_contained clean marked
  refine ⟨_, _, evaluates, rfl, storedAfter, marked,
    (exact_iff_clean_marked clean marked).trans cleanIff, cleanIff, ?_, ?_⟩
  · intro contained planes
    exact countPlanes_eq_countReadable storedAfter sizeAfter isExpression (cleanIff.2 contained)
      planes
  · intro counted position outside inWords plane
    rw [Bool.eq_false_iff]
    intro occurring
    have unset := clean_of_countPlanes storedAfter sizeAfter isExpression counted plane
      (Evaluation.mem_of_occurs occurring) position outside inWords
    rw [marked, decide_eq_true inWords, occurring, Bool.and_self, Bool.or_true] at unset
    contradiction

/-- Two zeros of eight bits fit an expression of eight bits. -/
theorem evaluate_exact_of_equal_widths :
    ∃ (target operand : LogicVector) (before : Block),
      (target.WellFormed fun _ => True) ∧ target.kind = Kind.expression ∧
      target.block = .ok before ∧ operand.storage.isAllocated = true ∧
      ∃ updated,
        target.evaluate .table operand operand = .ok updated ∧
        updated.countPlanes [Plane.evalA, Plane.evalB, Plane.evalC, Plane.evalD] =
          .ok (updated.countReadable [Plane.evalA, Plane.evalB, Plane.evalC, Plane.evalD]) := by
  obtain ⟨target, createsTarget⟩ : ∃ target, create 8 .expression true = .ok target := ⟨_, rfl⟩
  obtain ⟨operand, createsOperand⟩ : ∃ operand, create 8 .plain true = .ok operand := ⟨_, rfl⟩
  have wellFormed : target.WellFormed fun _ => True := create_wellFormed createsTarget
  have isExpression : target.kind = Kind.expression := by
    cases createsTarget
    rfl
  have allocated : operand.storage.isAllocated = true := by
    cases createsOperand
    rfl
  have sameWidth : operand.width = target.width := by
    cases createsTarget
    cases createsOperand
    rfl
  obtain ⟨before, stored⟩ : ∃ before, target.block = .ok before := by
    cases createsTarget
    exact ⟨_, rfl⟩
  obtain ⟨updated, after, evaluates, -, -, -, -, -, counted, -⟩ :=
    evaluate_exact_iff_contained .table wellFormed isExpression stored allocated allocated
  have contained := Evaluation.contained_of_width_le .table (Nat.le_of_eq sameWidth)
    (Nat.le_of_eq sameWidth)
  exact ⟨target, operand, before, wellFormed, isExpression, stored, allocated, updated, evaluates,
    counted contained _⟩

/-- Two zeros of eight bits mark an expression of four bits past its width, and
twice as many bits are counted as can be read. -/
theorem evaluate_marks_padding :
    ∃ target operand updated after,
      create 4 .expression true = .ok target ∧ create 8 .plain true = .ok operand ∧
      target.evaluate .table operand operand = .ok updated ∧ updated.block = .ok after ∧
      after.bit Plane.evalA 4 = true ∧
      updated.countPlanes [Plane.evalA, Plane.evalB, Plane.evalC, Plane.evalD] = .ok 8 ∧
      updated.countReadable [Plane.evalA, Plane.evalB, Plane.evalC, Plane.evalD] = 4 := by
  refine ⟨_, _, _, _, rfl, rfl, rfl, rfl, ?_, ?_, ?_⟩
  · decide +kernel
  · decide +kernel
  · decide +kernel

end LogicVector
end FourState
