import FourState.Proofs.Abstraction
import FourState.Proofs.Approximation
import FourState.Proofs.Operating

/-!
# Monotone operators

Turning unknown operand bits into known ones never takes back a known result
bit.  This holds for every operation but the case comparisons, which look at
the four states as such.  The arithmetic operators and the relations give `x`
unless their operands, as far as they read them, are known, and known operands
are the same in both runs; the others move bits or are exact abstractions.
-/

namespace FourState

/-! ## Computed values -/

/-- At the positions of a width, the second value has every known bit of the first. -/
def Buffer.ApproximatesWithin (width : Nat) (first second : Buffer) : Prop :=
  ∀ position, position < width →
    ((first.fitted width).bit position).Approximates ((second.fitted width).bit position)

namespace Buffer

variable {width : Nat}

theorem approximatesWithin_refl (value : Buffer) : value.ApproximatesWithin width value :=
  fun _ _ => Bit.approximates_refl _

/-- An unknown value approximates every value. -/
theorem unknown_approximatesWithin (value : Buffer) :
    (unknown width).ApproximatesWithin width value := by
  intro position inside
  rw [fitted, if_pos (width_unknown width), bit_unknown, if_pos inside]
  exact Bit.x_approximates _

theorem Approximates.within
    {first second : Buffer}
    (approximates : first.Approximates second) :
    first.ApproximatesWithin width second := by
  intro position _
  unfold fitted
  rw [approximates.width_eq]
  split
  · exact approximates.bit position
  · exact (approximates.resized width false).bit position

/-- Values that are as wide as they should be are compared bit by bit. -/
theorem approximatesWithin_of_bit
    {first second : Buffer}
    (wide : first.width = width)
    (otherWide : second.width = width)
    (bit : ∀ position, position < width →
      (first.bit position).Approximates (second.bit position)) :
    first.ApproximatesWithin width second := by
  intro position inside
  rw [fitted, fitted, if_pos wide, if_pos otherWide]
  exact bit position inside

theorem ofBit_approximatesWithin
    {answer other : Bit}
    (answers : answer.Approximates other) :
    (ofBit width answer).ApproximatesWithin width (ofBit width other) := by
  refine approximatesWithin_of_bit (width_ofBits _ _) (width_ofBits _ _) ?_
  intro position inside
  simp only [ofBit, bit_ofBits, inside, if_true]
  split
  · exact answers
  · exact Bit.approximates_refl _

/-- Results of known operands only are the same once the operands are known. -/
theorem whenKnown_approximatesWithin
    {operands otherOperands : List Buffer}
    {compute otherCompute : Except Fault Buffer}
    {value otherValue : Buffer}
    (approximates : List.Forall₂ Approximates operands otherOperands)
    (same : otherOperands = operands → otherCompute = compute)
    (computes : whenKnown width operands compute = .ok value)
    (otherComputes : whenKnown width otherOperands otherCompute = .ok otherValue) :
    value.ApproximatesWithin width otherValue := by
  unfold whenKnown at computes
  split at computes
  · cases computes
    exact unknown_approximatesWithin otherValue
  · rename_i noUnknown
    have sameOperands : otherOperands = operands := by
      clear same computes otherComputes
      induction approximates with
      | nil => rfl
      | cons approximates _ inductionHypothesis =>
          rw [List.any_cons, Bool.or_eq_true, not_or] at noUnknown
          rw [approximates.eq_of_known (Bool.not_eq_true _ ▸ noUnknown.1),
            inductionHypothesis noUnknown.2]
    rw [whenKnown, sameOperands, if_neg noUnknown, same sameOperands, computes] at otherComputes
    cases otherComputes
    exact approximatesWithin_refl value

end Buffer

namespace Operator

variable {width : Nat} {source otherSource left otherLeft right otherRight : LogicVector}
variable {value otherValue : Buffer}

/-! ## Arithmetic and comparisons -/

theorem combine_approximates
    {function : Buffer → Buffer → Except Fault Buffer}
    (lefts : left.Approximates otherLeft)
    (rights : right.Approximates otherRight)
    (computes : combine width left right function = .ok value)
    (otherComputes : combine width otherLeft otherRight function = .ok otherValue) :
    value.ApproximatesWithin width otherValue := by
  unfold combine at computes otherComputes
  have sameSigned : bothSigned otherLeft otherRight = bothSigned left right := by
    rw [bothSigned, bothSigned, lefts.signed_eq, rights.signed_eq]
  rw [sameSigned] at otherComputes
  obtain ⟨leftValue, readsLeft, computes⟩ := bind_eq_ok_iff.1 computes
  obtain ⟨rightValue, readsRight, computes⟩ := bind_eq_ok_iff.1 computes
  obtain ⟨otherLeftValue, readsOtherLeft, otherComputes⟩ := bind_eq_ok_iff.1 otherComputes
  obtain ⟨otherRightValue, readsOtherRight, otherComputes⟩ := bind_eq_ok_iff.1 otherComputes
  refine Buffer.whenKnown_approximatesWithin ?_ ?_ computes otherComputes
  · exact .cons (lefts.operand readsLeft readsOtherLeft)
      (.cons (rights.operand readsRight readsOtherRight) .nil)
  · intro sameOperands
    cases sameOperands
    rfl

/-- The negation, the increment and the decrement each compute with one operand. -/
theorem whenKnown_approximates
    {operand otherOperand : Except Fault Buffer}
    (function : Buffer → Except Fault Buffer)
    (operands : ∀ first second, operand = .ok first → otherOperand = .ok second →
      first.Approximates second)
    (computes : (operand >>= fun read => whenKnown width [read] (function read)) = .ok value)
    (otherComputes :
      (otherOperand >>= fun read => whenKnown width [read] (function read)) = .ok otherValue) :
    value.ApproximatesWithin width otherValue := by
  obtain ⟨first, reads, computes⟩ := bind_eq_ok_iff.1 computes
  obtain ⟨second, otherReads, otherComputes⟩ := bind_eq_ok_iff.1 otherComputes
  refine Buffer.whenKnown_approximatesWithin ?_ ?_ computes otherComputes
  · exact .cons (operands first second reads otherReads) .nil
  · intro sameOperands
    cases sameOperands
    rfl

theorem negate_approximates
    (sources : source.Approximates otherSource)
    (computes : negate width source = .ok value)
    (otherComputes : negate width otherSource = .ok otherValue) :
    value.ApproximatesWithin width otherValue := by
  unfold negate at computes otherComputes
  rw [sources.signed_eq] at otherComputes
  exact whenKnown_approximates (fun read => (Buffer.zero width).add read.complement true)
    (fun _ _ => sources.operand) computes otherComputes

theorem increment_approximates
    (sources : source.Approximates otherSource)
    (computes : increment source = .ok value)
    (otherComputes : increment otherSource = .ok otherValue) :
    value.ApproximatesWithin source.width otherValue := by
  unfold increment at computes otherComputes
  rw [sources.width_eq] at otherComputes
  exact whenKnown_approximates (fun read => read.add (Buffer.zero read.width) true)
    (fun _ _ => sources.ofVector) computes otherComputes

theorem decrement_approximates
    (sources : source.Approximates otherSource)
    (computes : decrement source = .ok value)
    (otherComputes : decrement otherSource = .ok otherValue) :
    value.ApproximatesWithin source.width otherValue := by
  unfold decrement at computes otherComputes
  rw [sources.width_eq] at otherComputes
  exact whenKnown_approximates (fun read => read.add (Buffer.zero read.width).complement false)
    (fun _ _ => sources.ofVector) computes otherComputes

theorem divide_approximates
    {division : Division}
    (lefts : left.Approximates otherLeft)
    (rights : right.Approximates otherRight)
    (computes : divide division width left right = .ok value)
    (otherComputes : divide division width otherLeft otherRight = .ok otherValue) :
    value.ApproximatesWithin width otherValue := by
  unfold divide at computes otherComputes
  have sameSigned : bothSigned otherLeft otherRight = bothSigned left right := by
    rw [bothSigned, bothSigned, lefts.signed_eq, rights.signed_eq]
  obtain ⟨leftValue, readsLeft, computes⟩ := bind_eq_ok_iff.1 computes
  obtain ⟨rightValue, readsRight, computes⟩ := bind_eq_ok_iff.1 computes
  obtain ⟨otherLeftValue, readsOtherLeft, otherComputes⟩ := bind_eq_ok_iff.1 otherComputes
  obtain ⟨otherRightValue, readsOtherRight, otherComputes⟩ := bind_eq_ok_iff.1 otherComputes
  rw [liftM_fault_eq_ok_iff] at readsLeft readsRight readsOtherLeft readsOtherRight
  have leftValues := lefts.ofVector readsLeft readsOtherLeft
  have rightValues := rights.ofVector readsRight readsOtherRight
  cases unknown : leftValue.hasUnknown || rightValue.hasUnknown with
  | true =>
      rw [if_pos unknown] at computes
      cases computes
      exact Buffer.unknown_approximatesWithin otherValue
  | false =>
      rw [Bool.or_eq_false_iff] at unknown
      have sameLeft := leftValues.eq_of_known unknown.1
      have sameRight := rightValues.eq_of_known unknown.2
      rw [sameLeft, sameRight, sameSigned] at otherComputes
      rw [computes] at otherComputes
      cases otherComputes
      exact Buffer.approximatesWithin_refl value

theorem compare_approximates
    {relation : Relation}
    (lefts : left.Approximates otherLeft)
    (rights : right.Approximates otherRight)
    (computes : compare relation width left right = .ok value)
    (otherComputes : compare relation width otherLeft otherRight = .ok otherValue) :
    value.ApproximatesWithin width otherValue := by
  unfold compare at computes otherComputes
  have sameSigned : bothSigned otherLeft otherRight = bothSigned left right := by
    rw [bothSigned, bothSigned, lefts.signed_eq, rights.signed_eq]
  rw [sameSigned, lefts.width_eq, rights.width_eq] at otherComputes
  obtain ⟨leftValue, readsLeft, computes⟩ := bind_eq_ok_iff.1 computes
  obtain ⟨rightValue, readsRight, computes⟩ := bind_eq_ok_iff.1 computes
  obtain ⟨otherLeftValue, readsOtherLeft, otherComputes⟩ := bind_eq_ok_iff.1 otherComputes
  obtain ⟨otherRightValue, readsOtherRight, otherComputes⟩ := bind_eq_ok_iff.1 otherComputes
  cases computes
  cases otherComputes
  apply Buffer.ofBit_approximatesWithin
  cases unknown : leftValue.hasUnknown || rightValue.hasUnknown with
  | true =>
      rw [if_pos rfl]
      exact Bit.x_approximates _
  | false =>
      have known := unknown
      rw [Bool.or_eq_false_iff] at known
      rw [(lefts.operand readsLeft readsOtherLeft).eq_of_known known.1,
        (rights.operand readsRight readsOtherRight).eq_of_known known.2, unknown]
      exact Bit.approximates_refl _

/-! ## Moving bits -/

theorem shift_approximates
    {kind : Shift}
    (sources : source.Approximates otherSource)
    (amounts : right.Approximates otherRight)
    (computes : shift kind width source right = .ok value)
    (otherComputes : shift kind width otherSource otherRight = .ok otherValue) :
    value.ApproximatesWithin width otherValue := by
  unfold shift at computes otherComputes
  rw [sources.signed_eq, sources.width_eq] at otherComputes
  obtain ⟨count, readsCount, computes⟩ := bind_eq_ok_iff.1 computes
  obtain ⟨otherCount, readsOtherCount, otherComputes⟩ := bind_eq_ok_iff.1 otherComputes
  cases unknown : count.hasUnknown with
  | true =>
      rw [if_pos unknown] at computes
      cases computes
      exact Buffer.unknown_approximatesWithin otherValue
  | false =>
      have sameCount := (amounts.ofVector readsCount readsOtherCount).eq_of_known unknown
      rw [unknown, if_neg Bool.false_ne_true] at computes
      rw [sameCount, unknown, if_neg Bool.false_ne_true] at otherComputes
      obtain ⟨moved, reads, computes⟩ := bind_eq_ok_iff.1 computes
      obtain ⟨otherMoved, otherReads, otherComputes⟩ := bind_eq_ok_iff.1 otherComputes
      cases computes
      cases otherComputes
      exact ((sources.operand reads otherReads).shift kind _).within

theorem partSelect_approximates
    {lsb msb : Nat}
    (sources : source.Approximates otherSource)
    (computes : partSelect source lsb msb = .ok value)
    (otherComputes : partSelect otherSource lsb msb = .ok otherValue) :
    value.ApproximatesWithin width otherValue := by
  unfold partSelect at computes otherComputes
  obtain ⟨⟨⟩, -, computes⟩ := bind_eq_ok_iff.1 computes
  obtain ⟨⟨⟩, -, otherComputes⟩ := bind_eq_ok_iff.1 otherComputes
  obtain ⟨whole, reads, computes⟩ := bind_eq_ok_iff.1 computes
  obtain ⟨otherWhole, otherReads, otherComputes⟩ := bind_eq_ok_iff.1 otherComputes
  cases computes
  cases otherComputes
  exact (((sources.ofVector reads otherReads).shift .right lsb).resized _ false).within

theorem partAssign_approximates
    {target other : LogicVector}
    {lsb msb : Nat}
    (sameWidth : other.width = target.width)
    (sources : source.Approximates otherSource)
    (computes : partAssign target source lsb msb = .ok value)
    (otherComputes : partAssign other otherSource lsb msb = .ok otherValue) :
    value.ApproximatesWithin width otherValue := by
  unfold partAssign at computes otherComputes
  rw [sources.signed_eq, sameWidth] at otherComputes
  obtain ⟨⟨⟩, -, computes⟩ := bind_eq_ok_iff.1 computes
  obtain ⟨⟨⟩, -, otherComputes⟩ := bind_eq_ok_iff.1 otherComputes
  obtain ⟨whole, reads, computes⟩ := bind_eq_ok_iff.1 computes
  obtain ⟨otherWhole, otherReads, otherComputes⟩ := bind_eq_ok_iff.1 otherComputes
  cases computes
  cases otherComputes
  have fresh := Buffer.approximates_refl (Buffer.canonical_zero target.width)
  have clear (position : Nat) (_ : lsb ≤ position) :
      (Buffer.zero target.width).bit position = Bit.zero := Buffer.bit_zero _ _
  exact (fresh.insert ((sources.ofVector reads otherReads).resized _ _) clear clear).within

/-- Copies are inserted where both results are still clear. -/
theorem replicate_approximates
    {item otherItem result otherResult : Buffer}
    {copies position : Nat}
    (items : item.Approximates otherItem)
    (results : result.Approximates otherResult)
    (clear : ∀ above, position ≤ above → result.bit above = Bit.zero)
    (otherClear : ∀ above, position ≤ above → otherResult.bit above = Bit.zero)
    (computes : replicate item copies position result = .ok value)
    (otherComputes : replicate otherItem copies position otherResult = .ok otherValue) :
    value.Approximates otherValue := by
  induction copies generalizing position result otherResult with
  | zero =>
      cases computes
      cases otherComputes
      exact results
  | succ copies inductionHypothesis =>
      rw [replicate] at computes otherComputes
      rw [results.width_eq] at otherComputes
      split at computes
      · rename_i inside
        rw [if_pos inside, items.width_eq] at otherComputes
        obtain ⟨next, steps, computes⟩ := bind_eq_ok_iff.1 computes
        obtain ⟨otherNext, otherSteps, otherComputes⟩ := bind_eq_ok_iff.1 otherComputes
        rw [steps] at otherSteps
        cases otherSteps
        have next_eq : next = position + item.width := by
          obtain ⟨⟨⟩, -, steps⟩ := bind_eq_ok_iff.1 steps
          cases steps
          rfl
        have stillClear
            {buffer inserted : Buffer}
            (canonical : buffer.Canonical)
            (insertedCanonical : inserted.Canonical)
            (sameWidth : inserted.width = item.width)
            (clearBefore : ∀ above, position ≤ above → buffer.bit above = Bit.zero)
            (above : Nat)
            (isAbove : next ≤ above) :
            (buffer.insert position inserted).bit above = Bit.zero := by
          have notBelow : ¬above < position := by omega
          rw [Buffer.bit_insert canonical insertedCanonical clearBefore, if_neg notBelow,
            Buffer.bit_of_width_le inserted (by omega), ite_self]
        exact inductionHypothesis (results.insert items clear otherClear)
          (stillClear results.canonical items.canonical rfl clear)
          (stillClear results.otherCanonical items.otherCanonical items.width_eq otherClear)
          computes otherComputes
      · rename_i outside
        rw [if_neg outside] at otherComputes
        cases computes
        cases otherComputes
        exact results

theorem expand_approximates
    (counts : left.Approximates otherLeft)
    (values : right.Approximates otherRight)
    (computes : expand width left right = .ok value)
    (otherComputes : expand width otherLeft otherRight = .ok otherValue) :
    value.ApproximatesWithin width otherValue := by
  unfold expand at computes otherComputes
  obtain ⟨count, readsCount, computes⟩ := bind_eq_ok_iff.1 computes
  obtain ⟨otherCount, readsOtherCount, otherComputes⟩ := bind_eq_ok_iff.1 otherComputes
  cases unknown : count.hasUnknown with
  | true =>
      rw [if_pos unknown] at computes
      cases computes
      exact Buffer.unknown_approximatesWithin otherValue
  | false =>
      have sameCount := (counts.ofVector readsCount readsOtherCount).eq_of_known unknown
      rw [unknown, if_neg Bool.false_ne_true] at computes
      rw [sameCount, unknown, if_neg Bool.false_ne_true] at otherComputes
      obtain ⟨item, reads, computes⟩ := bind_eq_ok_iff.1 computes
      obtain ⟨otherItem, otherReads, otherComputes⟩ := bind_eq_ok_iff.1 otherComputes
      have fresh := Buffer.approximates_refl (Buffer.canonical_zero width)
      have clear (position : Nat) (_ : 0 ≤ position) :
          (Buffer.zero width).bit position = Bit.zero := Buffer.bit_zero _ _
      exact (replicate_approximates (values.ofVector reads otherReads) fresh clear clear computes
        otherComputes).within

theorem concat_approximates
    (lefts : left.Approximates otherLeft)
    (rights : right.Approximates otherRight)
    (computes : concat width left right = .ok value)
    (otherComputes : concat width otherLeft otherRight = .ok otherValue) :
    value.ApproximatesWithin width otherValue := by
  unfold concat at computes otherComputes
  obtain ⟨lower, readsLower, computes⟩ := bind_eq_ok_iff.1 computes
  obtain ⟨otherLower, readsOtherLower, otherComputes⟩ := bind_eq_ok_iff.1 otherComputes
  obtain ⟨upper, readsUpper, computes⟩ := bind_eq_ok_iff.1 computes
  obtain ⟨otherUpper, readsOtherUpper, otherComputes⟩ := bind_eq_ok_iff.1 otherComputes
  cases computes
  cases otherComputes
  have lowers := rights.ofVector readsLower readsOtherLower
  have uppers := lefts.ofVector readsUpper readsOtherUpper
  have fresh := Buffer.approximates_refl (Buffer.canonical_zero width)
  have clear (position : Nat) (_ : 0 ≤ position) :
      (Buffer.zero width).bit position = Bit.zero := Buffer.bit_zero _ _
  have clearAbove
      {buffer : Buffer}
      (canonical : buffer.Canonical)
      (position : Nat)
      (isAbove : buffer.width ≤ position) :
      ((Buffer.zero width).insert 0 buffer).bit position = Bit.zero := by
    rw [Buffer.bit_insert fresh.canonical canonical clear, if_neg (Nat.not_lt_zero _),
      Buffer.bit_of_width_le buffer (by omega), ite_self]
  rw [lowers.width_eq]
  refine ((fresh.insert lowers clear clear).insert uppers (clearAbove lowers.canonical) ?_).within
  rw [← lowers.width_eq]
  exact clearAbove lowers.otherCanonical

/-! ## Exact abstractions -/

theorem bitwise_approximates
    {function : BitFunction}
    (lefts : left.Approximates otherLeft)
    (rights : right.Approximates otherRight)
    (computes : bitwise function width left right = .ok value)
    (otherComputes : bitwise function width otherLeft otherRight = .ok otherValue) :
    value.ApproximatesWithin width otherValue := by
  obtain ⟨result, computesExact, -, wide, decides⟩ :=
    bitwise_decides function width lefts.readable rights.readable
  obtain ⟨otherResult, otherComputesExact, -, otherWide, otherDecides⟩ :=
    bitwise_decides function width lefts.otherReadable rights.otherReadable
  rw [computes] at computesExact
  rw [otherComputes] at otherComputesExact
  cases computesExact
  cases otherComputesExact
  apply Buffer.approximatesWithin_of_bit wide otherWide
  intro position inside
  have sharper := otherDecides position inside
  rw [lefts.width_eq, rights.width_eq] at sharper
  apply (decides position inside).approximates sharper
  rintro bits ⟨admitsLeft, admitsRight⟩
  exact ⟨lefts.admits admitsLeft, rights.admits admitsRight⟩

theorem invert_approximates
    (sources : source.Approximates otherSource)
    (computes : invert width source = .ok value)
    (otherComputes : invert width otherSource = .ok otherValue) :
    value.ApproximatesWithin width otherValue := by
  obtain ⟨result, computesExact, -, wide, decides⟩ := invert_decides width sources.readable
  obtain ⟨otherResult, otherComputesExact, -, otherWide, otherDecides⟩ :=
    invert_decides width sources.otherReadable
  rw [computes] at computesExact
  rw [otherComputes] at otherComputesExact
  cases computesExact
  cases otherComputesExact
  apply Buffer.approximatesWithin_of_bit wide otherWide
  intro position inside
  have sharper := otherDecides position inside
  rw [sources.width_eq, sources.signed_eq] at sharper
  exact (decides position inside).approximates sharper fun bits => sources.admits

theorem reduce_approximates
    {reduction : Reduction}
    (sources : source.Approximates otherSource)
    (computes : reduce reduction width source = .ok value)
    (otherComputes : reduce reduction width otherSource = .ok otherValue) :
    value.ApproximatesWithin width otherValue := by
  obtain ⟨answer, computesExact, decides⟩ := reduce_decides reduction width sources.readable
  obtain ⟨otherAnswer, otherComputesExact, otherDecides⟩ :=
    reduce_decides reduction width sources.otherReadable
  rw [computes] at computesExact
  rw [otherComputes] at otherComputesExact
  cases computesExact
  cases otherComputesExact
  rw [sources.width_eq] at otherDecides
  exact Buffer.ofBit_approximatesWithin
    (decides.approximates otherDecides fun bits => sources.admits)

theorem logical_approximates
    {connective : Connective}
    (lefts : left.Approximates otherLeft)
    (rights : right.Approximates otherRight)
    (computes : logical connective width left right = .ok value)
    (otherComputes : logical connective width otherLeft otherRight = .ok otherValue) :
    value.ApproximatesWithin width otherValue := by
  obtain ⟨answer, computesExact, decides⟩ :=
    logical_decides connective width lefts.readable rights.readable
  obtain ⟨otherAnswer, otherComputesExact, otherDecides⟩ :=
    logical_decides connective width lefts.otherReadable rights.otherReadable
  rw [computes] at computesExact
  rw [otherComputes] at otherComputesExact
  cases computesExact
  cases otherComputesExact
  rw [lefts.width_eq, rights.width_eq] at otherDecides
  apply Buffer.ofBit_approximatesWithin
  apply decides.approximates otherDecides
  rintro bits ⟨admitsLeft, admitsRight⟩
  exact ⟨lefts.admits admitsLeft, rights.admits admitsRight⟩

end Operator

/-! ## Operations -/

namespace Operation

variable {operand : Type}

/-- The operation compares the four states as such. -/
def comparesStates : Operation operand → Bool
  | caseCompare _ _ _ => true
  | _ => false

variable {first second : operand → LogicVector}

/-- The value that is computed from better known operands is better known. -/
theorem compute_approximates
    {operation : Operation operand}
    {target otherTarget : LogicVector}
    {value otherValue : Buffer}
    (ignoresStates : operation.comparesStates = false)
    (targets : target.Approximates otherTarget)
    (operands : ∀ name, (first name).Approximates (second name))
    (computes : (operation.map first).compute target = .ok value)
    (otherComputes : (operation.map second).compute otherTarget = .ok otherValue) :
    value.ApproximatesWithin target.width otherValue := by
  cases operation with
  | divide division left right =>
      simp only [map, compute, targets.width_eq] at computes otherComputes
      exact Operator.divide_approximates (operands left) (operands right) computes otherComputes
  | caseCompare operator left right => contradiction
  | add left right | subtract left right | multiply left right =>
      simp only [map, compute, targets.width_eq, liftM_fault_eq_ok_iff] at computes otherComputes
      exact Operator.combine_approximates (operands left) (operands right) computes otherComputes
  | negate source =>
      simp only [map, compute, targets.width_eq, liftM_fault_eq_ok_iff] at computes otherComputes
      exact Operator.negate_approximates (operands source) computes otherComputes
  | increment =>
      simp only [map, compute, liftM_fault_eq_ok_iff] at computes otherComputes
      exact Operator.increment_approximates targets computes otherComputes
  | decrement =>
      simp only [map, compute, liftM_fault_eq_ok_iff] at computes otherComputes
      exact Operator.decrement_approximates targets computes otherComputes
  | bitwise function left right =>
      simp only [map, compute, targets.width_eq, liftM_fault_eq_ok_iff] at computes otherComputes
      exact Operator.bitwise_approximates (operands left) (operands right) computes otherComputes
  | invert source =>
      simp only [map, compute, targets.width_eq, liftM_fault_eq_ok_iff] at computes otherComputes
      exact Operator.invert_approximates (operands source) computes otherComputes
  | compare relation left right =>
      simp only [map, compute, targets.width_eq, liftM_fault_eq_ok_iff] at computes otherComputes
      exact Operator.compare_approximates (operands left) (operands right) computes otherComputes
  | logical connective left right =>
      simp only [map, compute, targets.width_eq, liftM_fault_eq_ok_iff] at computes otherComputes
      exact Operator.logical_approximates (operands left) (operands right) computes otherComputes
  | reduce reduction source =>
      simp only [map, compute, targets.width_eq, liftM_fault_eq_ok_iff] at computes otherComputes
      exact Operator.reduce_approximates (operands source) computes otherComputes
  | shift kind source amount =>
      simp only [map, compute, targets.width_eq, liftM_fault_eq_ok_iff] at computes otherComputes
      exact Operator.shift_approximates (operands source) (operands amount) computes otherComputes
  | partSelect source lsb msb =>
      simp only [map, compute, liftM_fault_eq_ok_iff] at computes otherComputes
      exact Operator.partSelect_approximates (operands source) computes otherComputes
  | partAssign source lsb msb =>
      simp only [map, compute, liftM_fault_eq_ok_iff] at computes otherComputes
      exact Operator.partAssign_approximates targets.width_eq (operands source) computes
        otherComputes
  | expand count value =>
      simp only [map, compute, targets.width_eq, liftM_fault_eq_ok_iff] at computes otherComputes
      exact Operator.expand_approximates (operands count) (operands value) computes otherComputes
  | concat left right =>
      simp only [map, compute, targets.width_eq, liftM_fault_eq_ok_iff] at computes otherComputes
      exact Operator.concat_approximates (operands left) (operands right) computes otherComputes

end Operation

namespace LogicVector

/-- Readable vectors can always be joined in a readable target. -/
theorem operate_concat_succeeds
    {target left right : LogicVector}
    (readable : target.Readable)
    (fourState : target.twoState = false)
    (leftReadable : left.Readable)
    (rightReadable : right.Readable) :
    ∃ updated changed, (target.operate (.concat left right)).result = .ok (updated, changed) := by
  obtain ⟨lower, readsLower, -⟩ := rightReadable.ofVector
  obtain ⟨upper, readsUpper, -⟩ := leftReadable.ofVector
  have computes : (Operation.concat left right).compute target =
      .ok (((Buffer.zero target.width).insert 0 lower).insert lower.width upper) := by
    rw [Operation.compute, Operator.concat, readsLower, readsUpper]
    rfl
  have canonical := Buffer.canonical_insert
    (Buffer.canonical_insert (Buffer.canonical_zero target.width) 0 lower) lower.width upper
  obtain ⟨updated, changed, operates, -⟩ :=
    operate_whole readable fourState rfl computes canonical
  exact ⟨updated, changed, operates⟩

/-- An operation other than a case comparison, carried out on better known
operands and a better known four-state target, leaves a better known target:
every known bit that it leaves in the first run is the same in the second. -/
theorem operate_monotone
    {operand : Type}
    {operation : Operation operand}
    {first second : operand → LogicVector}
    {target otherTarget updated otherUpdated : LogicVector}
    {changed otherChanged : Bool}
    (ignoresStates : operation.comparesStates = false)
    (targets : target.Approximates otherTarget)
    (fourState : target.twoState = false)
    (otherFourState : otherTarget.twoState = false)
    (operands : ∀ name, (first name).Approximates (second name))
    (succeeds : (target.operate (operation.map first)).result = .ok (updated, changed))
    (otherSucceeds : (otherTarget.operate (operation.map second)).result =
      .ok (otherUpdated, otherChanged)) :
    updated.Approximates otherUpdated := by
  obtain ⟨value, computes⟩ := exists_compute_of_operate succeeds
  obtain ⟨otherValue, otherComputes⟩ := exists_compute_of_operate otherSucceeds
  have values := Operation.compute_approximates ignoresStates targets operands computes
    otherComputes
  have sameHeader : updated.toHeader = target.toHeader := by
    obtain ⟨-, rfl⟩ := operate_eq_accept computes succeeds
    rfl
  have otherHeader : otherUpdated.toHeader = otherTarget.toHeader := by
    obtain ⟨-, rfl⟩ := operate_eq_accept otherComputes otherSucceeds
    rfl
  have sameWidth : updated.width = target.width := congrArg Header.width sameHeader
  have otherWidth : otherUpdated.width = otherTarget.width := congrArg Header.width otherHeader
  refine ⟨targets.readable.operate succeeds, targets.otherReadable.operate otherSucceeds, ?_, ?_,
    ?_⟩
  · rw [sameWidth, otherWidth, targets.width_eq]
  · rw [congrArg Header.signed sameHeader, congrArg Header.signed otherHeader, targets.signed_eq]
  · intro position bit known shows
    have inside : position < target.width := sameWidth ▸ lt_width_of_bit? shows
    rw [bit?_operate targets.readable fourState computes succeeds inside,
      Operation.range_map] at shows
    rw [bit?_operate targets.otherReadable otherFourState otherComputes otherSucceeds
      (by rwa [targets.width_eq]), Operation.range_map, targets.width_eq]
    split at shows
    · rename_i covered
      cases shows
      rw [if_pos covered, values position inside known]
    · rename_i notCovered
      rw [if_neg notCovered]
      exact targets.bit? position bit known shows

/-- Three `x` joined with three zeros below them, and the zeros joined with
themselves. -/
theorem operate_monotone_concat :
    ∃ target upper lower updated otherUpdated : LogicVector, ∃ changed otherChanged,
      upper.bit? 1 = some Bit.x ∧ lower.bit? 1 = some Bit.zero ∧
      target.Approximates target ∧ target.twoState = false ∧ upper.Approximates lower ∧
      (target.operate (.concat upper lower)).result = .ok (updated, changed) ∧
      (target.operate (.concat lower lower)).result = .ok (otherUpdated, otherChanged) ∧
      updated.Approximates otherUpdated := by
  obtain ⟨target, createsTarget, fourState⟩ :
      ∃ target, create 6 .plain true = .ok target ∧ target.twoState = false := ⟨_, rfl, rfl⟩
  obtain ⟨upper, createsUpper, upperWidth, upperSigned, unknowns⟩ :
      ∃ upper, create 3 .signal true = .ok upper ∧ upper.width = 3 ∧ upper.signed = false ∧
        (upper.bit? 0 = some .x ∧ upper.bit? 1 = some .x ∧ upper.bit? 2 = some .x) :=
    ⟨_, rfl, rfl, rfl, rfl, rfl, rfl⟩
  obtain ⟨lower, createsLower, lowerWidth, lowerSigned, zero⟩ :
      ∃ lower, create 3 .plain true = .ok lower ∧ lower.width = 3 ∧ lower.signed = false ∧
        lower.bit? 1 = some .zero := ⟨_, rfl, rfl, rfl, rfl⟩
  have targetReadable := create_readable createsTarget
  have upperReadable := create_readable createsUpper
  have lowerReadable := create_readable createsLower
  have approximates : upper.Approximates lower := by
    refine ⟨upperReadable, lowerReadable, by rw [lowerWidth, upperWidth],
      by rw [lowerSigned, upperSigned], ?_⟩
    intro position bit known shows
    have inside : position < 3 := upperWidth ▸ lt_width_of_bit? shows
    have isUnknown : upper.bit? position = some .x := by
      have cases : position = 0 ∨ position = 1 ∨ position = 2 := by omega
      rcases cases with rfl | rfl | rfl
      · exact unknowns.1
      · exact unknowns.2.1
      · exact unknowns.2.2
    rw [isUnknown] at shows
    cases shows
    contradiction
  obtain ⟨updated, changed, operates⟩ :=
    operate_concat_succeeds targetReadable fourState upperReadable lowerReadable
  obtain ⟨otherUpdated, otherChanged, otherOperates⟩ :=
    operate_concat_succeeds targetReadable fourState lowerReadable lowerReadable
  have targets := targetReadable.approximates_refl
  have operands : ∀ isUpper : Bool,
      (if isUpper then upper else lower).Approximates lower := by
    rintro (_ | _)
    · exact lowerReadable.approximates_refl
    · exact approximates
  have monotone : updated.Approximates otherUpdated :=
    @operate_monotone Bool (.concat true false) _ (fun _ => lower) _ _ _ _ _ _ rfl targets
      fourState fourState operands operates otherOperates
  exact ⟨target, upper, lower, updated, otherUpdated, changed, otherChanged, unknowns.2.1, zero,
    targets, fourState, approximates, operates, otherOperates, monotone⟩

end LogicVector
end FourState
