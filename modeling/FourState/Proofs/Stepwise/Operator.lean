import FourState.Proofs.Operating
import FourState.Proofs.Stepwise.Engine

/-!
# Stepwise operators

Every operator on the heap, in the order in which it looks at its operands: it copies
their words one by one, computes a value, and hands the value to the gate.  Operands may
have the words of the target or of each other.  Up to the gate the heap is only read,
but for a part-select, which notes its reads between the copy of its source and the
assignment of its target.
-/

namespace FourState

variable {clipped : Plane → Prop}

namespace Stepwise

/-! ## Reading operands -/

/-- Collect entries one after the other. -/
def collect {content : Type} (count : Nat) (entry : Nat → Stepwise content) :
    Stepwise (Array content) :=
  (List.range' 0 count).foldlM (fun entries index => do
    let next ← entry index
    return entries.push next) #[]

/-- Copy the words of a block. -/
def words (number : Nat) : Stepwise Block := do
  let count ← size number
  collect count (word number)

/-- Copy the value of a vector. -/
def snapshot (handle : Handle) : Stepwise Buffer := do
  let number ← blockOf handle
  reading number do
    let block ← words number
    return {
      width := handle.width
      signed := handle.signed
      low := block.map fun slice => slice.value.1
      high := block.map fun slice => slice.value.2 }

/-- Copy the value of a vector, cut or extended to a width. -/
def operand (handle : Handle) (width : Nat) (signExtend : Bool) : Stepwise Buffer := do
  let value ← snapshot handle
  return value.resized width signExtend

/-- Read one value bit. -/
def bit (handle : Handle) (index : Nat) : Stepwise Bit := do
  require (index < handle.width) (Fault.bitOutOfRange index)
  let number ← blockOf handle
  reading number do
    let slice ← word number (index / 32)
    return Bit.ofPlanes (slice.bit Plane.valueLow (index % 32))
      (slice.bit Plane.valueHigh (index % 32))

/-- Read the letters of the value bits, the most significant first. -/
def digits (handle : Handle) : Stepwise (List Char) :=
  if handle.storage.isAllocated then
    (List.range handle.width).reverse.mapM fun index => do
      let bit ← bit handle index
      return bit.toChar
  else return []

/-- Read the display text. -/
def display (handle : Handle) : Stepwise (List Char) := do
  let letters ← digits handle
  return Numeral.decimal handle.width ++ '\x27' :: 'b' :: letters

/-! ## Values of operators -/

/-- Two operands count as signed only if both are. -/
def bothSigned (left right : Handle) : Bool :=
  left.signed && right.signed

/-- Apply an arithmetic function to two operands at a width. -/
def combine (width : Nat) (left right : Handle)
    (function : Buffer → Buffer → Except Fault Buffer) : Stepwise Buffer := do
  let leftValue ← operand left width (bothSigned left right)
  let rightValue ← operand right width (bothSigned left right)
  whenKnown width [leftValue, rightValue] (function leftValue rightValue)

/-- The negation, as the complement and one. -/
def negate (width : Nat) (source : Handle) : Stepwise Buffer := do
  let value ← operand source width source.signed
  whenKnown width [value] ((Buffer.zero width).add value.complement true)

/-- A vector's own value and one. -/
def increment (target : Handle) : Stepwise Buffer := do
  let value ← snapshot target
  whenKnown target.width [value] (value.add (Buffer.zero value.width) true)

/-- A vector's own value less one. -/
def decrement (target : Handle) : Stepwise Buffer := do
  let value ← snapshot target
  whenKnown target.width [value] (value.add (Buffer.zero value.width).complement false)

/-- Divide; for a known zero divisor the operands are shown in the log. -/
def divide (division : Division) (width : Nat) (left right : Handle) : Stepwise Buffer := do
  let leftValue ← snapshot left
  let rightValue ← snapshot right
  if leftValue.hasUnknown || rightValue.hasUnknown then
    return Buffer.unknown width
  else if rightValue.isNotZero then
    if bothSigned left right then
      return Buffer.ofInt width (division.ofInts leftValue.toInt rightValue.toInt)
    else
      return Buffer.ofNat width (division.ofNats leftValue.toNat rightValue.toNat)
  else do
    let leftShown ← display left
    let rightShown ← display right
    report (.dividedByZero division (String.ofList leftShown) (String.ofList rightShown))
    throw (.failure (.divisionByZero division))

/-- Apply a Boolean function bit by bit to zero-extended operands. -/
def bitwise (function : BitFunction) (width : Nat) (left right : Handle) : Stepwise Buffer := do
  let leftValue ← operand left width false
  let rightValue ← operand right width false
  return Buffer.tabulate width fun index =>
    function.apply (leftValue.word index) (rightValue.word index)

/-- Invert the known bits. -/
def invert (width : Nat) (source : Handle) : Stepwise Buffer := do
  let value ← operand source width source.signed
  return Buffer.tabulate width fun index =>
    let (low, high) := value.word index
    (~~~low &&& ~~~high, high)

/-- Compare two operands as integers. -/
def compare (relation : Relation) (width : Nat) (left right : Handle) : Stepwise Buffer := do
  let common := max left.width right.width
  let leftValue ← operand left common (bothSigned left right)
  let rightValue ← operand right common (bothSigned left right)
  let answer :=
    if leftValue.hasUnknown || rightValue.hasUnknown then Bit.x
    else Bit.ofBool (relation.holds (leftValue.order rightValue (bothSigned left right)))
  return Buffer.ofBit width answer

/-- Match two operands bit by bit, zero-extended to the wider one. -/
def caseCompare (operator : CaseMatch) (width : Nat) (left right : Handle) :
    Stepwise Buffer := do
  let common := max left.width right.width
  let leftValue ← operand left common false
  let rightValue ← operand right common false
  let matching := (List.range (wordCount common)).all fun index =>
    decide (operator.mismatches (leftValue.word index) (rightValue.word index) = 0)
  return Buffer.ofBit width (Bit.ofBool (matching != decide (operator = CaseMatch.different)))

/-- Combine two operands as conditions. -/
def logical (connective : Connective) (width : Nat) (left right : Handle) :
    Stepwise Buffer := do
  let leftValue ← snapshot left
  let rightValue ← snapshot right
  return Buffer.ofBit width (connective.apply leftValue.truth rightValue.truth)

/-- Fold every bit of the operand into bit zero. -/
def reduce (reduction : Reduction) (width : Nat) (source : Handle) : Stepwise Buffer := do
  let value ← snapshot source
  return Buffer.ofBit width (reduction.apply value)

/-- Shift a value by the amount that another operand holds; an unknown amount is enough
to know the result. -/
def shift (kind : Shift) (width : Nat) (source amount : Handle) : Stepwise Buffer := do
  let count ← snapshot amount
  if count.hasUnknown then
    return Buffer.unknown width
  else do
    let value ← operand source (max width source.width)
      (source.signed || decide (kind = Shift.arithmetic))
    return kind.apply value count.toCount

/-- The bits `lsb` to `msb` of the source, which a memory notes as read. -/
def partSelect (source : Handle) (lsb msb : Nat) : Stepwise Buffer := do
  require (lsb ≤ msb ∧ msb < source.width) (Fault.selectRange msb lsb source.width)
  let value ← snapshot source
  if source.kind = Kind.memory then
    markReads source lsb msb
  return (value.shiftRight lsb).resized (msb - lsb + 1) false

/-- The source at the bits `lsb` to `msb` of the target. -/
def partAssign (target source : Handle) (lsb msb : Nat) : Stepwise Buffer := do
  require (lsb ≤ msb ∧ msb < target.width) (Fault.selectRange msb lsb target.width)
  let value ← snapshot source
  return (Buffer.zero target.width).insert lsb (value.resized (msb - lsb + 1) source.signed)

/-- The value repeated as often as the count says; an unknown count is enough to know the
result. -/
def expand (width : Nat) (count value : Handle) : Stepwise Buffer := do
  let copies ← snapshot count
  if copies.hasUnknown then
    return Buffer.unknown width
  else do
    let item ← snapshot value
    Operator.replicate item copies.toCount 0 (Buffer.zero width)

/-- The right operand, and above it the left one. -/
def concat (width : Nat) (left right : Handle) : Stepwise Buffer := do
  let lower ← snapshot right
  let upper ← snapshot left
  return ((Buffer.zero width).insert 0 lower).insert lower.width upper

/-- The value an operation computes for a target. -/
def compute (target : Handle) : Operation Handle → Stepwise Buffer
  | .add left right => combine target.width left right fun first second => first.add second false
  | .subtract left right =>
      combine target.width left right fun first second => first.add second.complement true
  | .multiply left right => combine target.width left right Buffer.multiply
  | .negate source => negate target.width source
  | .increment => increment target
  | .decrement => decrement target
  | .divide division left right => divide division target.width left right
  | .bitwise function left right => bitwise function target.width left right
  | .invert source => invert target.width source
  | .compare relation left right => compare relation target.width left right
  | .caseCompare operator left right => caseCompare operator target.width left right
  | .logical connective left right => logical connective target.width left right
  | .reduce reduction source => reduce reduction target.width source
  | .shift kind source amount => shift kind target.width source amount
  | .partSelect source lsb msb => partSelect source lsb msb
  | .partAssign source lsb msb => partAssign target source lsb msb
  | .expand count value => expand target.width count value
  | .concat left right => concat target.width left right

/-- Compute an operation and assign its value to the target. -/
def operate (target : Handle) (operation : Operation Handle) : Stepwise Bool := do
  let value ← compute target operation
  let (lsb, msb) := operation.range target.width
  assignBuffer target value lsb msb

/-! ## What is read -/

section Readings

variable {heap : Heap} {handle : Handle} {number : Nat}

/-- Entries that can all be read are collected. -/
theorem reads_collect
    {content : Type}
    {entry : Nat → Stepwise content}
    (entries : Array content)
    (each : ∀ index (inEntries : index < entries.size),
      Reads (entry index) heap (.ok entries[index])) :
    Reads (collect entries.size entry) heap (.ok entries) := by
  intro borrows unwritten
  have loops := @foldlM_range'_run borrows _ (fun (collected : Array content) index => do
      let next ← entry index
      return collected.push next) 0 entries.size
    (fun index => entries.extract 0 index) (fun _ => heap)
    fun index _ below => by
      have inEntries : index < entries.size := by omega
      rw [bind_of_ok (each index inEntries borrows unwritten),
        Array.extract_succ_right (by omega) inEntries]
      rfl
  rw [Nat.zero_add, Array.extract_size, Array.extract_zero] at loops
  exact loops

theorem reads_word {index : Nat} (inBlock : index < (heap.block number).size) :
    Reads (word number index) heap (.ok (heap.block number)[index]) :=
  fun _ _ => word_run rfl inBlock

theorem reads_words (number : Nat) : Reads (words number) heap (.ok (heap.block number)) := by
  intro borrows unwritten
  rw [words, bind_of_ok size_run]
  exact reads_collect (heap.block number) (fun _ inBlock => reads_word inBlock) borrows unwritten

/-- The copy of a value is the value. -/
theorem reads_snapshot (handle : Handle) :
    Reads (snapshot handle) heap (Buffer.ofVector (heap.load handle)) :=
  reads_block fun number _ => (reads_words number).bind fun _ _ => reads_pure _

theorem reads_operand (handle : Handle) (width : Nat) (signExtend : Bool) :
    Reads (operand handle width signExtend) heap
      ((heap.load handle).operand width signExtend) :=
  (reads_snapshot handle).bind fun _ _ => reads_pure _

theorem reads_bit (handle : Handle) (index : Nat) :
    Reads (bit handle index) heap ((heap.load handle).bit index) := by
  refine (reads_liftM _).bind fun _ _ => reads_block fun number _ borrows _ => ?_
  by_cases inBlock : index / 32 < (heap.block number).size
  · rw [require_bind_of_true inBlock, bind_of_ok (word_run rfl inBlock), Block.value,
      Block.bit, Block.bit, Block.slice_of_lt _ inBlock]
    rfl
  · rw [require_bind_of_false inBlock,
      bind_of_stop (word_of_size_le rfl (Nat.le_of_not_lt inBlock))]
    rfl

/-- Items that are read one after the other are read as a list. -/
theorem reads_mapM
    {item answer : Type}
    {program : item → Stepwise answer}
    {result : item → answer}
    {items : List item}
    (each : ∀ item ∈ items, Reads (program item) heap (.ok (result item))) :
    Reads (items.mapM program) heap (.ok (items.map result)) := by
  induction items with
  | nil => exact reads_pure _
  | cons first rest inductionHypothesis =>
      have readsFirst := each first List.mem_cons_self
      have readsRest := inductionHypothesis fun item isMember =>
        each item (List.mem_cons_of_mem _ isMember)
      rw [List.mapM_cons]
      change Reads _ heap (Except.ok (result first) >>= fun value =>
        Except.ok (rest.map result) >>= fun values => Except.ok (value :: values))
      exact readsFirst.bind fun _ _ => readsRest.bind fun _ _ => reads_pure _

/-- A bit inside a well-formed vector is read off its block. -/
theorem reads_bit_of_lt
    (wellFormed : (heap.load handle).WellFormed clipped)
    (refers : handle.storage.content? = some number)
    {index : Nat}
    (inside : index < handle.width) :
    Reads (bit handle index) heap (.ok ((heap.block number).value index)) := by
  have inBlock : index / 32 < (heap.block number).size := by
    rw [Heap.size_block wellFormed refers]
    exact div_lt_wordCount inside
  have isBit : (heap.load handle).bit index = .ok ((heap.block number).value index) := by
    rw [LogicVector.bit, require_bind_of_true (show index < (heap.load handle).width from inside),
      heap.block_load refers]
    exact require_bind_of_true inBlock _
  exact isBit ▸ reads_bit handle index

/-- The letters that are read bit by bit are those of the value. -/
theorem reads_digits (wellFormed : (heap.load handle).WellFormed clipped) :
    Reads (digits handle) heap (.ok (heap.load handle).digits) := by
  rw [digits, Storage.isAllocated_eq_isSome, LogicVector.digits]
  cases refers : handle.storage.content? with
  | none =>
      rw [heap.content?_load_of_widthOnly refers]
      exact reads_pure _
  | some number =>
      rw [heap.content?_load refers]
      refine reads_mapM fun index isIndex => ?_
      have inside : index < handle.width := by simpa using isIndex
      exact (reads_bit_of_lt wellFormed refers inside).bind fun _ _ => reads_pure _

theorem reads_display (wellFormed : (heap.load handle).WellFormed clipped) :
    Reads (display handle) heap (.ok (heap.load handle).display) := by
  change Reads _ heap (Except.ok (heap.load handle).digits >>= fun letters =>
    Except.ok (Numeral.decimal handle.width ++ '\x27' :: 'b' :: letters))
  exact (reads_digits wellFormed).bind fun _ _ => reads_pure _

end Readings

/-! ## What is computed -/

section Values

variable {heap : Heap}

theorem reads_combine
    (width : Nat)
    (left right : Handle)
    (function : Buffer → Buffer → Except Fault Buffer) :
    Reads (combine width left right function) heap
      (Operator.combine width (heap.load left) (heap.load right) function) :=
  (reads_operand left _ _).bind fun _ _ =>
    (reads_operand right _ _).bind fun _ _ => reads_liftM _

theorem reads_negate (width : Nat) (source : Handle) :
    Reads (negate width source) heap (Operator.negate width (heap.load source)) :=
  (reads_operand source _ _).bind fun _ _ => reads_liftM _

theorem reads_increment (target : Handle) :
    Reads (increment target) heap (Operator.increment (heap.load target)) :=
  (reads_snapshot target).bind fun _ _ => reads_liftM _

theorem reads_decrement (target : Handle) :
    Reads (decrement target) heap (Operator.decrement (heap.load target)) :=
  (reads_snapshot target).bind fun _ _ => reads_liftM _

theorem reads_bitwise (function : BitFunction) (width : Nat) (left right : Handle) :
    Reads (bitwise function width left right) heap
      (Operator.bitwise function width (heap.load left) (heap.load right)) :=
  (reads_operand left _ _).bind fun _ _ => (reads_operand right _ _).bind fun _ _ => reads_pure _

theorem reads_invert (width : Nat) (source : Handle) :
    Reads (invert width source) heap (Operator.invert width (heap.load source)) :=
  (reads_operand source _ _).bind fun _ _ => reads_pure _

theorem reads_compare (relation : Relation) (width : Nat) (left right : Handle) :
    Reads (compare relation width left right) heap
      (Operator.compare relation width (heap.load left) (heap.load right)) :=
  (reads_operand left _ _).bind fun _ _ => (reads_operand right _ _).bind fun _ _ => reads_pure _

theorem reads_caseCompare (operator : CaseMatch) (width : Nat) (left right : Handle) :
    Reads (caseCompare operator width left right) heap
      (Operator.caseCompare operator width (heap.load left) (heap.load right)) :=
  (reads_operand left _ _).bind fun _ _ => (reads_operand right _ _).bind fun _ _ => reads_pure _

theorem reads_logical (connective : Connective) (width : Nat) (left right : Handle) :
    Reads (logical connective width left right) heap
      (Operator.logical connective width (heap.load left) (heap.load right)) :=
  (reads_snapshot left).bind fun _ _ => (reads_snapshot right).bind fun _ _ => reads_pure _

theorem reads_reduce (reduction : Reduction) (width : Nat) (source : Handle) :
    Reads (reduce reduction width source) heap
      (Operator.reduce reduction width (heap.load source)) :=
  (reads_snapshot source).bind fun _ _ => reads_pure _

theorem reads_concat (width : Nat) (left right : Handle) :
    Reads (concat width left right) heap
      (Operator.concat width (heap.load left) (heap.load right)) :=
  (reads_snapshot right).bind fun _ _ => (reads_snapshot left).bind fun _ _ => reads_pure _

theorem reads_shift (kind : Shift) (width : Nat) (source amount : Handle) :
    Reads (shift kind width source amount) heap
      (Operator.shift kind width (heap.load source) (heap.load amount)) := by
  refine (reads_snapshot amount).bind fun count _ => ?_
  split
  · exact reads_pure _
  · exact (reads_operand source _ _).bind fun _ _ => reads_pure _

theorem reads_expand (width : Nat) (count value : Handle) :
    Reads (expand width count value) heap
      (Operator.expand width (heap.load count) (heap.load value)) := by
  refine (reads_snapshot count).bind fun copies _ => ?_
  split
  · exact reads_pure _
  · exact (reads_snapshot value).bind fun _ _ => reads_liftM _

theorem reads_partAssign (target source : Handle) (lsb msb : Nat) :
    Reads (partAssign target source lsb msb) heap
      (Operator.partAssign (heap.load target) (heap.load source) lsb msb) :=
  (reads_liftM _).bind fun _ _ => (reads_snapshot source).bind fun _ _ => reads_pure _

end Values

end Stepwise

/-- The heap after an operation has noted the bits that it reads from a memory. -/
def Heap.noteReads (heap : Heap) : Operation Handle → Heap
  | .partSelect source lsb msb =>
      match (heap.load source).markRead lsb msb with
      | .ok marked => heap.put source marked
      | .error _ => heap
  | _ => heap

namespace Stepwise

section Operations

variable {heap : Heap} {target : Handle} {operation : Operation Handle}

/-- The end of a program that gives a value and leaves a heap, or fails and only logs. -/
def ended {answer : Type} (heap after : Heap) (log : Failure → List Event)
    (result : Except Failure answer) : Except Stop answer × Heap :=
  match result with
  | .ok value => (.ok value, after)
  | .error failure => (.error (.failure failure), heap.logged (log failure))

/-- The end of computing an operation: a value and the noted reads, or a failure. -/
def computed (heap : Heap) (target : Handle) (operation : Operation Handle) :
    Except Stop Buffer × Heap :=
  ended heap (heap.noteReads operation)
    (fun failure => (operation.map heap.load).log failure)
    ((operation.map heap.load).compute (heap.load target))

/-- A fault of use in what is read first is not logged. -/
theorem Reads.ended
    {first second : Type}
    {program : Stepwise first}
    {next : first → Stepwise second}
    {result : Except Fault first}
    {nextResult : first → Except Failure second}
    {after : Heap}
    {log : Failure → List Event}
    (reads : Reads program heap result)
    (unlogged : ∀ fault, log (.fault fault) = [])
    (endsNext : ∀ value, result = .ok value →
      run (next value) Borrows.none heap = ended heap after log (nextResult value)) :
    run (program >>= next) Borrows.none heap =
      ended heap after log (liftM result >>= nextResult) := by
  have runs := reads Borrows.none rfl
  cases result with
  | error fault =>
      rw [bind_of_stop runs]
      change _ = (_, heap.logged (log (.fault fault)))
      rw [unlogged, Heap.logged_nil]
  | ok value => exact (bind_of_ok runs next).trans (endsNext value rfl)

/-- An operation that only reads gives its value or its failure. -/
theorem Reads.computed
    {program : Stepwise Buffer}
    {value : Except Fault Buffer}
    (reads : Reads program heap value)
    (computes : (operation.map heap.load).compute (heap.load target) = liftM value)
    (unlogged : ∀ failure, (operation.map heap.load).log failure = [])
    (unnoted : heap.noteReads operation = heap) :
    run program Borrows.none heap = computed heap target operation := by
  rw [reads Borrows.none rfl, Stepwise.computed, computes, unnoted]
  cases value with
  | ok value => rfl
  | error fault =>
      change _ = (_, heap.logged ((operation.map heap.load).log (.fault fault)))
      rw [unlogged, Heap.logged_nil]
      rfl

/-- A division shows its operands after it has read them. -/
theorem divide_run
    {left right : Handle}
    (leftWellFormed : (heap.load left).WellFormed clipped)
    (rightWellFormed : (heap.load right).WellFormed clipped)
    (division : Division) :
    run (divide division target.width left right) Borrows.none heap =
      computed heap target (.divide division left right) := by
  change _ = ended heap heap
    (fun failure => (Operation.divide division (heap.load left) (heap.load right)).log failure)
    (Operator.divide division target.width (heap.load left) (heap.load right))
  refine (reads_snapshot left).ended (fun _ => rfl) fun leftValue _ =>
    (reads_snapshot right).ended (fun _ => rfl) fun rightValue _ => ?_
  split
  · rfl
  · cases notZero : rightValue.isNotZero with
    | true =>
        have sameSigns : FourState.bothSigned (heap.load left) (heap.load right) =
            bothSigned left right := rfl
        rw [require_bind_of_true rfl, if_pos rfl, sameSigns]
        cases bothSigned left right <;> rfl
    | false =>
        rw [require_bind_of_false Bool.false_ne_true, if_neg Bool.false_ne_true,
          bind_of_ok (reads_display leftWellFormed Borrows.none rfl),
          bind_of_ok (reads_display rightWellFormed Borrows.none rfl)]
        rfl

/-- The reads of a range inside a source that can be read are noted if it is a memory. -/
theorem markRead_eq_ok
    {source : LogicVector}
    {value : Buffer}
    {lsb msb : Nat}
    (inRange : lsb ≤ msb ∧ msb < source.width)
    (reads : Buffer.ofVector source = .ok value) :
    ∃ marked, source.markRead lsb msb = .ok marked ∧
      (source.kind ≠ Kind.memory → marked = source) := by
  obtain ⟨block, stored, -⟩ := bind_eq_ok_iff.1 reads
  rw [LogicVector.markRead, LogicVector.requireRange, require_bind_of_true inRange, stored]
  by_cases isMemory : source.kind = Kind.memory
  · exact ⟨_, if_pos isMemory, fun notMemory => absurd isMemory notMemory⟩
  · exact ⟨_, if_neg isMemory, fun _ => rfl⟩

/-- A part-select notes its reads after it has copied its source. -/
theorem partSelect_run
    {source : Handle}
    (wellFormed : (heap.load source).WellFormed clipped)
    (lsb msb : Nat) :
    run (partSelect source lsb msb) Borrows.none heap =
      computed heap target (.partSelect source lsb msb) := by
  change _ = ended heap (heap.noteReads (.partSelect source lsb msb)) (fun _ => [])
    (liftM (Operator.partSelect (heap.load source) lsb msb))
  unfold Operator.partSelect LogicVector.requireRange
  simp only [liftM_fault_bind]
  refine (reads_liftM _).ended (fun _ => rfl) fun _ holds =>
    (reads_snapshot source).ended (fun _ => rfl) fun value reads => ?_
  have inRange : lsb ≤ msb ∧ msb < source.width := require_eq_ok_iff.1 holds
  obtain ⟨marked, marks, unmarked⟩ := markRead_eq_ok inRange reads
  have noted : heap.noteReads (.partSelect source lsb msb) = heap.put source marked := by
    rw [Heap.noteReads, marks]
  rw [noted]
  by_cases isMemory : source.kind = Kind.memory
  · rw [if_pos isMemory]
    have runs := markReads_settles wellFormed isMemory inRange
    rw [marks] at runs
    exact bind_of_ok runs _
  · rw [if_neg isMemory, unmarked isMemory, Heap.put_load]
    rfl

/-- Every operation computes its value from the operands as they are. -/
theorem compute_run
    (wellFormed : ∀ handle ∈ operation.operands target, (heap.load handle).WellFormed clipped) :
    run (compute target operation) Borrows.none heap = computed heap target operation := by
  cases operation with
  | add | subtract | multiply =>
      exact (reads_combine _ _ _ _).computed rfl (fun _ => rfl) rfl
  | negate => exact (reads_negate _ _).computed rfl (fun _ => rfl) rfl
  | increment => exact (reads_increment _).computed rfl (fun _ => rfl) rfl
  | decrement => exact (reads_decrement _).computed rfl (fun _ => rfl) rfl
  | divide division left right =>
      exact divide_run (wellFormed left (by simp [Operation.operands]))
        (wellFormed right (by simp [Operation.operands])) division
  | bitwise => exact (reads_bitwise _ _ _ _).computed rfl (fun _ => rfl) rfl
  | invert => exact (reads_invert _ _).computed rfl (fun _ => rfl) rfl
  | compare => exact (reads_compare _ _ _ _).computed rfl (fun _ => rfl) rfl
  | caseCompare => exact (reads_caseCompare _ _ _ _).computed rfl (fun _ => rfl) rfl
  | logical => exact (reads_logical _ _ _ _).computed rfl (fun _ => rfl) rfl
  | reduce => exact (reads_reduce _ _ _).computed rfl (fun _ => rfl) rfl
  | shift => exact (reads_shift _ _ _ _).computed rfl (fun _ => rfl) rfl
  | partSelect source lsb msb =>
      exact partSelect_run (wellFormed source (by simp [Operation.operands])) lsb msb
  | partAssign => exact (reads_partAssign _ _ _ _).computed rfl (fun _ => rfl) rfl
  | expand => exact (reads_expand _ _ _).computed rfl (fun _ => rfl) rfl
  | concat => exact (reads_concat _ _ _).computed rfl (fun _ => rfl) rfl

/-- Noted reads in the target do not show in a value. -/
theorem compute_noteReads (operation : Operation Handle) :
    (operation.map heap.load).compute ((heap.noteReads operation).load target) =
      (operation.map heap.load).compute (heap.load target) := by
  cases operation <;> rfl

/-- An operation without a value has noted nothing. -/
theorem noteReads_of_error
    {failure : Failure}
    (fails : (operation.map heap.load).compute (heap.load target) = .error failure) :
    heap.noteReads operation = heap := by
  cases operation with
  | partSelect source lsb msb =>
      cases marks : (heap.load source).markRead lsb msb with
      | error fault => rw [Heap.noteReads, marks]
      | ok marked =>
          obtain ⟨⟨⟩, inRange, marks⟩ := bind_eq_ok_iff.1 marks
          obtain ⟨block, stored, -⟩ := bind_eq_ok_iff.1 marks
          have computes : (Operation.partSelect source lsb msb |>.map heap.load).compute
              (heap.load target) = liftM (Operator.partSelect (heap.load source) lsb msb) := rfl
          rw [computes, Operator.partSelect, inRange, Buffer.ofVector, stored] at fails
          contradiction
  | _ => rfl

/-- Operating word by word is operating on all words at once, on a target in which the reads
have been noted. -/
theorem operate_run
    (wellFormed : ∀ handle ∈ operation.operands target, (heap.load handle).WellFormed clipped)
    (targetWellFormed : ((heap.noteReads operation).load target).WellFormed clipped) :
    run (operate target operation) Borrows.none heap =
      finished (heap.noteReads operation) target
        (((heap.noteReads operation).load target).operate (operation.map heap.load)) := by
  have computes := @compute_run _ heap target operation wellFormed
  rw [operate, LogicVector.operate, compute_noteReads]
  unfold computed at computes
  cases gives : (operation.map heap.load).compute (heap.load target) with
  | error failure =>
      rw [gives] at computes
      rw [bind_of_stop computes, noteReads_of_error gives]
      rfl
  | ok value =>
      rw [gives] at computes
      rw [bind_of_ok computes, Operation.range_map]
      dsimp only
      rw [finished_quiet]
      exact assignBuffer_settles targetWellFormed value _ _

end Operations

end Stepwise
end FourState
