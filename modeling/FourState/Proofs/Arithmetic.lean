import FourState.Proofs.Integer
import FourState.Proofs.UnknownOperands

/-!
# Exact arithmetic

An arithmetic operation on known operands computes an integer and leaves it in
its target, modulo two to the target width.  The operands are read as two's
complement numbers of their own widths if all of them are signed, and as
unsigned ones otherwise.  The quotient is truncated toward zero and the
remainder has the sign of the dividend.
-/

namespace FourState

/-! ## Known vectors -/

namespace LogicVector

/-- The vector has words, and every bit of it is a zero or a one. -/
structure IsKnown (vector : LogicVector) : Prop where
  isAllocated : vector.storage.isAllocated = true
  bit : ∀ position, position < vector.width →
    ∃ value, vector.bit? position = some (Bit.ofBool value)

instance (vector : LogicVector) : Decidable vector.IsKnown :=
  decidable_of_iff (vector.storage.isAllocated = true ∧ ∀ position, position < vector.width →
      ∃ value, vector.bit? position = some (Bit.ofBool value))
    ⟨fun known => ⟨known.1, known.2⟩, fun known => ⟨known.isAllocated, known.bit⟩⟩

/-- The ones of a vector. -/
def pattern (vector : LogicVector) : BitVec vector.width :=
  BitWord.ofBits (fun position => decide (vector.bit? position = some Bit.one)) vector.width

/-- The integer that a known vector stands for. -/
def integer (vector : LogicVector) (signed : Bool) : Int :=
  BitWord.integer vector.pattern signed

/-- The vector is known, and stands for a value modulo two to its width. -/
structure Holds (vector : LogicVector) (value : Int) : Prop where
  isKnown : vector.IsKnown
  integer_eq : vector.integer false = value % modulus vector.width

theorem pattern_getLsbD
    {vector : LogicVector}
    {position : Nat}
    (inside : position < vector.width)
    {value : Bool}
    (shows : vector.bit? position = some (Bit.ofBool value)) :
    vector.pattern.getLsbD position = value := by
  rw [pattern, BitWord.getLsbD_ofBits, shows]
  cases value <;> simp [inside, Bit.ofBool]

theorem IsKnown.bit?_eq
    {vector : LogicVector}
    (known : vector.IsKnown)
    {position : Nat}
    (inside : position < vector.width) :
    vector.bit? position = some (Bit.ofBool (vector.pattern.getLsbD position)) := by
  obtain ⟨value, shows⟩ := known.bit position inside
  rw [shows, pattern_getLsbD inside shows]

/-- A vector that can be read is known unless it has an unknown bit. -/
theorem Readable.isKnown_iff
    {vector : LogicVector}
    (readable : vector.Readable) :
    vector.IsKnown ↔ ¬vector.UnknownBelow vector.width := by
  constructor
  · rintro known ⟨position, bit, inside, shows, unknown⟩
    rw [known.bit?_eq inside] at shows
    cases shows
    cases digit : vector.pattern.getLsbD position <;>
      simp [digit, Bit.ofBool, Bit.isKnown] at unknown
  · intro none
    refine ⟨readable.isAllocated, ?_⟩
    intro position inside
    obtain ⟨value, reads, -, sameWidth, -⟩ := readable.ofVector
    have shows := bit?_of_ofVector reads (sameWidth.symm ▸ inside)
    refine ⟨(value.bit position).low, ?_⟩
    rw [shows]
    cases isBit : value.bit position with
    | zero | one => rfl
    | x | z =>
        rw [isBit] at shows
        exact absurd ⟨position, _, inside, shows, rfl⟩ none

theorem integer_eq_zero_iff (vector : LogicVector) :
    vector.integer false = 0 ↔ vector.pattern = BitVec.ofNat vector.width 0 := by
  change (vector.pattern.toNat : Int) = 0 ↔ _
  rw [← BitVec.toNat_inj, BitVec.toNat_ofNat, Nat.zero_mod]
  exact Int.natCast_eq_zero

theorem pattern_eq_ofInt (vector : LogicVector) :
    BitVec.ofInt vector.width (vector.integer false) = vector.pattern := by
  change BitVec.ofInt vector.width (vector.pattern.toNat : Int) = vector.pattern
  rw [BitVec.ofInt_natCast, BitVec.ofNat_toNat, BitVec.setWidth_eq]

/-- The value of a known vector is read as the bit vector of its ones. -/
theorem Readable.holds_ofVector
    {vector : LogicVector}
    (readable : vector.Readable)
    (known : vector.IsKnown) :
    ∃ value, Buffer.ofVector vector = .ok value ∧ value.Holds vector.pattern := by
  obtain ⟨value, reads, canonical, sameWidth, -⟩ := readable.ofVector
  refine ⟨value, reads, Buffer.holds_of_lt canonical sameWidth ?_⟩
  intro position inside
  have shows := bit?_of_ofVector reads (sameWidth.symm ▸ inside)
  rw [known.bit?_eq inside] at shows
  exact (Option.some.inj shows).symm

/-- An operand is read as the integer of the known vector, modulo two to the width. -/
theorem Readable.holds_operand
    {vector : LogicVector}
    (readable : vector.Readable)
    (known : vector.IsKnown)
    (width : Nat)
    (signExtend : Bool) :
    ∃ value, vector.operand width signExtend = .ok value ∧
      value.Holds (BitVec.ofInt width (vector.integer signExtend)) := by
  obtain ⟨value, reads, holds⟩ := readable.holds_ofVector known
  refine ⟨value.resized width signExtend, ?_, holds.resized width signExtend⟩
  rw [LogicVector.operand, reads]
  rfl

/-- A readable vector that shows the bits of an integer holds the integer. -/
theorem Readable.holds_of_bits
    {vector : LogicVector}
    (readable : vector.Readable)
    {value : Int}
    (shows : ∀ position, position < vector.width → vector.bit? position =
      some (Bit.ofBool ((BitVec.ofInt vector.width value).getLsbD position))) :
    vector.Holds value := by
  refine ⟨⟨readable.isAllocated, fun position inside => ⟨_, shows position inside⟩⟩, ?_⟩
  have samePattern : vector.pattern = BitVec.ofInt vector.width value := by
    apply BitVec.eq_of_getLsbD_eq
    intro position inside
    exact pattern_getLsbD inside (shows position inside)
  have positive : (0 : Int) < (2 ^ vector.width : Nat) := by exact_mod_cast Nat.two_pow_pos _
  change (vector.pattern.toNat : Int) = _
  rw [samePattern, BitVec.toNat_ofInt, modulus_eq_two_pow,
    Int.toNat_of_nonneg (Int.emod_nonneg value positive.ne')]

/-- A vector in which a buffer has settled holds the integer of the buffer; a two-state
vector settles known bits as they are. -/
theorem Readable.holds_of_settled
    {vector updated : LogicVector}
    (readable : updated.Readable)
    (sameHeader : updated.toHeader = vector.toHeader)
    {value : Buffer}
    {exact : Int}
    (holds : value.Holds (BitVec.ofInt vector.width exact))
    (shows : ∀ position, position < vector.width → updated.bit? position =
      some (((vector.whole value.bit).settle vector.twoState).bit position)) :
    updated.Holds exact := by
  have sameWidth : updated.width = vector.width := congrArg Header.width sameHeader
  apply readable.holds_of_bits
  rw [sameWidth]
  intro position inside
  rw [shows position inside]
  simp only [Assignment.settle, whole, holds.bit_eq]
  cases (BitVec.ofInt vector.width exact).getLsbD position <;> cases vector.twoState <;> rfl

end LogicVector

/-! ## Arithmetic operators -/

/-- The result is a buffer that holds an integer, modulo two to the width. -/
def GivesInteger {error : Type} (width : Nat) (result : Except error Buffer) (exact : Int) :
    Prop :=
  ∃ value, result = .ok value ∧ value.Holds (BitVec.ofInt width exact)

namespace GivesInteger

variable {width : Nat} {exact : Int}

theorem liftM {result : Except Fault Buffer} (gives : GivesInteger width result exact) :
    GivesInteger width (liftM result : Except Failure Buffer) exact := by
  obtain ⟨value, computes, holds⟩ := gives
  exact ⟨value, liftM_fault_eq_ok_iff.2 computes, holds⟩

/-- A function of bit vectors that follows a function of integers gives the integer. -/
theorem of_holds
    {result : Except Fault Buffer}
    {value : BitVec width}
    (computes : ∃ buffer, result = .ok buffer ∧ buffer.Holds value)
    (follows : value = BitVec.ofInt width exact) :
    GivesInteger width result exact := by
  rw [GivesInteger, ← follows]
  exact computes

end GivesInteger

namespace Operator

variable {width : Nat} {source left right : LogicVector}

/-- Known operands are combined as their integers, modulo two to the width. -/
theorem combine_givesInteger
    {function : Buffer → Buffer → Except Fault Buffer}
    {exact : Int}
    (leftReadable : left.Readable)
    (rightReadable : right.Readable)
    (leftKnown : left.IsKnown)
    (rightKnown : right.IsKnown)
    (gives : ∀ first second,
      first.Holds (BitVec.ofInt width (left.integer (bothSigned left right))) →
      second.Holds (BitVec.ofInt width (right.integer (bothSigned left right))) →
      GivesInteger width (function first second) exact) :
    GivesInteger width (combine width left right function) exact := by
  obtain ⟨first, readsFirst, firstHolds⟩ :=
    leftReadable.holds_operand leftKnown width (bothSigned left right)
  obtain ⟨second, readsSecond, secondHolds⟩ :=
    rightReadable.holds_operand rightKnown width (bothSigned left right)
  have computes : combine width left right function = function first second := by
    rw [combine, readsFirst, readsSecond]
    change whenKnown width [first, second] (function first second) = _
    simp [whenKnown, firstHolds.hasUnknown_eq, secondHolds.hasUnknown_eq]
  rw [computes]
  exact gives first second firstHolds secondHolds

section

variable
  (leftReadable : left.Readable)
  (rightReadable : right.Readable)
  (leftKnown : left.IsKnown)
  (rightKnown : right.IsKnown)

include leftReadable rightReadable leftKnown rightKnown

theorem add_givesInteger :
    GivesInteger width (add width left right)
      (left.integer (bothSigned left right) + right.integer (bothSigned left right)) := by
  apply combine_givesInteger leftReadable rightReadable leftKnown rightKnown
  intro first second firstHolds secondHolds
  refine .of_holds (firstHolds.add secondHolds false) ?_
  rw [BitVec.ofInt_add]
  simp

theorem subtract_givesInteger :
    GivesInteger width (subtract width left right)
      (left.integer (bothSigned left right) - right.integer (bothSigned left right)) := by
  apply combine_givesInteger leftReadable rightReadable leftKnown rightKnown
  intro first second firstHolds secondHolds
  refine .of_holds (firstHolds.add secondHolds.complement true) ?_
  rw [Int.sub_eq_add_neg, BitVec.ofInt_add, BitVec.ofInt_neg, BitVec.neg_eq_not_add,
    BitVec.add_assoc]
  rfl

theorem multiply_givesInteger :
    GivesInteger width (multiply width left right)
      (left.integer (bothSigned left right) * right.integer (bothSigned left right)) := by
  apply combine_givesInteger leftReadable rightReadable leftKnown rightKnown
  intro first second firstHolds secondHolds
  exact .of_holds (firstHolds.multiply secondHolds) (BitVec.ofInt_mul _ _).symm

/-- Known operands are divided, unless the divisor is zero. -/
theorem divide_of_known (division : Division) :
    ∃ dividend divisor : Buffer,
      dividend.Holds left.pattern ∧ divisor.Holds right.pattern ∧
      divide division width left right = (do
        require (divisor.isNotZero = true) (Failure.divisionByZero division)
        if bothSigned left right then
          return Buffer.ofInt width (division.ofInts dividend.toInt divisor.toInt)
        else
          return Buffer.ofNat width (division.ofNats dividend.toNat divisor.toNat)) := by
  obtain ⟨dividend, readsDividend, dividendHolds⟩ := leftReadable.holds_ofVector leftKnown
  obtain ⟨divisor, readsDivisor, divisorHolds⟩ := rightReadable.holds_ofVector rightKnown
  refine ⟨dividend, divisor, dividendHolds, divisorHolds, ?_⟩
  rw [divide, readsDividend, readsDivisor]
  change (if dividend.hasUnknown || divisor.hasUnknown then _ else _) = _
  rw [dividendHolds.hasUnknown_eq, divisorHolds.hasUnknown_eq]
  rfl

theorem divide_givesInteger
    {division : Division}
    (divisorNotZero : right.integer false ≠ 0) :
    GivesInteger width (divide division width left right)
      (division.ofInts (left.integer (bothSigned left right))
        (right.integer (bothSigned left right))) := by
  obtain ⟨dividend, divisor, dividendHolds, divisorHolds, divides⟩ :=
    divide_of_known leftReadable rightReadable leftKnown rightKnown division
  rw [divides, require_bind_of_true (divisorHolds.isNotZero_iff.2 ?_)]
  · cases signed : bothSigned left right with
    | true =>
        refine ⟨_, rfl, ?_⟩
        rw [dividendHolds.toInt_eq, divisorHolds.toInt_eq]
        exact Buffer.holds_ofInt _ _
    | false =>
        refine ⟨_, rfl, ?_⟩
        rw [dividendHolds.toNat_eq, divisorHolds.toNat_eq]
        have sameInteger : division.ofInts (left.integer false) (right.integer false) =
            (division.ofNats left.pattern.toNat right.pattern.toNat : Nat) := by
          cases division <;> rfl
        rw [sameInteger, BitVec.ofInt_natCast]
        exact Buffer.holds_ofNat _ _
  · exact mt right.integer_eq_zero_iff.2 divisorNotZero

theorem divide_eq_error
    {division : Division}
    (divisorZero : right.integer false = 0) :
    divide division width left right = .error (.divisionByZero division) := by
  obtain ⟨dividend, divisor, -, divisorHolds, divides⟩ :=
    divide_of_known leftReadable rightReadable leftKnown rightKnown division
  rw [divides, require_bind_of_false]
  rw [divisorHolds.isNotZero_iff, not_not]
  exact right.integer_eq_zero_iff.1 divisorZero

end

theorem negate_givesInteger (readable : source.Readable) (known : source.IsKnown) :
    GivesInteger width (negate width source) (-source.integer source.signed) := by
  obtain ⟨value, reads, holds⟩ := readable.holds_operand known width source.signed
  have computes : negate width source =
      (Buffer.zero width).add value.complement true := by
    rw [negate, reads]
    change whenKnown width [value] _ = _
    simp [whenKnown, holds.hasUnknown_eq]
  rw [computes]
  refine .of_holds ((Buffer.holds_zero width).add holds.complement true) ?_
  rw [BitVec.ofInt_neg, BitVec.neg_eq_not_add, BitVec.zero_add]
  rfl

/-- A constant is added to the vector's own value. -/
theorem step_givesInteger
    {constant : Buffer → Buffer}
    {carry : Bool}
    {amount : Int}
    (readable : source.Readable)
    (known : source.IsKnown)
    (value : BitVec source.width)
    (holdsConstant : ∀ own, own.width = source.width → (constant own).Holds value)
    (isAmount : value + BitVec.ofNat source.width carry.toNat = BitVec.ofInt source.width amount) :
    GivesInteger source.width (do
      let own ← Buffer.ofVector source
      whenKnown source.width [own] (own.add (constant own) carry))
      (source.integer false + amount) := by
  obtain ⟨own, reads, holds⟩ := readable.holds_ofVector known
  have computes : (do
      let own ← Buffer.ofVector source
      whenKnown source.width [own] (own.add (constant own) carry)) =
        own.add (constant own) carry := by
    rw [reads]
    change whenKnown source.width [own] _ = _
    simp [whenKnown, holds.hasUnknown_eq]
  rw [computes]
  refine .of_holds (holds.add (holdsConstant own holds.width_eq) carry) ?_
  rw [BitVec.ofInt_add, source.pattern_eq_ofInt, ← isAmount, BitVec.add_assoc]

theorem increment_givesInteger (readable : source.Readable) (known : source.IsKnown) :
    GivesInteger source.width (increment source) (source.integer false + 1) := by
  refine step_givesInteger readable known 0#_ (fun own sameWidth => ?_) (BitVec.zero_add _)
  rw [sameWidth]
  exact Buffer.holds_zero _

theorem decrement_givesInteger (readable : source.Readable) (known : source.IsKnown) :
    GivesInteger source.width (decrement source) (source.integer false - 1) := by
  rw [Int.sub_eq_add_neg]
  refine step_givesInteger readable known (~~~0#_) (fun own sameWidth => ?_) ?_
  · rw [sameWidth]
    exact (Buffer.holds_zero _).complement
  · rw [BitVec.ofInt_neg]
    change ~~~BitVec.ofNat source.width 0 + BitVec.ofNat source.width 0 =
      -BitVec.ofNat source.width 1
    simp [BitVec.neg_one_eq_allOnes]

end Operator

/-! ## Operations -/

namespace Operation

/-- The integer that an arithmetic operation computes for a target, before it is
cut to the target width; division by zero computes none. -/
def integer? (target : LogicVector) : Operation LogicVector → Option Int
  | add left right =>
      some (left.integer (bothSigned left right) + right.integer (bothSigned left right))
  | subtract left right =>
      some (left.integer (bothSigned left right) - right.integer (bothSigned left right))
  | multiply left right =>
      some (left.integer (bothSigned left right) * right.integer (bothSigned left right))
  | negate source => some (-source.integer source.signed)
  | increment => some (target.integer false + 1)
  | decrement => some (target.integer false - 1)
  | divide division left right =>
      if right.integer false = 0 then none
      else some (division.ofInts (left.integer (bothSigned left right))
        (right.integer (bothSigned left right)))
  | _ => none

/-- What holds of both operands. -/
private theorem forall_pair
    {operand : Type}
    {property : operand → Prop}
    {left right : operand}
    (all : ∀ operand ∈ [left, right], property operand) :
    property left ∧ property right :=
  ⟨all left (by simp), all right (by simp)⟩

theorem compute_givesInteger
    {target : LogicVector}
    {operation : Operation LogicVector}
    {exact : Int}
    (readable : ∀ operand ∈ operation.operands target, operand.Readable)
    (known : ∀ operand ∈ operation.operands target, operand.IsKnown)
    (isExact : operation.integer? target = some exact) :
    GivesInteger target.width (operation.compute target) exact := by
  cases operation with
  | add left right =>
      obtain ⟨leftReadable, rightReadable⟩ := forall_pair readable
      obtain ⟨leftKnown, rightKnown⟩ := forall_pair known
      cases isExact
      exact (Operator.add_givesInteger leftReadable rightReadable leftKnown rightKnown).liftM
  | subtract left right =>
      obtain ⟨leftReadable, rightReadable⟩ := forall_pair readable
      obtain ⟨leftKnown, rightKnown⟩ := forall_pair known
      cases isExact
      exact (Operator.subtract_givesInteger leftReadable rightReadable leftKnown rightKnown).liftM
  | multiply left right =>
      obtain ⟨leftReadable, rightReadable⟩ := forall_pair readable
      obtain ⟨leftKnown, rightKnown⟩ := forall_pair known
      cases isExact
      exact (Operator.multiply_givesInteger leftReadable rightReadable leftKnown rightKnown).liftM
  | negate source =>
      cases isExact
      exact (Operator.negate_givesInteger (readable source (List.mem_singleton_self _))
        (known source (List.mem_singleton_self _))).liftM
  | increment =>
      cases isExact
      exact (Operator.increment_givesInteger (readable target (List.mem_singleton_self _))
        (known target (List.mem_singleton_self _))).liftM
  | decrement =>
      cases isExact
      exact (Operator.decrement_givesInteger (readable target (List.mem_singleton_self _))
        (known target (List.mem_singleton_self _))).liftM
  | divide division left right =>
      obtain ⟨leftReadable, rightReadable⟩ := forall_pair readable
      obtain ⟨leftKnown, rightKnown⟩ := forall_pair known
      simp only [integer?] at isExact
      split at isExact
      · contradiction
      · rename_i divisorNotZero
        cases isExact
        exact Operator.divide_givesInteger leftReadable rightReadable leftKnown rightKnown
          divisorNotZero
  | _ => contradiction

theorem range_of_integer?
    {target : LogicVector}
    {operation : Operation LogicVector}
    {exact : Int}
    (isExact : operation.integer? target = some exact)
    (width : Nat) :
    operation.range width = (0, width - 1) := by
  cases operation <;> first | rfl | contradiction

end Operation

namespace LogicVector

/-- A readable vector keeps the integer that an arithmetic operation computes from
known operands. -/
theorem operate_holds
    {target : LogicVector}
    {operation : Operation LogicVector}
    {exact : Int}
    (readable : target.Readable)
    (operandsReadable : ∀ operand ∈ operation.operands target, operand.Readable)
    (known : ∀ operand ∈ operation.operands target, operand.IsKnown)
    (isExact : operation.integer? target = some exact) :
    ∃ updated changed, (target.operate operation).result = .ok (updated, changed) ∧
      updated.toHeader = target.toHeader ∧ updated.Holds exact := by
  obtain ⟨value, computes, holds⟩ :=
    Operation.compute_givesInteger operandsReadable known isExact
  obtain ⟨updated, changed, operates, sameHeader, shows⟩ := operate_settles readable
    (Operation.range_of_integer? isExact _) computes holds.canonical
  exact ⟨updated, changed, operates, sameHeader,
    (readable.operate operates).holds_of_settled sameHeader holds shows⟩

/-- A known zero divisor of a known dividend is refused, and shown with the dividend. -/
theorem operate_divide_of_zero
    {target left right : LogicVector}
    {division : Division}
    (leftReadable : left.Readable)
    (rightReadable : right.Readable)
    (leftKnown : left.IsKnown)
    (rightKnown : right.IsKnown)
    (divisorZero : right.integer false = 0) :
    target.operate (.divide division left right) = {
      result := .error (.divisionByZero division)
      log := [.dividedByZero division (String.ofList left.display)
        (String.ofList right.display)] } := by
  have fails : (Operation.divide division left right).compute target =
      .error (.divisionByZero division) :=
    Operator.divide_eq_error leftReadable rightReadable leftKnown rightKnown divisorZero
  rw [operate, fails]
  rfl

/-- A division with an unknown bit in an operand succeeds. -/
theorem operate_divide_of_unknown
    {target left right : LogicVector}
    (division : Division)
    (readable : target.Readable)
    (leftReadable : left.Readable)
    (rightReadable : right.Readable)
    (unknown : ¬(left.IsKnown ∧ right.IsKnown)) :
    ∃ updated changed,
      (target.operate (.divide division left right)).result = .ok (updated, changed) := by
  have meets : left.UnknownBelow left.width ∨ right.UnknownBelow right.width := by
    rw [leftReadable.isKnown_iff, rightReadable.isKnown_iff, ← not_or, not_not] at unknown
    exact unknown
  have computes : (Operation.divide division left right).compute target =
      .ok (Buffer.unknown target.width) :=
    (Operator.divide_unknownExactlyIf leftReadable rightReadable).unknown meets
  obtain ⟨updated, changed, operates, -⟩ := operate_settles readable rfl computes
    (Buffer.canonical_unknown _)
  exact ⟨updated, changed, operates⟩

/-- A divisor that is not zero gives a quotient and a remainder. -/
theorem operate_divide_of_known
    {target left right : LogicVector}
    (division : Division)
    (readable : target.Readable)
    (leftReadable : left.Readable)
    (rightReadable : right.Readable)
    (leftKnown : left.IsKnown)
    (rightKnown : right.IsKnown)
    (divisorNotZero : right.integer false ≠ 0) :
    ∃ updated changed,
      (target.operate (.divide division left right)).result = .ok (updated, changed) ∧
      updated.toHeader = target.toHeader ∧
      updated.Holds (division.ofInts (left.integer (bothSigned left right))
        (right.integer (bothSigned left right))) := by
  apply operate_holds readable
  · simp [Operation.operands, leftReadable, rightReadable]
  · simp [Operation.operands, leftKnown, rightKnown]
  · rw [Operation.integer?, if_neg divisorNotZero]

/-- Only a known zero divisor of a known dividend keeps a division from succeeding. -/
theorem exists_operate_divide
    {target left right : LogicVector}
    (division : Division)
    (readable : target.Readable)
    (leftReadable : left.Readable)
    (rightReadable : right.Readable)
    (notZero : ¬(left.IsKnown ∧ right.IsKnown ∧ right.integer false = 0)) :
    ∃ updated changed,
      (target.operate (.divide division left right)).result = .ok (updated, changed) := by
  by_cases known : left.IsKnown ∧ right.IsKnown
  · obtain ⟨updated, changed, operates, -⟩ := operate_divide_of_known division readable
      leftReadable rightReadable known.1 known.2 fun isZero => notZero ⟨known.1, known.2, isZero⟩
    exact ⟨updated, changed, operates⟩
  · exact operate_divide_of_unknown division readable leftReadable rightReadable known

end LogicVector
end FourState
