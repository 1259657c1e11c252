import FourState.Proofs.Abstraction
import FourState.Proofs.Operating

/-!
# Unknown operands of arithmetic

An arithmetic operation either meets an unknown bit and leaves `x` everywhere,
or leaves known bits only.  Increments, decrements and divisions meet every
unknown bit of their operands.  Sums, differences, products and negations cut
their operands to the target width first, so that an unknown bit at or past
this width is not met.
-/

namespace FourState

/-! ## Known values -/

namespace Buffer

/-- The value has the width, and no bit of it is `x` or `z`. -/
structure Known (width : Nat) (value : Buffer) : Prop where
  width_eq : value.width = width
  isKnown : ∀ position, (value.bit position).isKnown = true

theorem known_ofWords (width : Nat) (words : List Word) : (ofWords width words).Known width := by
  refine ⟨rfl, ?_⟩
  intro position
  have high : Words.bit (Words.trim (Array.replicate (wordCount width) 0) width) position =
      false := by
    rw [Words.bit_trim_of_size (by simp), Words.bit_replicate]
    simp
  rw [bit]
  split
  · rw [Bit.isKnown_ofPlanes]
    exact congrArg not high
  · rfl

theorem known_ofNat (width value : Nat) : (ofNat width value).Known width := by
  refine ⟨rfl, ?_⟩
  intro position
  rw [bit_ofNat]
  split
  · cases value.testBit position <;> rfl
  · rfl

theorem known_add
    {left right value : Buffer}
    {carry : Bool}
    (adds : left.add right carry = .ok value) :
    value.Known left.width := by
  obtain ⟨words, -, adds⟩ := bind_eq_ok_iff.1 adds
  cases adds
  exact known_ofWords left.width words

theorem known_multiply
    {left right value : Buffer}
    (multiplies : left.multiply right = .ok value) :
    value.Known left.width := by
  obtain ⟨words, -, multiplies⟩ := bind_eq_ok_iff.1 multiplies
  cases multiplies
  exact known_ofWords left.width words

end Buffer

/-- The result is all `x` under the condition.  Otherwise it is a known value, if
there is a result. -/
structure UnknownExactlyIf {error : Type} (width : Nat) (condition : Prop)
    (result : Except error Buffer) : Prop where
  unknown : condition → result = .ok (Buffer.unknown width)
  known : ¬condition → ∀ value, result = .ok value → value.Known width

theorem unknownExactlyIf_whenKnown
    {width : Nat}
    {condition : Prop}
    {operands : List Buffer}
    {compute : Except Fault Buffer}
    (unknown_iff : operands.any Buffer.hasUnknown = true ↔ condition)
    (known : ∀ value, compute = .ok value → value.Known width) :
    UnknownExactlyIf width condition (whenKnown width operands compute) := by
  refine ⟨?_, ?_⟩
  · intro unknown
    rw [whenKnown, if_pos (unknown_iff.2 unknown)]
  · intro noUnknown value computes
    rw [whenKnown, if_neg (mt unknown_iff.1 noUnknown)] at computes
    exact known value computes

/-! ## Unknown bits of operands -/

namespace LogicVector

/-- Some bit of the vector below the limit is `x` or `z`. -/
def UnknownBelow (vector : LogicVector) (limit : Nat) : Prop :=
  ∃ position bit, position < limit ∧ vector.bit? position = some bit ∧ bit.isKnown = false

section Operands

variable {vector : LogicVector} {value : Buffer}

theorem hasUnknown_ofVector_iff
    (readable : vector.Readable)
    (reads : Buffer.ofVector vector = .ok value) :
    value.hasUnknown = true ↔ vector.UnknownBelow vector.width := by
  obtain ⟨canonical, sameWidth, -⟩ := readable.canonical_ofVector reads
  rw [Buffer.hasUnknown_eq_true_iff canonical, ← sameWidth]
  constructor
  · rintro ⟨position, inside, unknown⟩
    exact ⟨position, _, inside, bit?_of_ofVector reads inside,
      (Bit.isKnown_eq_false_iff _).2 unknown⟩
  · rintro ⟨position, bit, inside, shows, unknown⟩
    rw [bit?_of_ofVector reads inside] at shows
    cases shows
    exact ⟨position, inside, (Bit.isKnown_eq_false_iff _).1 unknown⟩

/-- The sign that extends an operand is one of its own bits, so an operand has an
unknown bit exactly where the part of the vector that is read has one. -/
theorem hasUnknown_operand_iff
    (readable : vector.Readable)
    {width : Nat}
    {signExtend : Bool}
    (reads : vector.operand width signExtend = .ok value) :
    value.hasUnknown = true ↔ vector.UnknownBelow width := by
  obtain ⟨whole, readsWhole, reads⟩ := bind_eq_ok_iff.1 reads
  cases reads
  obtain ⟨canonical, sameWidth, -⟩ := readable.canonical_ofVector readsWhole
  rw [Buffer.hasUnknown_eq_true_iff (Buffer.canonical_resized _ _ _), Buffer.width_resized]
  constructor
  · rintro ⟨position, inside, unknown⟩
    rw [Buffer.bit_resized canonical, if_pos inside] at unknown
    split at unknown
    · rename_i inVector
      exact ⟨position, _, inside, bit?_of_ofVector readsWhole inVector,
        (Bit.isKnown_eq_false_iff _).2 unknown⟩
    · rename_i outside
      split at unknown
      · have notEmpty : 0 < whole.width := sameWidth ▸ readable.wellFormed.width_pos
        have last : whole.width - 1 < whole.width := Nat.sub_one_lt_of_lt notEmpty
        exact ⟨whole.width - 1, _, by omega, bit?_of_ofVector readsWhole last,
          (Bit.isKnown_eq_false_iff _).2 unknown⟩
      · contradiction
  · rintro ⟨position, bit, inside, shows, unknown⟩
    have inVector : position < whole.width := sameWidth ▸ lt_width_of_bit? shows
    refine ⟨position, inside, ?_⟩
    rw [bit?_of_ofVector readsWhole inVector] at shows
    cases shows
    rw [Buffer.bit_resized canonical, if_pos inside, if_pos inVector]
    exact (Bit.isKnown_eq_false_iff _).1 unknown

end Operands
end LogicVector

/-! ## Arithmetic -/

namespace Operator

variable {width : Nat} {source left right : LogicVector}

theorem combine_unknownExactlyIf
    {function : Buffer → Buffer → Except Fault Buffer}
    (leftReadable : left.Readable)
    (rightReadable : right.Readable)
    (known : ∀ first second value, first.width = width → function first second = .ok value →
      value.Known width) :
    UnknownExactlyIf width (left.UnknownBelow width ∨ right.UnknownBelow width)
      (combine width left right function) := by
  obtain ⟨leftValue, readsLeft, -, leftWidth, -⟩ :=
    leftReadable.operand width (bothSigned left right)
  obtain ⟨rightValue, readsRight, -⟩ := rightReadable.operand width (bothSigned left right)
  have computes : combine width left right function =
      whenKnown width [leftValue, rightValue] (function leftValue rightValue) := by
    rw [combine, readsLeft, readsRight]
    rfl
  rw [computes]
  apply unknownExactlyIf_whenKnown
  · simp only [List.any_cons, List.any_nil, Bool.or_false, Bool.or_eq_true,
      LogicVector.hasUnknown_operand_iff leftReadable readsLeft,
      LogicVector.hasUnknown_operand_iff rightReadable readsRight]
  · intro value
    exact known leftValue rightValue value leftWidth

theorem negate_unknownExactlyIf (readable : source.Readable) :
    UnknownExactlyIf width (source.UnknownBelow width) (negate width source) := by
  obtain ⟨read, reads, -⟩ := readable.operand width source.signed
  have computes : negate width source =
      whenKnown width [read] ((Buffer.zero width).add read.complement true) := by
    rw [negate, reads]
    rfl
  rw [computes]
  apply unknownExactlyIf_whenKnown
  · simp only [List.any_cons, List.any_nil, Bool.or_false,
      LogicVector.hasUnknown_operand_iff readable reads]
  · intro value adds
    exact Buffer.known_add adds

/-- The increment and the decrement add a constant to the vector's own value. -/
theorem step_unknownExactlyIf
    {step : Buffer → Buffer}
    {carry : Bool}
    (readable : source.Readable) :
    UnknownExactlyIf source.width (source.UnknownBelow source.width) (do
      let value ← Buffer.ofVector source
      whenKnown source.width [value] (value.add (step value) carry)) := by
  obtain ⟨read, reads, -, sameWidth, -⟩ := readable.ofVector
  rw [reads]
  apply unknownExactlyIf_whenKnown
  · simp only [List.any_cons, List.any_nil, Bool.or_false,
      LogicVector.hasUnknown_ofVector_iff readable reads]
  · intro value adds
    rw [← sameWidth]
    exact Buffer.known_add adds

theorem divide_unknownExactlyIf
    {division : Division}
    (leftReadable : left.Readable)
    (rightReadable : right.Readable) :
    UnknownExactlyIf width (left.UnknownBelow left.width ∨ right.UnknownBelow right.width)
      (divide division width left right) := by
  obtain ⟨leftValue, readsLeft, -⟩ := leftReadable.ofVector
  obtain ⟨rightValue, readsRight, -⟩ := rightReadable.ofVector
  rw [← LogicVector.hasUnknown_ofVector_iff leftReadable readsLeft,
    ← LogicVector.hasUnknown_ofVector_iff rightReadable readsRight, ← Bool.or_eq_true]
  have unfolds : divide division width left right =
      if leftValue.hasUnknown || rightValue.hasUnknown then .ok (Buffer.unknown width) else do
        require (rightValue.isNotZero = true) (Failure.divisionByZero division)
        if bothSigned left right then
          return Buffer.ofInt width (division.ofInts leftValue.toInt rightValue.toInt)
        else
          return Buffer.ofNat width (division.ofNats leftValue.toNat rightValue.toNat) := by
    rw [divide, readsLeft, readsRight]
    rfl
  rw [unfolds]
  refine ⟨?_, ?_⟩
  · intro unknown
    rw [if_pos unknown]
  · intro noUnknown value divides
    rw [if_neg noUnknown] at divides
    obtain ⟨⟨⟩, -, divides⟩ := bind_eq_ok_iff.1 divides
    split at divides
    · cases divides
      exact Buffer.known_ofNat width _
    · cases divides
      exact Buffer.known_ofNat width _

end Operator

namespace UnknownExactlyIf

theorem liftM
    {width : Nat}
    {condition : Prop}
    {result : Except Fault Buffer}
    (exact : UnknownExactlyIf width condition result) :
    UnknownExactlyIf width condition (liftM result : Except Failure Buffer) := by
  refine ⟨?_, ?_⟩
  · intro holds
    exact liftM_fault_eq_ok_iff.2 (exact.unknown holds)
  · intro fails value computes
    exact exact.known fails value (liftM_fault_eq_ok_iff.1 computes)

end UnknownExactlyIf

namespace Operation

/-- The operation computes with integers. -/
def isArithmetic {operand : Type} : Operation operand → Bool
  | add _ _ => true
  | subtract _ _ => true
  | multiply _ _ => true
  | negate _ => true
  | increment => true
  | decrement => true
  | divide _ _ _ => true
  | _ => false

/-- An arithmetic operation meets an unknown bit: one below the target width in
what it cuts to that width, any bit in what it reads whole. -/
def MeetsUnknown (target : LogicVector) : Operation LogicVector → Prop
  | add left right => left.UnknownBelow target.width ∨ right.UnknownBelow target.width
  | subtract left right => left.UnknownBelow target.width ∨ right.UnknownBelow target.width
  | multiply left right => left.UnknownBelow target.width ∨ right.UnknownBelow target.width
  | negate source => source.UnknownBelow target.width
  | increment => target.UnknownBelow target.width
  | decrement => target.UnknownBelow target.width
  | divide _ left right => left.UnknownBelow left.width ∨ right.UnknownBelow right.width
  | _ => False

theorem compute_unknownExactlyIf
    {operand : Type}
    {operation : Operation operand}
    {vectors : operand → LogicVector}
    {target : LogicVector}
    (arithmetic : operation.isArithmetic = true)
    (readable : target.Readable)
    (operands : ∀ name, (vectors name).Readable) :
    UnknownExactlyIf target.width ((operation.map vectors).MeetsUnknown target)
      ((operation.map vectors).compute target) := by
  cases operation with
  | add left right =>
      exact (Operator.combine_unknownExactlyIf (operands left) (operands right)
        fun _ _ _ wide adds => wide ▸ Buffer.known_add adds).liftM
  | subtract left right =>
      exact (Operator.combine_unknownExactlyIf (operands left) (operands right)
        fun _ _ _ wide adds => wide ▸ Buffer.known_add adds).liftM
  | multiply left right =>
      exact (Operator.combine_unknownExactlyIf (operands left) (operands right)
        fun _ _ _ wide multiplies => wide ▸ Buffer.known_multiply multiplies).liftM
  | negate source => exact (Operator.negate_unknownExactlyIf (operands source)).liftM
  | increment =>
      exact (Operator.step_unknownExactlyIf readable).liftM
  | decrement => exact (Operator.step_unknownExactlyIf readable).liftM
  | divide division left right =>
      exact Operator.divide_unknownExactlyIf (operands left) (operands right)
  | _ => contradiction

/-- An arithmetic operation assigns its whole target. -/
theorem range_of_isArithmetic
    {operand : Type}
    {operation : Operation operand}
    (arithmetic : operation.isArithmetic = true)
    (width : Nat) :
    operation.range width = (0, width - 1) := by
  cases operation with
  | partAssign source lsb msb => contradiction
  | _ => rfl

end Operation

namespace LogicVector

variable {operand : Type} {operation : Operation operand} {vectors : operand → LogicVector}
variable {target : LogicVector}

theorem leaves_unknown
    (arithmetic : operation.isArithmetic = true)
    (readable : target.Readable)
    (fourState : target.twoState = false)
    (operands : ∀ name, (vectors name).Readable)
    (meets : (operation.map vectors).MeetsUnknown target) :
    target.Leaves (operation.map vectors) fun _ bit => bit = Bit.x := by
  have computes :=
    (Operation.compute_unknownExactlyIf arithmetic readable operands).unknown meets
  have coversAll : (operation.map vectors).range target.width = (0, target.width - 1) := by
    rw [Operation.range_map, Operation.range_of_isArithmetic arithmetic]
  apply leaves_of_compute readable fourState coversAll computes (Buffer.canonical_unknown _)
  intro position inside
  rw [Buffer.bit_unknown, if_pos inside]

theorem isKnown_of_not_meetsUnknown
    (arithmetic : operation.isArithmetic = true)
    (readable : target.Readable)
    (fourState : target.twoState = false)
    (operands : ∀ name, (vectors name).Readable)
    (avoids : ¬(operation.map vectors).MeetsUnknown target)
    {updated : LogicVector}
    {changed : Bool}
    (succeeds : (target.operate (operation.map vectors)).result = .ok (updated, changed))
    {position : Nat}
    (inside : position < target.width) :
    ∃ bit, updated.bit? position = some bit ∧ bit.isKnown = true := by
  obtain ⟨value, computes⟩ := exists_compute_of_operate succeeds
  have known := (Operation.compute_unknownExactlyIf arithmetic readable operands).known avoids
    value computes
  refine ⟨value.bit position, ?_, known.isKnown position⟩
  rw [bit?_operate readable fourState computes succeeds inside, Operation.range_map,
    Operation.range_of_isArithmetic arithmetic, if_pos ⟨Nat.zero_le _, Nat.le_sub_one_of_lt inside⟩,
    Buffer.fitted, if_pos known.width_eq]

/-- An arithmetic operation that meets an unknown bit succeeds and leaves `x`
everywhere in a four-state target, and no other one does: where one that meets
no unknown bit succeeds, it leaves known bits only. -/
theorem operate_unknown_iff
    (arithmetic : operation.isArithmetic = true)
    (readable : target.Readable)
    (fourState : target.twoState = false)
    (operands : ∀ name, (vectors name).Readable) :
    ((target.Leaves (operation.map vectors) fun _ bit => bit = Bit.x) ↔
      (operation.map vectors).MeetsUnknown target) ∧
    (¬(operation.map vectors).MeetsUnknown target →
      ∀ updated changed,
        (target.operate (operation.map vectors)).result = .ok (updated, changed) →
        ∀ position, position < target.width →
          ∃ bit, updated.bit? position = some bit ∧ bit.isKnown = true) := by
  refine ⟨⟨?_, leaves_unknown arithmetic readable fourState operands⟩, ?_⟩
  · rintro ⟨updated, changed, succeeds, -, leaves⟩
    apply Classical.byContradiction
    intro avoids
    have first := readable.wellFormed.width_pos
    obtain ⟨bit, shows, known⟩ := isKnown_of_not_meetsUnknown arithmetic readable fourState
      operands avoids succeeds first
    obtain ⟨unknown, showsUnknown, rfl⟩ := leaves 0 first
    rw [shows] at showsUnknown
    cases showsUnknown
    contradiction
  · intro avoids updated changed succeeds position inside
    exact isKnown_of_not_meetsUnknown arithmetic readable fourState operands avoids succeeds inside

/-- A new signal is `x` everywhere, and so is its product with itself. -/
theorem operate_unknown_square :
    ∃ target source, create 4 .plain true = .ok target ∧ create 8 .signal true = .ok source ∧
      target.Readable ∧ target.twoState = false ∧ source.Readable ∧
      (Operation.multiply source source).MeetsUnknown target ∧
      target.Leaves (.multiply source source) fun _ bit => bit = Bit.x := by
  obtain ⟨target, newTarget, fourState, width⟩ :
      ∃ target, create 4 .plain true = .ok target ∧ target.twoState = false ∧ target.width = 4 :=
    ⟨_, rfl, rfl, rfl⟩
  obtain ⟨source, newSource, unknown⟩ :
      ∃ source, create 8 .signal true = .ok source ∧ source.bit? 3 = some .x := ⟨_, rfl, rfl⟩
  have targetReadable := create_readable newTarget
  have sourceReadable := create_readable newSource
  have meets : (Operation.multiply source source).MeetsUnknown target := by
    rw [Operation.MeetsUnknown, width]
    exact Or.inl ⟨3, .x, by decide, unknown, rfl⟩
  exact ⟨target, source, newTarget, newSource, targetReadable, fourState, sourceReadable, meets,
    (@operate_unknown_iff Unit (.multiply () ()) (fun _ => source) target rfl targetReadable
      fourState fun _ => sourceReadable).1.2 meets⟩

/-- An `x` past the target width is not met: the sum stays known. -/
theorem operate_skips_unknown :
    ∃ target left right radix otherRadix updated changed,
      create 4 .plain true = .ok target ∧
      ofLiteral "8'bx0000011".toList = .ok (left, radix) ∧
      ofLiteral "8'b00000001".toList = .ok (right, otherRadix) ∧
      (target.operate (.add left right)).result = .ok (updated, changed) ∧
      left.bit? 7 = some Bit.x ∧ target.twoState = false ∧
      updated.bit? 0 = some Bit.zero ∧ updated.bit? 2 = some Bit.one := by
  have evaluates : (do
      let target ← (liftM (create 4 .plain true) : Except Failure LogicVector)
      let left ← ofLiteral "8'bx0000011".toList
      let right ← ofLiteral "8'b00000001".toList
      let answer ← (target.operate (.add left.1 right.1)).result
      return (left.1.bit? 7, target.twoState, answer.1.bit? 0, answer.1.bit? 2)) =
        .ok (some Bit.x, false, some Bit.zero, some Bit.one) := by
    decide +kernel
  obtain ⟨target, newTarget, evaluates⟩ := bind_eq_ok_iff.1 evaluates
  obtain ⟨⟨left, radix⟩, readsLeft, evaluates⟩ := bind_eq_ok_iff.1 evaluates
  obtain ⟨⟨right, otherRadix⟩, readsRight, evaluates⟩ := bind_eq_ok_iff.1 evaluates
  obtain ⟨⟨updated, changed⟩, adds, evaluates⟩ := bind_eq_ok_iff.1 evaluates
  simp only [pure, Except.pure, Except.ok.injEq, Prod.mk.injEq] at evaluates
  exact ⟨target, left, right, radix, otherRadix, updated, changed,
    liftM_fault_eq_ok_iff.1 newTarget, readsLeft, readsRight, adds, evaluates⟩

end LogicVector
end FourState
