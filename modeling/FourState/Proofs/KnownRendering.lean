import FourState.Proofs.LiteralReading
import FourState.Proofs.Rendering
import FourState.Proofs.Session.Run

/-!
# Rendered known values

A known value is written in one way: the first digit is zero only if it is the only one,
and a decimal numeral has a minus sign only in front of a negative number.  The text of a
known vector in binary, octal or hexadecimal is read back as a vector of the same width,
signedness and bits, and so is the decimal text of an unsigned one behind its width.
-/

namespace FourState

/-- The first digit is zero only if it is the only one. -/
def NoLeadingZero (digits : List Char) : Prop :=
  digits.head? = some '0' → digits = ['0']

namespace Numeral

/-- The figures of a number, the leading one first. -/
structure IsCanonical (figures : List Char) (value : Nat) : Prop where
  denotes : Denotes 10 figures value
  isFigure : ∀ char ∈ figures, char.isDigit = true
  noLeadingZero : NoLeadingZero figures

/-- The decimal numeral of an integer. -/
inductive IsDecimal : Int → List Char → Prop
  | natural {value : Nat} {figures : List Char} (canonical : IsCanonical figures value) :
      IsDecimal value figures
  | negative {value : Nat} {figures : List Char} (canonical : IsCanonical figures value)
      (notZero : 0 < value) : IsDecimal (-value) ('-' :: figures)

theorem noLeadingZero_toDigits (value : Nat) : NoLeadingZero (Nat.toDigits 10 value) := by
  induction value using Nat.strongRecOn with
  | ind value inductionHypothesis =>
      intro leads
      by_cases short : value < 10
      · rw [Nat.toDigits_of_lt_base short] at leads ⊢
        simpa using leads
      · -- The leading figures are those of the quotient, which is not zero.
        have long : 10 ≤ value := Nat.not_lt.1 short
        rw [Nat.toDigits_of_base_le (by decide) long,
          List.head?_append_of_ne_nil _ Nat.toDigits_ne_nil] at leads
        have isZero := inductionHypothesis (value / 10) (by omega) leads
        have reads := natural?_toDigits (by decide) (by decide : 10 ≤ 16) (value / 10)
        rw [isZero] at reads
        have sameValue : 0 = value / 10 := Option.some.inj reads
        omega

theorem isCanonical_decimal (value : Nat) : IsCanonical (decimal value) value where
  denotes := denotes_toDigits (by decide) (by decide) value
  isFigure char isMember := by
    have figure : ∀ digit < 10, digit.digitChar.isDigit = true := by decide
    obtain ⟨digit, small, rfl⟩ := exists_digit_of_mem (by decide) isMember
    exact figure digit small
  noLeadingZero := noLeadingZero_toDigits value

/-- The numeral that is written is the decimal numeral. -/
theorem isDecimal_integer (value : Int) : IsDecimal value (integer value) := by
  cases value with
  | ofNat value => exact .natural (isCanonical_decimal value)
  | negSucc value => exact .negative (isCanonical_decimal (value + 1)) (Nat.succ_pos value)

end Numeral

namespace Buffer

variable {value : Buffer} {radix : DigitRadix}

/-- A zero is dropped from the front of the digits unless it is the last one. -/
theorem noLeadingZero_renderDigits
    (positive : 0 < value.width)
    (uniform : ∀ index, Bit.Uniform (value.digitGroup radix index)) :
    NoLeadingZero (value.renderDigits radix) := by
  obtain ⟨top, topInside, renders, -, notZero⟩ := value.exists_renderDigits_eq positive uniform
  rw [renders]
  intro leads
  rw [List.range_succ, List.reverse_append, List.reverse_singleton, List.map_append,
    List.map_singleton, List.singleton_append, List.head?_cons, Option.some.injEq] at leads
  obtain rfl | ⟨position, inside, isTop, differs⟩ := notZero
  · simpa using leads
  · have isMember := (mem_digitGroup_iff top _).2 ⟨position, inside, isTop, rfl⟩
    have short := Nat.le_trans (value.length_digitGroup_le radix top) radix.bits_le
    exact absurd ((Bit.groupDigit_eq_zero_iff (List.ne_nil_of_mem isMember) short
      (uniform top)).1 leads _ isMember) differs

end Buffer

namespace LogicVector

/-- How a known vector is written. -/
structure RendersKnown (vector : LogicVector) : Prop where
  /-- In binary, octal and hexadecimal the text has no leading zeros, and is read back as a
  plain vector with the width, the signedness and the bits. -/
  digits : ∀ radix : DigitRadix, ∃ digits read,
    vector.render (.digits radix) =
      .ok (Literal.sizedText vector.width vector.signed radix digits) ∧
    digits ≠ [] ∧ NoLeadingZero digits ∧
    ofLiteral (Literal.sizedText vector.width vector.signed radix digits) =
      .ok (read, .digits radix) ∧
    read.IsPlain vector.width vector.signed ∧
    ∀ position, position < vector.width → read.bit? position = vector.bit? position
  /-- In decimal the text is the numeral of the two's complement value if the vector is signed,
  and of the unsigned value if it is not.  The latter is read back behind the width. -/
  decimal : ∃ text, vector.render .decimal = .ok text ∧
    Numeral.IsDecimal (vector.integer vector.signed) text ∧
    (vector.signed = false → ∃ read,
      ofLiteral (Numeral.decimal vector.width ++ '\x27' :: 'd' :: text) = .ok (read, .decimal) ∧
      read.IsPlain vector.width false ∧
      ∀ position, position < vector.width → read.bit? position = vector.bit? position)

section

variable {vector : LogicVector}

/-- The digits of a known vector are read back as the vector. -/
theorem exists_render_digits
    (readable : vector.Readable)
    (known : vector.IsKnown)
    (radix : DigitRadix) :
    ∃ digits read,
      vector.render (.digits radix) =
        .ok (Literal.sizedText vector.width vector.signed radix digits) ∧
      digits ≠ [] ∧ NoLeadingZero digits ∧
      ofLiteral (Literal.sizedText vector.width vector.signed radix digits) =
        .ok (read, .digits radix) ∧
      read.IsPlain vector.width vector.signed ∧
      ∀ position, position < vector.width → read.bit? position = vector.bit? position := by
  obtain ⟨value, reads, holds⟩ := readable.holds_ofVector known
  obtain ⟨-, sameWidth, sameSigned⟩ := readable.canonical_ofVector reads
  have inLimits : 0 < value.width ∧ value.width ≤ maxWidth := by
    rw [sameWidth]
    exact ⟨readable.wellFormed.width_pos, readable.wellFormed.width_le⟩
  have allKnown (position : Nat) : (value.bit position).isKnown = true := by
    rw [holds.bit_eq]
    cases vector.pattern.getLsbD position <;> rfl
  have uniform (index : Nat) : Bit.Uniform (value.digitGroup radix index) := by
    refine .inl fun bit isMember => ?_
    obtain ⟨position, -, -, rfl⟩ := (Buffer.mem_digitGroup_iff _ _).1 isMember
    exact allKnown position
  have leads : value.LeadsPlainly radix := by
    intro position _ unknown
    rw [allKnown] at unknown
    contradiction
  obtain ⟨notEmpty, plain⟩ := Buffer.renderDigits_plain inLimits.1 uniform
  obtain ⟨digitValue, readsDigits, digitWidth, -, sameBits⟩ :=
    Buffer.exists_ofDigits_renderDigits inLimits.1 uniform
  have form : Literal.Says _ _ _ (.digits radix) _ :=
    Literal.says_sizedText inLimits.2 value.signed notEmpty plain
  obtain ⟨read, accepts, isPlain, shows⟩ := exists_ofLiteral form inLimits readsDigits digitWidth
  rw [sameWidth, sameSigned] at accepts isPlain
  refine ⟨value.renderDigits radix, read, ?_, notEmpty,
    Buffer.noLeadingZero_renderDigits inLimits.1 uniform, accepts, isPlain, ?_⟩
  · rw [render, reads]
    rfl
  · intro position inside
    have insideValue : position < value.width := sameWidth.symm ▸ inside
    rw [shows position insideValue, sameBits.2 leads position insideValue, holds.bit_eq,
      known.bit?_eq inside]

/-- The decimal text of a known vector is the numeral of its integer. -/
theorem render_decimal
    (readable : vector.Readable)
    (known : vector.IsKnown) :
    vector.render .decimal = .ok (Numeral.integer (vector.integer vector.signed)) := by
  obtain ⟨value, reads, holds⟩ := readable.holds_ofVector known
  rw [render, reads]
  change Except.ok (value.renderDecimal vector.signed) = _
  rw [Buffer.renderDecimal, holds.hasUnknown_eq, integer]
  cases vector.signed with
  | false =>
      rw [holds.toNat_eq]
      rfl
  | true =>
      rw [holds.toInt_eq]
      rfl

/-- The unsigned value of a known vector is read back behind its width. -/
theorem exists_ofLiteral_decimal
    (readable : vector.Readable)
    (known : vector.IsKnown) :
    ∃ read,
      ofLiteral (Numeral.decimal vector.width ++ '\x27' :: 'd' ::
        Numeral.integer (vector.integer false)) = .ok (read, .decimal) ∧
      read.IsPlain vector.width false ∧
      ∀ position, position < vector.width → read.bit? position = vector.bit? position := by
  have form := Literal.says_of_parts readable.wellFormed.width_le .none .lowerD
    (Nat.toDigits_ne_nil : Numeral.decimal vector.pattern.toNat ≠ [])
    fun char isMember => ⟨(Literal.decimal_plain isMember).1, (Literal.decimal_plain isMember).2.1⟩
  have readsNumber := Literal.ofDecimal_of_denotes vector.width
    (Numeral.denotes_toDigits (by decide) (by decide) vector.pattern.toNat)
  obtain ⟨read, accepts, isPlain, shows⟩ := exists_ofLiteral form
    ⟨readable.wellFormed.width_pos, readable.wellFormed.width_le⟩ readsNumber rfl
  refine ⟨read, accepts, isPlain, fun position inside => ?_⟩
  rw [shows position inside, Buffer.bit_ofNat, if_pos inside, BitVec.testBit_toNat,
    known.bit?_eq inside]

theorem Readable.rendersKnown
    (readable : vector.Readable)
    (known : vector.IsKnown) :
    vector.RendersKnown where
  digits := exists_render_digits readable known
  decimal := by
    refine ⟨_, render_decimal readable known, Numeral.isDecimal_integer _, fun unsigned => ?_⟩
    rw [unsigned]
    exact exists_ofLiteral_decimal readable known

end

end LogicVector

namespace Session

/-- In every session that commands lead to, an allocated vector of any kind and width that is
known is written in this way. -/
theorem rendersKnown_run_empty
    (commands : List Command)
    (target : (Session.empty.run commands).AllocatedName)
    (known : target.vector.IsKnown) :
    target.vector.RendersKnown :=
  target.readable.rendersKnown known

/-- A negative number of two words, whose topmost hexadecimal digit is a partial one. -/
def negativeNumber : List Command :=
  [.literal "v" ['3', '4', '\x27', 's', 'h', '3', '0', '0', '0', '0', '0', '0', '0', '1']]

theorem rendersKnown_run_empty_negativeNumber :
    ∃ target : (Session.empty.run negativeNumber).AllocatedName, ∃ digits read,
      target.name = "v" ∧ target.vector.RendersKnown ∧
      target.vector.render (.digits .octal) = .ok (Literal.sizedText 34 true .octal digits) ∧
      NoLeadingZero digits ∧
      LogicVector.ofLiteral (Literal.sizedText 34 true .octal digits) =
        .ok (read, .digits .octal) ∧
      read.bit? 33 = some Bit.one ∧
      (target.vector.render .decimal).toOption =
        some ['-', '4', '2', '9', '4', '9', '6', '7', '2', '9', '5'] := by
  obtain ⟨target, isTarget, wide, signed, known, topmost, text⟩ :
      ∃ target : (Session.empty.run negativeNumber).AllocatedName,
        target.name = "v" ∧ target.vector.width = 34 ∧ target.vector.signed = true ∧
        target.vector.IsKnown ∧ target.vector.bit? 33 = some Bit.one ∧
        (target.vector.render .decimal).toOption =
          some ['-', '4', '2', '9', '4', '9', '6', '7', '2', '9', '5'] :=
    ⟨⟨"v", _, rfl, rfl⟩, rfl, rfl, rfl, by decide +kernel, by decide +kernel, by decide +kernel⟩
  have renders : target.vector.RendersKnown :=
    rendersKnown_run_empty negativeNumber target known
  obtain ⟨digits, read, writes, -, noLeadingZero, readsBack, -, sameBits⟩ := renders.digits .octal
  rw [wide, signed] at writes readsBack
  rw [wide] at sameBits
  exact ⟨target, digits, read, isTarget, renders, writes, noLeadingZero, readsBack,
    (sameBits 33 (by decide)).trans topmost, text⟩

end Session
end FourState
