import FourState.Proofs.Arithmetic
import FourState.Proofs.Guarded.Literal

/-!
# Reading literals

A text is read as a vector or refused with an error of the literal.  A text that is not
quoted is accepted if it says a width, a signedness, a radix and digits of the radix, and
the vector then is plain, of that width and signedness, and shows what the digits stand
for.  A size that is no width is complained about before anything behind it.
-/

namespace FourState

namespace Literal

/-- The digits can be read in a radix. -/
def IsDigits (radix : Radix) (digits : List Char) : Prop :=
  match radix with
  | .digits radix => ∀ digit ∈ digits, IsBasedDigit radix.bits digit
  | _ => (∃ value, Numeral.Denotes 10 digits value) ∨
      ∃ char bit, digits = [char] ∧ UnknownLetter char bit

variable {text size rest digits : List Char} {width : Nat} {signed : Bool} {radix : Radix}

/-- What a text says has digits. -/
theorem Says.digits_ne_nil (form : Says text width signed radix digits) : digits ≠ [] := by
  cases form with
  | sized isSized saysWidth signMark radixLetter notEmpty => exact notEmpty
  | plain notQuoted noSize notEmpty => exact notEmpty

/-- Digits are read exactly if they are digits of the radix. -/
theorem exists_ofRadix
    (width : Nat)
    (areDigits : IsDigits radix digits)
    (notEmpty : digits ≠ []) :
    ∃ value, ofRadix width radix digits = .ok value := by
  have decimal (areDigits : (∃ value, Numeral.Denotes 10 digits value) ∨
      ∃ char bit, digits = [char] ∧ UnknownLetter char bit) :
      ∃ value, ofDecimal width digits = .ok value := by
    obtain ⟨value, denotes⟩ | ⟨char, bit, rfl, letter⟩ := areDigits
    · exact ⟨_, ofDecimal_of_denotes width denotes⟩
    · exact ⟨_, ofDecimal_of_unknownLetter width letter⟩
  cases radix with
  | digits radix =>
      obtain ⟨value, reads, -⟩ := exists_ofDigits width areDigits notEmpty
      exact ⟨value, reads⟩
  | decimal | quoted => exact decimal areDigits

theorem exists_ofRadix_error
    (width : Nat)
    (notDigits : ¬IsDigits radix digits) :
    ∃ defect, ofRadix width radix digits = .error (.malformed defect) := by
  cases radix with
  | digits radix => exact exists_ofDigits_error width notDigits
  | decimal | quoted =>
      exact exists_ofDecimal_error width (fun denotes => notDigits (.inl denotes))
        (fun letter => notDigits (.inr letter))

/-- A text whose size is no width for a vector is not accepted. -/
theorem inLimits_of_read_eq_ok
    {literal : Literal}
    (isSized : IsSized text size rest)
    (saysWidth : SaysWidth size width)
    (reads : read text = .ok literal) :
    0 < width ∧ width ≤ maxWidth := by
  rw [read_of_size isSized saysWidth] at reads
  obtain ⟨⟨⟩, lets, -⟩ := bind_eq_ok_iff.1 reads
  exact checkWidth_eq_ok_iff.1 lets

/-- A text that is not quoted and is accepted has the form. -/
theorem exists_says_of_read
    {literal : Literal}
    (notQuoted : ¬IsQuoted text)
    (reads : read text = .ok literal) :
    ∃ width digits, Says text width literal.signed literal.radix digits ∧
      0 < width ∧ width ≤ maxWidth ∧ IsDigits literal.radix digits := by
  obtain ⟨width, signed, radix, digits, form, inLimits⟩ |
    ⟨size, rest, width, isSized, saysWidth, refused⟩ | ⟨defect, fails⟩ := read_cases notQuoted
  · rw [read_of_form form inLimits] at reads
    by_cases areDigits : IsDigits radix digits
    · obtain ⟨value, gives⟩ := exists_ofRadix width areDigits form.digits_ne_nil
      rw [gives] at reads
      cases reads
      exact ⟨width, digits, form, inLimits.1, inLimits.2, areDigits⟩
    · obtain ⟨defect, fails⟩ := exists_ofRadix_error width areDigits
      rw [fails] at reads
      contradiction
  · exact absurd (inLimits_of_read_eq_ok isSized saysWidth reads) refused
  · rw [fails] at reads
    contradiction

/-- A text that is not quoted and is refused says no width for a vector, or is malformed. -/
theorem malformed_of_read
    {error : LiteralError}
    (notQuoted : ¬IsQuoted text)
    (letThrough : ∀ size rest width, IsSized text size rest → SaysWidth size width →
      0 < width ∧ width ≤ maxWidth)
    (refuses : read text = .error error) :
    ∃ defect, error = .malformed defect := by
  obtain ⟨width, signed, radix, digits, form, inLimits⟩ |
    ⟨size, rest, width, isSized, saysWidth, refused⟩ | ⟨defect, fails⟩ := read_cases notQuoted
  · rw [read_of_form form inLimits] at refuses
    by_cases areDigits : IsDigits radix digits
    · obtain ⟨value, reads⟩ := exists_ofRadix width areDigits form.digits_ne_nil
      rw [reads] at refuses
      contradiction
    · obtain ⟨defect, fails⟩ := exists_ofRadix_error width areDigits
      rw [fails] at refuses
      cases refuses
      exact ⟨defect, rfl⟩
  · exact absurd (letThrough size rest width isSized saysWidth) refused
  · rw [fails] at refuses
    cases refuses
    exact ⟨defect, rfl⟩

end Literal

namespace LogicVector

open Literal

/-- What reading a text as a literal does. -/
structure ReadsLiteral (text : List Char) : Prop where
  /-- Reading gives a vector or an error of the literal, and nothing else goes wrong. -/
  total : (∃ vector radix, ofLiteral text = .ok (vector, radix)) ∨
    ∃ defect, ofLiteral text = .error (.literal defect)
  /-- A text that is not quoted and is accepted says a width that a vector can have, and
  digits of the radix. -/
  accepted : ∀ vector radix, ¬IsQuoted text → ofLiteral text = .ok (vector, radix) →
    ∃ width signed digits, Says text width signed radix digits ∧
      0 < width ∧ width ≤ maxWidth ∧ IsDigits radix digits
  /-- Digits of one, three or four bits are accepted and give every bit. -/
  based : ∀ width signed (radix : DigitRadix) digits,
    Says text width signed (.digits radix) digits → 0 < width ∧ width ≤ maxWidth →
    (∀ digit ∈ digits, IsBasedDigit radix.bits digit) →
    ∃ vector, ofLiteral text = .ok (vector, .digits radix) ∧ vector.IsPlain width signed ∧
      ∀ position, position < width → ∀ bit,
        vector.bit? position = some bit ↔ DigitsGive radix.bits digits position bit
  /-- A decimal numeral is accepted and gives its number, modulo two to the width. -/
  number : ∀ width signed digits value,
    Says text width signed .decimal digits → 0 < width ∧ width ≤ maxWidth →
    Numeral.Denotes 10 digits value →
    ∃ vector, ofLiteral text = .ok (vector, .decimal) ∧ vector.IsPlain width signed ∧
      vector.Holds value
  /-- A single letter for unknown bits is accepted and makes all bits unknown. -/
  unknown : ∀ width signed char bit,
    Says text width signed .decimal [char] → 0 < width ∧ width ≤ maxWidth →
    UnknownLetter char bit →
    ∃ vector, ofLiteral text = .ok (vector, .decimal) ∧ vector.IsPlain width signed ∧
      ∀ position, position < width → vector.bit? position = some bit
  /-- A size of zero is the error, whatever is behind it. -/
  zeroWidth : ∀ size rest, IsSized text size rest → SaysWidth size 0 →
    ofLiteral text = .error (.literal .zeroWidth)
  /-- A size past the limit is the error, whatever is behind it. -/
  tooWide : ∀ size rest width, IsSized text size rest → SaysWidth size width →
    maxWidth < width → ofLiteral text = .error (.literal (.tooWide width))
  /-- Any other text that is not quoted and is refused is malformed. -/
  malformed : ¬IsQuoted text →
    (∀ size rest width, IsSized text size rest → SaysWidth size width →
      0 < width ∧ width ≤ maxWidth) →
    ∀ failure, ofLiteral text = .error failure → ∃ defect, failure = .literal (.malformed defect)
  /-- If the bits of the text can be counted, placing the bits one by one with all machine
  steps guarded runs to its end, and does the same. -/
  stepwise : 8 * (bytes text).length < modulus 64 →
    ∃ answer, (Guarded.ofLiteral text).run = .ok answer ∧ ofLiteral text = liftM answer

section

variable {text digits : List Char} {width : Nat} {signed : Bool} {radix : Radix}

theorem ofLiteral_of_read_error
    {defect : LiteralError}
    (fails : Literal.read text = .error defect) :
    ofLiteral text = .error (.literal defect) := by
  rw [ofLiteral, fails]
  rfl

/-- An accepted text becomes a vector with the bits of its literal. -/
theorem exists_ofLiteral_of_read
    {literal : Literal}
    (reads : Literal.read text = .ok literal) :
    ∃ vector, ofLiteral text = .ok (vector, literal.radix) ∧
      vector.IsPlain literal.value.width literal.signed ∧
      ∀ position, position < literal.value.width →
        vector.bit? position = some (literal.value.bit position) := by
  obtain ⟨canonical, inLimits⟩ := inLimits_of_read reads
  obtain ⟨vector, converts, isPlain, shows⟩ := exists_plainVector literal inLimits canonical
  refine ⟨vector, ?_, isPlain, shows⟩
  exact bind_eq_ok_iff.2 ⟨literal, liftM_literalError_eq_ok_iff.2 reads,
    bind_eq_ok_iff.2 ⟨vector, liftM_fault_eq_ok_iff.2 converts, rfl⟩⟩

/-- A text of the form becomes a vector with the bits of its digits. -/
theorem exists_ofLiteral
    {value : Buffer}
    (form : Says text width signed radix digits)
    (inLimits : 0 < width ∧ width ≤ maxWidth)
    (reads : ofRadix width radix digits = .ok value)
    (sameWidth : value.width = width) :
    ∃ vector, ofLiteral text = .ok (vector, radix) ∧ vector.IsPlain width signed ∧
      ∀ position, position < width → vector.bit? position = some (value.bit position) := by
  have readsText : Literal.read text = .ok { radix, signed, value } := by
    rw [read_of_form form inLimits, reads]
    rfl
  obtain ⟨vector, accepts, isPlain, shows⟩ := exists_ofLiteral_of_read readsText
  subst sameWidth
  exact ⟨vector, accepts, isPlain, shows⟩

end

/-- Every text is read so. -/
theorem readsLiteral (text : List Char) : ReadsLiteral text where
  total := by
    cases reads : Literal.read text with
    | error defect => exact .inr ⟨defect, ofLiteral_of_read_error reads⟩
    | ok literal =>
        obtain ⟨vector, accepts, -⟩ := exists_ofLiteral_of_read reads
        exact .inl ⟨vector, literal.radix, accepts⟩
  accepted vector radix notQuoted accepts := by
    obtain ⟨literal, reads, accepts⟩ := bind_eq_ok_iff.1 accepts
    obtain ⟨converted, -, accepts⟩ := bind_eq_ok_iff.1 accepts
    cases accepts
    obtain ⟨width, digits, saysDigits⟩ :=
      exists_says_of_read notQuoted (liftM_literalError_eq_ok_iff.1 reads)
    exact ⟨width, literal.signed, digits, saysDigits⟩
  based width signed radix digits form inLimits areDigits := by
    obtain ⟨value, reads, sameWidth, -, gives⟩ :=
      exists_ofDigits width areDigits form.digits_ne_nil
    obtain ⟨vector, accepts, isPlain, shows⟩ := exists_ofLiteral form inLimits reads sameWidth
    refine ⟨vector, accepts, isPlain, fun position inside bit => ?_⟩
    rw [shows position inside, Option.some.injEq]
    constructor
    · rintro rfl
      exact gives position inside
    · exact (gives position inside).unique radix.bits_pos radix.bits_le
  number width signed digits value form inLimits denotes := by
    obtain ⟨vector, accepts, isPlain, shows⟩ :=
      exists_ofLiteral form inLimits (ofDecimal_of_denotes width denotes) rfl
    refine ⟨vector, accepts, isPlain, isPlain.readable.holds_of_bits ?_⟩
    rw [isPlain.width_eq]
    intro position inside
    rw [shows position inside, Buffer.bit_ofNat, if_pos inside, BitVec.ofInt_natCast,
      BitVec.getLsbD_ofNat, decide_eq_true inside, Bool.true_and]
  unknown width signed char bit form inLimits letter := by
    obtain ⟨vector, accepts, isPlain, shows⟩ :=
      exists_ofLiteral form inLimits (ofDecimal_of_unknownLetter width letter) rfl
    refine ⟨vector, accepts, isPlain, fun position inside => ?_⟩
    rw [shows position inside, Buffer.bit_ofBits, if_pos inside]
  zeroWidth size rest isSized saysWidth :=
    ofLiteral_of_read_error (read_of_size isSized saysWidth)
  tooWide size rest width isSized saysWidth tooWide := by
    apply ofLiteral_of_read_error
    rw [read_of_size isSized saysWidth, checkWidth_of_lt tooWide]
    rfl
  malformed notQuoted letThrough failure refuses := by
    cases reads : Literal.read text with
    | error error =>
        obtain ⟨defect, rfl⟩ := malformed_of_read notQuoted letThrough reads
        rw [ofLiteral_of_read_error reads] at refuses
        cases refuses
        exact ⟨defect, rfl⟩
    | ok literal =>
        obtain ⟨vector, accepts, -⟩ := exists_ofLiteral_of_read reads
        rw [accepts] at refuses
        contradiction
  stepwise fits := Guarded.ofLiteral_eq_ok fits

/-- A signed octal literal of nine bits, whose unknown first digit goes on to the eleven bits
of its width. -/
def octalText : List Char :=
  [' ', '1', '_', '1', '\x27', 's', 'O', ' ', '?', '5', '_', '7']

theorem readsLiteral_octalText :
    ∃ vector, ofLiteral octalText = .ok (vector, .digits .octal) ∧ vector.IsPlain 11 true ∧
      vector.bit? 0 = some Bit.one ∧ vector.bit? 4 = some Bit.zero ∧
      vector.bit? 6 = some Bit.z ∧ vector.bit? 10 = some Bit.z := by
  have seven : Numeral.IsDigit (2 ^ DigitRadix.octal.bits) '7' 7 := ⟨by decide, .inl rfl⟩
  have five : Numeral.IsDigit (2 ^ DigitRadix.octal.bits) '5' 5 := ⟨by decide, .inl rfl⟩
  have isSized : IsSized octalText ['1', '_', '1'] ['s', 'O', ' ', '?', '5', '_', '7'] := by
    refine ⟨?_, by decide, by decide⟩
    rintro ⟨body, quoted⟩
    have isFirst : '1' = '\x22' := (List.cons.inj quoted).1
    exact absurd isFirst (by decide)
  have saysWidth : SaysWidth ['1', '_', '1'] 11 :=
    .numeral ((Numeral.natural?_eq_some_iff (by decide) _ _).1 (by decide)) (by decide)
  have form : Says octalText 11 true (.digits .octal) ['?', '5', '7'] :=
    .sized isSized saysWidth .lower .upperO (by decide)
  obtain ⟨vector, accepts, isPlain, shows⟩ := (readsLiteral octalText).based 11 true .octal
    ['?', '5', '7'] form (by decide) (by
      intro digit isMember
      simp only [List.mem_cons, List.not_mem_nil, or_false] at isMember
      obtain rfl | rfl | rfl := isMember
      · exact .inr ⟨.z, .question⟩
      · exact .inl ⟨5, five⟩
      · exact .inl ⟨7, seven⟩)
  exact ⟨vector, accepts, isPlain,
    (shows 0 (by decide) _).2 (.digit rfl (.known seven)),
    (shows 4 (by decide) _).2 (.digit rfl (.known five)),
    (shows 6 (by decide) _).2 (.digit rfl (.unknown .question)),
    (shows 10 (by decide) _).2 (.unknown (by decide) rfl .question)⟩

end LogicVector
end FourState
