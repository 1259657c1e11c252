import FourState.Proofs.Buffer
import FourState.Proofs.Digits
import FourState.Proofs.Number
import FourState.Proofs.TokenForm

/-!
# What the digits of a literal stand for

A digit of a literal is a figure or letter of its radix, or a letter for unknown bits.
The last digit gives the lowest bits, each of the others the next ones; above the first
digit an unknown one goes on and a known one is followed by zeros.  Decimal digits give
their number, cut to the width, or make all bits unknown.  All this is said without a
reader, and the readers of digits agree with it.
-/

namespace FourState
namespace Literal

/-- A letter for unknown bits. -/
inductive UnknownLetter : Char → Bit → Prop
  | lowerX : UnknownLetter 'x' .x
  | upperX : UnknownLetter 'X' .x
  | lowerZ : UnknownLetter 'z' .z
  | upperZ : UnknownLetter 'Z' .z
  | question : UnknownLetter '?' .z

/-- The bit at an offset in the bits of a digit, which are as many as the radix says. -/
inductive DigitGives (count : Nat) (digit : Char) (offset : Nat) : Bit → Prop
  | known {number : Nat} (isDigit : Numeral.IsDigit (2 ^ count) digit number) :
      DigitGives count digit offset (Bit.ofBool (number.testBit offset))
  | unknown {bit : Bit} (letter : UnknownLetter digit bit) : DigitGives count digit offset bit

/-- A digit stands for bits. -/
def IsBasedDigit (count : Nat) (digit : Char) : Prop :=
  (∃ number, Numeral.IsDigit (2 ^ count) digit number) ∨ ∃ bit, UnknownLetter digit bit

/-- The bit of digits at a position: that of the digit there, counted from the last one,
or what the first digit is extended by. -/
inductive DigitsGive (count : Nat) (digits : List Char) (position : Nat) : Bit → Prop
  | digit {char : Char} {bit : Bit} (there : digits.reverse[position / count]? = some char)
      (gives : DigitGives count char (position % count) bit) :
      DigitsGive count digits position bit
  | unknown {char : Char} {bit : Bit} (past : count * digits.length ≤ position)
      (leftmost : digits.head? = some char) (letter : UnknownLetter char bit) :
      DigitsGive count digits position bit
  | known {char : Char} {number : Nat} (past : count * digits.length ≤ position)
      (leftmost : digits.head? = some char)
      (isDigit : Numeral.IsDigit (2 ^ count) char number) :
      DigitsGive count digits position .zero

variable {char : Char} {bit : Bit} {count position width : Nat} {digits : List Char}

theorem unknownDigit?_eq_some_iff : unknownDigit? char = some bit ↔ UnknownLetter char bit := by
  constructor
  · intro reads
    unfold unknownDigit? at reads
    split at reads <;> cases reads <;> constructor
  · intro letter
    cases letter <;> rfl

theorem UnknownLetter.unique
    {other : Bit}
    (letter : UnknownLetter char bit)
    (otherLetter : UnknownLetter char other) :
    bit = other :=
  Option.some.inj ((unknownDigit?_eq_some_iff.2 letter).symm.trans
    (unknownDigit?_eq_some_iff.2 otherLetter))

/-- A figure or letter of a radix is no letter for unknown bits. -/
theorem unknownDigit?_of_isDigit
    {radix number : Nat}
    (small : radix ≤ 16)
    (isDigit : Numeral.IsDigit radix char number) :
    unknownDigit? char = none := by
  have plain : ∀ number < 16, unknownDigit? number.digitChar = none ∧
      unknownDigit? number.digitChar.toUpper = none := by decide
  obtain ⟨inRadix, rfl | rfl⟩ := isDigit
  · exact (plain number (by omega)).1
  · exact (plain number (by omega)).2

/-! ## Single digits -/

theorem two_pow_le_sixteen (small : count ≤ 4) : 2 ^ count ≤ 16 :=
  Nat.pow_le_pow_right Nat.zero_lt_two small

theorem digitBits?_of_isDigit
    {number : Nat}
    (small : count ≤ 4)
    (isDigit : Numeral.IsDigit (2 ^ count) char number) :
    digitBits? count char =
      some ((List.range count).map fun offset => Bit.ofBool (number.testBit offset)) := by
  rw [digitBits?, unknownDigit?_of_isDigit (two_pow_le_sixteen small) isDigit, modulus_eq_two_pow,
    (Numeral.digit?_eq_some_iff (two_pow_le_sixteen small) char number).2 isDigit]
  rfl

theorem digitBits?_of_unknownLetter (letter : UnknownLetter char bit) :
    digitBits? count char = some (List.replicate count bit) := by
  rw [digitBits?, unknownDigit?_eq_some_iff.2 letter]

/-- A digit is read as the bits that it stands for. -/
theorem IsBasedDigit.exists_digitBits?
    (small : count ≤ 4)
    (isDigit : IsBasedDigit count char) :
    ∃ bits, digitBits? count char = some bits ∧ bits.length = count ∧
      ∀ offset, offset < count → ∃ bit, bits[offset]? = some bit ∧
        DigitGives count char offset bit := by
  obtain ⟨number, isDigit⟩ | ⟨bit, letter⟩ := isDigit
  · refine ⟨_, digitBits?_of_isDigit small isDigit, by simp, ?_⟩
    intro offset inDigit
    refine ⟨_, ?_, .known isDigit⟩
    rw [List.getElem?_map, List.getElem?_range inDigit]
    rfl
  · refine ⟨_, digitBits?_of_unknownLetter letter, List.length_replicate, ?_⟩
    intro offset inDigit
    exact ⟨bit, List.getElem?_replicate_of_lt inDigit, .unknown letter⟩

/-- No other character is read. -/
theorem digitBits?_eq_none
    (small : count ≤ 4)
    (notDigit : ¬IsBasedDigit count char) :
    digitBits? count char = none := by
  rw [digitBits?]
  cases unknown : unknownDigit? char with
  | some bit => exact absurd (.inr ⟨bit, unknownDigit?_eq_some_iff.1 unknown⟩) notDigit
  | none =>
      rw [modulus_eq_two_pow]
      cases reads : Numeral.digit? (2 ^ count) char with
      | none => rfl
      | some number =>
          exact absurd (.inl ⟨number,
            (Numeral.digit?_eq_some_iff (two_pow_le_sixteen small) char number).1 reads⟩) notDigit

theorem UnknownLetter.not_isDigit
    {number : Nat}
    (small : count ≤ 4)
    (letter : UnknownLetter char bit)
    (isDigit : Numeral.IsDigit (2 ^ count) char number) :
    False := by
  have isNone := unknownDigit?_of_isDigit (two_pow_le_sixteen small) isDigit
  rw [unknownDigit?_eq_some_iff.2 letter] at isNone
  contradiction

/-- A digit gives one bit at an offset. -/
theorem DigitGives.unique
    {offset : Nat}
    {other : Bit}
    (small : count ≤ 4)
    (gives : DigitGives count char offset bit)
    (givesOther : DigitGives count char offset other) :
    bit = other := by
  cases gives with
  | known isDigit =>
      cases givesOther with
      | known isOther =>
          rw [← Numeral.digit?_eq_some_iff (two_pow_le_sixteen small)] at isDigit isOther
          cases isDigit.symm.trans isOther
          rfl
      | unknown letter => exact (letter.not_isDigit small isDigit).elim
  | unknown letter =>
      cases givesOther with
      | known isOther => exact (letter.not_isDigit small isOther).elim
      | unknown otherLetter => exact letter.unique otherLetter

/-! ## Digits of a fixed number of bits -/

/-- Digits give one bit at a position. -/
theorem DigitsGive.unique
    {other : Bit}
    (positive : 0 < count)
    (small : count ≤ 4)
    (gives : DigitsGive count digits position bit)
    (givesOther : DigitsGive count digits position other) :
    bit = other := by
  -- A position past the digits has no digit there.
  have noDigit {char : Char} (there : digits.reverse[position / count]? = some char)
      (past : count * digits.length ≤ position) : False := by
    have inside := (List.getElem?_eq_some_iff.1 there).1
    rw [List.length_reverse, Nat.div_lt_iff_lt_mul positive, Nat.mul_comm] at inside
    exact Nat.not_lt.2 past inside
  cases gives with
  | digit there gives =>
      cases givesOther with
      | digit otherThere givesOther =>
          cases there.symm.trans otherThere
          exact gives.unique small givesOther
      | unknown past leftmost letter => exact (noDigit there past).elim
      | known past leftmost isDigit => exact (noDigit there past).elim
  | unknown past leftmost letter =>
      cases givesOther with
      | digit there givesOther => exact (noDigit there past).elim
      | unknown _ otherLeftmost otherLetter =>
          cases leftmost.symm.trans otherLeftmost
          exact letter.unique otherLetter
      | known _ otherLeftmost isDigit =>
          cases leftmost.symm.trans otherLeftmost
          exact (letter.not_isDigit small isDigit).elim
  | known past leftmost isDigit =>
      cases givesOther with
      | digit there givesOther => exact (noDigit there past).elim
      | unknown _ otherLeftmost letter =>
          cases leftmost.symm.trans otherLeftmost
          exact (letter.not_isDigit small isDigit).elim
      | known _ otherLeftmost otherDigit => rfl

/-- Above the digits is what the first one is extended by. -/
theorem digitsGive_extension
    (isDigit : ∀ digit ∈ digits, IsBasedDigit count digit)
    (small : count ≤ 4)
    (notEmpty : digits ≠ [])
    (past : count * digits.length ≤ position) :
    DigitsGive count digits position (extension digits) := by
  cases digits with
  | nil => contradiction
  | cons first rest =>
      rw [extension, List.head?_cons, Option.bind_some]
      obtain ⟨number, isNumber⟩ | ⟨bit, letter⟩ := isDigit first (List.mem_cons_self ..)
      · rw [unknownDigit?_of_isDigit (two_pow_le_sixteen small) isNumber]
        exact .known past rfl isNumber
      · rw [unknownDigit?_eq_some_iff.2 letter]
        exact .unknown past rfl letter

/-- Digits are read as the bits that they stand for, cut to the width. -/
theorem exists_ofDigits
    {radix : DigitRadix}
    (width : Nat)
    (isDigit : ∀ digit ∈ digits, IsBasedDigit radix.bits digit)
    (notEmpty : digits ≠ []) :
    ∃ value, ofDigits width radix digits = .ok value ∧ value.width = width ∧ value.Canonical ∧
      ∀ position, position < width →
        DigitsGive radix.bits digits position (value.bit position) := by
  have readsBack (digit : Char) (isMember : digit ∈ digits) :=
    (isDigit digit isMember).exists_digitBits? radix.bits_le
  have good : ∀ digit ∈ digits, ∃ bits, digitBits? radix.bits digit = some bits := by
    intro digit isMember
    obtain ⟨bits, reads, -⟩ := readsBack digit isMember
    exact ⟨bits, reads⟩
  have sameLength : ∀ list ∈ digits.reverse.map (goodBits radix.bits),
      list.length = radix.bits := by
    intro list isMember
    obtain ⟨digit, inDigits, rfl⟩ := List.mem_map.1 isMember
    obtain ⟨bits, reads, isLength, -⟩ := readsBack digit (List.mem_reverse.1 inDigits)
    rw [goodBits, reads]
    exact isLength
  refine ⟨_, ofDigits_eq width good, Buffer.width_ofBits _ _, Buffer.canonical_ofBits _ _, ?_⟩
  intro position inside
  rw [Buffer.bit_ofBits, if_pos inside, getElem?_flatten_of_length _ sameLength radix.bits_pos,
    List.getElem?_map]
  by_cases there : position / radix.bits < digits.length
  · have inReversed : position / radix.bits < digits.reverse.length := by rwa [List.length_reverse]
    have isMember := List.mem_reverse.1 (List.getElem_mem inReversed)
    obtain ⟨bits, reads, -, gives⟩ := readsBack _ isMember
    obtain ⟨bit, shown, givesBit⟩ := gives _ (Nat.mod_lt position radix.bits_pos)
    rw [List.getElem?_eq_getElem inReversed, Option.map_some, Option.bind_some, goodBits, reads,
      Option.getD_some, shown]
    exact .digit (List.getElem?_eq_getElem inReversed) givesBit
  · have past : radix.bits * digits.length ≤ position := by
      rw [Nat.mul_comm]
      exact (Nat.le_div_iff_mul_le radix.bits_pos).1 (Nat.not_lt.1 there)
    rw [List.getElem?_eq_none (by simpa using there)]
    exact digitsGive_extension isDigit radix.bits_le notEmpty past

/-- Reading digit by digit stops at one that stands for no bits. -/
theorem exists_mapM_readDigit_error
    (all : List Char)
    (bad : ∃ digit ∈ digits, digitBits? count digit = none) :
    ∃ defect, digits.mapM (readDigit count all) = .error (.malformed defect) := by
  induction digits with
  | nil => simp at bad
  | cons first rest inductionHypothesis =>
      rw [List.mapM_cons, readDigit]
      cases reads : digitBits? count first with
      | none => exact ⟨_, rfl⟩
      | some bits =>
          obtain ⟨digit, isMember, isBad⟩ := bad
          obtain rfl | inRest := List.mem_cons.1 isMember
          · rw [reads] at isBad
            contradiction
          · obtain ⟨defect, fails⟩ := inductionHypothesis ⟨digit, inRest, isBad⟩
            rw [fails]
            exact ⟨defect, rfl⟩

/-- Digits of which one stands for no bits are malformed. -/
theorem exists_ofDigits_error
    {radix : DigitRadix}
    (width : Nat)
    (notDigits : ¬∀ digit ∈ digits, IsBasedDigit radix.bits digit) :
    ∃ defect, ofDigits width radix digits = .error (.malformed defect) := by
  obtain ⟨digit, isMember, notDigit⟩ :
      ∃ digit ∈ digits, ¬IsBasedDigit radix.bits digit := by
    simpa using notDigits
  obtain ⟨defect, fails⟩ := exists_mapM_readDigit_error digits
    ⟨digit, List.mem_reverse.2 isMember, digitBits?_eq_none radix.bits_le notDigit⟩
  refine ⟨defect, ?_⟩
  rw [ofDigits, digitsBits, fails]
  rfl

/-! ## Decimal digits -/

/-- A numeral is read as its number, cut to the width. -/
theorem ofDecimal_of_denotes
    {value : Nat}
    (width : Nat)
    (denotes : Numeral.Denotes 10 digits value) :
    ofDecimal width digits = .ok (Buffer.ofNat width value) := by
  have reads := (Numeral.natural?_eq_some_iff (by decide) digits value).2 denotes
  have isNumeral : ofDecimal.ofNumeral width digits = .ok (Buffer.ofNat width value) := by
    rw [ofDecimal.ofNumeral, reads]
    rfl
  unfold ofDecimal
  split
  · rename_i digit
    split
    · rename_i bit unknown
      cases unknownDigit?_eq_some_iff.1 unknown <;> contradiction
    · exact isNumeral
  · exact isNumeral

/-- A single letter for unknown bits makes all bits unknown. -/
theorem ofDecimal_of_unknownLetter
    (width : Nat)
    (letter : UnknownLetter char bit) :
    ofDecimal width [char] = .ok (Buffer.ofBits width fun _ => bit) := by
  rw [ofDecimal, unknownDigit?_eq_some_iff.2 letter]
  rfl

/-- Anything else is malformed. -/
theorem exists_ofDecimal_error
    (width : Nat)
    (noNumeral : ¬∃ value, Numeral.Denotes 10 digits value)
    (noLetter : ¬∃ char bit, digits = [char] ∧ UnknownLetter char bit) :
    ∃ defect, ofDecimal width digits = .error (.malformed defect) := by
  have notNumeral :
      ∃ defect, ofDecimal.ofNumeral width digits = .error (.malformed defect) := by
    rw [ofDecimal.ofNumeral]
    cases reads : Numeral.natural? 10 digits with
    | none => exact ⟨_, rfl⟩
    | some value =>
        exact absurd ⟨value, (Numeral.natural?_eq_some_iff (by decide) digits value).1 reads⟩
          noNumeral
  unfold ofDecimal
  split
  · rename_i digit
    split
    · rename_i bit unknown
      exact absurd ⟨digit, bit, rfl, unknownDigit?_eq_some_iff.1 unknown⟩ noLetter
    · exact notNumeral
  · exact notNumeral

end Literal
end FourState
