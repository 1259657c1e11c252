import FourState.LogicVector.Display
import FourState.Proofs.Extension
import FourState.Proofs.LiteralReading
import FourState.Proofs.ValueChange

/-!
# What a display text says

A display text has a width and a letter for every value bit.  Read as a literal it
gives these bits, and so do its letters alone, read as a value change: both readers
extend what is too short, but the letters are as many as the bits.  So vectors with the
same display text have the same width and the same bits.
-/

namespace FourState

namespace Bit

/-- Bits with the same letter are the same. -/
theorem toChar_injective : Function.Injective toChar := by
  intro bit other same
  rw [← Option.some.injEq, ← ofChar?_toChar bit, same, ofChar?_toChar]

theorem letter_toChar (bit : Bit) : ValueChange.Letter bit.toChar bit := by
  cases bit <;> constructor

/-- The letter of a bit is a binary digit that stands for it. -/
theorem digitGives_toChar (bit : Bit) : Literal.DigitGives 1 bit.toChar 0 bit := by
  have figure : ∀ number < 2, Numeral.IsDigit (2 ^ 1) number.digitChar number :=
    fun _ small => ⟨small, .inl rfl⟩
  cases bit with
  | zero => exact .known (figure 0 (by decide))
  | one => exact .known (figure 1 (by decide))
  | x => exact .unknown .lowerX
  | z => exact .unknown .lowerZ

theorem isBasedDigit_toChar (bit : Bit) : Literal.IsBasedDigit 1 bit.toChar := by
  cases bit.digitGives_toChar with
  | known isDigit => exact .inl ⟨_, isDigit⟩
  | unknown letter => exact .inr ⟨_, letter⟩

theorem toChar_plain (bit : Bit) : Text.isBlank bit.toChar = false ∧ bit.toChar ≠ '_' := by
  cases bit <;> decide

end Bit

namespace LogicVector

variable {vector target : LogicVector}

/-! ## The letters -/

/-- Counted from the right end, the letters are those of the bits. -/
theorem getElem?_reverse_digits (vector : LogicVector) (position : Nat) :
    vector.digits.reverse[position]? = (vector.bit? position).map Bit.toChar := by
  unfold digits bit?
  cases vector.storage.content? with
  | none => simp
  | some block =>
      rw [← List.map_reverse, List.reverse_reverse, List.getElem?_map]
      by_cases inside : position < vector.width
      · rw [List.getElem?_range inside, if_pos inside]
        rfl
      · rw [List.getElem?_eq_none (by simpa using inside), if_neg inside]
        rfl

theorem exists_bit_of_mem_digits
    {char : Char}
    (isMember : char ∈ vector.digits) :
    ∃ bit : Bit, char = bit.toChar := by
  rw [← List.mem_reverse] at isMember
  obtain ⟨position, there⟩ := List.mem_iff_getElem?.1 isMember
  rw [getElem?_reverse_digits] at there
  obtain ⟨bit, -, rfl⟩ := Option.map_eq_some_iff.1 there
  exact ⟨bit, rfl⟩

theorem Readable.digits_ne_nil (readable : vector.Readable) : vector.digits ≠ [] := by
  apply List.ne_nil_of_length_pos
  rw [vector.length_digits readable.isAllocated]
  exact readable.wellFormed.width_pos

theorem Readable.exists_bit
    (readable : vector.Readable)
    {position : Nat}
    (inside : position < vector.width) :
    ∃ bit, vector.bit? position = some bit :=
  ⟨_, bit?_eq_cell_value readable.isAllocated inside⟩

/-! ## Reading the text -/

/-- The display text of a vector is a literal of an unsigned plain vector with its bits. -/
theorem Readable.ofLiteral_display (readable : vector.Readable) :
    ∃ read, ofLiteral vector.display = .ok (read, .digits .binary) ∧
      read.IsPlain vector.width false ∧
      ∀ position, read.bit? position = vector.bit? position := by
  have inLimits : 0 < vector.width ∧ vector.width ≤ maxWidth :=
    ⟨readable.wellFormed.width_pos, readable.wellFormed.width_le⟩
  have form : Literal.Says vector.display vector.width false (.digits .binary) vector.digits := by
    refine Literal.says_of_parts inLimits.2 .none .lowerB readable.digits_ne_nil ?_
    intro char isMember
    obtain ⟨bit, rfl⟩ := exists_bit_of_mem_digits isMember
    exact bit.toChar_plain
  have areDigits : ∀ char ∈ vector.digits, Literal.IsBasedDigit DigitRadix.binary.bits char := by
    intro char isMember
    obtain ⟨bit, rfl⟩ := exists_bit_of_mem_digits isMember
    exact bit.isBasedDigit_toChar
  obtain ⟨value, reads, sameWidth, -, gives⟩ :=
    Literal.exists_ofDigits vector.width areDigits readable.digits_ne_nil
  obtain ⟨read, accepts, isPlain, shows⟩ := exists_ofLiteral form inLimits reads sameWidth
  refine ⟨read, accepts, isPlain, fun position => ?_⟩
  by_cases inside : position < vector.width
  · obtain ⟨bit, isBit⟩ := readable.exists_bit inside
    have letter : vector.digits.reverse[position / 1]? = some bit.toChar := by
      rw [Nat.div_one, getElem?_reverse_digits, isBit]
      rfl
    have givesBit : Literal.DigitsGive 1 vector.digits position bit :=
      .digit letter (Nat.mod_one position ▸ bit.digitGives_toChar)
    rw [shows position inside, isBit,
      (gives position inside).unique (by decide) (by decide) givesBit]
  · rw [bit?_of_width_le (isPlain.width_eq ▸ Nat.not_lt.1 inside),
      bit?_of_width_le (Nat.not_lt.1 inside)]

/-- The letters of a vector are a value change that gives its bits to a four-state vector
of its width. -/
theorem Readable.exists_applyChange_digits
    (readable : vector.Readable)
    (targetReadable : target.Readable)
    (fourState : target.twoState = false)
    (sameWidth : target.width = vector.width) :
    ∃ updated changed,
      target.applyChange vector.digits (vector.width - 1) 0 = .ok (updated, changed) ∧
      updated.toHeader = target.toHeader ∧
      ∀ position, updated.bit? position = vector.bit? position := by
  have positive := readable.wellFormed.width_pos
  have change : ValueChange.IsChange vector.digits := by
    refine ⟨readable.digits_ne_nil, fun char isMember => ?_⟩
    obtain ⟨bit, rfl⟩ := exists_bit_of_mem_digits isMember
    exact ValueChange.exists_letter_iff.1 ⟨bit, bit.letter_toChar⟩
  obtain ⟨updated, changed, applies, sameHeader, given, -⟩ :=
    exists_applyChange targetReadable ⟨Nat.zero_le (vector.width - 1), by omega⟩ change
  refine ⟨updated, changed, applies, sameHeader, fun position => ?_⟩
  by_cases inside : position < vector.width
  · obtain ⟨bit, isBit⟩ := readable.exists_bit inside
    obtain ⟨same, gives, shows⟩ := given position (Nat.zero_le _) (by omega)
    have letter : vector.digits.reverse[position - 0]? = some bit.toChar := by
      rw [Nat.sub_zero, getElem?_reverse_digits, isBit]
      rfl
    rw [shows, fourState, isBit, gives.unique (.letter letter bit.letter_toChar)]
    rfl
  · have updatedWidth : updated.width = vector.width := by
      rw [sameHeader, sameWidth]
    rw [bit?_of_width_le (updatedWidth ▸ Nat.not_lt.1 inside),
      bit?_of_width_le (Nat.not_lt.1 inside)]

/-! ## Equal texts -/

/-- Vectors have the same letters exactly if they have the same bits. -/
theorem digits_eq_iff (first second : LogicVector) :
    first.digits = second.digits ↔ ∀ position, first.bit? position = second.bit? position := by
  rw [← List.reverse_inj, List.ext_getElem?_iff]
  refine forall_congr' fun position => ?_
  rw [getElem?_reverse_digits, getElem?_reverse_digits, (Option.map_injective Bit.toChar_injective).eq_iff]

/-- A display text tells the width and the bits of a vector, and nothing else. -/
theorem display_eq_iff (first second : LogicVector) :
    first.display = second.display ↔
      first.width = second.width ∧
        ∀ position, first.bit? position = second.bit? position := by
  rw [← digits_eq_iff]
  constructor
  · intro same
    have noMark (width : Nat) : '\x27' ∉ Numeral.decimal width :=
      fun isMember => (Literal.decimal_plain isMember).2.2.1 rfl
    have parts := congrArg (Text.splitAt? '\x27') same
    rw [display, display, Text.splitAt?_append (noMark _), Text.splitAt?_append (noMark _),
      Option.some.injEq, Prod.mk.injEq, List.cons.injEq] at parts
    have sameWidth := congrArg (Numeral.natural? 10) parts.1
    rw [Numeral.decimal, Numeral.decimal, Numeral.natural?_toDigits (by decide) (by decide),
      Numeral.natural?_toDigits (by decide) (by decide), Option.some.injEq] at sameWidth
    exact ⟨sameWidth, parts.2.2⟩
  · rintro ⟨sameWidth, sameDigits⟩
    rw [display, display, sameWidth, sameDigits]

end LogicVector
end FourState
