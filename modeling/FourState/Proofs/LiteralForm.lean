import FourState.Proofs.Known
import FourState.Proofs.LiteralDigits

/-!
# The form of a literal

A literal without quotation marks is a plain decimal number, or has a size, a sign mark, a
radix letter and digits around its first apostrophe.  The form of a text is said here
without a reader.  Reading looks at the size first: a size that is no width is the error,
whatever follows.  A text of the form is read as its digits are, and any other text is
malformed.
-/

namespace FourState

namespace Literal

/-- Without the blanks around it, the text is in quotation marks. -/
def IsQuoted (text : List Char) : Prop :=
  ∃ body, Text.trim text = '\x22' :: (body ++ ['\x22'])

/-- The text is not quoted, and has a size and a rest around its first apostrophe. -/
structure IsSized (text size rest : List Char) : Prop where
  notQuoted : ¬IsQuoted text
  parts : Text.trim text = size ++ '\x27' :: rest
  isFirst : '\x27' ∉ size

/-- The width that a size says, by a numeral that is a machine integer, or by none. -/
inductive SaysWidth (size : List Char) : Nat → Prop
  | missing (isEmpty : dropUnderscores (Text.trim size) = []) : SaysWidth size 32
  | numeral {width : Nat}
      (denotes : Numeral.Denotes 10 (dropUnderscores (Text.trim size)) width)
      (inMachine : width < 2 ^ 64) : SaysWidth size width

/-- A sign mark, or none, and the signedness that it says. -/
inductive SignMark : List Char → Bool → Prop
  | none : SignMark [] false
  | lower : SignMark ['s'] true
  | upper : SignMark ['S'] true

/-- A letter for a radix. -/
inductive RadixLetter : Char → Radix → Prop
  | lowerB : RadixLetter 'b' (.digits .binary)
  | upperB : RadixLetter 'B' (.digits .binary)
  | lowerO : RadixLetter 'o' (.digits .octal)
  | upperO : RadixLetter 'O' (.digits .octal)
  | lowerH : RadixLetter 'h' (.digits .hexadecimal)
  | upperH : RadixLetter 'H' (.digits .hexadecimal)
  | lowerD : RadixLetter 'd' .decimal
  | upperD : RadixLetter 'D' .decimal

/-- The text, which is not quoted, says a width, a signedness, a radix and digits. -/
inductive Says (text : List Char) : Nat → Bool → Radix → List Char → Prop
  | sized {size mark body : List Char} {letter : Char} {width : Nat} {signed : Bool}
      {radix : Radix}
      (isSized : IsSized text size (mark ++ letter :: body))
      (saysWidth : SaysWidth size width)
      (signMark : SignMark mark signed)
      (radixLetter : RadixLetter letter radix)
      (notEmpty : dropUnderscores (Text.trim body) ≠ []) :
      Says text width signed radix (dropUnderscores (Text.trim body))
  | plain
      (notQuoted : ¬IsQuoted text)
      (noSize : '\x27' ∉ Text.trim text)
      (notEmpty : dropUnderscores (Text.trim text) ≠ []) :
      Says text 32 true .decimal (dropUnderscores (Text.trim text))

/-- The value of the digits of a literal. -/
def ofRadix (width : Nat) (radix : Radix) (digits : List Char) : Except LiteralError Buffer :=
  match radix with
  | .digits radix => ofDigits width radix digits
  | _ => ofDecimal width digits

variable {text size rest digits : List Char} {width : Nat} {signed : Bool} {radix : Radix}

/-! ## Quotation marks and the size -/

theorem quotedBody?_eq_some_iff {body : List Char} :
    quotedBody? text = some body ↔ text = '\x22' :: (body ++ ['\x22']) := by
  constructor
  · intro quoted
    unfold quotedBody? at quoted
    split at quoted
    · rename_i rest
      split at quoted
      · rename_i isLast
        cases quoted
        rw [List.dropLast_append_getLast? _ isLast]
      · contradiction
    · contradiction
  · rintro rfl
    simp [quotedBody?]

theorem quotedBody?_eq_none_iff : quotedBody? (Text.trim text) = none ↔ ¬IsQuoted text := by
  rw [Option.eq_none_iff_forall_ne_some, IsQuoted, not_exists]
  simp only [ne_eq, quotedBody?_eq_some_iff]

theorem readSize_of_saysWidth
    (whole : List Char)
    (saysWidth : SaysWidth size width) :
    readSize whole size = .ok width := by
  cases saysWidth with
  | missing isEmpty =>
      rw [readSize, isEmpty]
      rfl
  | numeral denotes inMachine =>
      rw [← modulus_eq_two_pow] at inMachine
      have reads := (Numeral.below?_eq_some_iff (by decide) _ _ _).2 ⟨denotes, inMachine⟩
      rw [readSize]
      cases digits : dropUnderscores (Text.trim size) with
      | nil =>
          rw [digits] at reads
          contradiction
      | cons first rest =>
          rw [digits] at reads
          simp only [reads]
          rfl

/-- A size that says no width is malformed. -/
theorem exists_readSize_error
    (whole : List Char)
    (saysNone : ¬∃ width, SaysWidth size width) :
    ∃ defect, readSize whole size = .error (.malformed defect) := by
  rw [readSize]
  cases digits : dropUnderscores (Text.trim size) with
  | nil => exact absurd ⟨32, .missing digits⟩ saysNone
  | cons first rest =>
      cases reads : Numeral.below? 10 (modulus 64) (first :: rest) with
      | none =>
          simp only [reads]
          exact ⟨_, rfl⟩
      | some width =>
          rw [Numeral.below?_eq_some_iff (by decide), modulus_eq_two_pow, ← digits] at reads
          exact absurd ⟨width, .numeral reads.1 reads.2⟩ saysNone

/-- Only widths that a vector can have are let through. -/
theorem checkWidth_eq_ok_iff : checkWidth width = .ok () ↔ 0 < width ∧ width ≤ maxWidth := by
  constructor
  · intro lets
    obtain ⟨⟨⟩, notZero, inLimits⟩ := bind_eq_ok_iff.1 lets
    exact ⟨Nat.pos_of_ne_zero (require_eq_ok_iff.1 notZero), require_eq_ok_iff.1 inLimits⟩
  · rintro ⟨positive, inLimits⟩
    rw [checkWidth, require_bind_of_true (Nat.ne_of_gt positive)]
    exact require_eq_ok_iff.2 inLimits

theorem checkWidth_of_lt (tooWide : maxWidth < width) :
    checkWidth width = .error (.tooWide width) := by
  rw [checkWidth, require_bind_of_true (Nat.ne_of_gt (Nat.zero_lt_of_lt tooWide))]
  exact if_neg (Nat.not_le.2 tooWide)

/-! ## Behind the size -/

theorem ofLetter?_eq_some_iff {letter : Char} :
    Radix.ofLetter? letter = some radix ↔ RadixLetter letter radix := by
  constructor
  · intro reads
    unfold Radix.ofLetter? at reads
    split at reads <;> cases reads <;> constructor
  · intro radixLetter
    cases radixLetter <;> rfl

/-- The sign mark is split off. -/
theorem exists_signMark (rest : List Char) :
    ∃ mark, rest = mark ++ (splitSign rest).2 ∧ SignMark mark (splitSign rest).1 := by
  unfold splitSign
  split
  · exact ⟨['s'], rfl, .lower⟩
  · exact ⟨['S'], rfl, .upper⟩
  · exact ⟨[], rfl, .none⟩

theorem readDigits_of_ne_nil
    (whole : List Char)
    (width : Nat)
    (radix : Radix)
    {body : List Char}
    (notEmpty : dropUnderscores (Text.trim body) ≠ []) :
    readDigits whole width radix body = ofRadix width radix (dropUnderscores (Text.trim body)) := by
  rw [readDigits]
  cases digits : dropUnderscores (Text.trim body) with
  | nil => contradiction
  | cons first rest => cases radix <;> rfl

/-- What stands behind the size, and its value. -/
def ofRest (whole : List Char) (width : Nat) (rest : List Char) : Except LiteralError Literal := do
  let (signed, rest) := splitSign rest
  let (radix, body) ← readRadix whole rest
  let value ← readDigits whole width radix body
  return { radix, signed, value }

theorem ofRest_of_parts
    (whole : List Char)
    (width : Nat)
    {mark body : List Char}
    {letter : Char}
    (signMark : SignMark mark signed)
    (radixLetter : RadixLetter letter radix)
    (notEmpty : dropUnderscores (Text.trim body) ≠ []) :
    ofRest whole width (mark ++ letter :: body) =
      (ofRadix width radix (dropUnderscores (Text.trim body))).map fun value =>
        { radix, signed, value } := by
  have splits : splitSign (mark ++ letter :: body) = (signed, letter :: body) := by
    cases signMark with
    | none => cases radixLetter <;> rfl
    | lower | upper => rfl
  have takes : readRadix whole (letter :: body) = .ok (radix, body) := by
    rw [readRadix, ofLetter?_eq_some_iff.2 radixLetter]
    rfl
  rw [ofRest, splits]
  change (readRadix whole (letter :: body) >>= _) = _
  rw [takes]
  change (readDigits whole width radix body >>= _) = _
  rw [readDigits_of_ne_nil whole width radix notEmpty]
  cases ofRadix width radix (dropUnderscores (Text.trim body)) <;> rfl

/-- Anything else behind the size is malformed. -/
theorem exists_ofRest_error
    (whole : List Char)
    (width : Nat)
    (noParts : ¬∃ mark letter body signed radix, rest = mark ++ letter :: body ∧
      SignMark mark signed ∧ RadixLetter letter radix ∧ dropUnderscores (Text.trim body) ≠ []) :
    ∃ defect, ofRest whole width rest = .error (.malformed defect) := by
  obtain ⟨mark, isRest, signMark⟩ := exists_signMark rest
  rw [ofRest]
  generalize splitSign rest = halves at isRest signMark
  obtain ⟨signed, others⟩ := halves
  dsimp only at isRest signMark ⊢
  cases others with
  | nil => exact ⟨_, rfl⟩
  | cons letter body =>
      rw [readRadix]
      cases reads : Radix.ofLetter? letter with
      | none => exact ⟨_, rfl⟩
      | some radix =>
          have isEmpty : dropUnderscores (Text.trim body) = [] := by
            by_contra notEmpty
            exact noParts ⟨mark, letter, body, signed, radix, isRest, signMark,
              ofLetter?_eq_some_iff.1 reads, notEmpty⟩
          change ∃ defect, (readDigits whole width radix body >>= _) = _
          rw [readDigits, isEmpty]
          exact ⟨_, rfl⟩

/-! ## The whole text -/

/-- A text with a size is read from the left to the right. -/
theorem read_of_isSized (isSized : IsSized text size rest) :
    read text = (readSize (Text.trim text) size >>= fun width =>
      checkWidth width >>= fun _ => ofRest (Text.trim text) width rest) := by
  rw [read, quotedBody?_eq_none_iff.2 isSized.notQuoted]
  dsimp only
  rw [readNumber, Text.splitAt?_eq_some_iff.2 ⟨isSized.parts, isSized.isFirst⟩]
  rfl

/-- The width is checked before what stands behind it is read. -/
theorem read_of_size
    (isSized : IsSized text size rest)
    (saysWidth : SaysWidth size width) :
    read text = (checkWidth width >>= fun _ => ofRest (Text.trim text) width rest) := by
  rw [read_of_isSized isSized, readSize_of_saysWidth _ saysWidth]
  rfl

/-- A text without a size is read as a decimal number. -/
theorem read_of_noSize
    (notQuoted : ¬IsQuoted text)
    (noSize : '\x27' ∉ Text.trim text) :
    read text = (readDigits (Text.trim text) 32 .decimal (Text.trim text) >>= fun value =>
      return { radix := .decimal, signed := true, value }) := by
  rw [read, quotedBody?_eq_none_iff.2 notQuoted]
  dsimp only
  rw [readNumber, Text.splitAt?_eq_none_iff.2 noSize]

/-- A text of the form is read as its digits are, if its width is one. -/
theorem read_of_form
    (form : Says text width signed radix digits)
    (inLimits : 0 < width ∧ width ≤ maxWidth) :
    read text = (ofRadix width radix digits).map fun value => { radix, signed, value } := by
  cases form with
  | sized isSized saysWidth signMark radixLetter notEmpty =>
      rw [read_of_size isSized saysWidth, checkWidth_eq_ok_iff.2 inLimits]
      exact ofRest_of_parts _ _ signMark radixLetter notEmpty
  | plain notQuoted noSize notEmpty =>
      rw [← Text.trim_trim] at notEmpty
      rw [read_of_noSize notQuoted noSize, readDigits_of_ne_nil _ _ _ notEmpty, Text.trim_trim]
      cases ofRadix 32 .decimal (dropUnderscores (Text.trim text)) <;> rfl

/-- A text with a size that says a width has the form, if the width is let through, or is
malformed behind it. -/
theorem read_sized_cases
    (isSized : IsSized text size rest)
    (saysWidth : SaysWidth size width)
    (inLimits : 0 < width ∧ width ≤ maxWidth) :
    (∃ signed radix digits, Says text width signed radix digits) ∨
      ∃ defect, read text = .error (.malformed defect) := by
  by_cases parts : ∃ mark letter body signed radix, rest = mark ++ letter :: body ∧
    SignMark mark signed ∧ RadixLetter letter radix ∧ dropUnderscores (Text.trim body) ≠ []
  · obtain ⟨mark, letter, body, signed, radix, rfl, signMark, radixLetter, notEmpty⟩ := parts
    exact .inl ⟨signed, radix, _, .sized isSized saysWidth signMark radixLetter notEmpty⟩
  · obtain ⟨defect, fails⟩ := exists_ofRest_error (Text.trim text) width parts
    refine .inr ⟨defect, ?_⟩
    rw [read_of_size isSized saysWidth, checkWidth_eq_ok_iff.2 inLimits]
    exact fails

/-- A text that is not quoted has the form and a width that is let through, or a width that
is refused, or is malformed. -/
theorem read_cases (notQuoted : ¬IsQuoted text) :
    (∃ width signed radix digits, Says text width signed radix digits ∧
      0 < width ∧ width ≤ maxWidth) ∨
    (∃ size rest width, IsSized text size rest ∧ SaysWidth size width ∧
      ¬(0 < width ∧ width ≤ maxWidth)) ∨
    ∃ defect, read text = .error (.malformed defect) := by
  by_cases hasSize : '\x27' ∈ Text.trim text
  · obtain ⟨size, rest, parts, isFirst⟩ := List.eq_append_cons_of_mem hasSize
    have isSized : IsSized text size rest := ⟨notQuoted, parts, isFirst⟩
    by_cases saysWidth : ∃ width, SaysWidth size width
    · obtain ⟨width, saysWidth⟩ := saysWidth
      by_cases inLimits : 0 < width ∧ width ≤ maxWidth
      · obtain ⟨signed, radix, digits, form⟩ | malformed :=
          read_sized_cases isSized saysWidth inLimits
        · exact .inl ⟨width, signed, radix, digits, form, inLimits⟩
        · exact .inr (.inr malformed)
      · exact .inr (.inl ⟨size, rest, width, isSized, saysWidth, inLimits⟩)
    · obtain ⟨defect, fails⟩ := exists_readSize_error (Text.trim text) saysWidth
      refine .inr (.inr ⟨defect, ?_⟩)
      rw [read_of_isSized isSized, fails]
      rfl
  · by_cases isEmpty : dropUnderscores (Text.trim text) = []
    · refine .inr (.inr ⟨.noDigits (String.ofList (Text.trim text)), ?_⟩)
      rw [read_of_noSize notQuoted hasSize, readDigits, Text.trim_trim, isEmpty]
      rfl
    · exact .inl ⟨32, true, .decimal, _, .plain notQuoted hasSize isEmpty, by decide, by decide⟩

/-! ## Written texts -/

theorem dropUnderscores_of_absent (absent : '_' ∉ text) : dropUnderscores text = text := by
  apply List.filter_eq_self.2
  intro char isMember
  rw [bne_iff_ne]
  rintro rfl
  exact absent isMember

/-- Nothing is dropped from a text without blanks and underscores. -/
theorem dropUnderscores_trim_of_plain
    (plain : ∀ char ∈ text, Text.isBlank char = false ∧ char ≠ '_') :
    dropUnderscores (Text.trim text) = text := by
  rw [Text.trim_of_not_blank fun char isMember => (plain char isMember).1]
  exact dropUnderscores_of_absent fun isMember => (plain _ isMember).2 rfl

/-- A decimal digit is no blank, underscore, apostrophe or quotation mark. -/
theorem digitChar_plain {digit : Nat} (small : digit < 10) :
    Text.isBlank digit.digitChar = false ∧ digit.digitChar ≠ '_' ∧
      digit.digitChar ≠ '\x27' ∧ digit.digitChar ≠ '\x22' := by
  revert digit
  decide

theorem decimal_plain
    {char : Char}
    (isMember : char ∈ Numeral.decimal width) :
    Text.isBlank char = false ∧ char ≠ '_' ∧ char ≠ '\x27' ∧ char ≠ '\x22' := by
  obtain ⟨digit, small, rfl⟩ := Numeral.exists_digit_of_mem (by decide) isMember
  exact digitChar_plain small

/-- A width, a sign mark, a radix letter and digits make a text that says them. -/
theorem says_of_parts
    {mark : List Char}
    {letter : Char}
    (inLimits : width ≤ maxWidth)
    (signMark : SignMark mark signed)
    (radixLetter : RadixLetter letter radix)
    (notEmpty : digits ≠ [])
    (plain : ∀ char ∈ digits, Text.isBlank char = false ∧ char ≠ '_') :
    Says (Numeral.decimal width ++ '\x27' :: (mark ++ letter :: digits)) width signed radix
      digits := by
  have notBlank : ∀ char ∈ Numeral.decimal width ++ '\x27' :: (mark ++ letter :: digits),
      Text.isBlank char = false := by
    intro char isMember
    rw [List.mem_append, List.mem_cons, List.mem_append, List.mem_cons] at isMember
    obtain inSize | rfl | inMark | rfl | inDigits := isMember
    · exact (decimal_plain inSize).1
    · decide
    · cases signMark with
      | none => contradiction
      | lower | upper =>
          cases List.mem_singleton.1 inMark
          decide
    · cases radixLetter <;> decide
    · exact (plain char inDigits).1
  have trimmed := Text.trim_of_not_blank notBlank
  have isSized : IsSized (Numeral.decimal width ++ '\x27' :: (mark ++ letter :: digits))
      (Numeral.decimal width) (mark ++ letter :: digits) := by
    refine ⟨?_, trimmed, fun isMember => (decimal_plain isMember).2.2.1 rfl⟩
    rintro ⟨body, quoted⟩
    rw [trimmed] at quoted
    cases size : Numeral.decimal width with
    | nil => exact absurd size Nat.toDigits_ne_nil
    | cons first rest =>
        have isMember : first ∈ Numeral.decimal width := by simp [size]
        rw [size] at quoted
        exact (decimal_plain isMember).2.2.2 (List.cons.inj quoted).1
  have saysWidth : SaysWidth (Numeral.decimal width) width := by
    refine .numeral ?_ (Nat.lt_of_le_of_lt inLimits (by decide))
    rw [dropUnderscores_trim_of_plain fun char isMember =>
      ⟨(decimal_plain isMember).1, (decimal_plain isMember).2.1⟩]
    exact Numeral.denotes_toDigits (by decide) (by decide) width
  have cleaned := dropUnderscores_trim_of_plain plain
  have form := Says.sized isSized saysWidth signMark radixLetter (cleaned.symm ▸ notEmpty)
  rwa [cleaned] at form

/-! ## Accepted texts -/

/-- Digits that are read give a value of the width. -/
theorem canonical_of_readDigits
    {whole body : List Char}
    {value : Buffer}
    (reads : readDigits whole width radix body = .ok value) :
    value.Canonical ∧ value.width = width := by
  have ofNumeral {digits : List Char} (reads : ofDecimal.ofNumeral width digits = .ok value) :
      value.Canonical ∧ value.width = width := by
    unfold ofDecimal.ofNumeral at reads
    split at reads
    · cases reads
      exact ⟨Buffer.canonical_ofNat _ _, rfl⟩
    · contradiction
  have decimal {digits : List Char} (reads : ofDecimal width digits = .ok value) :
      value.Canonical ∧ value.width = width := by
    unfold ofDecimal at reads
    split at reads
    · split at reads
      · cases reads
        exact ⟨Buffer.canonical_ofBits _ _, rfl⟩
      · exact ofNumeral reads
    · exact ofNumeral reads
  unfold readDigits at reads
  split at reads
  · contradiction
  · cases radix with
    | digits radix =>
        obtain ⟨bits, -, gives⟩ := bind_eq_ok_iff.1 reads
        cases gives
        exact ⟨Buffer.canonical_ofBits _ _, rfl⟩
    | decimal | quoted => exact decimal reads

/-- The value of an accepted text has a width that a vector can have. -/
theorem inLimits_of_read
    {literal : Literal}
    (reads : read text = .ok literal) :
    literal.value.Canonical ∧ 0 < literal.value.width ∧ literal.value.width ≤ maxWidth := by
  unfold read at reads
  dsimp only at reads
  split at reads
  · obtain ⟨⟨⟩, lets, gives⟩ := bind_eq_ok_iff.1 reads
    cases gives
    exact ⟨Buffer.canonical_ofNat _ _, checkWidth_eq_ok_iff.1 lets⟩
  · unfold readNumber at reads
    split at reads
    · obtain ⟨width, -, reads⟩ := bind_eq_ok_iff.1 reads
      obtain ⟨⟨⟩, lets, reads⟩ := bind_eq_ok_iff.1 reads
      obtain ⟨⟨radix, body⟩, -, reads⟩ := bind_eq_ok_iff.1 reads
      obtain ⟨value, readsDigits, gives⟩ := bind_eq_ok_iff.1 reads
      cases gives
      obtain ⟨canonical, isWidth⟩ := canonical_of_readDigits readsDigits
      exact ⟨canonical, isWidth ▸ checkWidth_eq_ok_iff.1 lets⟩
    · obtain ⟨value, readsDigits, gives⟩ := bind_eq_ok_iff.1 reads
      cases gives
      obtain ⟨canonical, isWidth⟩ := canonical_of_readDigits readsDigits
      refine ⟨canonical, ?_⟩
      rw [isWidth]
      decide

end Literal

/-! ## Vectors of literals -/

namespace LogicVector

/-- A vector of any width and kind can be made. -/
theorem exists_create
    {width : Nat}
    (inLimits : 0 < width ∧ width ≤ maxWidth)
    (kind : Kind) :
    ∃ vector, create width kind true = .ok vector ∧ vector.toHeader =
      { width, kind, format := .bits32, signed := false, twoState := false } := by
  unfold create
  rw [require_bind_of_true inLimits.1, require_bind_of_true inLimits.2]
  exact ⟨_, rfl, rfl⟩

/-- A vector that shows a bit has words. -/
theorem isAllocated_of_bit?
    {vector : LogicVector}
    {position : Nat}
    {bit : Bit}
    (shows : vector.bit? position = some bit) :
    vector.storage.isAllocated = true := by
  unfold bit? at shows
  split at shows
  · obtain ⟨block, stored, -⟩ := Option.map_eq_some_iff.1 shows
    exact isAllocated_of_block ((block_eq_ok_iff _ _).2 stored)
  · contradiction

/-- A plain vector of a width and a signedness that keeps unknown bits and can be read. -/
structure IsPlain (vector : LogicVector) (width : Nat) (signed : Bool) : Prop where
  readable : vector.Readable
  header_eq : vector.toHeader =
    { width, kind := .plain, format := .bits32, signed, twoState := false }

theorem IsPlain.width_eq
    {vector : LogicVector}
    {width : Nat}
    {signed : Bool}
    (isPlain : vector.IsPlain width signed) :
    vector.width = width :=
  congrArg Header.width isPlain.header_eq

end LogicVector

namespace Literal

/-- The vector of a literal is plain, and has the width, the signedness and the bits of the
literal. -/
theorem exists_plainVector
    (literal : Literal)
    (inLimits : 0 < literal.value.width ∧ literal.value.width ≤ maxWidth)
    (canonical : literal.value.Canonical) :
    ∃ vector, literal.toVector = .ok vector ∧
      vector.IsPlain literal.value.width literal.signed ∧
      ∀ position, position < literal.value.width →
        vector.bit? position = some (literal.value.bit position) := by
  obtain ⟨fresh, creates, freshHeader⟩ := LogicVector.exists_create inLimits .plain
  have created := LogicVector.create_readable creates
  have readable : (fresh.setSigned literal.signed).Readable :=
    ⟨created.isAllocated, created.wellFormed.congr rfl rfl rfl⟩
  have sameHeader : (fresh.setSigned literal.signed).toHeader = {
      width := literal.value.width
      kind := .plain
      format := .bits32
      signed := literal.signed
      twoState := false } := by
    rw [LogicVector.setSigned, freshHeader]
  obtain ⟨vector, changed, commits, keepsHeader, shows⟩ :=
    LogicVector.commit_whole readable (congrArg Header.twoState sameHeader) canonical
  have converts : literal.toVector = .ok vector :=
    bind_eq_ok_iff.2 ⟨fresh, creates, bind_eq_ok_iff.2 ⟨(vector, changed), commits, rfl⟩⟩
  have sameWidth := congrArg Header.width sameHeader
  have shownBits : ∀ position, position < literal.value.width →
      vector.bit? position = some (literal.value.bit position) :=
    fun position inside => shows position (sameWidth.symm ▸ inside)
  have allocated := LogicVector.isAllocated_of_bit? (shownBits 0 inLimits.1)
  exact ⟨vector, converts, ⟨⟨allocated, LogicVector.toVector_wellFormed converts⟩,
    keepsHeader.trans sameHeader⟩, shownBits⟩

end Literal
end FourState
