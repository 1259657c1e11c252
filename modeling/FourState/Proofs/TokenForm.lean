import FourState.Proofs.Token
import Mathlib.Data.List.Forall2

/-!
# What a text shows

The tokens of a text are what is left between its blanks, and a token is a
numeral if it has the digits of a number.  Both are said without a reader: the
text is cut at every blank, and the number is the value of the digits.  The
readers agree with it.  Splitting off the first token takes the tokens in order,
and a token is read as a number exactly when it is a numeral of the number.
-/

namespace FourState

/-! ## Numerals -/

namespace Numeral

/-- The character is a digit of the radix, in either case. -/
def IsDigit (radix : Nat) (char : Char) (digit : Nat) : Prop :=
  digit < radix ∧ (char = digit.digitChar ∨ char = digit.digitChar.toUpper)

/-- The text is a numeral of the number: at least one digit, the leading one first,
after one optional plus sign. -/
def Denotes (radix : Nat) (text : List Char) (value : Nat) : Prop :=
  ∃ digits values, (text = digits ∨ text = '+' :: digits) ∧ digits ≠ [] ∧
    List.Forall₂ (IsDigit radix) digits values ∧
      values.foldl (fun leading digit => leading * radix + digit) 0 = value

section

variable {radix : Nat}

theorem IsDigit.ne_plus
    {char : Char}
    {digit : Nat}
    (radix_le : radix ≤ 16)
    (isDigit : IsDigit radix char digit) :
    char ≠ '+' := by
  have plain : ∀ digit < 16, digit.digitChar ≠ '+' ∧ digit.digitChar.toUpper ≠ '+' := by decide
  obtain ⟨inRadix, rfl | rfl⟩ := isDigit
  · exact (plain digit (by omega)).1
  · exact (plain digit (by omega)).2

/-- The figures, and the letters behind them in either case, are the digits that are
read. -/
theorem digit?_eq_some_iff
    (radix_le : radix ≤ 16)
    (char : Char)
    (digit : Nat) :
    digit? radix char = some digit ↔ IsDigit radix char digit := by
  constructor
  · intro reads
    unfold digit? at reads
    obtain ⟨isValue, inRadix⟩ := Option.filter_eq_some_iff.1 reads
    refine ⟨of_decide_eq_true inRadix, ?_⟩
    have figure : ∀ figure < 10, Char.ofNat (figure + '0'.toNat) = figure.digitChar := by decide
    have lower : ∀ letter < 6,
        Char.ofNat (letter + 'a'.toNat) = (letter + 10).digitChar := by decide
    have upper : ∀ letter < 6,
        Char.ofNat (letter + 'A'.toNat) = (letter + 10).digitChar.toUpper := by decide
    have lastFigure : '9'.toNat = '0'.toNat + 9 := rfl
    have lastLower : 'f'.toNat = 'a'.toNat + 5 := rfl
    have lastUpper : 'F'.toNat = 'A'.toNat + 5 := rfl
    rw [← Char.ofNat_toNat char]
    split at isValue
    · rename_i inFigures
      cases isValue
      rw [← figure _ (by omega), Nat.sub_add_cancel inFigures.1]
      exact Or.inl rfl
    · split at isValue
      · rename_i inLower
        cases isValue
        rw [← lower _ (by omega), Nat.sub_add_cancel inLower.1]
        exact Or.inl rfl
      · split at isValue
        · rename_i inUpper
          cases isValue
          rw [← upper _ (by omega), Nat.sub_add_cancel inUpper.1]
          exact Or.inr rfl
        · contradiction
  · rintro ⟨inRadix, rfl | rfl⟩
    · exact digit?_digitChar radix_le inRadix
    · revert radix digit
      decide

/-- The digits that continue a number are read one after the other. -/
theorem continue?_eq_some_iff
    (radix_le : radix ≤ 16)
    (start : Nat)
    (digits : List Char)
    (value : Nat) :
    continue? radix start digits = some value ↔
      ∃ values, List.Forall₂ (IsDigit radix) digits values ∧
        values.foldl (fun leading digit => leading * radix + digit) start = value := by
  induction digits generalizing start with
  | nil => simp [continue?]
  | cons char rest inductionHypothesis =>
      rw [continue?]
      constructor
      · intro reads
        split at reads
        · rename_i digit isDigit
          obtain ⟨values, areDigits, sum⟩ := (inductionHypothesis _).1 reads
          exact ⟨digit :: values,
            .cons ((digit?_eq_some_iff radix_le char digit).1 isDigit) areDigits, sum⟩
        · contradiction
      · rintro ⟨values, areDigits, sum⟩
        cases areDigits with
        | cons isDigit areDigits =>
            rw [(digit?_eq_some_iff radix_le char _).2 isDigit]
            exact (inductionHypothesis _).2 ⟨_, areDigits, sum⟩

/-- The numerals of a number are the texts that are read as the number. -/
theorem natural?_eq_some_iff
    (radix_le : radix ≤ 16)
    (text : List Char)
    (value : Nat) :
    natural? radix text = some value ↔ Denotes radix text value := by
  have continues := fun digits => continue?_eq_some_iff radix_le 0 digits value
  constructor
  · intro reads
    unfold natural? at reads
    split at reads
    · rename_i char rest
      obtain ⟨values, areDigits, sum⟩ := (continues _).1 reads
      exact ⟨char :: rest, values, Or.inr rfl, List.cons_ne_nil _ _, areDigits, sum⟩
    · contradiction
    · contradiction
    · rename_i char rest notSigned notSign
      obtain ⟨values, areDigits, sum⟩ := (continues _).1 reads
      exact ⟨char :: rest, values, Or.inl rfl, List.cons_ne_nil _ _, areDigits, sum⟩
  · rintro ⟨digits, values, shape, notEmpty, areDigits, sum⟩
    have reads := (continues digits).2 ⟨values, areDigits, sum⟩
    cases areDigits with
    | nil => contradiction
    | cons isDigit others =>
        obtain rfl | rfl := shape
        · rw [natural?_of_ne_plus (isDigit.ne_plus radix_le), reads]
        · exact reads

/-- The digits of a number are a numeral of it. -/
theorem denotes_toDigits
    (two_le : 2 ≤ radix)
    (radix_le : radix ≤ 16)
    (value : Nat) :
    Denotes radix (Nat.toDigits radix value) value :=
  (natural?_eq_some_iff radix_le _ _).1 (natural?_toDigits two_le radix_le value)

/-- A numeral denotes one number. -/
theorem Denotes.unique
    {first second : Nat}
    {text : List Char}
    (radix_le : radix ≤ 16)
    (denotesFirst : Denotes radix text first)
    (denotesSecond : Denotes radix text second) :
    first = second := by
  rw [← natural?_eq_some_iff radix_le] at denotesFirst denotesSecond
  exact Option.some.inj (denotesFirst.symm.trans denotesSecond)

theorem below?_eq_some_iff
    (radix_le : radix ≤ 16)
    (bound : Nat)
    (text : List Char)
    (value : Nat) :
    below? radix bound text = some value ↔ Denotes radix text value ∧ value < bound := by
  rw [below?, Option.filter_eq_some_iff, natural?_eq_some_iff radix_le, decide_eq_true_iff]

end

end Numeral

/-! ## Tokens -/

namespace Text

/-- The tokens of a text: what is left between its blanks. -/
def tokens (text : List Char) : List (List Char) :=
  (text.splitOnP isBlank).filter fun token => !token.isEmpty

/-- The text right behind a number of tokens, empty if there are fewer. -/
def behind : Nat → List Char → List Char
  | 0, text => text
  | count + 1, text =>
      behind count ((text.dropWhile isBlank).dropWhile fun char => !isBlank char)

theorem behind_succ (count : Nat) (text : List Char) :
    behind (count + 1) text = behind count (behind 1 text) :=
  rfl

theorem behind_add (count more : Nat) (text : List Char) :
    behind (count + more) text = behind more (behind count text) := by
  induction count generalizing text with
  | zero => rw [Nat.zero_add, behind]
  | succ count inductionHypothesis =>
      rw [Nat.succ_add, behind_succ, inductionHypothesis, behind_succ count]

theorem tokens_nil : tokens [] = [] :=
  rfl

theorem tokens_cons_of_blank
    {char : Char}
    (blank : isBlank char = true)
    (rest : List Char) :
    tokens (char :: rest) = tokens rest := by
  simp [tokens, List.splitOnP_cons_eq_if_modifyHead, blank]

theorem tokens_trimStart (text : List Char) : tokens (trimStart text) = tokens text := by
  induction text with
  | nil => rfl
  | cons char rest inductionHypothesis =>
      rw [trimStart, List.dropWhile_cons]
      split
      · rename_i blank
        rw [tokens_cons_of_blank blank, ← inductionHypothesis, trimStart]
      · rfl

/-- A token in front of a text that breaks it is the first token. -/
theorem tokens_append
    {token rest : List Char}
    (notBlank : ∀ char ∈ token, isBlank char = false)
    (notEmpty : token ≠ [])
    (breaks : Breaks rest) :
    tokens (token ++ rest) = token :: tokens rest := by
  have isToken : (!token.isEmpty) = true := by simpa using notEmpty
  cases rest with
  | nil => simp [tokens, List.splitOnP_eq_singleton notBlank, notEmpty]
  | cons char others =>
      have blank : isBlank char = true := breaks char rfl
      rw [tokens_cons_of_blank blank, tokens,
        List.splitOnP_append_cons_of_forall_mem notBlank char blank, List.filter_cons,
        if_pos isToken, tokens]

theorem not_blank_of_trimStart
    {text rest : List Char}
    {char : Char}
    (trimmed : trimStart text = char :: rest) :
    isBlank char = false := by
  have stops := List.head?_dropWhile_not isBlank text
  rw [show text.dropWhile isBlank = char :: rest from trimmed] at stops
  exact stops

theorem breaks_dropWhile (text : List Char) :
    Breaks (text.dropWhile fun char => !isBlank char) := by
  intro char isFirst
  have stops := List.head?_dropWhile_not (fun char => !isBlank char) text
  rw [isFirst] at stops
  simpa using stops

/-- Either a text has no tokens and nothing is split off or left, or its first token
is split off and the others are behind it. -/
theorem splitToken_cases (text : List Char) :
    (splitToken text = ([], []) ∧ tokens text = [] ∧ behind 1 text = []) ∨
      ∃ char chars, splitToken text = (char :: chars, behind 1 text) ∧
        tokens text = (char :: chars) :: tokens (behind 1 text) := by
  have leaves : behind 1 text = (trimStart text).dropWhile fun char => !isBlank char := rfl
  rw [splitToken, List.span_eq_takeWhile_dropWhile, ← leaves, ← tokens_trimStart]
  cases trimmed : trimStart text with
  | nil =>
      rw [trimmed] at leaves
      exact Or.inl ⟨by rw [leaves]; rfl, rfl, leaves⟩
  | cons char rest =>
      have notBlank := not_blank_of_trimStart trimmed
      have inToken : ∀ other ∈ char :: rest.takeWhile fun char => !isBlank char,
          isBlank other = false := by
        intro other mem
        obtain rfl | mem := List.mem_cons.1 mem
        · exact notBlank
        · simpa using List.all_eq_true.1 List.all_takeWhile other mem
      have parts : char :: rest =
          (char :: rest.takeWhile fun char => !isBlank char) ++
            rest.dropWhile fun char => !isBlank char := by
        rw [List.cons_append, List.takeWhile_append_dropWhile]
      rw [trimmed, List.dropWhile_cons_of_pos (by simpa using notBlank)] at leaves
      refine Or.inr ⟨char, rest.takeWhile fun char => !isBlank char, ?_, ?_⟩
      · rw [List.takeWhile_cons_of_pos (by simpa using notBlank)]
      · rw [leaves, ← tokens_append inToken (List.cons_ne_nil _ _) (breaks_dropWhile rest), ← parts]

/-- Behind some tokens are the others. -/
theorem tokens_behind (count : Nat) (text : List Char) :
    tokens (behind count text) = (tokens text).drop count := by
  induction count generalizing text with
  | zero => rfl
  | succ count inductionHypothesis =>
      rw [behind_succ, inductionHypothesis]
      obtain ⟨-, none, nothing⟩ | ⟨char, chars, -, some⟩ := splitToken_cases text
      · rw [none, nothing]
        simp [tokens_nil]
      · rw [some, List.drop_succ_cons]

theorem getElem?_tokens_behind (count index : Nat) (text : List Char) :
    (tokens (behind count text))[index]? = (tokens text)[count + index]? := by
  rw [tokens_behind, List.getElem?_drop]

/-- Behind the last token nothing is left for another one. -/
theorem behind_eq_nil
    {count : Nat}
    {text : List Char}
    (few : (tokens text).length ≤ count) :
    behind (count + 1) text = [] := by
  have none : tokens (behind count text) = [] := by
    rw [tokens_behind, List.drop_eq_nil_of_le few]
  rw [behind_add]
  obtain ⟨-, -, nothing⟩ | ⟨char, chars, -, some⟩ := splitToken_cases (behind count text)
  · exact nothing
  · rw [none] at some
    contradiction

/-! ## One token of several -/

/-- The token with a number, from zero, is there and has a form. -/
def TokenAt (text : List Char) (index : Nat) (form : List Char → Prop) : Prop :=
  ∃ token, (tokens text)[index]? = some token ∧ form token

theorem tokenAt_behind
    {text : List Char}
    {count index : Nat}
    {form : List Char → Prop} :
    TokenAt (behind count text) index form ↔ TokenAt text (count + index) form := by
  rw [TokenAt, getElem?_tokens_behind, TokenAt]

section

variable {text token : List Char} {index : Nat} {form other : List Char → Prop}

theorem TokenAt.of_getElem?
    (hasForm : TokenAt text index form)
    (found : (tokens text)[index]? = some token) :
    form token := by
  obtain ⟨token, foundForm, isForm⟩ := hasForm
  cases found.symm.trans foundForm
  exact isForm

/-- A number has one token, so two forms are forms of the same token. -/
theorem TokenAt.exists_and
    (hasForm : TokenAt text index form)
    (hasOther : TokenAt text index other) :
    ∃ token, form token ∧ other token := by
  obtain ⟨token, found, isForm⟩ := hasForm
  exact ⟨token, isForm, hasOther.of_getElem? found⟩

end

end Text
end FourState
