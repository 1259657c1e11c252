import FourState.Text.Blank
import FourState.Text.Numeral
import Mathlib.Data.List.DropRight
import Mathlib.Data.List.TakeDrop

/-!
# Tokens and numerals

A written numeral is read back as its number.  It has no blanks, so it is one
token: blanks in front of it are skipped, and it ends where a blank follows or
the text ends.
-/

namespace FourState

/-! ## Numerals -/

namespace Numeral

/-- The digits that are written are the digits that are read. -/
theorem digit?_digitChar
    {radix : Nat}
    (radix_le : radix ≤ 16)
    {digit : Nat}
    (digit_lt : digit < radix) :
    digit? radix digit.digitChar = some digit := by
  revert radix digit
  decide

theorem continue?_append (radix value : Nat) (first second : List Char) :
    continue? radix value (first ++ second) =
      (continue? radix value first).bind fun read => continue? radix read second := by
  induction first generalizing value with
  | nil => rfl
  | cons char rest inductionHypothesis =>
      rw [List.cons_append, continue?, continue?]
      cases digit? radix char with
      | none => rfl
      | some digit => exact inductionHypothesis _

/-- Reading the digits of a number gives the number, by recursion on the leading
digits. -/
theorem continue?_toDigits
    {radix : Nat}
    (two_le : 2 ≤ radix)
    (radix_le : radix ≤ 16)
    (value : Nat) :
    continue? radix 0 (Nat.toDigits radix value) = some value := by
  induction value using Nat.strongRecOn with
  | ind value inductionHypothesis =>
      by_cases short : value < radix
      · rw [Nat.toDigits_of_lt_base short, continue?, digit?_digitChar radix_le short]
        simp [continue?]
      · have long : radix ≤ value := Nat.not_lt.1 short
        have positive : 0 < radix := by omega
        have smaller : value / radix < value := Nat.div_lt_self (by omega) (by omega)
        rw [Nat.toDigits_of_base_le (by omega) long, continue?_append,
          inductionHypothesis _ smaller, Option.bind_some, continue?,
          digit?_digitChar radix_le (Nat.mod_lt _ positive)]
        simp [continue?, Nat.div_add_mod']

/-- A character of a written number is one of its digits. -/
theorem exists_digit_of_mem
    {radix value : Nat}
    {char : Char}
    (two_le : 2 ≤ radix)
    (mem : char ∈ Nat.toDigits radix value) :
    ∃ digit, digit < radix ∧ char = digit.digitChar := by
  induction value using Nat.strongRecOn with
  | ind value inductionHypothesis =>
      by_cases short : value < radix
      · rw [Nat.toDigits_of_lt_base short, List.mem_singleton] at mem
        exact ⟨value, short, mem⟩
      · have long : radix ≤ value := Nat.not_lt.1 short
        rw [Nat.toDigits_of_base_le (by omega) long, List.mem_append, List.mem_singleton] at mem
        obtain leading | last := mem
        · exact inductionHypothesis _ (Nat.div_lt_self (by omega) (by omega)) leading
        · exact ⟨value % radix, Nat.mod_lt _ (by omega), last⟩

/-- A digit is neither a blank nor a sign. -/
theorem digitChar_plain
    {digit : Nat}
    (small : digit < 16) :
    Text.isBlank digit.digitChar = false ∧ digit.digitChar ≠ '+' := by
  revert digit
  decide

theorem not_blank_of_mem
    {radix value : Nat}
    {char : Char}
    (two_le : 2 ≤ radix)
    (radix_le : radix ≤ 16)
    (mem : char ∈ Nat.toDigits radix value) :
    Text.isBlank char = false := by
  obtain ⟨digit, small, rfl⟩ := exists_digit_of_mem two_le mem
  exact (digitChar_plain (Nat.lt_of_lt_of_le small radix_le)).1

theorem natural?_of_ne_plus
    {radix : Nat}
    {first : Char}
    {rest : List Char}
    (notSign : first ≠ '+') :
    natural? radix (first :: rest) = continue? radix 0 (first :: rest) := by
  unfold natural?
  split <;> simp_all

/-- A number is read back from its digits. -/
theorem natural?_toDigits
    {radix : Nat}
    (two_le : 2 ≤ radix)
    (radix_le : radix ≤ 16)
    (value : Nat) :
    natural? radix (Nat.toDigits radix value) = some value := by
  have reads := continue?_toDigits two_le radix_le value
  cases digits : Nat.toDigits radix value with
  | nil => exact absurd digits Nat.toDigits_ne_nil
  | cons first rest =>
      have isFirst : first ∈ Nat.toDigits radix value := by simp [digits]
      obtain ⟨digit, small, isDigit⟩ := exists_digit_of_mem two_le isFirst
      have notSign : first ≠ '+' := by
        rw [isDigit]
        exact (digitChar_plain (Nat.lt_of_lt_of_le small radix_le)).2
      rw [natural?_of_ne_plus notSign, ← digits, reads]

/-- A number below the bound is read back from its digits. -/
theorem below?_toDigits
    {radix bound value : Nat}
    (two_le : 2 ≤ radix)
    (radix_le : radix ≤ 16)
    (inBound : value < bound) :
    below? radix bound (Nat.toDigits radix value) = some value := by
  rw [below?, natural?_toDigits two_le radix_le]
  simp [inBound]

end Numeral

/-! ## Tokens -/

namespace Text

/-- Every character of the text is a blank. -/
def Blank (text : List Char) : Prop :=
  ∀ char ∈ text, isBlank char = true

/-- A token in front of the text ends where the text starts: it is empty or
starts with a blank. -/
def Breaks (text : List Char) : Prop :=
  ∀ char ∈ text.head?, isBlank char = true

theorem breaks_nil : Breaks [] := by
  intro char isFirst
  contradiction

theorem breaks_cons {char : Char} (blank : isBlank char = true) (rest : List Char) :
    Breaks (char :: rest) := by
  intro first isFirst
  cases isFirst
  exact blank

theorem Breaks.append
    {text rest : List Char}
    (breaks : Breaks text)
    (restBreaks : Breaks rest) :
    Breaks (text ++ rest) := by
  cases text with
  | nil => exact restBreaks
  | cons first others => exact breaks

theorem breaks_flatMap
    {entry : Type}
    {entries : List entry}
    {write : entry → List Char}
    (breaks : ∀ written ∈ entries, Breaks (write written)) :
    Breaks (entries.flatMap write) := by
  induction entries with
  | nil => exact breaks_nil
  | cons head others inductionHypothesis =>
      rw [List.flatMap_cons]
      exact (breaks head (by simp)).append
        (inductionHypothesis fun written mem => breaks written (by simp [mem]))

/-- A token behind blanks is split off, up to where the rest breaks it. -/
theorem splitToken_append
    {gap token rest : List Char}
    (blank : Blank gap)
    (notBlank : ∀ char ∈ token, isBlank char = false)
    (notEmpty : token ≠ [])
    (breaks : Breaks rest) :
    splitToken (gap ++ token ++ rest) = (token, rest) := by
  have skipped : trimStart (gap ++ token ++ rest) = token ++ rest := by
    rw [trimStart, List.append_assoc, List.dropWhile_append_of_pos blank]
    cases token with
    | nil => exact absurd rfl notEmpty
    | cons first others =>
        rw [List.cons_append, List.dropWhile_cons, notBlank first (by simp)]
        rfl
  have ends : rest.takeWhile (fun char => !isBlank char) = [] ∧
      rest.dropWhile (fun char => !isBlank char) = rest := by
    cases rest with
    | nil => exact ⟨rfl, rfl⟩
    | cons first others =>
        have blankFirst := breaks first rfl
        simp [blankFirst]
  have inToken : ∀ char ∈ token, (!isBlank char) = true := by
    intro char mem
    rw [notBlank char mem]
    rfl
  rw [splitToken, skipped, List.span_eq_takeWhile_dropWhile,
    List.takeWhile_append_of_pos inToken, List.dropWhile_append_of_pos inToken, ends.1, ends.2,
    List.append_nil]

/-- Nothing is trimmed off a text without blanks. -/
theorem trim_of_not_blank
    {text : List Char}
    (notBlank : ∀ char ∈ text, isBlank char = false) :
    trim text = text := by
  have start {part : List Char} (notBlank : ∀ char ∈ part, isBlank char = false) :
      trimStart part = part := by
    cases part with
    | nil => rfl
    | cons first rest => rw [trimStart, List.dropWhile_cons, notBlank first (by simp)]; rfl
  rw [trim, trimEnd, start notBlank, start fun char isMember =>
    notBlank char (List.mem_reverse.1 isMember), List.reverse_reverse]

/-- Nothing is trimmed off a text with no blank at its ends. -/
theorem trim_of_ends
    {first last : Char}
    (body : List Char)
    (firstPlain : isBlank first = false)
    (lastPlain : isBlank last = false) :
    trim (first :: (body ++ [last])) = first :: (body ++ [last]) := by
  have start {char : Char} (plain : isBlank char = false) (rest : List Char) :
      trimStart (char :: rest) = char :: rest := by
    rw [trimStart, List.dropWhile_cons, plain]
    rfl
  rw [trim, trimEnd, start firstPlain, ← List.cons_append, List.reverse_append,
    List.reverse_singleton, List.singleton_append, start lastPlain, List.reverse_cons,
    List.reverse_reverse]

/-- A text is split at the first separator. -/
theorem splitAt?_append
    {separator : Char}
    {before : List Char}
    (absent : separator ∉ before)
    (rest : List Char) :
    splitAt? separator (before ++ separator :: rest) = some (before, rest) := by
  have differ : ∀ char ∈ before, (char != separator) = true := by
    intro char isMember
    rw [bne_iff_ne]
    rintro rfl
    exact absent isMember
  rw [splitAt?, List.span_eq_takeWhile_dropWhile, List.takeWhile_append_of_pos differ,
    List.dropWhile_append_of_pos differ]
  simp

theorem splitAt?_eq_some_iff
    {separator : Char}
    {text before rest : List Char} :
    splitAt? separator text = some (before, rest) ↔
      text = before ++ separator :: rest ∧ separator ∉ before := by
  constructor
  · intro splits
    rw [splitAt?, List.span_eq_takeWhile_dropWhile] at splits
    have joined : text.takeWhile (fun char => char != separator) ++
        text.dropWhile (fun char => char != separator) = text := List.takeWhile_append_dropWhile
    have isFirst := List.head?_dropWhile_not (fun char => char != separator) text
    split at splits
    · contradiction
    · rename_i first last others parts
      cases splits
      obtain ⟨isBefore, isRest⟩ := Prod.ext_iff.1 parts
      dsimp only at isBefore isRest
      rw [isRest] at isFirst joined
      obtain rfl : last = separator := by simpa using isFirst
      refine ⟨by rw [← isBefore, joined], ?_⟩
      intro isMember
      rw [← isBefore] at isMember
      simpa using List.mem_takeWhile_imp isMember
  · rintro ⟨rfl, absent⟩
    exact splitAt?_append absent rest

theorem splitAt?_eq_none_iff {separator : Char} {text : List Char} :
    splitAt? separator text = none ↔ separator ∉ text := by
  constructor
  · intro splits isMember
    obtain ⟨before, rest, parts, absent⟩ := List.eq_append_cons_of_mem isMember
    rw [splitAt?_eq_some_iff.2 ⟨parts, absent⟩] at splits
    contradiction
  · intro absent
    cases splits : splitAt? separator text with
    | none => rfl
    | some halves =>
        obtain ⟨parts, -⟩ := splitAt?_eq_some_iff.1 splits
        rw [parts] at absent
        simp at absent

/-- Trimming only drops characters. -/
theorem trim_sublist (text : List Char) : List.Sublist (trim text) text := by
  have start (part : List Char) : List.Sublist (trimStart part) part := List.dropWhile_sublist _
  have fromEnd : List.Sublist (trimEnd (trimStart text)) (trimStart text) := by
    rw [trimEnd, ← List.reverse_sublist, List.reverse_reverse]
    exact start _
  exact fromEnd.trans (start text)

/-- What is left when the blanks in front and at the end are dropped has none there. -/
theorem trim_trim (text : List Char) : trim (trim text) = trim text := by
  have idempotent (part : List Char) : trimStart (trimStart part) = trimStart part :=
    List.dropWhile_idempotent _ _
  have endDropped : trimEnd (trimStart text) <+: trimStart text := by
    rw [trimEnd, ← List.reverse_suffix, List.reverse_reverse]
    exact List.dropWhile_suffix _
  have startKept : trimStart (trim text) = trim text := by
    rw [trim]
    cases kept : trimEnd (trimStart text) with
    | nil => rfl
    | cons first others =>
        obtain ⟨dropped, joined⟩ := endDropped
        have isFirst := List.head?_dropWhile_not isBlank text
        rw [kept] at joined
        rw [← trimStart, ← joined] at isFirst
        rw [trimStart, List.dropWhile_cons, isFirst]
        rfl
  rw [trim, startKept, trim, trimEnd, trimEnd, List.reverse_reverse, idempotent]

end Text
end FourState
