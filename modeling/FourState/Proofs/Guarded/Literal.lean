import FourState.Proofs.Guarded.Filling
import FourState.Proofs.Guarded.Reading
import FourState.Proofs.LiteralForm
import Mathlib.Data.List.Flatten
import Mathlib.Data.List.GetD

/-!
# Guarded reading of literals

The bits of a literal are placed one by one, digit by digit from the last one on, and the
positions that are left are filled up.  Positions are machine integers, and no step fails
if the bits of the text can be counted by one.  Reading then ends as it does without the
guards, with the same literal or the same error.
-/

namespace FourState

namespace Buffer

/-- The buffer of bits, least significant first, followed by zeros and cut to a width. -/
def ofList (width : Nat) (bits : List Bit) : Buffer :=
  ofBits width fun position => bits.getD position Bit.zero

variable {width : Nat} {bits : List Bit}

theorem bit_ofList (width : Nat) (bits : List Bit) (position : Nat) :
    (ofList width bits).bit position =
      if position < width then bits.getD position Bit.zero else Bit.zero :=
  bit_ofBits _ _ _

theorem canonical_ofList (width : Nat) (bits : List Bit) : (ofList width bits).Canonical :=
  canonical_ofBits _ _

theorem ofList_nil (width : Nat) : ofList width [] = zero width :=
  (canonical_ofList _ _).ext (canonical_zero width) rfl rfl fun position => by simp [bit_ofList]

/-- A bit past the width makes no difference. -/
theorem ofList_concat_of_le (outside : width ≤ bits.length) (bit : Bit) :
    ofList width (bits ++ [bit]) = ofList width bits := by
  refine (canonical_ofList _ _).ext (canonical_ofList _ _) rfl rfl fun position => ?_
  rw [bit_ofList, bit_ofList]
  split
  · rename_i inside
    rw [List.getD_append _ _ _ _ (by omega)]
  · rfl

/-- A bit inside the width is set. -/
theorem setBit_ofList (inside : bits.length < width) (bit : Bit) :
    (ofList width bits).setBit bits.length bit = ofList width (bits ++ [bit]) := by
  have insideBuffer : bits.length < (ofList width bits).width := inside
  have canonical := canonical_ofList width bits
  rw [setBit_eq_fill insideBuffer]
  refine (canonical_fill canonical _ _ _).ext (canonical_ofList _ _) rfl rfl fun position => ?_
  rw [bit_fill canonical, Nat.min_eq_left (Nat.succ_le_of_lt insideBuffer), bit_ofList,
    bit_ofList]
  obtain below | rfl | above := Nat.lt_trichotomy position bits.length
  · rw [if_neg (by omega), List.getD_append _ _ _ _ below]
  · rw [if_pos (by omega), if_pos inside, List.getD_append_right _ _ _ _ (Nat.le_refl _)]
    simp
  · rw [if_neg (by omega), List.getD_eq_default _ _ (by omega),
      List.getD_eq_default _ _ (by simp; omega)]

/-- The bits of a list, and above them those that are filled up. -/
theorem filled_ofList (width : Nat) (bits : List Bit) (filler : Bit) :
    (ofList width bits).Filled width (fun position => bits.getD position filler) 0
      (min bits.length width) where
  canonical := canonical_ofList _ _
  width_eq := rfl
  signed_eq := rfl
  bit_eq position inside := by
    rw [bit_ofList, if_pos inside]
    by_cases there : position < bits.length
    · rw [if_pos (by omega), List.getD_eq_getElem _ _ there, List.getD_eq_getElem _ _ there]
    · rw [if_neg (by omega), List.getD_eq_default _ _ (by omega)]

end Buffer

namespace Guarded

/-! ## Readers -/

/-- A guarded computation that may also find a literal to be wrong. -/
abbrev Reader (result : Type) :=
  ExceptT LiteralError Guarded result

instance : MonadLift (Except LiteralError) Reader where
  monadLift step := ExceptT.mk (.ok step)

/-- The reader runs to its end, as another one does. -/
def Reader.Follows {result : Type} (reader : Reader result) (other : Except LiteralError result) :
    Prop :=
  reader.run = .ok other

section

variable {first second : Type} {reader : Reader first} {other : Except LiteralError first}

theorem follows_pure (value : first) : (pure value : Reader first).Follows (.ok value) :=
  rfl

theorem follows_throw (defect : LiteralError) :
    (throw defect : Reader first).Follows (.error defect) :=
  rfl

theorem follows_liftM (step : Except LiteralError first) :
    (liftM step : Reader first).Follows step :=
  rfl

theorem Reader.Follows.bind_of_ok
    {value : first}
    {readerNext : first → Reader second}
    {otherNext : Except LiteralError second}
    (follows : reader.Follows (.ok value))
    (followsNext : (readerNext value).Follows otherNext) :
    (reader >>= readerNext).Follows otherNext := by
  rw [Reader.Follows, ExceptT.run_bind, follows]
  exact followsNext

theorem Reader.Follows.bind_of_error
    {defect : LiteralError}
    (follows : reader.Follows (.error defect))
    (readerNext : first → Reader second) :
    (reader >>= readerNext).Follows (.error defect) := by
  rw [Reader.Follows, ExceptT.run_bind, follows]
  rfl

/-- A reader follows another one if its parts do. -/
theorem Reader.Follows.bind
    {readerNext : first → Reader second}
    {otherNext : first → Except LiteralError second}
    (follows : reader.Follows other)
    (followsNext : ∀ value, other = .ok value → (readerNext value).Follows (otherNext value)) :
    (reader >>= readerNext).Follows (other >>= otherNext) := by
  cases other with
  | error defect => exact follows.bind_of_error readerNext
  | ok value => exact follows.bind_of_ok (followsNext value rfl)

/-- A machine step that succeeds hands on its result. -/
theorem liftM_bind_of_ok
    {step : Guarded first}
    {value : first}
    (succeeds : step = .ok value)
    (next : first → Reader second) :
    (liftM step >>= next) = next value := by
  rw [succeeds]
  rfl

end

/-! ## Digits -/

/-- The unknown bit or the number of a digit. -/
def digit (count : Nat) (char : Char) : Guarded (Option (Bit ⊕ Nat)) :=
  match Literal.unknownDigit? char with
  | some bit => return some (.inl bit)
  | none => do
      let radix ← shiftLeft 1 count
      assert (2 ≤ radix.toNat ∧ radix.toNat ≤ 36)
      return (Numeral.digit? radix.toNat char).map .inr

/-- The bit of a digit at an offset. -/
def digitBit (digit : Bit ⊕ Nat) (offset : Nat) : Guarded Bit :=
  match digit with
  | .inl bit => return bit
  | .inr number => do
      let set ← bit (BitVec.ofNat 32 number) offset
      return Bit.ofBool set

/-- Set the bit at an offset behind a position, as long as it is inside the width. -/
def placeBit (digit : Bit ⊕ Nat) (position : Nat) (buffer : Buffer) (offset : Nat) :
    Guarded Buffer := do
  let place ← add 64 position offset
  if place < buffer.width then
    let bit ← digitBit digit offset
    setBit buffer place bit
  else return buffer

/-- Place digits, the last one first, from a position on, and say where the next one would
be; `all` are the digits that are complained about. -/
def placeDigits (count : Nat) (all : List Char) : List Char → Nat → Buffer → Reader (Nat × Buffer)
  | [], position, buffer => return (position, buffer)
  | char :: rest, position, buffer => do
      match ← digit count char with
      | none => throw (.malformed (.invalidDigit char (String.ofList all)))
      | some digit => do
          let placed ← ((List.range' 0 count).foldlM (placeBit digit position) buffer :
            Guarded Buffer)
          let next ← add 64 position count
          placeDigits count all rest next placed

/-- Fill up what an unknown first digit goes on to, from a position on. -/
def extend (digits : List Char) (position : Nat) (buffer : Buffer) : Guarded Buffer :=
  match digits.head?.bind Literal.unknownDigit? with
  | some bit => fill buffer (min position buffer.width) buffer.width bit
  | none => return buffer

/-- The value of digits of a fixed number of bits. -/
def ofDigits (width : Nat) (radix : DigitRadix) (digits : List Char) : Reader Buffer := do
  let (position, placed) ← placeDigits radix.bits digits digits.reverse 0 (Buffer.zero width)
  extend digits position placed

/-- The value of decimal digits, or of a single unknown digit. -/
def ofDecimal (width : Nat) (digits : List Char) : Reader Buffer :=
  match digits with
  | [digit] =>
      match Literal.unknownDigit? digit with
      | some .x => liftM (unknown width)
      | some bit => liftM (fill (Buffer.zero width) 0 width bit)
      | none => ofNumeral digits
  | _ => ofNumeral digits
where
  /-- The value of a decimal number. -/
  ofNumeral (digits : List Char) : Reader Buffer :=
    match Numeral.natural? 10 digits with
    | some value => liftM (ofNat width value)
    | none => throw (.malformed (.invalidDecimal (String.ofList digits)))

section Digits

variable {char : Char} {count width : Nat} {bits : List Bit}

/-- A digit is found with its bits, or is none. -/
theorem digit_cases
    (positive : 0 < count)
    (small : count ≤ 4)
    (char : Char) :
    (Literal.digitBits? count char = none ∧ digit count char = .ok none) ∨
      ∃ found bits, digit count char = .ok (some found) ∧
        Literal.digitBits? count char = some bits ∧ bits.length = count ∧
        ∀ offset (inside : offset < bits.length), digitBit found offset = .ok bits[offset] := by
  rw [digit, Literal.digitBits?]
  cases unknown : Literal.unknownDigit? char with
  | some bit =>
      refine .inr ⟨.inl bit, _, rfl, rfl, List.length_replicate, fun offset inside => ?_⟩
      rw [List.getElem_replicate]
      rfl
  | none =>
      have radixOf : ∀ count < 5, 0 < count → ((1 : Word) <<< count).toNat = modulus count ∧
          2 ≤ modulus count ∧ modulus count ≤ 36 := by decide
      obtain ⟨sameRadix, inRange⟩ := radixOf count (by omega) positive
      rw [← sameRadix] at inRange
      dsimp only
      rw [bind_of_ok (shiftLeft_eq_ok 1 (by omega)), bind_of_ok (assert_eq_ok inRange), sameRadix]
      cases reads : Numeral.digit? (modulus count) char with
      | none => exact .inl ⟨rfl, rfl⟩
      | some number =>
          refine .inr ⟨.inr number, _, rfl, rfl, by simp, fun offset inside => ?_⟩
          rw [List.length_map, List.length_range] at inside
          have inWord : offset < 32 := by omega
          rw [digitBit, bind_of_ok (bit_eq_ok _ inWord), BitVec.getLsbD_ofNat, List.getElem_map,
            List.getElem_range]
          simp [inWord]
          rfl

/-- The bits of a digit go behind those that have been placed. -/
theorem foldlM_placeBit
    {found : Bit ⊕ Nat}
    {added : List Bit}
    (gives : ∀ offset (inside : offset < added.length), digitBit found offset = .ok added[offset])
    (fits : bits.length + added.length < modulus 64) :
    (List.range' 0 added.length).foldlM (placeBit found bits.length) (Buffer.ofList width bits) =
      .ok (Buffer.ofList width (bits ++ added)) := by
  have each (offset : Nat) (inside : offset < 0 + added.length) :
      placeBit found bits.length (Buffer.ofList width (bits ++ added.take offset)) offset =
        .ok (Buffer.ofList width (bits ++ added.take (offset + 1))) := by
    rw [Nat.zero_add] at inside
    have place : (bits ++ added.take offset).length = bits.length + offset := by
      rw [List.length_append, List.length_take, Nat.min_eq_left (Nat.le_of_lt inside)]
    have next : bits ++ added.take (offset + 1) = bits ++ added.take offset ++ [added[offset]] := by
      rw [List.take_succ_eq_append_getElem inside, List.append_assoc]
    rw [placeBit, bind_of_ok (add_eq_ok (by omega)), next]
    split
    · rename_i insideWidth
      change _ < width at insideWidth
      rw [← place] at insideWidth ⊢
      rw [bind_of_ok (gives offset inside),
        setBit_eq_ok (Buffer.canonical_ofList _ _) insideWidth, Buffer.setBit_ofList insideWidth]
    · rename_i outside
      change ¬_ < width at outside
      rw [Buffer.ofList_concat_of_le (by omega)]
      rfl
  have loops := foldlM_range'_eq_ok _ fun offset _ inside => each offset inside
  rwa [List.take_zero, List.append_nil, Nat.zero_add, List.take_length] at loops

/-- Digits are placed behind those that have been placed. -/
theorem placeDigits_follows
    {digits : List Char}
    (positive : 0 < count)
    (small : count ≤ 4)
    (all : List Char)
    (fits : bits.length + count * digits.length < modulus 64) :
    (placeDigits count all digits bits.length (Buffer.ofList width bits)).Follows
      ((digits.mapM (Literal.readDigit count all)).map fun groups =>
        ((bits ++ groups.flatten).length, Buffer.ofList width (bits ++ groups.flatten))) := by
  -- Between two digits the buffer has the bits that have been read, and the position is
  -- their number, also where the width has cut them.
  induction digits generalizing bits with
  | nil =>
      rw [placeDigits, List.mapM_nil]
      change Reader.Follows _ (.ok ((bits ++ []).length, Buffer.ofList width (bits ++ [])))
      rw [List.append_nil]
      exact follows_pure _
  | cons char rest inductionHypothesis =>
      rw [List.length_cons, Nat.mul_succ] at fits
      rw [placeDigits, List.mapM_cons, Literal.readDigit]
      obtain ⟨noBits, finds⟩ | ⟨found, added, finds, isBits, isLength, gives⟩ :=
        digit_cases positive small char
      · rw [liftM_bind_of_ok finds, noBits]
        exact follows_throw _
      · subst isLength
        rw [liftM_bind_of_ok finds, isBits]
        dsimp only
        rw [liftM_bind_of_ok (foldlM_placeBit gives (by omega)),
          liftM_bind_of_ok (add_eq_ok (by omega)), ← List.length_append]
        have places := @inductionHypothesis (bits ++ added) (by rw [List.length_append]; omega)
        cases reads : rest.mapM (Literal.readDigit added.length all) with
        | error defect =>
            rw [reads] at places
            exact places
        | ok groups =>
            rw [reads] at places
            change Reader.Follows _ (.ok ((bits ++ (added ++ groups.flatten)).length,
              Buffer.ofList width (bits ++ (added ++ groups.flatten))))
            rw [← List.append_assoc]
            exact places

/-- Above the bits that have been placed comes what the first digit is extended by. -/
theorem extend_eq_ok (small : width ≤ maxWidth) (digits : List Char) :
    extend digits bits.length (Buffer.ofList width bits) =
      .ok (Buffer.ofBits width fun position => bits.getD position (Literal.extension digits)) := by
  rw [extend, Literal.extension]
  cases digits.head?.bind Literal.unknownDigit? with
  | none => rfl
  | some bit =>
      obtain ⟨full, fills, filled⟩ := fill_filled (Buffer.filled_ofList width bits bit) small
        ⟨Nat.zero_le _, Nat.min_le_right _ _⟩
        fun position above below => List.getD_eq_default _ _ (by omega)
      exact fills.trans (congrArg Except.ok (filled.eq_ofBits (Nat.le_refl width)))

/-- Digits are read as they are without the guards. -/
theorem ofDigits_follows
    {radix : DigitRadix}
    {digits : List Char}
    (small : width ≤ maxWidth)
    (fits : 4 * digits.length < modulus 64) :
    (ofDigits width radix digits).Follows (Literal.ofDigits width radix digits) := by
  have shorter := Nat.mul_le_mul_right digits.length radix.bits_le
  have places := @placeDigits_follows radix.bits width [] digits.reverse radix.bits_pos
    radix.bits_le digits (by rw [List.length_nil, List.length_reverse]; omega)
  rw [Buffer.ofList_nil] at places
  rw [ofDigits, Literal.ofDigits, Literal.digitsBits]
  cases reads : digits.reverse.mapM (Literal.readDigit radix.bits digits) with
  | error defect =>
      rw [reads] at places
      exact places.bind_of_error _
  | ok groups =>
      rw [reads] at places
      refine places.bind_of_ok ?_
      change (liftM (extend digits groups.flatten.length (Buffer.ofList width groups.flatten)) :
        Reader Buffer).Follows (.ok (Buffer.ofBits width fun position =>
          groups.flatten.toArray.getD position (Literal.extension digits)))
      rw [extend_eq_ok small]
      simp only [Array.getD_eq_getD_getElem?, List.getElem?_toArray, List.getD_eq_getElem?_getD]
      exact follows_pure _

/-- Decimal digits are read as they are without the guards. -/
theorem ofDecimal_follows
    (notEmpty : 0 < width)
    (small : width ≤ maxWidth)
    (digits : List Char) :
    (ofDecimal width digits).Follows (Literal.ofDecimal width digits) := by
  have numeral : (ofDecimal.ofNumeral width digits).Follows
      (Literal.ofDecimal.ofNumeral width digits) := by
    rw [ofDecimal.ofNumeral, Literal.ofDecimal.ofNumeral]
    cases Numeral.natural? 10 digits with
    | none => exact follows_throw _
    | some value =>
        dsimp only
        rw [ofNat_eq_ok notEmpty]
        exact follows_pure _
  have whole (bit : Bit) : fill (Buffer.zero width) 0 width bit =
      .ok (Buffer.ofBits width fun _ => bit) := by
    obtain ⟨full, fills, filled⟩ := fill_filled (Buffer.filled_zero width 0 fun _ => bit) small
      ⟨Nat.le_refl 0, Nat.zero_le width⟩ fun _ _ _ => rfl
    rw [fills, filled.eq_ofBits (Nat.le_refl width)]
  have allUnknown : unknown width = .ok (Buffer.ofBits width fun _ => .x) := by
    rw [unknown_eq_ok notEmpty]
    refine congrArg Except.ok ((Buffer.canonical_unknown width).ext
      (Buffer.canonical_ofBits _ _) rfl rfl fun position => ?_)
    rw [Buffer.bit_unknown, Buffer.bit_ofBits]
  obtain _ | ⟨digit, _ | ⟨second, rest⟩⟩ := digits
  · exact numeral
  · rw [ofDecimal, Literal.ofDecimal]
    cases Literal.unknownDigit? digit with
    | none => exact numeral
    | some bit =>
        cases bit with
        | x =>
            dsimp only
            rw [allUnknown]
            exact follows_pure _
        | zero | one | z =>
            dsimp only
            rw [whole]
            exact follows_pure _
  · exact numeral

end Digits

/-! ## Whole literals -/

/-- The value of the digits of a literal; `text` is the whole literal. -/
def readDigits (text : List Char) (width : Nat) (radix : Radix) (digits : List Char) :
    Reader Buffer :=
  match Literal.dropUnderscores (Text.trim digits) with
  | [] => throw (.malformed (.noDigits (String.ofList text)))
  | first :: rest =>
      match radix with
      | .digits radix => ofDigits width radix (first :: rest)
      | _ => ofDecimal width (first :: rest)

/-- Read a literal, without blanks around it, that is not quoted. -/
def readNumber (text : List Char) : Reader Literal :=
  match Text.splitAt? '\x27' text with
  | some (size, rest) => do
      let width ← Literal.readSize text size
      Literal.checkWidth width
      let (signed, rest) := Literal.splitSign rest
      let (radix, digits) ← Literal.readRadix text rest
      let value ← readDigits text width radix digits
      return { radix, signed, value }
  | none => do
      let value ← readDigits text 32 .decimal text
      return { radix := .decimal, signed := true, value }

/-- Read a text as a value of eight bits a byte. -/
def ofQuoted (text : List Char) : Reader Literal := do
  let width ← mul 64 (Literal.bytes text).length 8
  Literal.checkWidth width
  let number := (Literal.bytes text).foldl (fun number byte => number * 256 + byte.toNat) 0
  let value ← ofNat width number
  return { radix := .quoted, signed := false, value }

/-- Read a literal; blanks around it do not count. -/
def read (text : List Char) : Reader Literal :=
  let text := Text.trim text
  match Literal.quotedBody? text with
  | some body => ofQuoted body
  | none => readNumber text

/-- The vector of a literal. -/
def toVector (literal : Literal) : Guarded LogicVector := do
  let fresh ← LogicVector.create literal.value.width .plain true
  let (vector, _) ← commit (fresh.setSigned literal.signed) literal.value
  return vector

/-- The vector of a text, and the way it was written. -/
def ofLiteral (text : List Char) : Reader (LogicVector × Radix) := do
  let literal ← read text
  let vector ← toVector literal
  return (vector, literal.radix)

section Texts

variable {text : List Char} {width : Nat}

theorem readDigits_follows
    (text : List Char)
    (limits : 0 < width ∧ width ≤ maxWidth)
    (radix : Radix)
    {digits : List Char}
    (fits : 4 * digits.length < modulus 64) :
    (readDigits text width radix digits).Follows (Literal.readDigits text width radix digits) := by
  have shorter : (Literal.dropUnderscores (Text.trim digits)).length ≤ digits.length :=
    (List.filter_sublist.trans (Text.trim_sublist digits)).length_le
  rw [readDigits, Literal.readDigits]
  cases cleaned : Literal.dropUnderscores (Text.trim digits) with
  | nil => exact follows_throw _
  | cons first rest =>
      rw [cleaned] at shorter
      cases radix with
      | digits radix => exact ofDigits_follows limits.2 (by omega)
      | decimal | quoted => exact ofDecimal_follows limits.1 limits.2 _

/-- The digits behind a radix letter are part of the text. -/
theorem length_le_of_readRadix
    {rest digits : List Char}
    {radix : Radix}
    (takes : Literal.readRadix text rest = .ok (radix, digits)) :
    digits.length ≤ rest.length := by
  unfold Literal.readRadix at takes
  split at takes
  · contradiction
  · split at takes
    · cases takes
      exact Nat.le_succ _
    · contradiction

theorem readNumber_follows (fits : 4 * text.length < modulus 64) :
    (readNumber text).Follows (Literal.readNumber text) := by
  unfold readNumber Literal.readNumber
  cases splits : Text.splitAt? '\x27' text with
  | none =>
      exact (readDigits_follows text (by decide) .decimal fits).bind fun value _ => follows_pure _
  | some halves =>
      obtain ⟨size, rest⟩ := halves
      have parts := congrArg List.length (Text.splitAt?_eq_some_iff.1 splits).1
      rw [List.length_append, List.length_cons] at parts
      refine (follows_liftM _).bind fun width _ => (follows_liftM _).bind fun _ lets => ?_
      obtain ⟨mark, isRest, -⟩ := Literal.exists_signMark rest
      have shorter := congrArg List.length isRest
      rw [List.length_append] at shorter
      generalize Literal.splitSign rest = marked at shorter
      refine (follows_liftM _).bind fun taken takes => ?_
      have shortest := length_le_of_readRadix takes
      exact (readDigits_follows text (Literal.checkWidth_eq_ok_iff.1 lets) taken.1
        (by omega)).bind fun value _ => follows_pure _

theorem ofQuoted_follows (fits : 8 * (Literal.bytes text).length < modulus 64) :
    (ofQuoted text).Follows (Literal.ofQuoted text) := by
  rw [Nat.mul_comm] at fits
  rw [ofQuoted, Literal.ofQuoted, liftM_bind_of_ok (mul_eq_ok fits), Nat.mul_comm]
  refine (follows_liftM _).bind fun _ lets => ?_
  dsimp only
  rw [liftM_bind_of_ok (ofNat_eq_ok (Literal.checkWidth_eq_ok_iff.1 lets).1 _)]
  exact follows_pure _

/-- Every character has a byte. -/
theorem length_le_length_bytes (text : List Char) : text.length ≤ (Literal.bytes text).length := by
  induction text with
  | nil => exact Nat.zero_le _
  | cons char rest inductionHypothesis =>
      have positive := char.utf8Size_pos
      change _ ≤ (String.utf8EncodeChar char ++ Literal.bytes rest).length
      rw [List.length_append, String.length_utf8EncodeChar, List.length_cons]
      omega

/-- A text is read as it is without the guards, if its bits can be counted. -/
theorem read_follows (fits : 8 * (Literal.bytes text).length < modulus 64) :
    (read text).Follows (Literal.read text) := by
  have fewer {part : List Char} (isPart : List.Sublist part text) :
      (Literal.bytes part).length ≤ (Literal.bytes text).length :=
    (isPart.flatMap String.utf8EncodeChar).length_le
  have trimmed := Text.trim_sublist text
  rw [read, Literal.read]
  cases quoted : Literal.quotedBody? (Text.trim text) with
  | some body =>
      have inQuotes : List.Sublist body (Text.trim text) := by
        rw [Literal.quotedBody?_eq_some_iff.1 quoted]
        exact (List.sublist_append_left _ _).cons _
      have inText := fewer (inQuotes.trans trimmed)
      exact ofQuoted_follows (by omega)
  | none =>
      have inBytes := length_le_length_bytes (Text.trim text)
      have inText := fewer trimmed
      exact readNumber_follows (by omega)

/-- The vector of a literal is made as it is without the guards. -/
theorem exists_toVector
    {literal : Literal}
    (limits : literal.value.InLimits) :
    ∃ vector, toVector literal = .ok vector ∧ literal.toVector = .ok vector := by
  obtain ⟨fresh, creates, -⟩ :=
    LogicVector.exists_create ⟨limits.width_pos, limits.width_le⟩ .plain
  have created := LogicVector.create_readable creates
  have readable : (fresh.setSigned literal.signed).Readable :=
    ⟨created.isAllocated, created.wellFormed.congr rfl rfl rfl⟩
  obtain ⟨block, stored⟩ := LogicVector.exists_block readable.isAllocated
  obtain ⟨answer, commits, same, -⟩ := commit_agrees readable.wellFormed stored limits
  refine ⟨answer.1, ?_, ?_⟩
  · rw [toVector, bind_of_ok (liftM_eq_ok creates), bind_of_ok commits]
    rfl
  · exact bind_eq_ok_iff.2 ⟨fresh, creates, bind_eq_ok_iff.2 ⟨answer, same, rfl⟩⟩

/-- Reading a text runs to its end, and does what it does without the guards. -/
theorem ofLiteral_eq_ok (fits : 8 * (Literal.bytes text).length < modulus 64) :
    ∃ answer, (ofLiteral text).run = .ok answer ∧ LogicVector.ofLiteral text = liftM answer := by
  have follows := read_follows fits
  cases reads : Literal.read text with
  | error defect =>
      rw [reads] at follows
      refine ⟨_, follows.bind_of_error _, ?_⟩
      rw [LogicVector.ofLiteral, reads]
      rfl
  | ok literal =>
      obtain ⟨canonical, positive, small⟩ := Literal.inLimits_of_read reads
      obtain ⟨vector, converts, same⟩ := exists_toVector ⟨canonical, positive, small⟩
      rw [reads] at follows
      refine ⟨.ok (vector, literal.radix), follows.bind_of_ok ?_, ?_⟩
      · rw [liftM_bind_of_ok converts]
        exact follows_pure _
      · rw [LogicVector.ofLiteral, reads]
        change ((liftM literal.toVector : Except Failure LogicVector) >>= _) = _
        rw [same]
        rfl

end Texts

end Guarded
end FourState
