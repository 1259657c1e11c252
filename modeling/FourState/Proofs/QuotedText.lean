import FourState.Proofs.LiteralReading

/-!
# Quoted texts

A quoted text stands for its bytes in UTF-8, eight bits a byte, the first byte on top.  The
vector of a text is written back byte by byte, each byte as the character with its number
and without leading zero bytes: a text of ASCII characters that does not start with a zero
comes back, and no other text does.  Between quotation marks a text is read as a literal in
the same way, with all the blanks and marks in it.
-/

namespace FourState

/-! ## Bytes -/

/-- The number whose digits to the base 256 are bytes, the first one on top. -/
def bytesValue (bytes : List UInt8) : Nat :=
  bytes.foldl (fun number byte => number * 256 + byte.toNat) 0

theorem index_lt_of_getElem?
    {bytes : List UInt8}
    {index : Nat}
    {byte : UInt8}
    (isByte : bytes.reverse[index]? = some byte) :
    index < bytes.length := by
  rw [← List.length_reverse]
  exact (List.getElem?_eq_some_iff.1 isByte).1

/-- Counted from the last byte, each byte gives eight bits of the number. -/
theorem testBit_bytesValue
    (bytes : List UInt8)
    (index : Nat)
    {offset : Nat}
    (inByte : offset < 8) :
    (bytesValue bytes).testBit (8 * index + offset) =
      bytes.reverse[index]?.any fun byte => byte.toNat.testBit offset := by
  rw [bytesValue, List.foldl_eq_foldr_reverse]
  generalize bytes.reverse = bytes
  induction bytes generalizing index with
  | nil => simp
  | cons byte bytes inductionHypothesis =>
      have joined (number : Nat) : number * 256 + byte.toNat = 2 ^ 8 * number + byte.toNat := by
        omega
      rw [List.foldr_cons, joined, Nat.testBit_two_pow_mul_add _ byte.toNat_lt]
      cases index with
      | zero =>
          rw [if_pos (by omega), Nat.mul_zero, Nat.zero_add]
          rfl
      | succ index =>
          have shifted : 8 * (index + 1) + offset - 8 = 8 * index + offset := by omega
          rw [if_neg (by omega), shifted, inductionHypothesis, List.getElem?_cons_succ]

/-- Bytes as the characters with their numbers, without leading zero bytes. -/
def writtenBytes (bytes : List UInt8) : List Char :=
  (bytes.dropWhile fun byte => byte == 0).map fun byte => Char.ofNat byte.toNat

/-- Bytes that do not start with a zero are all written. -/
theorem writtenBytes_of_head?
    {bytes : List UInt8}
    (notZero : bytes.head? ≠ some 0) :
    writtenBytes bytes = bytes.map fun byte => Char.ofNat byte.toNat := by
  cases bytes with
  | nil => rfl
  | cons byte rest =>
      rw [List.head?_cons, ne_eq, Option.some.injEq] at notZero
      rw [writtenBytes, List.dropWhile_cons_of_neg (by simpa using notZero)]

/-- What is written does not start with a zero. -/
theorem head?_writtenBytes (bytes : List UInt8) : (writtenBytes bytes).head? ≠ some '\x00' := by
  rw [writtenBytes, List.head?_map]
  intro startsZero
  obtain ⟨byte, isHead, isZero⟩ := Option.map_eq_some_iff.1 startsZero
  have kept := List.head?_dropWhile_not (fun byte => byte == 0) bytes
  rw [isHead] at kept
  have isValid : byte.toNat.isValidChar := .inl (Nat.lt_trans byte.toNat_lt (by decide))
  rw [Char.ofNat, dif_pos isValid] at isZero
  have number : byte.toNat = 0 := congrArg Char.toNat isZero
  exact absurd (UInt8.toNat_inj.1 number) (by simpa using kept)

namespace Buffer

variable {value : Buffer} {bytes : List UInt8}

/-- The buffer has the bits of bytes, eight a byte, those of the last byte at the bottom. -/
structure HasBytes (value : Buffer) (bytes : List UInt8) : Prop where
  width_eq : value.width = 8 * bytes.length
  bit_eq : ∀ index offset byte, offset < 8 → bytes.reverse[index]? = some byte →
    value.bit (8 * index + offset) = Bit.ofBool (byte.toNat.testBit offset)

theorem hasBytes_ofNat (bytes : List UInt8) :
    (ofNat (8 * bytes.length) (bytesValue bytes)).HasBytes bytes where
  width_eq := rfl
  bit_eq index offset byte inByte isByte := by
    have inBytes := index_lt_of_getElem? isByte
    rw [bit_ofNat, if_pos (by omega), testBit_bytesValue bytes index inByte, isByte]
    rfl

/-- A group of eight bits has the number of its byte. -/
theorem HasBytes.groupValue_eq
    (hasBytes : value.HasBytes bytes)
    {index : Nat}
    {byte : UInt8}
    (isByte : bytes.reverse[index]? = some byte) :
    Bit.groupValue (value.group (index * 8) 8) = byte.toNat := by
  have inBytes := index_lt_of_getElem? isByte
  have isWhole : min 8 (value.width - index * 8) = 8 := by
    rw [hasBytes.width_eq]
    omega
  apply Nat.eq_of_testBit_eq
  intro offset
  rw [Bit.testBit_groupValue, group, isWhole, List.getElem?_map]
  by_cases inByte : offset < 8
  · rw [List.getElem?_range inByte, Nat.mul_comm index]
    simp only [Option.map_some, hasBytes.bit_eq index offset byte inByte isByte]
    cases byte.toNat.testBit offset <;> decide
  · have above : byte.toNat < 2 ^ offset :=
      Nat.lt_of_lt_of_le byte.toNat_lt (Nat.pow_le_pow_right (by decide) (Nat.not_lt.1 inByte))
    rw [Nat.testBit_lt_two_pow above, List.getElem?_eq_none (by simpa using inByte)]
    rfl

/-- The bytes are what is written. -/
theorem HasBytes.renderQuoted_eq (hasBytes : value.HasBytes bytes) :
    value.renderQuoted = writtenBytes bytes := by
  have count : wordsFor 8 value.width = bytes.length := by
    rw [hasBytes.width_eq, wordsFor]
    omega
  have numbers : ((List.range bytes.length).map fun index =>
      Bit.groupValue (value.group (index * 8) 8)) = bytes.reverse.map UInt8.toNat := by
    apply List.ext_getElem (by simp)
    intro index inRange inBytes
    have isByte := List.getElem?_eq_getElem (by simpa using inBytes : index < bytes.reverse.length)
    rw [List.getElem_map, List.getElem_range, List.getElem_map, hasBytes.groupValue_eq isByte]
  have isZero : ((fun number : Nat => number == 0) ∘ UInt8.toNat) =
      fun byte : UInt8 => byte == 0 := by
    ext byte
    simp [← UInt8.toNat_inj]
  rw [renderQuoted, count, List.map_reverse, numbers, List.map_reverse, List.reverse_reverse,
    List.dropWhile_map, isZero, List.map_map]
  rfl

end Buffer

/-! ## The bytes of a text -/

namespace Literal

variable {text : List Char}

theorem bytes_cons (char : Char) (rest : List Char) :
    bytes (char :: rest) = String.utf8EncodeChar char ++ bytes rest :=
  rfl

theorem bytes_of_isAscii (isAscii : ∀ char ∈ text, char.toNat < 128) :
    bytes text = text.map fun char => char.val.toUInt8 := by
  induction text with
  | nil => rfl
  | cons char rest inductionHypothesis =>
      have isOne : char.utf8Size = 1 :=
        Char.utf8Size_eq_one_iff.2 (Nat.le_of_lt_succ (List.forall_mem_cons.1 isAscii).1)
      rw [bytes_cons, String.utf8EncodeChar_eq_singleton isOne,
        inductionHypothesis (List.forall_mem_cons.1 isAscii).2]
      rfl

/-- Only an ASCII text has no more bytes than characters. -/
theorem isAscii_of_length_bytes
    (sameLength : (bytes text).length = text.length) :
    ∀ char ∈ text, char.toNat < 128 := by
  induction text with
  | nil => nofun
  | cons char rest inductionHypothesis =>
      have positive := char.utf8Size_pos
      have restLonger := Guarded.length_le_length_bytes rest
      rw [bytes_cons, List.length_append, String.length_utf8EncodeChar,
        List.length_cons] at sameLength
      have isOne : char.utf8Size = 1 := by omega
      have isSmall : char.toNat ≤ 127 := Char.utf8Size_eq_one_iff.1 isOne
      rw [List.forall_mem_cons]
      exact ⟨Nat.lt_succ_of_le isSmall, inductionHypothesis (by omega)⟩

/-- The bytes start with a zero only if the text does. -/
theorem head?_of_head?_bytes (startsZero : (bytes text).head? = some 0) :
    text.head? = some '\x00' := by
  cases text with
  | nil => contradiction
  | cons char rest =>
      have isZero : char.toNat = 0 := by
        -- The first of several bytes has its top bits set.
        rw [bytes_cons, String.utf8EncodeChar] at startsZero
        change char.val.toNat = 0
        split_ifs at startsZero <;>
          simp only [List.cons_append, List.head?_cons, Option.some.injEq, ← UInt8.toNat_inj,
            UInt8.toNat_ofNat', UInt8.toNat_zero] at startsZero <;> omega
      exact congrArg some (Char.toNat_inj.1 isZero)

/-- What is written of a text is the text exactly if it is an ASCII text that does not start
with a zero. -/
theorem writtenBytes_eq_iff (text : List Char) :
    writtenBytes (bytes text) = text ↔
      (∀ char ∈ text, char.toNat < 128) ∧ text.head? ≠ some '\x00' := by
  have allWritten (notZero : text.head? ≠ some '\x00') :=
    writtenBytes_of_head? (mt head?_of_head?_bytes notZero)
  constructor
  · intro same
    have notZero := head?_writtenBytes (bytes text)
    rw [same] at notZero
    rw [allWritten notZero] at same
    refine ⟨isAscii_of_length_bytes ?_, notZero⟩
    rw [← List.length_map, same]
  · rintro ⟨isAscii, notZero⟩
    rw [allWritten notZero, bytes_of_isAscii isAscii, List.map_map]
    refine (List.map_congr_left ?_).trans text.map_id
    intro char isMember
    have isByte : char.val.toUInt8.toNat = char.toNat :=
      Nat.mod_eq_of_lt (Nat.lt_trans (isAscii char isMember) (by decide))
    rw [Function.comp_apply, isByte, Char.ofNat_toNat, id]

/-! ## The literal of a text -/

/-- A quoted text is refused if its bytes make no width for a vector, and otherwise is the
number of its bytes. -/
theorem ofQuoted_eq (text : List Char) :
    ofQuoted text = (checkWidth (8 * (bytes text).length)).map fun _ =>
      { radix := .quoted, signed := false,
        value := .ofNat (8 * (bytes text).length) (bytesValue (bytes text)) } := by
  rw [ofQuoted]
  cases checkWidth (8 * (bytes text).length) <;> rfl

/-- Between quotation marks all of the text counts, and nothing else does. -/
theorem read_inMarks (text : List Char) : read ('\x22' :: (text ++ ['\x22'])) = ofQuoted text := by
  rw [read, Text.trim_of_ends text (by decide) (by decide), quotedBody?_eq_some_iff.2 rfl]

end Literal

namespace LogicVector

open Literal

variable {vector : LogicVector} {text : List Char} {bytes : List UInt8}

/-- The bits of a vector are those of bytes, eight a byte, those of the last byte at the
bottom. -/
structure HasBytes (vector : LogicVector) (bytes : List UInt8) : Prop where
  width_eq : vector.width = 8 * bytes.length
  bit?_eq : ∀ index offset byte, offset < 8 → bytes.reverse[index]? = some byte →
    vector.bit? (8 * index + offset) = some (Bit.ofBool (byte.toNat.testBit offset))

theorem HasBytes.isKnown
    (hasBytes : vector.HasBytes bytes)
    (isAllocated : vector.storage.isAllocated = true) :
    vector.IsKnown where
  isAllocated := isAllocated
  bit position inside := by
    have inBytes : position / 8 < bytes.reverse.length := by
      rw [List.length_reverse]
      have := hasBytes.width_eq
      omega
    have shows := hasBytes.bit?_eq _ (position % 8) _ (Nat.mod_lt _ (by decide))
      (List.getElem?_eq_getElem inBytes)
    rw [Nat.div_add_mod] at shows
    exact ⟨_, shows⟩

/-- A vector with bytes is written as its bytes. -/
theorem HasBytes.render_eq
    (hasBytes : vector.HasBytes bytes)
    (readable : vector.Readable) :
    vector.render .quoted = .ok (writtenBytes bytes) := by
  obtain ⟨value, reads, -, sameWidth, -⟩ := readable.ofVector
  have valueBytes : value.HasBytes bytes := by
    refine ⟨sameWidth.trans hasBytes.width_eq, fun index offset byte inByte isByte => ?_⟩
    have inBytes := index_lt_of_getElem? isByte
    have inside : 8 * index + offset < value.width := by
      rw [sameWidth, hasBytes.width_eq]
      omega
    have shows := bit?_of_ofVector reads inside
    rw [hasBytes.bit?_eq index offset byte inByte isByte] at shows
    exact (Option.some.inj shows).symm
  rw [render, reads, ← valueBytes.renderQuoted_eq]
  rfl

theorem ofQuoted_of_error
    {defect : LiteralError}
    (refuses : checkWidth (8 * (Literal.bytes text).length) = .error defect) :
    ofQuoted text = .error (.literal defect) := by
  rw [ofQuoted, ofQuoted_eq, refuses]
  rfl

/-- A text whose bytes make a width becomes a plain vector with its bytes. -/
theorem exists_ofQuoted
    (inLimits : 0 < 8 * (Literal.bytes text).length ∧
      8 * (Literal.bytes text).length ≤ maxWidth) :
    ∃ vector, ofQuoted text = .ok vector ∧
      vector.IsPlain (8 * (Literal.bytes text).length) false ∧
      vector.HasBytes (Literal.bytes text) := by
  have reads := Literal.ofQuoted_eq text
  rw [checkWidth_eq_ok_iff.2 inLimits] at reads
  have hasBytes := Buffer.hasBytes_ofNat (Literal.bytes text)
  obtain ⟨vector, converts, isPlain, shows⟩ := exists_plainVector
    { radix := .quoted, signed := false,
      value := .ofNat (8 * (Literal.bytes text).length) (bytesValue (Literal.bytes text)) }
    inLimits (Buffer.canonical_ofNat _ _)
  refine ⟨vector, ?_, isPlain, isPlain.width_eq, fun index offset byte inByte isByte => ?_⟩
  · exact bind_eq_ok_iff.2 ⟨_, liftM_literalError_eq_ok_iff.2 reads,
      liftM_fault_eq_ok_iff.2 converts⟩
  · have inBytes := index_lt_of_getElem? isByte
    rw [shows _ (by change _ < 8 * (Literal.bytes text).length; omega),
      hasBytes.bit_eq index offset byte inByte isByte]

/-- A text has no bytes, or too many, or becomes a vector with its bytes. -/
theorem ofQuoted_cases (text : List Char) :
    ((Literal.bytes text).length = 0 ∧ ofQuoted text = .error (.literal .zeroWidth)) ∨
    (maxWidth < 8 * (Literal.bytes text).length ∧
      ofQuoted text = .error (.literal (.tooWide (8 * (Literal.bytes text).length)))) ∨
    (0 < (Literal.bytes text).length ∧ 8 * (Literal.bytes text).length ≤ maxWidth ∧
      ∃ vector, ofQuoted text = .ok vector ∧
        vector.IsPlain (8 * (Literal.bytes text).length) false ∧
        vector.HasBytes (Literal.bytes text)) := by
  by_cases isZero : (Literal.bytes text).length = 0
  · exact .inl ⟨isZero, ofQuoted_of_error (by rw [isZero]; rfl)⟩
  · by_cases tooWide : maxWidth < 8 * (Literal.bytes text).length
    · exact .inr (.inl ⟨tooWide, ofQuoted_of_error (checkWidth_of_lt tooWide)⟩)
    · exact .inr (.inr ⟨by omega, by omega, exists_ofQuoted ⟨by omega, by omega⟩⟩)

/-- Reading a text in quotation marks as a literal is reading the text. -/
theorem ofLiteral_inMarks (text : List Char) :
    ofLiteral ('\x22' :: (text ++ ['\x22'])) =
      (ofQuoted text).map fun vector => (vector, .quoted) := by
  rw [ofLiteral, read_inMarks, ofQuoted, ofQuoted_eq]
  cases checkWidth (8 * (Literal.bytes text).length) with
  | error defect => rfl
  | ok =>
      change (liftM (Literal.toVector _) >>= _) = Except.map _ (liftM (Literal.toVector _))
      cases Literal.toVector _ <;> rfl

/-- What reading a quoted text does. -/
structure ReadsQuoted (text : List Char) : Prop where
  /-- The bytes are those of the text in UTF-8. -/
  utf8 : (String.ofList text).toUTF8 = (Literal.bytes text).toByteArray
  /-- A text without bytes is refused, and nothing else is for that reason. -/
  zeroWidth : ofQuoted text = .error (.literal .zeroWidth) ↔ (Literal.bytes text).length = 0
  /-- A text with too many bytes is refused with their width, and nothing else is for that
  reason. -/
  tooWide : ∀ width, ofQuoted text = .error (.literal (.tooWide width)) ↔
    maxWidth < 8 * (Literal.bytes text).length ∧ width = 8 * (Literal.bytes text).length
  /-- Any other text becomes a known plain vector with its bytes, and is written back as them,
  without leading zeros. -/
  value : 0 < (Literal.bytes text).length → 8 * (Literal.bytes text).length ≤ maxWidth →
    ∃ vector, ofQuoted text = .ok vector ∧
      vector.IsPlain (8 * (Literal.bytes text).length) false ∧ vector.IsKnown ∧
      vector.HasBytes (Literal.bytes text) ∧
      vector.render .quoted = .ok (writtenBytes (Literal.bytes text))
  /-- What is written back is the text exactly if it is an ASCII text that does not start
  with a zero. -/
  roundTrip : ∀ vector, ofQuoted text = .ok vector →
    (vector.render .quoted = .ok text ↔
      (∀ char ∈ text, char.toNat < 128) ∧ text.head? ≠ some '\x00')
  /-- Between quotation marks the text is a literal with the same vector or the same error. -/
  literal : ofLiteral ('\x22' :: (text ++ ['\x22'])) =
    (ofQuoted text).map fun vector => (vector, .quoted)

/-- Every quoted text is read so. -/
theorem readsQuoted (text : List Char) : ReadsQuoted text where
  utf8 := rfl
  zeroWidth := by
    obtain ⟨isZero, refuses⟩ | ⟨tooWide, refuses⟩ | ⟨positive, -, vector, reads, -⟩ :=
      ofQuoted_cases text
    · exact iff_of_true refuses isZero
    · exact iff_of_false (by rw [refuses]; nofun) (by omega)
    · exact iff_of_false (by rw [reads]; nofun) (by omega)
  tooWide width := by
    obtain ⟨isZero, refuses⟩ | ⟨tooWide, refuses⟩ | ⟨-, inLimits, vector, reads, -⟩ :=
      ofQuoted_cases text
    · exact iff_of_false (by rw [refuses]; nofun) (by omega)
    · rw [refuses, Except.error.injEq, Failure.literal.injEq, LiteralError.tooWide.injEq,
        eq_comm, and_iff_right tooWide]
    · exact iff_of_false (by rw [reads]; nofun) (by omega)
  value positive inLimits := by
    obtain ⟨vector, reads, isPlain, hasBytes⟩ :=
      exists_ofQuoted ⟨Nat.mul_pos (by decide : 0 < 8) positive, inLimits⟩
    exact ⟨vector, reads, isPlain, hasBytes.isKnown isPlain.readable.isAllocated, hasBytes,
      hasBytes.render_eq isPlain.readable⟩
  roundTrip vector reads := by
    obtain ⟨-, refuses⟩ | ⟨-, refuses⟩ | ⟨-, -, read, gives, isPlain, hasBytes⟩ :=
      ofQuoted_cases text
    · rw [reads] at refuses
      contradiction
    · rw [reads] at refuses
      contradiction
    · obtain rfl : vector = read := Except.ok.inj (reads.symm.trans gives)
      rw [hasBytes.render_eq isPlain.readable, Except.ok.injEq, writtenBytes_eq_iff]
  literal := ofLiteral_inMarks text

/-- Blanks, marks and a character of two bytes. -/
def markText : List Char :=
  [' ', '\x22', '\u00e9', '\x27']

theorem readsQuoted_markText :
    ∃ vector, ofQuoted markText = .ok vector ∧ vector.IsPlain 40 false ∧
      vector.bit? 37 = some Bit.one ∧
      vector.render .quoted = .ok [' ', '\x22', '\u00c3', '\u00a9', '\x27'] ∧
      vector.render .quoted ≠ .ok markText ∧
      ofLiteral ('\x22' :: (markText ++ ['\x22'])) = .ok (vector, .quoted) := by
  have reading := readsQuoted markText
  obtain ⟨vector, reads, isPlain, -, hasBytes, written⟩ :=
    reading.value (by decide) (by decide)
  have literal := reading.literal
  rw [reads] at literal
  refine ⟨vector, reads, isPlain, hasBytes.bit?_eq 4 5 0x20 (by decide) (by decide), ?_, ?_,
    literal⟩
  · rw [written]
    decide
  · rw [ne_eq, reading.roundTrip vector reads]
    rintro ⟨isAscii, -⟩
    exact absurd (isAscii '\u00e9' (by decide)) (by decide)

end LogicVector
end FourState
