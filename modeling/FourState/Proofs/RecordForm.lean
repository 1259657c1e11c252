import FourState.Proofs.Record
import FourState.Proofs.TokenForm
import Mathlib.Algebra.Group.Nat.Defs

/-!
# What a record is

A record is a run of tokens: a width, a descriptor, and as many words as these
two ask for.  A text starts with one, or it has a first token that no record has
at its place.  Every reader is shown to decide between the two: it takes the
tokens of the form it reads, or stops right behind the token that offends.  So
reading a record and merging one agree on what a record is and on where the text
goes on, although one takes the words position by position and the other in one
run.
-/

namespace FourState

/-! ## Records in a text -/

/-- A decimal width within the limits. -/
def IsRecordWidth (width : Nat) (token : List Char) : Prop :=
  Numeral.Denotes 10 token width ∧ 1 ≤ width ∧ width ≤ 65536

/-- A decimal byte whose top bit and format bits are clear. -/
def IsRecordDescriptor (byte : Nat) (token : List Char) : Prop :=
  Numeral.Denotes 10 token byte ∧ byte < 2 ^ 8 ∧
    byte.testBit 7 = false ∧ byte.testBit 3 = false ∧ byte.testBit 2 = false

/-- A hexadecimal word. -/
def IsRecordWord (token : List Char) : Prop :=
  ∃ value, Numeral.Denotes 16 token value ∧ value < 2 ^ 32

/-- The number of words behind a header: one for every plane of every 32 bits, if the
descriptor says that the record holds words. -/
def wordTokens (width byte : Nat) : Nat :=
  if byte.testBit 4 then (width + 31) / 32 * (Kind.ofCode byte).planeCount else 0

/-- The text starts with the header of a record. -/
structure HasRecordHeader (text : List Char) (width byte : Nat) : Prop where
  isWidth : Text.TokenAt text 0 (IsRecordWidth width)
  isDescriptor : Text.TokenAt text 1 (IsRecordDescriptor byte)

/-- The text starts with a record. -/
structure HasRecord (text : List Char) (width byte : Nat) : Prop extends
    HasRecordHeader text width byte where
  isWord : ∀ index < wordTokens width byte, Text.TokenAt text (2 + index) IsRecordWord

/-- The token with a number is the first that no record has there; it may be missing. -/
def Offends (text : List Char) : Nat → Prop
  | 0 => ¬∃ width, Text.TokenAt text 0 (IsRecordWidth width)
  | 1 => (∃ width, Text.TokenAt text 0 (IsRecordWidth width)) ∧
      ¬∃ byte, Text.TokenAt text 1 (IsRecordDescriptor byte)
  | index + 2 => ∃ width byte, HasRecordHeader text width byte ∧ index < wordTokens width byte ∧
      (∀ earlier < index, Text.TokenAt text (2 + earlier) IsRecordWord) ∧
        ¬Text.TokenAt text (2 + index) IsRecordWord

section

variable {text : List Char} {width byte otherWidth otherByte : Nat}

theorem HasRecordHeader.unique
    (header : HasRecordHeader text width byte)
    (other : HasRecordHeader text otherWidth otherByte) :
    width = otherWidth ∧ byte = otherByte := by
  obtain ⟨_, isWidth, isOtherWidth⟩ := header.isWidth.exists_and other.isWidth
  obtain ⟨_, isDescriptor, isOtherDescriptor⟩ := header.isDescriptor.exists_and other.isDescriptor
  exact ⟨isWidth.1.unique (by decide) isOtherWidth.1,
    isDescriptor.1.unique (by decide) isOtherDescriptor.1⟩

/-- No token of a header offends. -/
theorem HasRecordHeader.not_offends
    (header : HasRecordHeader text width byte)
    {index : Nat}
    (inHeader : index < 2) :
    ¬Offends text index := by
  match index with
  | 0 => exact not_not_intro ⟨width, header.isWidth⟩
  | 1 => exact fun offends => offends.2 ⟨byte, header.isDescriptor⟩

/-- No token of a record offends. -/
theorem HasRecord.not_offends
    (record : HasRecord text width byte)
    (index : Nat) :
    ¬Offends text index := by
  match index with
  | 0 => exact record.toHasRecordHeader.not_offends Nat.zero_lt_two
  | 1 => exact record.toHasRecordHeader.not_offends Nat.one_lt_two
  | index + 2 =>
      rintro ⟨otherWidth, otherByte, header, inWords, -, notWord⟩
      obtain ⟨rfl, rfl⟩ := record.toHasRecordHeader.unique header
      exact notWord (record.isWord index inWords)

end

/-- The kind and the number of words that a descriptor byte asks for. -/
theorem Descriptor.kind_tokenCount_of_decode
    {byte : Nat}
    {descriptor : Descriptor}
    (decodes : decode? byte = some descriptor)
    (width : Nat) :
    descriptor.kind = Kind.ofCode byte ∧ descriptor.tokenCount width = wordTokens width byte := by
  unfold decode? at decodes
  split at decodes
  · contradiction
  · obtain ⟨format, -, rfl⟩ := Option.map_eq_some_iff.1 decodes
    exact ⟨rfl, rfl⟩

/-- The bytes that can be decoded are those whose top bit and format bits are clear. -/
theorem Descriptor.isSome_decode?_iff
    {byte : Nat}
    (inByte : byte < 2 ^ 8) :
    (decode? byte).isSome = true ↔
      byte.testBit 7 = false ∧ byte.testBit 3 = false ∧ byte.testBit 2 = false := by
  revert byte
  decide +kernel

namespace Reader

/-! ## Readers of one token -/

/-- The reader takes one token, whether or not it succeeds, and gives a value exactly
for the tokens of a form. -/
def TakesToken {item : Type} (take : Reader item) (form : item → List Char → Prop) : Prop :=
  ∀ text,
    (∃ value, take text = .ok value (Text.behind 1 text) ∧ Text.TokenAt text 0 (form value)) ∨
      ∃ error, take text = .error error (Text.behind 1 text) ∧
        ∀ value, ¬Text.TokenAt text 0 (form value)

theorem takesToken_number
    {radix : Nat}
    (radix_le : radix ≤ 16)
    (item : RecordItem)
    (bound : Nat) :
    TakesToken (number item radix bound)
      fun value token => Numeral.Denotes radix token value ∧ value < bound := by
  intro text
  simp only [Text.TokenAt, ← Numeral.below?_eq_some_iff radix_le]
  unfold number
  obtain ⟨splits, none, nothing⟩ | ⟨char, chars, splits, some⟩ := Text.splitToken_cases text
  · have missing : token item text = .error (.unexpectedEnd item) (Text.behind 1 text) := by
      rw [token, splits, nothing]
    exact Or.inr ⟨_, bind_of_error missing, by simp [none]⟩
  · have takes : token item text = .ok (char :: chars) (Text.behind 1 text) := by
      rw [token, splits]
    rw [bind_of_ok takes, some]
    cases reads : Numeral.below? radix bound (char :: chars) with
    | none => exact Or.inr ⟨_, rfl, by simp [reads]⟩
    | some value => exact Or.inl ⟨value, rfl, _, rfl, reads⟩

/-- A reader of one token can be followed by a check of what it gives. -/
theorem TakesToken.bind
    {first second : Type}
    {take : Reader first}
    {next : first → Reader second}
    {form : first → List Char → Prop}
    {checked : second → List Char → Prop}
    (takes : TakesToken take form)
    (narrows : ∀ token result, checked result token → ∃ value, form value token)
    (checks : ∀ value token, form value token →
      (∃ result, (∀ text, next value text = .ok result text) ∧ checked result token) ∨
        ∃ error, (∀ text, next value text = .error error text) ∧
          ∀ result, ¬checked result token) :
    TakesToken (take >>= next) checked := by
  intro text
  obtain ⟨value, taken, token, found, hasForm⟩ | ⟨error, fails, formless⟩ := takes text
  · rw [bind_of_ok taken]
    obtain ⟨result, continues, isChecked⟩ | ⟨error, stops, refused⟩ := checks value token hasForm
    · exact Or.inl ⟨result, continues _, token, found, isChecked⟩
    · exact Or.inr ⟨error, stops _,
        fun result isChecked => refused result (isChecked.of_getElem? found)⟩
  · refine Or.inr ⟨error, bind_of_error fails, ?_⟩
    rintro result ⟨token, found, isChecked⟩
    obtain ⟨value, hasForm⟩ := narrows token result isChecked
    exact formless value ⟨token, found, hasForm⟩

theorem takesToken_width : TakesToken Reader.width IsRecordWidth := by
  refine (takesToken_number (by decide) .width (modulus 64)).bind ?_ ?_
  · rintro token width ⟨denotes, -, inLimit⟩
    exact ⟨width, denotes, Nat.lt_of_le_of_lt inLimit (by decide)⟩
  · rintro value token ⟨denotes, -⟩
    by_cases zero : value = 0
    · refine Or.inr ⟨.zeroWidth, fun text => by rw [if_pos zero]; rfl, ?_⟩
      rintro width ⟨denotesWidth, positive, -⟩
      have same := denotes.unique (by decide) denotesWidth
      omega
    · by_cases tooWide : maxWidth < value
      · refine Or.inr ⟨.tooWide value, fun text => by rw [if_neg zero, if_pos tooWide]; rfl, ?_⟩
        rintro width ⟨denotesWidth, -, inLimit⟩
        have same := denotes.unique (by decide) denotesWidth
        have limit : maxWidth = 65536 := rfl
        omega
      · exact Or.inl ⟨value, fun text => by rw [if_neg zero, if_neg tooWide]; rfl, denotes,
          Nat.pos_of_ne_zero zero, Nat.not_lt.1 tooWide⟩

theorem takesToken_descriptor :
    TakesToken Reader.descriptor fun descriptor token =>
      ∃ byte, IsRecordDescriptor byte token ∧ Descriptor.decode? byte = some descriptor := by
  refine (takesToken_number (by decide) .descriptor 256).bind ?_ ?_
  · rintro token descriptor ⟨byte, ⟨denotes, inByte, -⟩, -⟩
    exact ⟨byte, denotes, inByte⟩
  · rintro byte token ⟨denotes, inByte⟩
    have valid := Descriptor.isSome_decode?_iff inByte
    cases decodes : Descriptor.decode? byte with
    | some descriptor =>
        rw [decodes] at valid
        exact Or.inl ⟨descriptor, fun text => rfl, byte, ⟨denotes, inByte, valid.1 rfl⟩, decodes⟩
    | none =>
        refine Or.inr ⟨.invalidDescriptor byte, fun text => rfl, ?_⟩
        rintro descriptor ⟨other, ⟨denotesOther, -⟩, decodesOther⟩
        obtain rfl := denotes.unique (by decide) denotesOther
        rw [decodes] at decodesOther
        contradiction

theorem takesToken_plane : TakesToken plane fun _ => IsRecordWord := by
  refine (takesToken_number (by decide) .plane (modulus 32)).bind ?_ ?_
  · exact fun token word isWord => isWord
  · exact fun value token isNumber => Or.inl ⟨_, fun text => rfl, value, isNumber⟩

/-! ## Readers of several tokens -/

/-- Taking one word after the other takes all of them, or stops right behind the first
token that is none. -/
theorem times_plane_cases (count : Nat) (text : List Char) :
    ((∀ index < count, Text.TokenAt text index IsRecordWord) ∧
        ∃ run, times plane count text = .ok run (Text.behind count text)) ∨
      ∃ error, ∃ index < count, (∀ earlier < index, Text.TokenAt text earlier IsRecordWord) ∧
        ¬Text.TokenAt text index IsRecordWord ∧
        times plane count text = .error error (Text.behind (index + 1) text) := by
  induction count generalizing text with
  | zero => exact Or.inl ⟨by simp, [], rfl⟩
  | succ count inductionHypothesis =>
      -- The tokens behind the first one are the others.
      have shift (index : Nat) :
          Text.TokenAt (Text.behind 1 text) index IsRecordWord ↔
            Text.TokenAt text (index + 1) IsRecordWord := by
        rw [Text.tokenAt_behind, Nat.add_comm]
      rw [times]
      obtain ⟨word, taken, isFirst⟩ | ⟨error, fails, noWord⟩ := takesToken_plane text
      · rw [bind_of_ok taken]
        obtain ⟨areOthers, run, takesOthers⟩ | ⟨error, index, inCount, earlier, noOther, fails⟩ :=
          inductionHypothesis (Text.behind 1 text)
        · simp only [shift] at areOthers
          rw [bind_of_ok takesOthers]
          exact Or.inl ⟨Nat.forall_lt_succ_left.2 ⟨isFirst, areOthers⟩, word :: run, rfl⟩
        · simp only [shift] at earlier noOther
          rw [bind_of_error fails]
          exact Or.inr ⟨error, index + 1, Nat.succ_lt_succ inCount,
            Nat.forall_lt_succ_left.2 ⟨isFirst, earlier⟩, noOther, rfl⟩
      · exact Or.inr ⟨error, 0, Nat.zero_lt_succ count, by simp, noWord 0, bind_of_error fails⟩

/-- Taking the header takes two tokens, or stops right behind the one of them that
offends. -/
theorem header_cases (text : List Char) :
    (∃ width byte descriptor, HasRecordHeader text width byte ∧
        Descriptor.decode? byte = some descriptor ∧
        header text = .ok (width, descriptor) (Text.behind 2 text)) ∨
      ∃ error index, index < 2 ∧ Offends text index ∧
        header text = .error error (Text.behind (index + 1) text) := by
  unfold header
  obtain ⟨width, takesWidth, isWidth⟩ | ⟨error, fails, noWidth⟩ := takesToken_width text
  · rw [bind_of_ok takesWidth]
    obtain ⟨descriptor, takesDescriptor, isDescriptor⟩ | ⟨error, fails, noDescriptor⟩ :=
      takesToken_descriptor (Text.behind 1 text)
    · obtain ⟨token, found, byte, isDescriptor, decodes⟩ := Text.tokenAt_behind.1 isDescriptor
      rw [bind_of_ok takesDescriptor]
      exact Or.inl ⟨width, byte, descriptor, ⟨isWidth, token, found, isDescriptor⟩, decodes, rfl⟩
    · refine Or.inr ⟨error, 1, Nat.one_lt_two, ⟨⟨width, isWidth⟩, ?_⟩, bind_of_error fails⟩
      rintro ⟨byte, token, found, isDescriptor⟩
      have valid := (Descriptor.isSome_decode?_iff isDescriptor.2.1).2 isDescriptor.2.2
      obtain ⟨descriptor, decodes⟩ := Option.isSome_iff_exists.1 valid
      exact noDescriptor descriptor
        (Text.tokenAt_behind.2 ⟨token, found, byte, isDescriptor, decodes⟩)
  · exact Or.inr ⟨error, 0, Nat.zero_lt_two, fun ⟨width, isWidth⟩ => noWidth width isWidth,
      bind_of_error fails⟩

section

variable
  {text : List Char}
  {width byte : Nat}
  {descriptor : Descriptor}
  (hasHeader : HasRecordHeader text width byte)
  (decodes : Descriptor.decode? byte = some descriptor)

include hasHeader decodes

/-- Taking the word tokens behind a header takes all tokens of the record, or stops right
behind the one that offends. -/
theorem planes_cases :
    (HasRecord text width byte ∧ ∃ run, planes width descriptor (Text.behind 2 text) =
        .ok run (Text.behind (2 + wordTokens width byte) text)) ∨
      ∃ error index, Offends text index ∧
        planes width descriptor (Text.behind 2 text) =
          .error error (Text.behind (index + 1) text) := by
  rw [planes, (Descriptor.kind_tokenCount_of_decode decodes width).2]
  obtain ⟨areWords, run, takes⟩ | ⟨error, index, inCount, earlier, noWord, fails⟩ :=
    times_plane_cases (wordTokens width byte) (Text.behind 2 text)
  · simp only [Text.tokenAt_behind] at areWords
    rw [takes, Text.behind_add]
    exact Or.inl ⟨⟨hasHeader, areWords⟩, run, rfl⟩
  · simp only [Text.tokenAt_behind] at earlier noWord
    rw [fails, ← Text.behind_add, ← Nat.add_assoc, Nat.add_comm 2 index]
    exact Or.inr ⟨error, index + 2, ⟨width, byte, hasHeader, inCount, earlier, noWord⟩, rfl⟩

/-- Taking the words of a record decides as taking its word tokens does. -/
theorem words_cases :
    (HasRecord text width byte ∧ ∃ block, words width descriptor (Text.behind 2 text) =
        .ok block (Text.behind (2 + wordTokens width byte) text)) ∨
      ∃ error index, Offends text index ∧
        words width descriptor (Text.behind 2 text) =
          .error error (Text.behind (index + 1) text) := by
  rw [words_eq_match]
  obtain ⟨hasRecord, run, takes⟩ | ⟨error, index, offends, fails⟩ :=
    planes_cases hasHeader decodes
  · rw [takes]
    exact Or.inl ⟨hasRecord, _, rfl⟩
  · rw [fails]
    exact Or.inr ⟨error, index, offends, rfl⟩

end

end Reader

namespace LogicVector

variable {text middle : List Char}

/-! ## Reading and merging -/

/-- Where header and words leave the text, or fail, a record does. -/
theorem rest_readRecord_of_header
    {width : Nat}
    {descriptor : Descriptor}
    (takesHeader : Reader.header text = .ok (width, descriptor) middle) :
    (readRecord text).result.map Prod.snd =
      match Reader.words width descriptor middle with
      | .error error rest => .error (.record error rest)
      | .ok _ rest => .ok rest := by
  unfold readRecord Reader.record
  rw [Reader.bind_of_ok takesHeader]
  dsimp only
  cases takesWords : Reader.words width descriptor middle with
  | error error rest =>
      rw [Reader.bind_of_error takesWords]
      rfl
  | ok block rest =>
      rw [Reader.bind_of_ok takesWords]
      rfl

theorem rest_readRecord_of_header_error
    {error : RecordError}
    (fails : Reader.header text = .error error middle) :
    (readRecord text).result.map Prod.snd = .error (.record error middle) := by
  unfold readRecord Reader.record
  rw [Reader.bind_of_error fails]
  rfl

/-- Reading takes the tokens of a record at the front of the text, or fails right behind
the token that offends. -/
theorem rest_readRecord_cases (text : List Char) :
    (∃ width byte, HasRecord text width byte ∧
        (readRecord text).result.map Prod.snd =
          .ok (Text.behind (2 + wordTokens width byte) text)) ∨
      ∃ error index, Offends text index ∧
        (readRecord text).result.map Prod.snd =
          .error (.record error (Text.behind (index + 1) text)) := by
  obtain ⟨width, byte, descriptor, hasHeader, decodes, takesHeader⟩ |
    ⟨error, index, -, offends, fails⟩ := Reader.header_cases text
  · rw [rest_readRecord_of_header takesHeader]
    obtain ⟨hasRecord, block, takesWords⟩ | ⟨error, index, offends, fails⟩ :=
      Reader.words_cases hasHeader decodes
    · rw [takesWords]
      exact Or.inl ⟨width, byte, hasRecord, rfl⟩
    · rw [fails]
      exact Or.inr ⟨error, index, offends, rfl⟩
  · exact Or.inr ⟨error, index, offends, rest_readRecord_of_header_error fails⟩

/-- Merging leaves the text like reading, or fails like it, unless the header of the record
does not suit the vector. -/
theorem rest_mergeRecord
    {vector : LogicVector}
    {options : RecordOptions}
    (suits : ∀ width byte, HasRecordHeader text width byte →
      vector.kind = Kind.ofCode byte ∧ (width = vector.width ∨ options.strictMerge = false)) :
    (vector.mergeRecord text options).result.map Prod.snd =
      (readRecord text).result.map Prod.snd := by
  obtain ⟨width, byte, descriptor, hasHeader, decodes, takesHeader⟩ |
    ⟨error, index, -, -, fails⟩ := Reader.header_cases text
  · obtain ⟨sameKind, suitable⟩ := suits width byte hasHeader
    have kind := (Descriptor.kind_tokenCount_of_decode decodes width).1
    rw [rest_readRecord_of_header takesHeader,
      result_mergeRecord_of_suitable takesHeader (kind.trans sameKind.symm) suitable]
    cases Reader.words width descriptor (Text.behind 2 text) <;> rfl
  · rw [rest_readRecord_of_header_error fails, mergeRecord, fails]
    rfl

/-- A vector can be created with the width of a header. -/
theorem exists_create_of_hasRecordHeader
    {width byte : Nat}
    (hasHeader : HasRecordHeader text width byte)
    (kind : Kind)
    (allocate : Bool) :
    ∃ vector, create width kind allocate = .ok vector := by
  obtain ⟨token, -, -, positive, inLimit⟩ := hasHeader.isWidth
  have notZero : 0 < width := positive
  have inMax : width ≤ maxWidth := inLimit
  unfold create
  rw [require_bind_of_true notZero, require_bind_of_true inMax]
  exact ⟨_, rfl⟩

/-- Reading, merging and skipping agree on what a record is.  A text can be read exactly
if it starts with a record, and what remains is the text right behind its tokens.  If it
cannot be read, that is no broken condition of use: a vector can be created for every
header, and the failure tells a record error and the text right behind the token that
offends, nothing if there is no such token.  Merging the same text into a vector of the
kind of the record, and of its width unless records of other widths may be skipped,
succeeds, fails and goes on like reading. -/
theorem record_agreement (text : List Char) :
    (∀ rest, (∃ vector, (readRecord text).result = .ok (vector, rest)) ↔
      ∃ width byte, HasRecord text width byte ∧
        rest = Text.behind (2 + wordTokens width byte) text) ∧
    (∀ width byte, HasRecordHeader text width byte →
      ∃ vector, create width (Kind.ofCode byte) (byte.testBit 4) = .ok vector) ∧
    (∀ failure, (readRecord text).result = .error failure →
      ∃ error index, failure = .record error (Text.behind (index + 1) text) ∧
        Offends text index ∧
        ((Text.tokens text).length ≤ index → Text.behind (index + 1) text = [])) ∧
    ∀ (vector : LogicVector) (options : RecordOptions),
      (∀ width byte, HasRecordHeader text width byte →
        vector.kind = Kind.ofCode byte ∧
          (width = vector.width ∨ options.strictMerge = false)) →
      (vector.mergeRecord text options).result.map Prod.snd =
        (readRecord text).result.map Prod.snd := by
  have reads := rest_readRecord_cases text
  refine ⟨?_, fun width byte hasHeader => exists_create_of_hasRecordHeader hasHeader _ _, ?_,
    fun vector options suits => rest_mergeRecord suits⟩
  · intro rest
    constructor
    · rintro ⟨vector, succeeds⟩
      rw [succeeds] at reads
      obtain ⟨width, byte, hasRecord, leaves⟩ | ⟨error, index, -, fails⟩ := reads
      · exact ⟨width, byte, hasRecord, Except.ok.inj leaves⟩
      · contradiction
    · rintro ⟨width, byte, hasRecord, rfl⟩
      obtain ⟨otherWidth, otherByte, other, leaves⟩ | ⟨error, index, offends, -⟩ := reads
      · obtain ⟨rfl, rfl⟩ := hasRecord.toHasRecordHeader.unique other.toHasRecordHeader
        obtain ⟨⟨vector, rest⟩, succeeds, rfl⟩ := Outcome.result_map_eq_ok_iff.1 leaves
        exact ⟨vector, succeeds⟩
      · exact absurd offends (hasRecord.not_offends index)
  · intro failure fails
    rw [fails] at reads
    obtain ⟨width, byte, -, leaves⟩ | ⟨error, index, offends, leaves⟩ := reads
    · contradiction
    · exact ⟨error, index, Except.error.inj leaves, offends, Text.behind_eq_nil⟩

/-- A record of 33 bits in two planes, which an 8-bit vector may skip. -/
theorem record_agreement_skipped :
    ∃ vector, create 8 .plain true = .ok vector ∧
      (∀ width byte, HasRecordHeader "33 16 1 0 +FF 7 end".toList width byte →
        vector.kind = Kind.ofCode byte ∧ (width = vector.width ∨ false = false)) ∧
      (vector.mergeRecord "33 16 1 0 +FF 7 end".toList ⟨true, false⟩).result.map Prod.snd =
        (readRecord "33 16 1 0 +FF 7 end".toList).result.map Prod.snd ∧
      (readRecord "33 16 1 0 +FF 7 end".toList).result.map Prod.snd = .ok " end".toList := by
  have suits : ∀ width byte, HasRecordHeader "33 16 1 0 +FF 7 end".toList width byte →
      Kind.plain = Kind.ofCode byte := by
    intro width byte hasHeader
    have second : (Text.tokens "33 16 1 0 +FF 7 end".toList)[1]? = some "16".toList := by
      decide +kernel
    have reads : Numeral.natural? 10 "16".toList = some 16 := by decide +kernel
    have denotes := (hasHeader.isDescriptor.of_getElem? second).1
    rw [← Numeral.natural?_eq_some_iff (by decide), reads] at denotes
    cases denotes
    rfl
  refine ⟨_, rfl, ?_, ?_, by decide +kernel⟩
  · intro width byte hasHeader
    exact ⟨suits width byte hasHeader, Or.inr rfl⟩
  · exact (record_agreement _).2.2.2 _ _ fun width byte hasHeader =>
      ⟨suits width byte hasHeader, Or.inr rfl⟩

end LogicVector
end FourState
