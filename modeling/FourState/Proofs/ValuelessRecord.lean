import FourState.Proofs.Preservation
import FourState.Proofs.RecordText
import FourState.Proofs.TokenForm

/-!
# Records without data

A record that is written without data has as many tokens as one with data, but
shows the value of a new vector in place of the own one.  So what is read back
has the header and the coverage of the vector and a value that says nothing, and
vectors that differ in their values only have the same record.
-/

namespace FourState

/-! ## The tokens of a record -/

/-- Words without blanks are the tokens of a text that has each of them behind a space. -/
theorem Text.tokens_flatMap_space
    {words : List (List Char)}
    (plain : ∀ word ∈ words, word ≠ [] ∧ ∀ char ∈ word, isBlank char = false) :
    tokens (words.flatMap fun word => ' ' :: word) = words := by
  induction words with
  | nil => rfl
  | cons word others inductionHypothesis =>
      obtain ⟨⟨notEmpty, notBlank⟩, othersPlain⟩ := List.forall_mem_cons.1 plain
      have breaks : Breaks (others.flatMap fun word => ' ' :: word) :=
        breaks_flatMap fun _ _ => Reader.breaks_token _
      rw [List.flatMap_cons, List.cons_append, tokens_cons_of_blank (by decide),
        tokens_append notBlank notEmpty breaks, inductionHypothesis othersPlain]

namespace LogicVector

/-- The words of a record are written in hexadecimal. -/
theorem exists_of_mem_recordWords
    {vector : LogicVector}
    {options : RecordOptions}
    {word : List Char}
    (mem : word ∈ vector.recordWords options) :
    ∃ value, word = Numeral.hexadecimal value := by
  unfold recordWords at mem
  split at mem
  · obtain ⟨index, -, inSlice⟩ := List.mem_flatMap.1 mem
    obtain ⟨plane, -, rfl⟩ := List.mem_map.1 inSlice
    exact ⟨_, rfl⟩
  · contradiction
  · contradiction

/-- A record has its width, its descriptor and its words as tokens. -/
theorem tokens_recordText (vector : LogicVector) (options : RecordOptions) :
    Text.tokens (vector.recordText options) =
      Numeral.decimal vector.width :: Numeral.decimal (Descriptor.ofVector vector).encode ::
        vector.recordWords options := by
  have plain {radix : Nat} (two_le : 2 ≤ radix) (radix_le : radix ≤ 16) (value : Nat) :
      Nat.toDigits radix value ≠ [] ∧
        ∀ char ∈ Nat.toDigits radix value, Text.isBlank char = false :=
    ⟨Nat.toDigits_ne_nil, fun _ mem => Numeral.not_blank_of_mem two_le radix_le mem⟩
  have behindWidth : ∀ word ∈ Numeral.decimal (Descriptor.ofVector vector).encode ::
      vector.recordWords options, word ≠ [] ∧ ∀ char ∈ word, Text.isBlank char = false := by
    intro word mem
    obtain rfl | inWords := List.mem_cons.1 mem
    · exact plain (by decide) (by decide) _
    · obtain ⟨value, rfl⟩ := exists_of_mem_recordWords inWords
      exact plain (by decide) (by decide) value
  have isWidth : Numeral.decimal vector.width ≠ [] ∧
      ∀ char ∈ Numeral.decimal vector.width, Text.isBlank char = false :=
    plain (by decide) (by decide) vector.width
  have spaced := Text.tokens_flatMap_space behindWidth
  rw [List.flatMap_cons, List.cons_append] at spaced
  rw [recordText, List.append_assoc, List.cons_append,
    Text.tokens_append isWidth.2 isWidth.1 (Reader.breaks_token _), spaced]

section

variable {clipped : Plane → Prop} {vector other : LogicVector} {block : Block}
variable {options : RecordOptions}

/-- The header says how many words the record of an owner has. -/
theorem length_recordWords
    (wellFormed : vector.WellFormed clipped)
    (owned : vector.storage.isOwned = true) :
    (vector.recordWords options).length = (vector.width + 31) / 32 * vector.kind.planeCount := by
  obtain ⟨block, stored⟩ := exists_owned owned
  have fits := wellFormed.block_fits block (block_of_owned stored)
  have sameCount : block.size = (vector.width + 31) / 32 := fits.size_eq
  rw [recordWords, stored]
  simp only [List.length_flatMap, List.length_map, vector.kind.length_planes, List.map_const',
    List.length_range, List.sum_replicate_nat, sameCount]

/-! ## The value that is read back -/

/-- Without data, the record shows the value of a new vector. -/
theorem value_recordedWords
    (withoutData : options.writeData = false)
    (wellFormed : vector.WellFormed clipped)
    (stored : vector.storage = .owned block)
    {position : Nat}
    (inside : position < vector.width) :
    (vector.recordedWords options).value position = if vector.twoState then .zero else .x := by
  have fits := wellFormed.block_fits block (block_of_owned stored)
  have inBounds : position < 32 * block.size := by
    rw [fits.size_eq]
    exact Nat.lt_of_lt_of_le inside (le_wordCount vector.width)
  have inWord : position % 32 < 32 := Nat.mod_lt _ (by decide)
  have joined : 32 * (position / 32) + position % 32 = position := Nat.div_add_mod position 32
  have lowLive : vector.kind.hasPlane Plane.valueLow = true := by cases vector.kind <;> rfl
  have highLive : vector.kind.hasPlane Plane.valueHigh = true := by cases vector.kind <;> rfl
  have low : (vector.recordedWords options).cell position Plane.valueLow = false := by
    rw [cell_recordedWords_of_lt stored inBounds, lowLive, recordWord, withoutData]
    exact BitVec.getLsbD_zero
  have high : (vector.recordedWords options).cell position Plane.valueHigh = !vector.twoState := by
    rw [cell_recordedWords_of_lt stored inBounds, highLive, recordWord, withoutData]
    cases vector.twoState with
    | true => exact BitVec.getLsbD_zero
    | false =>
        have inMask := Mask.getLsbD_inside vector.width (position / 32) inWord
        rw [joined, decide_eq_true inside] at inMask
        exact inMask
  rw [Block.value_eq_cell_value, Cell.value, low, high]
  cases vector.twoState <;> rfl

/-- The other vector owns its words and has the header and the coverage of the vector.
Its value is zero in every bit for a two-state vector, and else `x` in every bit. -/
structure DefaultsValue (vector other : LogicVector) : Prop where
  header_eq : other.toHeader = vector.toHeader
  isOwned : other.storage.isOwned = true
  /-- No plane has a bit past the width. -/
  wellFormed : other.WellFormed fun _ => True
  coverage_eq : ∀ plane : Plane, plane.isCoverage = true →
    ∀ position, other.cell position plane = vector.cell position plane
  bit_eq : ∀ position < vector.width,
    other.bit? position = some (if vector.twoState then .zero else .x)

/-- What a record without data holds of an owner. -/
theorem defaultsValue_recorded
    (withoutData : options.writeData = false)
    (wellFormed : vector.WellFormed fun _ => True)
    (owned : vector.storage.isOwned = true)
    (reads : Reader.record (vector.recordText options) = .ok (vector.recorded options) []) :
    vector.DefaultsValue (vector.recorded options) := by
  obtain ⟨block, stored⟩ := exists_owned owned
  have shows : (vector.recorded options).block =
      .ok ((vector.recordedWords options).restrict vector.width) := by
    rw [block_eq_ok_iff, recorded, if_pos owned]
    rfl
  refine ⟨rfl, by rw [recorded, if_pos owned]; rfl, record_wellFormed reads, ?_, ?_⟩
  · intro plane coverage position
    rw [cell_eq_block_cell shows, Block.cell_restrict]
    by_cases inside : position < vector.width
    · rw [if_pos inside, cell_eq_block_cell (block_of_owned stored)]
      exact cell_recordedWords wellFormed stored (Or.inr coverage) position
    · rw [if_neg inside]
      exact (wellFormed.cell_of_width_le (Nat.not_lt.1 inside) plane).symm
  · intro position inside
    rw [(bit?_eq_some_iff shows position _).2 ⟨inside, rfl⟩, Block.value_eq_cell_value,
      Block.cell_restrict, if_pos inside, ← Block.value_eq_cell_value,
      value_recordedWords withoutData wellFormed stored inside]

/-! ## Records and values -/

/-- Without data, header and coverage of an owner decide its record. -/
theorem recordText_congr
    (withoutData : options.writeData = false)
    (wellFormed : vector.WellFormed clipped)
    (owned : vector.storage.isOwned = true)
    (otherWellFormed : other.WellFormed clipped)
    (otherOwned : other.storage.isOwned = true)
    (sameHeader : other.toHeader = vector.toHeader)
    (sameCoverage : ∀ plane : Plane, plane.isCoverage = true →
      ∀ position, other.cell position plane = vector.cell position plane) :
    other.recordText options = vector.recordText options := by
  obtain ⟨block, stored⟩ := exists_owned owned
  obtain ⟨otherBlock, otherStored⟩ := exists_owned otherOwned
  have sameDescriptor : Descriptor.ofVector other = Descriptor.ofVector vector := by
    rw [Descriptor.ofVector, Descriptor.ofVector, owned, otherOwned, sameHeader]
  have sameSize : otherBlock.size = block.size := by
    rw [(wellFormed.block_fits block (block_of_owned stored)).size_eq,
      (otherWellFormed.block_fits otherBlock (block_of_owned otherStored)).size_eq, sameHeader]
  have sameWord (index : Nat) (plane : Plane) :
      other.recordWord otherBlock options index plane =
        vector.recordWord block options index plane := by
    rw [recordWord, recordWord, withoutData, sameHeader]
    cases coverage : plane.isCoverage with
    | false => rfl
    | true =>
        rw [cell_eq_block_cell (block_of_owned stored),
          cell_eq_block_cell (block_of_owned otherStored)] at sameCoverage
        exact Block.word_eq_of_cell (sameCoverage plane coverage) index
  have sameWords : other.recordWords options = vector.recordWords options := by
    simp only [recordWords, stored, otherStored, sameSize, sameHeader, sameWord]
  rw [recordText, recordText, sameDescriptor, sameWords, sameHeader]

/-- The text is the record of the vector without data.  It is read back whole as a vector
that defaults the value, it has as many tokens as the record with data, and it does not
depend on the value. -/
structure RecordsCoverage
    (vector : LogicVector)
    (options : RecordOptions)
    (text : List Char) : Prop where
  written : (vector.writeRecord options none).result = .ok text
  readBack : ∃ found, (readRecord text).result = .ok (found, []) ∧ vector.DefaultsValue found
  sameTokenCount : ∀ complete : RecordOptions, complete.writeData = true →
    ∃ full, (vector.writeRecord complete none).result = .ok full ∧
      (Text.tokens full).length = (Text.tokens text).length
  sameRecord : ∀ other : LogicVector, (other.WellFormed fun _ => True) →
    other.storage.isOwned = true → other.toHeader = vector.toHeader →
      (∀ plane : Plane, plane.isCoverage = true →
        ∀ position, other.cell position plane = vector.cell position plane) →
        (other.writeRecord options none).result = .ok text

/-- A record of an owner that is written without data keeps its header and its coverage
and says nothing of its value. -/
theorem writeRecord_withoutData
    (withoutData : options.writeData = false)
    (wellFormed : vector.WellFormed fun _ => True)
    (owned : vector.storage.isOwned = true) :
    ∃ text, vector.RecordsCoverage options text := by
  have takes : Reader.record (vector.recordText options) = .ok (vector.recorded options) [] := by
    have noGap : Text.Blank [] := nofun
    have reads := Reader.reads_record wellFormed options noGap [] Text.breaks_nil
    rwa [List.nil_append, List.append_nil] at reads
  refine ⟨vector.recordText options, writeRecord_none vector options, ⟨_, ?_,
    defaultsValue_recorded withoutData wellFormed owned takes⟩, ?_, ?_⟩
  · rw [readRecord, takes]
  · intro complete _
    refine ⟨_, writeRecord_none vector complete, ?_⟩
    simp only [tokens_recordText, List.length_cons, length_recordWords wellFormed owned]
  · intro other otherWellFormed otherOwned sameHeader sameCoverage
    rw [writeRecord_none, recordText_congr withoutData wellFormed owned otherWellFormed otherOwned
      sameHeader sameCoverage]

/-- A signal whose lowest four bits have been given a value. -/
theorem writeRecord_withoutData_signal :
    ∃ options fresh signal reply text,
      options = { RecordOptions.default with writeData := false } ∧
      create 36 .signal true = .ok fresh ∧
      (fresh.update (.applyChange "01x1".toList 3 0)).result = .ok (signal, reply) ∧
      options.writeData = false ∧ (signal.WellFormed fun _ => True) ∧
      signal.storage.isOwned = true ∧ signal.RecordsCoverage options text := by
  obtain ⟨options, isOptions⟩ :
      ∃ options, options = { RecordOptions.default with writeData := false } := ⟨_, rfl⟩
  obtain ⟨fresh, created⟩ : ∃ fresh, create 36 .signal true = .ok fresh := ⟨_, rfl⟩
  obtain ⟨signal, reply, given⟩ : ∃ signal reply,
      (fresh.update (.applyChange "01x1".toList 3 0)).result = .ok (signal, reply) := by
    cases created
    exact ⟨_, _, rfl⟩
  have withoutData : options.writeData = false := congrArg RecordOptions.writeData isOptions
  have freshFits : fresh.WellFormed fun _ => True := create_wellFormed created
  have fits : signal.WellFormed fun _ => True :=
    freshFits.update (by rintro source ⟨⟩) (by rintro ⟨⟩) given
  have owned : signal.storage.isOwned = true := by
    cases created
    cases given
    rfl
  obtain ⟨text, records⟩ := writeRecord_withoutData withoutData fits owned
  exact ⟨options, fresh, signal, reply, text, isOptions, created, given, withoutData, fits, owned,
    records⟩

end
end LogicVector
end FourState
