import FourState.Proofs.Record
import FourState.Proofs.Token
import FourState.Record.Writer

/-!
# Reading written records

A reader reads back a text when it takes exactly that text, whatever follows.
This is shown for every part of a record: numbers, header, the words of one
position, and the words of all positions.  Put together, a record that is read
back has the header of the vector it was written from, and the words of an
owner.
-/

namespace FourState

/-! ## Readers and the texts they take -/

namespace Reader

/-- The reader takes exactly this text, as long as what follows breaks the last
token, and gives the value. -/
def Reads {item : Type} (take : Reader item) (text : List Char) (value : item) : Prop :=
  ∀ rest, Text.Breaks rest → take (text ++ rest) = .ok value rest

section

variable {first second entry : Type} {take : Reader first} {next : first → Reader second}
variable {text more gap : List Char} {value : first} {result : second}

theorem Reads.bind
    (takes : Reads take text value)
    (breaks : Text.Breaks more)
    (continues : Reads (next value) more result) :
    Reads (take >>= next) (text ++ more) result := by
  intro rest restBreaks
  rw [List.append_assoc]
  exact bind_eq_ok_iff.2
    ⟨value, more ++ rest, takes _ (breaks.append restBreaks), continues rest restBreaks⟩

/-- A reader can be followed by a step that takes nothing. -/
theorem Reads.finish
    (takes : Reads take text value)
    (finishes : ∀ rest, next value rest = .ok result rest) :
    Reads (take >>= next) text result := by
  intro rest restBreaks
  exact bind_eq_ok_iff.2 ⟨value, rest, takes rest restBreaks, finishes rest⟩

/-- What is read back piece by piece is read back as a whole. -/
theorem reads_times
    {entries : List entry}
    {write : entry → List Char}
    {read : entry → first}
    (breaks : ∀ written ∈ entries, Text.Breaks (write written))
    (reads : ∀ written ∈ entries, Reads take (write written) (read written)) :
    Reads (times take entries.length) (entries.flatMap write) (entries.map read) := by
  induction entries with
  | nil =>
      intro rest _
      rfl
  | cons head others inductionHypothesis =>
      have headReads := reads head (by simp)
      have othersRead := inductionHypothesis
        (fun written mem => breaks written (by simp [mem]))
        (fun written mem => reads written (by simp [mem]))
      have othersBreak : Text.Breaks (others.flatMap write) :=
        Text.breaks_flatMap fun written mem => breaks written (by simp [mem])
      rw [List.flatMap_cons]
      exact headReads.bind othersBreak (othersRead.finish fun rest => rfl)

/-! ## Numbers -/

theorem reads_number
    {item : RecordItem}
    {radix bound number : Nat}
    (two_le : 2 ≤ radix)
    (radix_le : radix ≤ 16)
    (inBound : number < bound)
    (blank : Text.Blank gap) :
    Reads (Reader.number item radix bound) (gap ++ Nat.toDigits radix number) number := by
  intro rest breaks
  have split : Text.splitToken (gap ++ Nat.toDigits radix number ++ rest) =
      (Nat.toDigits radix number, rest) :=
    Text.splitToken_append blank
      (fun char mem => Numeral.not_blank_of_mem two_le radix_le mem) Nat.toDigits_ne_nil breaks
  have takes : token item (gap ++ Nat.toDigits radix number ++ rest) =
      .ok (Nat.toDigits radix number) rest := by
    rw [token, split]
    cases digits : Nat.toDigits radix number with
    | nil => exact absurd digits Nat.toDigits_ne_nil
    | cons head others => rfl
  refine bind_eq_ok_iff.2 ⟨_, rest, takes, ?_⟩
  rw [Numeral.below?_toDigits two_le radix_le inBound]
  rfl

theorem reads_width
    {width : Nat}
    (positive : 0 < width)
    (inLimit : width ≤ maxWidth)
    (blank : Text.Blank gap) :
    Reads Reader.width (gap ++ Numeral.decimal width) width := by
  have inBound : width < modulus 64 := Nat.lt_of_le_of_lt inLimit (by decide)
  refine (reads_number (by decide) (by decide) inBound blank).finish ?_
  intro rest
  have notZero : ¬width = 0 := Nat.pos_iff_ne_zero.1 positive
  simp only [if_neg notZero, if_neg (Nat.not_lt.2 inLimit)]
  rfl

theorem reads_descriptor
    (descriptor : Descriptor)
    (blank : Text.Blank gap) :
    Reads Reader.descriptor (gap ++ Numeral.decimal descriptor.encode) descriptor := by
  have inBound : descriptor.encode < 256 := Nat.lt_trans descriptor.encode_lt (by decide)
  refine (reads_number (by decide) (by decide) inBound blank).finish ?_
  intro rest
  rw [Descriptor.decode?_encode]
  rfl

theorem reads_plane
    (word : Word)
    (blank : Text.Blank gap) :
    Reads plane (gap ++ Numeral.hexadecimal word.toNat) word := by
  refine (reads_number (by decide) (by decide) word.isLt blank).finish ?_
  intro rest
  rw [BitVec.ofNat_toNat, BitVec.setWidth_eq]
  rfl

end

/-! ## Headers and words -/

end Reader

/-- The live planes have the lowest numbers. -/
theorem Kind.getElem?_planes (kind : Kind) (plane : Plane) :
    kind.planes[plane.val]? = if kind.hasPlane plane then some plane else none := by
  cases kind <;> revert plane <;> decide

namespace Reader

theorem breaks_token (token : List Char) : Text.Breaks (' ' :: token) :=
  Text.breaks_cons (by decide) token

theorem blank_space : Text.Blank [' '] := by
  intro char mem
  cases List.mem_singleton.1 mem
  decide

theorem reads_header
    {clipped : Plane → Prop}
    {vector : LogicVector}
    {gap : List Char}
    (wellFormed : vector.WellFormed clipped)
    (blank : Text.Blank gap) :
    Reads header
      (gap ++ Numeral.decimal vector.width ++
        ' ' :: Numeral.decimal (Descriptor.ofVector vector).encode)
      (vector.width, Descriptor.ofVector vector) :=
  (reads_width wellFormed.width_pos wellFormed.width_le blank).bind (breaks_token _)
    ((reads_descriptor (Descriptor.ofVector vector) blank_space).finish fun _ => rfl)

/-- The words of one position, in plane order; the planes that the kind does not
use stay clear. -/
theorem reads_slice (kind : Kind) (wordOf : Plane → Word) :
    Reads (slice kind)
      (kind.planes.flatMap fun plane => ' ' :: Numeral.hexadecimal (wordOf plane).toNat)
      (Slice.ofPlanes fun plane => if kind.hasPlane plane then wordOf plane else 0) := by
  have words := reads_times (fun plane (_ : plane ∈ kind.planes) => breaks_token _)
    fun plane _ => reads_plane (wordOf plane) blank_space
  rw [kind.length_planes] at words
  have sameSlice : (Slice.ofPlanes fun plane => (kind.planes.map wordOf).getD plane.val 0) =
      Slice.ofPlanes fun plane => if kind.hasPlane plane then wordOf plane else 0 := by
    ext1 plane
    rw [Slice.get_ofPlanes, Slice.get_ofPlanes, List.getD_eq_getElem?_getD, List.getElem?_map,
      kind.getElem?_planes]
    split <;> rfl
  rw [← sameSlice]
  exact words.finish fun _ => rfl

end Reader

namespace LogicVector

/-- The words that a record holds of a vector. -/
def recordedWords (vector : LogicVector) (options : RecordOptions) : Block :=
  match vector.storage with
  | .owned block =>
      ((List.range block.size).map fun index => Slice.ofPlanes fun plane =>
        if vector.kind.hasPlane plane then vector.recordWord block options index plane
        else 0).toArray
  | .borrowed _ => #[]
  | .absent => #[]

/-- What a record holds of a vector: the header, and the words of an owner. -/
def recorded (vector : LogicVector) (options : RecordOptions) : LogicVector :=
  { vector with
    storage :=
      if vector.storage.isOwned then
        .owned ((vector.recordedWords options).restrict vector.width)
      else .absent }

/-- Without a limit every record can be written. -/
theorem writeRecord_none (vector : LogicVector) (options : RecordOptions) :
    (vector.writeRecord options none).result = .ok (vector.recordText options) := by
  simp [writeRecord]

variable {clipped : Plane → Prop} {vector : LogicVector} {block : Block}

theorem block_of_owned (stored : vector.storage = .owned block) : vector.block = .ok block := by
  rw [block_eq_ok_iff, stored]
  rfl

theorem exists_owned
    (owned : vector.storage.isOwned = true) :
    ∃ block, vector.storage = .owned block := by
  cases stored : vector.storage with
  | absent => simp [stored, Storage.isOwned] at owned
  | borrowed block => simp [stored, Storage.isOwned] at owned
  | owned block => exact ⟨block, rfl⟩

/-- A plane of a recorded position has the bit of the word that the record shows, or none if
the plane is not live. -/
theorem cell_recordedWords_of_lt
    (stored : vector.storage = .owned block)
    {options : RecordOptions}
    {position : Nat}
    (inBounds : position < 32 * block.size)
    (plane : Plane) :
    (vector.recordedWords options).cell position plane =
      (vector.kind.hasPlane plane &&
        (vector.recordWord block options (position / 32) plane).getLsbD (position % 32)) := by
  have wordInBounds : position / 32 < block.size := by omega
  rw [Block.cell_eq_slice_cell, recordedWords, stored]
  dsimp only
  rw [Block.slice_of_lt _ (by simpa using wordInBounds)]
  simp only [List.getElem_toArray, List.getElem_map, List.getElem_range, Slice.cell, Slice.bit,
    Slice.get_ofPlanes]
  cases vector.kind.hasPlane plane with
  | true => rfl
  | false => exact BitVec.getLsbD_zero

/-- A plane whose words a record shows has the cells of the owner: every plane if
the value is written, and else the coverage planes. -/
theorem cell_recordedWords
    (wellFormed : vector.WellFormed clipped)
    (stored : vector.storage = .owned block)
    {options : RecordOptions}
    {plane : Plane}
    (shown : options.writeData = true ∨ plane.isCoverage = true)
    (position : Nat) :
    (vector.recordedWords options).cell position plane = block.cell position plane := by
  by_cases inBounds : position < 32 * block.size
  · have shows : vector.recordWord block options (position / 32) plane =
        block.word plane (position / 32) := by
      rw [LogicVector.recordWord, if_pos (by simpa using shown)]
    rw [cell_recordedWords_of_lt stored inBounds, shows]
    cases live : vector.kind.hasPlane plane with
    | true => rfl
    | false =>
        have dead : vector.kind.planeCount ≤ plane.val := by
          simpa [Kind.hasPlane] using live
        have fits := wellFormed.block_fits block (block_of_owned stored)
        exact (fits.bit_of_planeCount_le dead position).symm
  · have sameSize : (vector.recordedWords options).size = block.size := by
      simp [recordedWords, stored]
    rw [Block.cell_of_size_le _ (by omega), Block.cell_of_size_le _ (by omega)]

end LogicVector

namespace Reader

variable {clipped : Plane → Prop} {vector : LogicVector} {gap : List Char}

/-- The words of a record are read back. -/
theorem reads_words
    (wellFormed : vector.WellFormed clipped)
    (options : RecordOptions) :
    Reads (words vector.width (Descriptor.ofVector vector))
      ((vector.recordWords options).flatMap fun word => ' ' :: word)
      (vector.recordedWords options) := by
  have owns : (Descriptor.ofVector vector).ownsStorage = vector.storage.isOwned := rfl
  rw [words, owns, LogicVector.recordWords, LogicVector.recordedWords]
  cases stored : vector.storage with
  | absent => exact fun _ _ => rfl
  | borrowed block => exact fun _ _ => rfl
  | owned block =>
      have fits := wellFormed.block_fits block (LogicVector.block_of_owned stored)
      have slices := reads_times
        (fun index (_ : index ∈ List.range block.size) => Text.breaks_flatMap
          fun plane (_ : plane ∈ vector.kind.planes) => breaks_token _)
        fun index _ => reads_slice vector.kind (vector.recordWord block options index)
      rw [List.length_range, fits.size_eq] at slices
      simp only [fits.size_eq, List.flatMap_assoc, List.flatMap_map]
      exact slices.finish fun _ => rfl

/-- A record is read back as what it holds. -/
theorem reads_record
    (wellFormed : vector.WellFormed clipped)
    (options : RecordOptions)
    (blank : Text.Blank gap) :
    Reads record (gap ++ vector.recordText options) (vector.recorded options) := by
  have header := reads_header wellFormed blank
  have words := reads_words wellFormed options
  have wordsBreak : Text.Breaks ((vector.recordWords options).flatMap fun word => ' ' :: word) :=
    Text.breaks_flatMap fun _ _ => breaks_token _
  rw [LogicVector.recordText, ← List.append_assoc, ← List.append_assoc]
  refine header.bind wordsBreak (words.finish ?_)
  intro rest
  rfl

end Reader
end FourState
