import FourState.Proofs.RecordText
import Mathlib.Data.List.Forall2

/-!
# Streams of records

Records that are written one after the other, with blanks between them, are
read back one after the other.  An owner of words is read back as it was, any
other vector as a width-only one with its header.
-/

namespace FourState

/-! ## What a record restores -/

namespace LogicVector

/-- A vector equals itself. -/
theorem sameAs_self (vector : LogicVector) : (vector == vector) = true := by
  change vector.sameAs vector = true
  unfold sameAs
  cases vector.storage.content? with
  | none => simp
  | some block =>
      have same (slice : Slice 32) : sameSlice vector.kind slice slice = true := by
        simp [sameSlice]
      have sameWords : (block.toList.zip block.toList).all
          (fun pair => sameSlice vector.kind pair.1 pair.2) = true := by
        induction block.toList with
        | nil => rfl
        | cons slice slices inductionHypothesis =>
            rw [List.zip_cons_cons, List.all_cons, same, inductionHypothesis]
            rfl
      simp [sameWords]

/-- The vector that is read back is the one that was written, if that owns its
words, and else a width-only vector with its header. -/
structure Restores (vector found : LogicVector) : Prop where
  header_eq : found.toHeader = vector.toHeader
  owned : vector.storage.isOwned = true → found = vector ∧ (found == vector) = true
  notOwned : vector.storage.isOwned = false → found.storage = .absent

variable {vector : LogicVector} {options : RecordOptions}

/-- With data, a record of an owner holds its words. -/
theorem recorded_eq_self
    (complete : options.writeData = true)
    (wellFormed : vector.WellFormed fun _ => True)
    (owned : vector.storage.isOwned = true) :
    vector.recorded options = vector := by
  obtain ⟨block, stored⟩ := exists_owned owned
  have fits := wellFormed.block_fits block (block_of_owned stored)
  have sameBlock : (vector.recordedWords options).restrict vector.width = block := by
    apply Block.ext_cell
    · simp [recordedWords, stored]
    · intro position _
      funext plane
      rw [Block.cell_restrict]
      by_cases inside : position < vector.width
      · rw [if_pos inside]
        exact cell_recordedWords wellFormed stored (Or.inl complete) position
      · rw [if_neg inside]
        exact (fits.bit_of_width_le trivial (Nat.not_lt.1 inside)).symm
  rw [recorded, if_pos owned, sameBlock]
  cases vector
  cases stored
  rfl

/-- With data, a record restores a well-formed vector. -/
theorem restores_recorded
    (complete : options.writeData = true)
    (wellFormed : vector.WellFormed fun _ => True) :
    vector.Restores (vector.recorded options) := by
  refine ⟨rfl, ?_, ?_⟩
  · intro owned
    rw [recorded_eq_self complete wellFormed owned]
    exact ⟨rfl, sameAs_self vector⟩
  · intro notOwned
    simp [recorded, notOwned]

end LogicVector

/-! ## Writing and reading several records -/

/-- Write vectors, each behind blanks of its own. -/
def writeRecords (options : RecordOptions) :
    List (List Char × LogicVector) → Except Failure (List Char)
  | [] => return []
  | (gap, vector) :: others => do
      let record ← (vector.writeRecord options none).result
      let records ← writeRecords options others
      return gap ++ record ++ records

/-- Read a number of records, and tell what remains unread. -/
def readRecords : Nat → List Char → Except Failure (List LogicVector × List Char)
  | 0, text => return ([], text)
  | count + 1, text => do
      let (vector, rest) ← (LogicVector.readRecord text).result
      let (vectors, rest) ← readRecords count rest
      return (vector :: vectors, rest)

section

variable {options : RecordOptions} {entries : List (List Char × LogicVector)} {tail : List Char}

theorem writeRecords_eq_ok (options : RecordOptions) (entries : List (List Char × LogicVector)) :
    writeRecords options entries =
      .ok (entries.flatMap fun entry => entry.1 ++ entry.2.recordText options) := by
  induction entries with
  | nil => rfl
  | cons entry others inductionHypothesis =>
      rw [writeRecords, LogicVector.writeRecord_none, inductionHypothesis]
      rfl

/-- Every record but the first has a blank in front of it, and so the token
before it ends. -/
theorem breaks_records
    (blank : ∀ entry ∈ entries, Text.Blank entry.1)
    (separated : ∀ entry ∈ entries, entry.1 ≠ []) :
    Text.Breaks (entries.flatMap fun entry => entry.1 ++ entry.2.recordText options) := by
  apply Text.breaks_flatMap
  rintro ⟨gap, vector⟩ mem
  have gapBlank := blank _ mem
  cases gap with
  | nil => exact absurd rfl (separated _ mem)
  | cons char others => exact Text.breaks_cons (gapBlank char (by simp)) _

theorem readRecords_eq_ok
    (wellFormed : ∀ entry ∈ entries, entry.2.WellFormed fun _ => True)
    (blank : ∀ entry ∈ entries, Text.Blank entry.1)
    (separated : ∀ entry ∈ entries.tail, entry.1 ≠ [])
    (breaks : Text.Breaks tail) :
    readRecords entries.length
        ((entries.flatMap fun entry => entry.1 ++ entry.2.recordText options) ++ tail) =
      .ok (entries.map fun entry => entry.2.recorded options, tail) := by
  induction entries with
  | nil => rfl
  | cons entry others inductionHypothesis =>
      obtain ⟨gap, vector⟩ := entry
      have fits := wellFormed (gap, vector) (by simp)
      have gapBlank : Text.Blank gap := blank (gap, vector) (by simp)
      have othersBlank : ∀ entry ∈ others, Text.Blank entry.1 :=
        fun entry mem => blank entry (by simp [mem])
      have othersBreak : Text.Breaks
          ((others.flatMap fun entry => entry.1 ++ entry.2.recordText options) ++ tail) :=
        (breaks_records othersBlank separated).append breaks
      have reads := Reader.reads_record fits options gapBlank _ othersBreak
      have readsOthers := inductionHypothesis (fun entry mem => wellFormed entry (by simp [mem]))
        othersBlank (fun entry mem => separated entry (List.mem_of_mem_tail mem))
      rw [List.length_cons, readRecords, List.flatMap_cons, List.append_assoc,
        LogicVector.readRecord, reads]
      exact bind_eq_ok_iff.2 ⟨_, rfl, bind_eq_ok_iff.2 ⟨_, readsOthers, rfl⟩⟩

/-- Well-formed vectors can be written as a stream of records, with blanks
between them and any tail that does not touch the last one.  Reading as many
records restores the vectors in order and leaves exactly the tail. -/
theorem readRecords_writeRecords
    (complete : options.writeData = true)
    (wellFormed : ∀ entry ∈ entries, entry.2.WellFormed fun _ => True)
    (blank : ∀ entry ∈ entries, Text.Blank entry.1)
    (separated : ∀ entry ∈ entries.tail, entry.1 ≠ [])
    (breaks : Text.Breaks tail) :
    ∃ text found, writeRecords options entries = .ok text ∧
      readRecords entries.length (text ++ tail) = .ok (found, tail) ∧
      List.Forall₂ (fun entry vector => entry.2.Restores vector) entries found := by
  refine ⟨_, _, writeRecords_eq_ok options entries,
    readRecords_eq_ok wellFormed blank separated breaks, ?_⟩
  rw [List.forall₂_map_right_iff, List.forall₂_same]
  intro entry mem
  exact LogicVector.restores_recorded complete (wellFormed entry mem)

/-- A new signal, a new width-only memory behind two blanks, and a word behind
the records. -/
theorem readRecords_signal_memory :
    ∃ signal memory text found, LogicVector.create 3 .signal true = .ok signal ∧
      LogicVector.create 40 .memory false = .ok memory ∧
      (signal.WellFormed fun _ => True) ∧ (memory.WellFormed fun _ => True) ∧
      writeRecords RecordOptions.default [([], signal), ([' ', '\n'], memory)] = .ok text ∧
      readRecords 2 (text ++ "\tend".toList) = .ok (found, "\tend".toList) ∧
      List.Forall₂ (fun entry vector => entry.2.Restores vector)
        [([], signal), ([' ', '\n'], memory)] found := by
  obtain ⟨signal, newSignal⟩ : ∃ signal, LogicVector.create 3 .signal true = .ok signal :=
    ⟨_, rfl⟩
  obtain ⟨memory, newMemory⟩ : ∃ memory, LogicVector.create 40 .memory false = .ok memory :=
    ⟨_, rfl⟩
  have signalFits : signal.WellFormed fun _ => True := LogicVector.create_wellFormed newSignal
  have memoryFits : memory.WellFormed fun _ => True := LogicVector.create_wellFormed newMemory
  have wellFormed : ∀ entry ∈ [([], signal), ([' ', '\n'], memory)],
      entry.2.WellFormed fun _ => True := by
    simp [signalFits, memoryFits]
  have blank : ∀ entry ∈ [([], signal), ([' ', '\n'], memory)], Text.Blank entry.1 := by
    simp [Text.Blank, Text.isBlank]
  have separated : ∀ entry ∈ [([], signal), ([' ', '\n'], memory)].tail, entry.1 ≠ [] := by
    simp
  have complete : RecordOptions.default.writeData = true := rfl
  have breaks : Text.Breaks "\tend".toList := Text.breaks_cons (by decide) _
  obtain ⟨text, found, writes, reads, restores⟩ :=
    readRecords_writeRecords complete wellFormed blank separated breaks
  exact ⟨signal, memory, text, found, newSignal, newMemory, signalFits, memoryFits, writes, reads,
    restores⟩

end
end FourState
