import FourState.Proofs.Preservation
import FourState.Proofs.RecordText

/-!
# Uniting coverage

Merging a vector of the same width and kind, and merging the record that it is
written as, both add its coverage to the coverage there was, and change nothing
else.  Adding the coverage of several vectors gives the union of them all.
-/

namespace FourState

namespace LogicVector

/-- The vector with the coverage of another one added to its own. -/
def addCoverageOf (vector source : LogicVector) : LogicVector :=
  vector.alter (Effect.mark source.cell).apply

variable {vector source : LogicVector}

/-- Adding coverage acts on every cell. -/
theorem cell_addCoverageOf
    (wellFormed : vector.WellFormed fun _ => True)
    (sourceWellFormed : source.WellFormed fun _ => True)
    (allocated : vector.storage.isAllocated = true)
    (sameWidth : source.width = vector.width)
    (position : Nat) :
    (vector.addCoverageOf source).cell position =
      (vector.cell position).mark (source.cell position) := by
  obtain ⟨block, stored⟩ := exists_block allocated
  have fits := wellFormed.block_fits block stored
  by_cases inBounds : position < 32 * block.size
  · exact cell_alter stored _ inBounds
  · have past : source.width ≤ position := by
      rw [fits.size_eq] at inBounds
      have enough := le_wordCount vector.width
      omega
    funext plane
    have nothing := sourceWellFormed.cell_of_width_le past plane
    have keeps (cell : Cell) : cell.mark (source.cell position) plane = cell plane := by
      rw [Cell.mark, nothing, Bool.and_false, Bool.or_false]
    rw [keeps]
    exact vector.bit_alter_of_keeps keeps

theorem WellFormed.addCoverageOf
    {clipped : Plane → Prop}
    (wellFormed : vector.WellFormed clipped)
    (sourceWellFormed : source.WellFormed clipped)
    (sameWidth : source.width = vector.width)
    (sameKind : source.kind = vector.kind) :
    (vector.addCoverageOf source).WellFormed clipped := by
  apply wellFormed.alter
  apply Effect.confined_mark
  intro position plane set
  rw [← sameWidth, ← sameKind]
  exact sourceWellFormed.cell_fits position plane set

/-! ## The two ways of merging -/

/-- Merging a vector adds its coverage. -/
theorem merge_eq_ok
    (allocated : vector.storage.isAllocated = true)
    (sourceAllocated : source.storage.isAllocated = true)
    (sameWidth : source.width = vector.width)
    (sameKind : source.kind = vector.kind) :
    vector.merge source = .ok (vector.addCoverageOf source) := by
  obtain ⟨block, stored⟩ := exists_block allocated
  obtain ⟨added, sourceStored⟩ := exists_block sourceAllocated
  have succeeds : ∃ updated, vector.merge source = .ok updated := by
    rw [merge, require_bind_of_true sameWidth.symm, require_bind_of_true sameKind.symm,
      sourceStored, stored]
    exact ⟨_, rfl⟩
  obtain ⟨updated, merges⟩ := succeeds
  rw [merges, (merge_eq_alter merges).2.2]
  rfl

/-- Merging the coverage that a vector has leaves it as it is. -/
theorem merge_of_same_block
    {block : Block}
    (stored : vector.block = .ok block)
    (sourceStored : source.block = .ok block)
    (sameWidth : source.width = vector.width)
    (sameKind : source.kind = vector.kind) :
    vector.merge source = .ok vector := by
  rw [merge_eq_ok (isAllocated_of_block stored) (isAllocated_of_block sourceStored) sameWidth
    sameKind]
  refine congrArg Except.ok (alter_eq_self fun position => ?_)
  rw [cell_eq_block_cell stored, cell_eq_block_cell sourceStored]
  funext plane
  simp only [Effect.apply, Cell.mark]
  cases block.cell position plane <;> simp

/-- The coverage planes of recorded words are those of the vector, whether or not
its value was written. -/
theorem mark_recordedWords
    (wellFormed : source.WellFormed fun _ => True)
    {block : Block}
    (stored : source.storage = .owned block)
    (options : RecordOptions)
    (position : Nat)
    (cell : Cell) :
    cell.mark ((source.recordedWords options).cell position) =
      cell.mark (source.cell position) := by
  funext plane
  simp only [Cell.mark]
  cases coverage : plane.isCoverage with
  | false => rfl
  | true =>
      rw [cell_recordedWords wellFormed stored (Or.inr coverage),
        cell_eq_block_cell (block_of_owned stored)]

/-- A record adds the coverage of the owner it was written from. -/
theorem addCoverage_recordedWords
    (wellFormed : vector.WellFormed fun _ => True)
    (sourceWellFormed : source.WellFormed fun _ => True)
    (owned : source.storage.isOwned = true)
    (sameWidth : source.width = vector.width)
    (options : RecordOptions) :
    vector.addCoverage (source.recordedWords options) = vector.addCoverageOf source := by
  obtain ⟨block, stored⟩ := exists_owned owned
  rw [addCoverage_eq_alter, addCoverageOf]
  apply alter_congr
  intro position
  simp only [Effect.apply]
  by_cases inside : position < vector.width
  · rw [if_pos inside, mark_recordedWords sourceWellFormed stored]
  · -- Nothing can be dropped past the width: there is nothing in either vector.
    have past := Nat.not_lt.1 inside
    rw [if_neg inside]
    funext plane
    rw [Cell.mark, wellFormed.cell_of_width_le past,
      sourceWellFormed.cell_of_width_le (by rwa [sameWidth])]
    simp

/-- Merging the record of an owner adds its coverage and takes exactly the
record. -/
theorem mergeRecord_recordText
    (wellFormed : vector.WellFormed fun _ => True)
    (sourceWellFormed : source.WellFormed fun _ => True)
    (owned : source.storage.isOwned = true)
    (sameWidth : source.width = vector.width)
    (sameKind : source.kind = vector.kind)
    (written merged : RecordOptions)
    {rest : List Char}
    (breaks : Text.Breaks rest) :
    (vector.mergeRecord (source.recordText written ++ rest) merged).result =
      .ok (vector.addCoverageOf source, rest) := by
  have noGap : Text.Blank [] := by simp [Text.Blank]
  have wordsBreak : Text.Breaks
      (((source.recordWords written).flatMap fun word => ' ' :: word) ++ rest) :=
    (Text.breaks_flatMap fun _ _ => Reader.breaks_token _).append breaks
  have readsHeader : Reader.header (source.recordText written ++ rest) =
      .ok (source.width, Descriptor.ofVector source)
        (((source.recordWords written).flatMap fun word => ' ' :: word) ++ rest) := by
    rw [recordText, List.append_assoc]
    exact Reader.reads_header sourceWellFormed noGap _ wordsBreak
  have readsWords := Reader.reads_words sourceWellFormed written rest breaks
  have owns : (Descriptor.ofVector source).ownsStorage = true := owned
  rw [result_mergeRecord_of_suitable readsHeader sameKind (Or.inl sameWidth), readsWords]
  dsimp only
  rw [if_pos ⟨sameWidth, owns⟩,
    addCoverage_recordedWords wellFormed sourceWellFormed owned sameWidth]

/-! ## The coverage of several vectors -/

/-- Adding the coverage of several vectors, one after the other, gives the union
of all, leaves the value, and keeps header and place of the words. -/
theorem foldl_addCoverageOf
    {sources : List LogicVector}
    (wellFormed : vector.WellFormed fun _ => True)
    (allocated : vector.storage.isAllocated = true)
    (fitting : ∀ source ∈ sources, (source.WellFormed fun _ => True) ∧
      source.width = vector.width ∧ source.kind = vector.kind) :
    (sources.foldl addCoverageOf vector).toHeader = vector.toHeader ∧
      (sources.foldl addCoverageOf vector).storage.isOwned = vector.storage.isOwned ∧
      ∀ position, (sources.foldl addCoverageOf vector).cell position =
        (vector.cell position).mark fun plane =>
          sources.any fun source => source.cell position plane := by
  induction sources generalizing vector with
  | nil =>
      refine ⟨rfl, rfl, ?_⟩
      intro position
      funext plane
      simp [Cell.mark]
  | cons source others inductionHypothesis =>
      obtain ⟨sourceWellFormed, sameWidth, sameKind⟩ := fitting source (by simp)
      have nextAllocated : (vector.addCoverageOf source).storage.isAllocated = true := by
        rw [addCoverageOf, alter, Storage.isAllocated_map]
        exact allocated
      obtain ⟨header, owned, cells⟩ := inductionHypothesis
        (wellFormed.addCoverageOf sourceWellFormed sameWidth sameKind) nextAllocated
        fun other mem => fitting other (by simp [mem])
      refine ⟨header, ?_, ?_⟩
      · rw [List.foldl_cons, owned, addCoverageOf, alter, Storage.isOwned_map]
      · intro position
        rw [List.foldl_cons, cells,
          cell_addCoverageOf wellFormed sourceWellFormed allocated sameWidth]
        funext plane
        simp only [Cell.mark, List.any_cons, Bool.and_or_distrib_left, Bool.or_assoc]

end LogicVector
end FourState
