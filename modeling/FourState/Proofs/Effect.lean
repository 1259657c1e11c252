import FourState.Proofs.Assigning
import FourState.Proofs.Evaluation
import FourState.Proofs.Record

/-!
# Effects of updates

The effect of a successful update says what it does to the cell at each
position.  The table `LogicVector.effect` gives the effect of every update, and
`LogicVector.update_eq_alter` says that an update of a well-formed vector does
nothing else, apart from the flags it sets.
-/

namespace FourState

/-- What an update does to the cells of a vector. -/
inductive Effect
  | keep
  /-- Give the covered cells their new bits. -/
  | write (kind : Kind) (assignment : Assignment)
  | clearCoverage
  /-- Add coverage. -/
  | mark (marks : Nat → Cell)
  /-- Add coverage inside a width, and empty the cells past it. -/
  | absorb (width : Nat) (marks : Nat → Cell)
  /-- Put other cells in place of the old ones. -/
  | replace (cells : Nat → Cell)
  /-- Turn unknown bits into zeros. -/
  | collapse

namespace Cell

/-- The cell without its coverage. -/
def clearCoverage (cell : Cell) : Cell := fun plane =>
  !plane.isCoverage && cell plane

/-- The cell with a known zero in place of an unknown bit. -/
def collapse (cell : Cell) : Cell := fun plane =>
  if plane = Plane.valueLow then cell Plane.valueLow && !cell Plane.valueHigh
  else if plane = Plane.valueHigh then false
  else cell plane

@[simp] theorem value_clearCoverage (cell : Cell) : cell.clearCoverage.value = cell.value :=
  rfl

@[simp] theorem value_collapse (cell : Cell) : cell.collapse.value = cell.value.collapse := by
  rw [value, value, Bit.collapse_ofPlanes]
  rfl

/-- Turning unknown bits into zeros leaves the coverage as it is. -/
theorem collapse_of_isCoverage
    (cell : Cell)
    {plane : Plane}
    (coverage : plane.isCoverage = true) :
    cell.collapse plane = cell plane := by
  have notLow : plane ≠ Plane.valueLow := by
    rintro rfl
    contradiction
  have notHigh : plane ≠ Plane.valueHigh := by
    rintro rfl
    contradiction
  simp [collapse, notLow, notHigh]

end Cell

namespace Effect

/-- What becomes of the cell at a position. -/
def apply : Effect → Nat → Cell → Cell
  | keep, _, cell => cell
  | write kind assignment, position, cell => assignment.change kind position cell
  | clearCoverage, _, cell => cell.clearCoverage
  | mark marks, position, cell => cell.mark (marks position)
  | absorb width marks, position, cell =>
      if position < width then cell.mark (marks position) else Cell.empty
  | replace cells, position, _ => cells position
  | collapse, _, cell => cell.collapse

end Effect

/-! ## The effect of an update -/

namespace Update

variable {operand : Type}

/-- The vector whose planes an update takes over. -/
def source? : Update operand → Option operand
  | copyFrom source => some source
  | copyRange source _ => some source
  | merge source => some source
  | _ => none

/-- The header after an update. -/
def header (change : Update operand) (before : Header) : Header :=
  match change with
  | setSigned signed => { before with signed }
  | setTwoState twoState => { before with twoState }
  | _ => before

end Update

namespace LogicVector

/-- The cell at a position, an empty one for a vector without words. -/
def cell (vector : LogicVector) (position : Nat) : Cell :=
  match vector.storage.content? with
  | some block => block.cell position
  | none => Cell.empty

/-- The cells of a record that a vector can take coverage from: one of its kind
and width with words. -/
def recordCells? (vector : LogicVector) (text : List Char) : Option (Nat → Cell) :=
  match Reader.header text with
  | .ok (width, descriptor) rest =>
      if descriptor.kind = vector.kind ∧ width = vector.width ∧ descriptor.ownsStorage = true then
        match Reader.words width descriptor rest with
        | .ok added _ => some added.cell
        | .error _ _ => none
      else none
  | .error _ _ => none

/-- What an assignment, if there is one, does to the cells of a vector. -/
def assignmentEffect (vector : LogicVector) : Option Assignment → Effect
  | some assignment => .write vector.kind (assignment.settle vector.twoState)
  | none => .keep

/-- What an update does to the cells of a vector when it succeeds. -/
def effect (vector : LogicVector) (change : Update LogicVector) : Effect :=
  match change with
  | .setTwoState twoState => if twoState then .collapse else .keep
  | .claim msb lsb => .mark fun position plane =>
      decide (plane = Plane.assigned ∧ lsb ≤ position ∧ position ≤ msb)
  | .copyFrom source => .replace source.cell
  | .copyRange source lsb => .replace fun position =>
      if position < vector.width ∧ lsb + position < source.width then source.cell (lsb + position)
      else Cell.empty
  | .merge source => .mark source.cell
  | .resetCoverage => .clearCoverage
  | .evaluateUnary => .mark fun position => Evaluation.shows (vector.bit? position)
  | .evaluate evaluation left right => .mark fun position =>
      evaluation.occurs (left.bit? position) (right.bit? position)
  | .mergeRecord text _ =>
      match vector.recordCells? text with
      | some cells => .absorb vector.width cells
      | none => .keep
  | change => vector.assignmentEffect (vector.assignment? change)

/-- An update that gives a value does to the cells what its assignment does. -/
theorem effect_of_isAssigning
    (vector : LogicVector)
    {change : Update LogicVector}
    (assigns : change.isAssigning = true) :
    vector.effect change = vector.assignmentEffect (vector.assignment? change) := by
  cases change with
  | assign | applyChange | setNat | setWord | setUnknown | extendFrom | setValue | commit
  | operate => rfl
  | _ => contradiction

/-! ## Updates that move or clear planes -/

theorem cell_eq_block_cell
    {vector : LogicVector}
    {block : Block}
    (stored : vector.block = .ok block) :
    vector.cell = block.cell := by
  rw [block_eq_ok_iff] at stored
  funext position
  rw [cell, stored]

theorem bit?_eq_cell_value
    {vector : LogicVector}
    (allocated : vector.storage.isAllocated = true)
    {position : Nat}
    (inside : position < vector.width) :
    vector.bit? position = some (vector.cell position).value := by
  obtain ⟨block, stored⟩ := exists_block allocated
  rw [cell_eq_block_cell stored, ← Block.value_eq_cell_value]
  exact (bit?_eq_some_iff stored position _).2 ⟨inside, rfl⟩

/-- The cells of an allocated vector are changed as far as its words reach. -/
theorem cell_alter
    {vector : LogicVector}
    {block : Block}
    (stored : vector.block = .ok block)
    (change : Nat → Cell → Cell)
    {position : Nat}
    (inBounds : position < 32 * block.size) :
    (vector.alter change).cell position = change position (vector.cell position) := by
  rw [cell_eq_block_cell (block_alter stored change), cell_eq_block_cell stored,
    Block.cell_alter _ _ inBounds]

/-- A bit that the change leaves alone stays, with words or without. -/
theorem bit_alter_of_keeps
    (vector : LogicVector)
    {change : Nat → Cell → Cell}
    {position : Nat}
    {plane : Plane}
    (keeps : ∀ cell, change position cell plane = cell plane) :
    (vector.alter change).cell position plane = vector.cell position plane := by
  cases stored : vector.storage.content? with
  | none => simp only [cell, alter, Storage.content?_map, stored, Option.map_none]
  | some block =>
      rw [← block_eq_ok_iff] at stored
      rw [cell_eq_block_cell (block_alter stored change), cell_eq_block_cell stored,
        block.bit_alter_of_keeps keeps]

/-- Changes that agree on the cells of a vector change it alike. -/
theorem alter_congr
    {vector : LogicVector}
    {change other : Nat → Cell → Cell}
    (agree : ∀ position, change position (vector.cell position) =
      other position (vector.cell position)) :
    vector.alter change = vector.alter other := by
  have sameBlock (block : Block) (stored : vector.storage.content? = some block) :
      block.alter change = block.alter other := by
    apply Block.ext_cell
    · simp
    · intro position inBounds
      rw [Block.size_alter] at inBounds
      rw [Block.cell_alter _ _ inBounds, Block.cell_alter _ _ inBounds,
        ← cell_eq_block_cell ((block_eq_ok_iff _ _).2 stored)]
      exact agree position
  rcases vector with ⟨header, storage⟩
  cases storage with
  | absent => simp only [alter, Storage.map]
  | owned block => simp only [alter, Storage.map, sameBlock block rfl]
  | borrowed block => simp only [alter, Storage.map, sameBlock block rfl]

/-- A change that leaves every cell alone leaves the vector alone. -/
theorem alter_eq_self
    {vector : LogicVector}
    {change : Nat → Cell → Cell}
    (keeps : ∀ position, change position (vector.cell position) = vector.cell position) :
    vector.alter change = vector := by
  have same : vector.alter change = vector.alter fun _ cell => cell := alter_congr keeps
  rw [same]
  rcases vector with ⟨header, storage⟩
  cases storage with
  | absent => rfl
  | owned block => simp only [alter, Storage.map, Block.alter_unchanged]
  | borrowed block => simp only [alter, Storage.map, Block.alter_unchanged]

/-- Nothing changes under the effect that keeps everything. -/
theorem alter_keep (vector : LogicVector) : vector.alter Effect.keep.apply = vector :=
  alter_eq_self fun _ => rfl

theorem map_collapse_eq_alter (block : Block) :
    block.map Slice.collapse = block.alter Effect.collapse.apply := by
  refine Block.map_eq_alter block Slice.collapse Cell.collapse ?_
  intro slice offset inWord
  funext plane
  simp only [Slice.cell, Slice.bit, Slice.collapse, Slice.get_ofPlanes, Cell.collapse]
  split
  · simp [inWord]
  · split
    · simp
    · rfl

theorem map_clearFrom_eq_alter (block : Block) :
    (block.map fun slice => slice.clearFrom 2) = block.alter Effect.clearCoverage.apply := by
  refine Block.map_eq_alter block (fun slice => slice.clearFrom 2) Cell.clearCoverage ?_
  intro slice offset inWord
  funext plane
  simp only [Slice.cell, Slice.bit, Slice.get_clearFrom, Cell.clearCoverage, Plane.isCoverage]
  split
  · rename_i coverage
    simp [coverage]
  · rename_i noCoverage
    simp [noCoverage]

/-- The coverage words of a block hold its coverage bits. -/
theorem getLsbD_coverageWord
    (block : Block)
    (index : Nat)
    (plane : Plane)
    {offset : Nat}
    (inWord : offset < 32) :
    (if plane.isCoverage then block.word plane index else 0).getLsbD offset =
      (plane.isCoverage && block.cell (32 * index + offset) plane) := by
  cases plane.isCoverage with
  | false => simp
  | true =>
      rw [if_pos rfl, Bool.true_and, ← Block.cell_slice _ _ inWord]
      rfl

/-- Marking one plane under a span marks the cells of the span. -/
theorem mapIdx_markPlane_eq_alter
    (block : Block)
    {plane : Plane}
    (coverage : plane.isCoverage = true)
    (first last : Nat) :
    (block.mapIdx fun index slice => slice.markPlane plane (Mask.span first (last + 1) index)) =
      block.alter (Effect.mark fun position other =>
        decide (other = plane ∧ first ≤ position ∧ position ≤ last)).apply := by
  apply Block.mapIdx_eq_alter
  intro index slice offset inWord
  funext other
  simp only [Slice.cell, Slice.bit, Slice.get_markPlane, Effect.apply, Cell.mark]
  by_cases same : other = plane
  · have inSpan := Mask.getLsbD_span first (last + 1) index inWord
    simp only [same, if_true, BitVec.getLsbD_or, inSpan, coverage, Nat.lt_succ_iff, true_and,
      Bool.true_and]
  · simp [same]

theorem claim_eq_alter
    {vector updated : LogicVector}
    {msb lsb : Nat}
    {claimed : Bool}
    (succeeds : vector.claim msb lsb = .ok (updated, claimed)) :
    vector.kind = Kind.signal ∧ (lsb ≤ msb ∧ msb < vector.width) ∧
      updated = vector.alter (Effect.mark fun position plane =>
        decide (plane = Plane.assigned ∧ lsb ≤ position ∧ position ≤ msb)).apply := by
  unfold claim at succeeds
  obtain ⟨⟨⟩, isSignal, succeeds⟩ := bind_eq_ok_iff.1 succeeds
  obtain ⟨⟨⟩, inRange, succeeds⟩ := bind_eq_ok_iff.1 succeeds
  obtain ⟨block, stored, succeeds⟩ := bind_eq_ok_iff.1 succeeds
  obtain ⟨⟨⟩, -, succeeds⟩ := bind_eq_ok_iff.1 succeeds
  cases succeeds
  refine ⟨require_eq_ok_iff.1 isSignal, require_eq_ok_iff.1 inRange, ?_⟩
  rw [mapIdx_markPlane_eq_alter block rfl, withBlock_alter stored]

/-- What noting that a range is read does to the cells of a vector. -/
def readEffect (vector : LogicVector) (lsb msb : Nat) : Effect :=
  if vector.kind = Kind.memory then
    .mark fun position plane => decide (plane = Plane.read ∧ lsb ≤ position ∧ position ≤ msb)
  else .keep

theorem markRead_eq_alter
    {vector updated : LogicVector}
    {lsb msb : Nat}
    (succeeds : vector.markRead lsb msb = .ok updated) :
    (lsb ≤ msb ∧ msb < vector.width) ∧
      updated = vector.alter (vector.readEffect lsb msb).apply := by
  unfold markRead at succeeds
  obtain ⟨⟨⟩, inRange, succeeds⟩ := bind_eq_ok_iff.1 succeeds
  obtain ⟨block, stored, succeeds⟩ := bind_eq_ok_iff.1 succeeds
  refine ⟨require_eq_ok_iff.1 inRange, ?_⟩
  unfold readEffect
  split at succeeds
  · rename_i isMemory
    cases succeeds
    rw [if_pos isMemory, mapIdx_markPlane_eq_alter block rfl, withBlock_alter stored]
  · rename_i notMemory
    cases succeeds
    rw [if_neg notMemory, alter_keep]

theorem resetCoverage_eq_alter
    {vector updated : LogicVector}
    (succeeds : vector.resetCoverage = .ok updated) :
    updated = vector.alter Effect.clearCoverage.apply := by
  unfold resetCoverage at succeeds
  obtain ⟨block, stored, succeeds⟩ := bind_eq_ok_iff.1 succeeds
  cases succeeds
  rw [map_clearFrom_eq_alter block, withBlock_alter stored]

/-- Other words of the same number, put in place, replace the cells. -/
theorem withBlock_eq_alter_replace
    {vector : LogicVector}
    {block other : Block}
    (stored : vector.block = .ok block)
    (sameSize : other.size = block.size)
    {cells : Nat → Cell}
    (agree : ∀ position < 32 * other.size, other.cell position = cells position) :
    vector.withBlock other = vector.alter (Effect.replace cells).apply := by
  have same : other = block.alter (Effect.replace cells).apply := by
    apply Block.ext_cell
    · rw [Block.size_alter, sameSize]
    · intro position inBounds
      rw [Block.cell_alter _ _ (by rwa [← sameSize]), agree position inBounds]
      rfl
  rw [same, withBlock_alter stored]

section Sources

variable {clipped : Plane → Prop} {vector source updated : LogicVector}

theorem copyFrom_eq_alter
    (wellFormed : vector.WellFormed clipped)
    (sourceWellFormed : source.WellFormed clipped)
    (succeeds : vector.copyFrom source = .ok updated) :
    vector.width = source.width ∧ vector.kind = source.kind ∧
      updated = vector.alter (Effect.replace source.cell).apply := by
  unfold copyFrom at succeeds
  obtain ⟨⟨⟩, sameWidth, succeeds⟩ := bind_eq_ok_iff.1 succeeds
  obtain ⟨⟨⟩, sameKind, succeeds⟩ := bind_eq_ok_iff.1 succeeds
  obtain ⟨copied, sourceStored, succeeds⟩ := bind_eq_ok_iff.1 succeeds
  obtain ⟨block, stored, succeeds⟩ := bind_eq_ok_iff.1 succeeds
  rw [require_eq_ok_iff] at sameWidth sameKind
  cases succeeds
  refine ⟨sameWidth, sameKind, withBlock_eq_alter_replace stored ?_ ?_⟩
  · rw [(wellFormed.block_fits block stored).size_eq,
      (sourceWellFormed.block_fits copied sourceStored).size_eq, sameWidth]
  · intro position _
    rw [cell_eq_block_cell sourceStored]

/-- Bits that are taken from a plane stand at their distance from the start. -/
theorem getLsbD_extract
    (block : Block)
    (plane : Plane)
    (start limit : Nat)
    {offset : Nat}
    (inWord : offset < 32) :
    (block.extract plane start limit).getLsbD offset =
      (block.bit plane (start + offset) && decide (start + offset < limit)) := by
  rw [Block.extract, BitVec.getLsbD_and, BitWord.getLsbD_window _ _ inWord, Mask.getLsbD_low]
  have sameBound : (offset < 32 ∧ offset < limit - start) ↔ start + offset < limit := by omega
  rw [decide_eq_decide.2 sameBound]
  rfl

theorem copyRange_eq_alter
    {lsb : Nat}
    (wellFormed : vector.WellFormed clipped)
    (succeeds : vector.copyRange source lsb = .ok updated) :
    vector.kind = source.kind ∧
      updated = vector.alter (Effect.replace fun position =>
        if position < vector.width ∧ lsb + position < source.width then
          source.cell (lsb + position)
        else Cell.empty).apply := by
  unfold copyRange at succeeds
  obtain ⟨⟨⟩, sameKind, succeeds⟩ := bind_eq_ok_iff.1 succeeds
  obtain ⟨⟨⟩, -, succeeds⟩ := bind_eq_ok_iff.1 succeeds
  obtain ⟨copied, sourceStored, succeeds⟩ := bind_eq_ok_iff.1 succeeds
  obtain ⟨block, stored, succeeds⟩ := bind_eq_ok_iff.1 succeeds
  cases succeeds
  refine ⟨require_eq_ok_iff.1 sameKind, withBlock_eq_alter_replace stored ?_ ?_⟩
  · simp [(wellFormed.block_fits block stored).size_eq]
  · intro position inBounds
    rw [Block.size_restrict, Array.size_ofFn] at inBounds
    have wordInBounds : position / 32 < wordCount vector.width := by omega
    have inWord : position % 32 < 32 := Nat.mod_lt _ (by decide)
    have joined : lsb + 32 * (position / 32) + position % 32 = lsb + position := by omega
    rw [Block.cell_restrict, cell_eq_block_cell sourceStored]
    by_cases inside : position < vector.width
    · rw [if_pos inside, Block.cell_eq_slice_cell,
        Block.slice_of_lt _ (by simpa using wordInBounds)]
      funext plane
      simp only [Array.getElem_ofFn, Slice.cell, Slice.bit, Slice.get_ofPlanes,
        getLsbD_extract _ _ _ _ inWord, joined]
      by_cases inSource : lsb + position < source.width
      · simp only [inside, inSource, decide_true, Bool.and_true, and_self, if_true]
        rfl
      · simp [inSource]
    · simp [inside]

theorem merge_eq_alter (succeeds : vector.merge source = .ok updated) :
    vector.width = source.width ∧ vector.kind = source.kind ∧
      updated = vector.alter (Effect.mark source.cell).apply := by
  unfold merge at succeeds
  obtain ⟨⟨⟩, sameWidth, succeeds⟩ := bind_eq_ok_iff.1 succeeds
  obtain ⟨⟨⟩, sameKind, succeeds⟩ := bind_eq_ok_iff.1 succeeds
  obtain ⟨added, sourceStored, succeeds⟩ := bind_eq_ok_iff.1 succeeds
  obtain ⟨block, stored, succeeds⟩ := bind_eq_ok_iff.1 succeeds
  rw [require_eq_ok_iff] at sameWidth sameKind
  cases succeeds
  refine ⟨sameWidth, sameKind, ?_⟩
  rw [Block.mapIdx_mark_eq_alter block _ added.cell, withBlock_alter stored,
    cell_eq_block_cell sourceStored]
  · rfl
  · intro index plane offset inWord
    exact getLsbD_coverageWord added index plane inWord

end Sources

/-- Adding coverage and dropping what is past the width, cell by cell. -/
theorem addCoverage_eq_alter (vector : LogicVector) (added : Block) :
    vector.addCoverage added = vector.alter (Effect.absorb vector.width added.cell).apply := by
  have absorbs (block : Block) :
      Block.restrict (block.mapIdx fun index slice =>
        slice.mark fun plane => if plane.isCoverage then added.word plane index else 0)
        vector.width = block.alter (Effect.absorb vector.width added.cell).apply := by
    rw [Block.mapIdx_mark_eq_alter block _ added.cell fun index plane offset inWord =>
      getLsbD_coverageWord added index plane inWord]
    apply Block.ext_cell
    · simp
    · intro position inBounds
      rw [Block.size_restrict, Block.size_alter] at inBounds
      rw [Block.cell_restrict, Block.cell_alter _ _ inBounds, Block.cell_alter _ _ inBounds]
      rfl
  simp only [addCoverage, alter, absorbs]

/-- A merged record adds its coverage if it has words for the vector. -/
theorem mergeRecord_eq_alter
    {vector updated : LogicVector}
    {text rest : List Char}
    {options : RecordOptions}
    (succeeds : (vector.mergeRecord text options).result = .ok (updated, rest)) :
    updated = vector.alter (vector.effect (.mergeRecord text options)).apply := by
  obtain ⟨width, descriptor, middle, added, takesHeader, sameKind, -, takesWords, rfl⟩ :=
    mergeRecord_eq_ok_iff.1 succeeds
  simp only [effect, recordCells?, takesHeader]
  by_cases merges : width = vector.width ∧ descriptor.ownsStorage = true
  · rw [if_pos merges, if_pos ⟨sameKind, merges⟩, takesWords]
    exact addCoverage_eq_alter vector added
  · rw [if_neg merges, if_neg fun suitable => merges suitable.2, alter_keep]

/-! ## Every update -/

/-- A successful update of a well-formed vector has its effect on the cells, sets
its flags, and does nothing else. -/
theorem update_eq_alter
    {clipped : Plane → Prop}
    {vector updated : LogicVector}
    {change : Update LogicVector}
    {reply : Reply}
    (wellFormed : vector.WellFormed clipped)
    (sourceWellFormed : ∀ source, change.source? = some source → source.WellFormed clipped)
    (succeeds : (vector.update change).result = .ok (updated, reply)) :
    updated =
      { vector.alter (vector.effect change).apply with
        toHeader := change.header vector.toHeader } := by
  -- The updates that give a value are all settled by their assignment.
  have assigned (assigns : change.isAssigning = true) :
      updated = vector.alter (vector.assignmentEffect (vector.assignment? change)).apply := by
    cases carried : vector.assignment? change with
    | none => rw [update_eq_self assigns carried succeeds, assignmentEffect, alter_keep]
    | some assignment => exact (update_eq_accept carried succeeds).2
  cases change with
  | assign | applyChange | setNat | setWord | setUnknown | extendFrom | setValue | commit
  | operate => exact assigned rfl
  | setSigned signed =>
      obtain ⟨done, -⟩ := Outcome.ofChange_eq_ok_iff.1 succeeds
      cases done
      simp only [effect, assignment?, assignmentEffect, alter_keep]
      rfl
  | setTwoState twoState =>
      obtain ⟨done, -⟩ := Outcome.ofChange_eq_ok_iff.1 succeeds
      cases done
      cases twoState with
      | false =>
          simp only [effect, Bool.false_eq_true, if_false, alter_keep]
          rfl
      | true =>
          simp only [effect, if_true, setTwoState, alter, map_collapse_eq_alter]
          rfl
  | claim msb lsb =>
      obtain ⟨claimed, claims, -⟩ := Outcome.ofFlagged_eq_ok_iff.1 succeeds
      exact (claim_eq_alter (liftM_fault_eq_ok_iff.1 claims)).2.2
  | copyFrom source =>
      obtain ⟨copies, -⟩ := Outcome.ofChange_eq_ok_iff.1 succeeds
      exact (copyFrom_eq_alter wellFormed (sourceWellFormed source rfl) copies).2.2
  | copyRange source lsb =>
      obtain ⟨copies, -⟩ := Outcome.ofChange_eq_ok_iff.1 succeeds
      exact (copyRange_eq_alter wellFormed copies).2
  | merge source =>
      obtain ⟨merges, -⟩ := Outcome.ofChange_eq_ok_iff.1 succeeds
      exact (merge_eq_alter merges).2.2
  | resetCoverage =>
      obtain ⟨resets, -⟩ := Outcome.ofChange_eq_ok_iff.1 succeeds
      exact resetCoverage_eq_alter resets
  | evaluateUnary =>
      obtain ⟨evaluates, -⟩ := Outcome.ofChange_eq_ok_iff.1 succeeds
      exact (evaluateUnary_eq_ok_iff.1 evaluates).2.2
  | evaluate evaluation left right =>
      obtain ⟨evaluates, -⟩ := Outcome.ofChange_eq_ok_iff.1 succeeds
      exact (evaluate_eq_ok_iff.1 evaluates).2.2.2.2
  | mergeRecord text options =>
      obtain ⟨⟨_, rest⟩, merges, same⟩ := Outcome.result_map_eq_ok_iff.1 succeeds
      cases same
      exact mergeRecord_eq_alter merges

end LogicVector
end FourState
