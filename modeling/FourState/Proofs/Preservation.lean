import FourState.Proofs.Effect
import FourState.Proofs.Record
import FourState.Text.Literal

/-!
# Well-formedness is preserved

An effect is confined when it keeps every fitting cell fitting.  The effect of
every successful update is confined, apart from evaluations, which can mark
coverage past the width; so a well-formed vector stays well-formed.  New vectors
of every origin are well-formed.
-/

namespace FourState

variable {clipped : Plane → Prop} {width : Nat} {kind : Kind}

/-! ## Confined effects -/

/-- Giving a bit adds coverage in live planes only. -/
theorem Cell.lt_planeCount_of_gains
    {cell : Cell}
    {bit : Bit}
    {plane : Plane}
    (gained : Cell.gains kind cell bit plane = true) :
    plane.val < kind.planeCount := by
  cases kind with
  | plain => contradiction
  | signal =>
      simp only [gains] at gained
      split at gained
      · rename_i isRise
        rw [isRise]
        decide
      · split at gained
        · rename_i isFall
          rw [isFall]
          decide
        · rw [of_decide_eq_true gained]
          decide
  | expression => exact plane.isLt
  | memory =>
      simp only [gains] at gained
      split at gained
      · rename_i isRise
        rw [isRise]
        decide
      · split at gained
        · rename_i isFall
          rw [isFall]
          decide
        · rw [of_decide_eq_true gained]
          decide

namespace Effect

/-- Every cell that fits its position still does after the effect. -/
def Confined (clipped : Plane → Prop) (width : Nat) (kind : Kind) (effect : Effect) : Prop :=
  ∀ position cell, cell.Fits clipped width kind position →
    (effect.apply position cell).Fits clipped width kind position

theorem confined_keep : keep.Confined clipped width kind :=
  fun _ _ fits => fits

theorem confined_write
    {assignment : Assignment}
    (inside : assignment.last < width) :
    (write kind assignment).Confined clipped width kind := by
  intro position cell fits
  simp only [apply, Assignment.change]
  split
  · rename_i covered
    apply Cell.fits_of_lt (Nat.lt_of_le_of_lt covered.2 inside)
    intro plane set
    have twoPlanes : 2 ≤ kind.planeCount := by cases kind <;> decide
    unfold Cell.accept at set
    split at set
    · rename_i isLow
      rw [isLow]
      exact Nat.lt_of_lt_of_le Nat.zero_lt_two twoPlanes
    · split at set
      · rename_i isHigh
        rw [isHigh]
        exact Nat.lt_of_lt_of_le Nat.one_lt_two twoPlanes
      · obtain before | gained := Bool.or_eq_true_iff.1 set
        · exact (fits plane before).1
        · exact Cell.lt_planeCount_of_gains gained
  · exact fits

theorem confined_clearCoverage : clearCoverage.Confined clipped width kind := by
  intro position cell fits
  apply fits.mono
  intro plane set
  exact (Bool.and_eq_true_iff.1 set).2

theorem confined_collapse : collapse.Confined clipped width kind := by
  intro position cell fits
  apply fits.mono
  intro plane set
  simp only [apply, Cell.collapse] at set
  split at set
  · rename_i isLow
    rw [isLow]
    exact (Bool.and_eq_true_iff.1 set).1
  · split at set
    · contradiction
    · exact set

theorem confined_mark
    {marks : Nat → Cell}
    (fitting : ∀ position plane, marks position plane = true →
      plane.val < kind.planeCount ∧ (clipped plane → position < width)) :
    (mark marks).Confined clipped width kind := by
  intro position cell fits plane set
  obtain before | added := Bool.or_eq_true_iff.1 set
  · exact fits plane before
  · exact fitting position plane (Bool.and_eq_true_iff.1 added).2

theorem confined_absorb
    {marks : Nat → Cell}
    (live : ∀ position plane, marks position plane = true → plane.val < kind.planeCount) :
    (absorb width marks).Confined clipped width kind := by
  intro position cell fits
  simp only [apply]
  split
  · rename_i inside
    apply Cell.fits_of_lt inside
    intro plane set
    obtain before | added := Bool.or_eq_true_iff.1 set
    · exact (fits plane before).1
    · exact live position plane (Bool.and_eq_true_iff.1 added).2
  · exact Cell.fits_empty position

theorem confined_replace
    {cells : Nat → Cell}
    (fitting : ∀ position, (cells position).Fits clipped width kind position) :
    (replace cells).Confined clipped width kind :=
  fun position _ _ => fitting position

end Effect

/-! ## Effects of updates are confined -/

/-- The update records how the bits of two operands combine. -/
def Update.isEvaluation {operand : Type} : Update operand → Bool
  | evaluate _ _ _ => true
  | _ => false

namespace LogicVector

theorem WellFormed.cell_fits
    {vector : LogicVector}
    (wellFormed : vector.WellFormed clipped)
    (position : Nat) :
    (vector.cell position).Fits clipped vector.width vector.kind position := by
  unfold cell
  split
  · rename_i block stored
    exact (wellFormed.block_fits block ((block_eq_ok_iff _ _).2 stored)).cell_fits position
  · exact Cell.fits_empty position

/-- Every bit past the width is clear if all planes are clipped. -/
theorem WellFormed.cell_of_width_le
    {vector : LogicVector}
    (wellFormed : vector.WellFormed fun _ => True)
    {position : Nat}
    (outside : vector.width ≤ position)
    (plane : Plane) :
    vector.cell position plane = false := by
  rw [Bool.eq_false_iff]
  intro set
  exact Nat.not_lt.2 outside ((wellFormed.cell_fits position plane set).2 trivial)

/-- A record that a vector takes coverage from has bits in its live planes only. -/
theorem lt_planeCount_of_recordCells
    {vector : LogicVector}
    {text : List Char}
    {cells : Nat → Cell}
    (holds : vector.recordCells? text = some cells)
    {position : Nat}
    {plane : Plane}
    (set : cells position plane = true) :
    plane.val < vector.kind.planeCount := by
  unfold recordCells? at holds
  split at holds
  · rename_i recordWidth descriptor rest readHeader
    split at holds
    · rename_i suitable
      split at holds
      · rename_i added last readWords
        cases holds
        rw [← suitable.1]
        exact (Reader.words_eq_ok readWords suitable.2.2).2 position plane set
      · contradiction
    · contradiction
  · contradiction

/-- The effect of a successful update is confined; an evaluation's is if the
coverage planes are not clipped. -/
theorem effect_confined
    {vector updated : LogicVector}
    {change : Update LogicVector}
    {reply : Reply}
    (wellFormed : vector.WellFormed clipped)
    (sourceWellFormed : ∀ source, change.source? = some source → source.WellFormed clipped)
    (mayEvaluate : change.isEvaluation = true → ∀ plane : Plane, plane.isCoverage = true →
      ¬clipped plane)
    (succeeds : (vector.update change).result = .ok (updated, reply)) :
    (vector.effect change).Confined clipped vector.width vector.kind := by
  have assigned :
      (vector.assignmentEffect (vector.assignment? change)).Confined clipped vector.width
        vector.kind := by
    cases carried : vector.assignment? change with
    | none => exact Effect.confined_keep
    | some assignment => exact Effect.confined_write (update_eq_accept carried succeeds).1.2
  cases change with
  | assign | applyChange | setNat | setWord | setUnknown | extendFrom | setValue | commit
  | operate => exact assigned
  | setSigned signed => exact Effect.confined_keep
  | setTwoState twoState =>
      cases twoState with
      | false => exact Effect.confined_keep
      | true => exact Effect.confined_collapse
  | claim msb lsb =>
      obtain ⟨claimed, claims, -⟩ := Outcome.ofFlagged_eq_ok_iff.1 succeeds
      obtain ⟨isSignal, inRange, -⟩ := claim_eq_alter (liftM_fault_eq_ok_iff.1 claims)
      apply Effect.confined_mark
      intro position plane set
      obtain ⟨rfl, -, below⟩ := of_decide_eq_true set
      refine ⟨?_, fun _ => Nat.lt_of_le_of_lt below inRange.2⟩
      rw [isSignal]
      decide
  | copyFrom source =>
      obtain ⟨copies, -⟩ := Outcome.ofChange_eq_ok_iff.1 succeeds
      have fitting := sourceWellFormed source rfl
      obtain ⟨sameWidth, sameKind, -⟩ := copyFrom_eq_alter wellFormed fitting copies
      apply Effect.confined_replace
      intro position
      rw [sameWidth, sameKind]
      exact fitting.cell_fits position
  | copyRange source lsb =>
      obtain ⟨copies, -⟩ := Outcome.ofChange_eq_ok_iff.1 succeeds
      have fitting := sourceWellFormed source rfl
      obtain ⟨sameKind, -⟩ := copyRange_eq_alter wellFormed copies
      apply Effect.confined_replace
      intro position
      split
      · rename_i inside
        apply Cell.fits_of_lt inside.1
        intro plane set
        rw [sameKind]
        exact (fitting.cell_fits (lsb + position) plane set).1
      · exact Cell.fits_empty position
  | merge source =>
      obtain ⟨merges, -⟩ := Outcome.ofChange_eq_ok_iff.1 succeeds
      have fitting := sourceWellFormed source rfl
      obtain ⟨sameWidth, sameKind, -⟩ := merge_eq_alter merges
      apply Effect.confined_mark
      intro position plane set
      rw [sameWidth, sameKind]
      exact fitting.cell_fits position plane set
  | resetCoverage => exact Effect.confined_clearCoverage
  | evaluateUnary =>
      obtain ⟨evaluates, -⟩ := Outcome.ofChange_eq_ok_iff.1 succeeds
      obtain ⟨isExpression, -⟩ := evaluateUnary_eq_ok_iff.1 evaluates
      apply Effect.confined_mark
      intro position plane set
      rw [isExpression]
      refine ⟨plane.isLt, fun _ => ?_⟩
      apply Classical.byContradiction
      intro outside
      rw [bit?, if_neg outside, Evaluation.shows_none] at set
      contradiction
  | evaluate evaluation left right =>
      obtain ⟨evaluates, -⟩ := Outcome.ofChange_eq_ok_iff.1 succeeds
      obtain ⟨-, -, isExpression, -⟩ := evaluate_eq_ok_iff.1 evaluates
      apply Effect.confined_mark
      intro position plane set
      rw [isExpression]
      refine ⟨plane.isLt, fun isClipped => ?_⟩
      rw [← Evaluation.isCoverage_and_occurs] at set
      exact absurd isClipped (mayEvaluate rfl plane (Bool.and_eq_true_iff.1 set).1)
  | mergeRecord text options =>
      simp only [effect]
      split
      · rename_i cells holds
        apply Effect.confined_absorb
        intro position plane set
        exact lt_planeCount_of_recordCells holds set
      · exact Effect.confined_keep

/-! ## Updated vectors -/

/-- Only width, kind and words count for being well-formed. -/
theorem WellFormed.congr
    {vector other : LogicVector}
    (wellFormed : vector.WellFormed clipped)
    (sameWidth : other.width = vector.width)
    (sameKind : other.kind = vector.kind)
    (sameContent : other.storage.content? = vector.storage.content?) :
    other.WellFormed clipped where
  width_pos := by
    rw [sameWidth]
    exact wellFormed.width_pos
  width_le := by
    rw [sameWidth]
    exact wellFormed.width_le
  block_fits := by
    intro block stored
    rw [block_eq_ok_iff, sameContent, ← block_eq_ok_iff] at stored
    rw [sameWidth, sameKind]
    exact wellFormed.block_fits block stored

theorem WellFormed.alter
    {vector : LogicVector}
    (wellFormed : vector.WellFormed clipped)
    {effect : Effect}
    (confined : effect.Confined clipped vector.width vector.kind) :
    (vector.alter effect.apply).WellFormed clipped where
  width_pos := wellFormed.width_pos
  width_le := wellFormed.width_le
  block_fits := by
    intro changed stored
    rw [block_eq_ok_iff] at stored
    simp only [LogicVector.alter, Storage.content?_map, Option.map_eq_some_iff] at stored
    obtain ⟨block, before, rfl⟩ := stored
    exact (wellFormed.block_fits block ((block_eq_ok_iff _ _).2 before)).alter confined

/-- An update leaves width, kind and place of the words as they are. -/
theorem update_frame
    {vector updated : LogicVector}
    {change : Update LogicVector}
    {reply : Reply}
    (wellFormed : vector.WellFormed clipped)
    (sourceWellFormed : ∀ source, change.source? = some source → source.WellFormed clipped)
    (succeeds : (vector.update change).result = .ok (updated, reply)) :
    updated.width = vector.width ∧ updated.kind = vector.kind ∧
      updated.storage = vector.storage.map fun block =>
        block.alter (vector.effect change).apply := by
  rw [update_eq_alter wellFormed sourceWellFormed succeeds]
  cases change <;> exact ⟨rfl, rfl, rfl⟩

/-- A successful update keeps a vector well-formed. -/
theorem WellFormed.update
    {vector updated : LogicVector}
    {change : Update LogicVector}
    {reply : Reply}
    (wellFormed : vector.WellFormed clipped)
    (sourceWellFormed : ∀ source, change.source? = some source → source.WellFormed clipped)
    (mayEvaluate : change.isEvaluation = true → ∀ plane : Plane, plane.isCoverage = true →
      ¬clipped plane)
    (succeeds : (vector.update change).result = .ok (updated, reply)) :
    updated.WellFormed clipped := by
  obtain ⟨sameWidth, sameKind, storage⟩ := update_frame wellFormed sourceWellFormed succeeds
  have confined := effect_confined wellFormed sourceWellFormed mayEvaluate succeeds
  apply (wellFormed.alter confined).congr sameWidth sameKind
  rw [storage]
  rfl

theorem WellFormed.setTwoState
    {vector : LogicVector}
    (wellFormed : vector.WellFormed clipped)
    (twoState : Bool) :
    (vector.setTwoState twoState).WellFormed clipped := by
  have updates : (vector.update (.setTwoState twoState)).result =
      .ok (vector.setTwoState twoState, .done) := rfl
  exact wellFormed.update (by rintro source ⟨⟩) (by rintro ⟨⟩) updates

/-- Noting what is read keeps a vector well-formed. -/
theorem WellFormed.markRead
    {vector updated : LogicVector}
    {lsb msb : Nat}
    (wellFormed : vector.WellFormed clipped)
    (succeeds : vector.markRead lsb msb = .ok updated) :
    updated.WellFormed clipped := by
  obtain ⟨inRange, rfl⟩ := markRead_eq_alter succeeds
  apply wellFormed.alter
  unfold readEffect
  split
  · rename_i isMemory
    apply Effect.confined_mark
    intro position plane set
    obtain ⟨rfl, -, below⟩ := of_decide_eq_true set
    refine ⟨?_, fun _ => Nat.lt_of_le_of_lt below inRange.2⟩
    rw [isMemory]
    decide
  · exact Effect.confined_keep

/-! ## New vectors of every origin -/

/-- The cells of a resized block: the old ones below both widths, else new ones. -/
theorem cell_resized
    (fresh old : Block)
    (kept position : Nat)
    (inBounds : position < 32 * fresh.size) :
    Block.cell (fresh.mapIdx fun index slice =>
      slice.blend (Mask.inside kept index) (old.slice index)) position =
      if position < kept then old.cell position else fresh.cell position := by
  have wordInBounds : position / 32 < fresh.size := by omega
  have inWord : position % 32 < 32 := Nat.mod_lt _ (by decide)
  have joined : 32 * (position / 32) + position % 32 = position := Nat.div_add_mod position 32
  funext plane
  rw [Block.cell_eq_slice_cell, Block.slice_mapIdx _ _ wordInBounds]
  simp only [Slice.cell, Slice.bit, Slice.get_blend]
  rw [BitWord.getLsbD_replace _ _ _ inWord, Mask.getLsbD_inside _ _ inWord, joined]
  by_cases below : position < kept
  · simp only [below, decide_true, if_true]
    rfl
  · simp only [below, decide_false, Bool.false_eq_true, if_false]
    rfl

/-- A fresh block with some old cells below a limit inside its width fits. -/
theorem fits_resized
    {fresh old : Block}
    {oldWidth kept : Nat}
    (freshFits : fresh.Fits clipped width kind)
    (oldFits : old.Fits clipped oldWidth kind)
    (inside : kept ≤ width) :
    Block.Fits clipped width kind (fresh.mapIdx fun index slice =>
      slice.blend (Mask.inside kept index) (old.slice index)) where
  size_eq := by
    rw [Array.size_mapIdx, freshFits.size_eq]
  cell_fits := by
    intro position
    by_cases inBounds : position < 32 * fresh.size
    · rw [cell_resized fresh old kept position inBounds]
      split
      · rename_i below
        apply Cell.fits_of_lt (Nat.lt_of_lt_of_le below inside)
        intro plane set
        exact (oldFits.cell_fits position plane set).1
      · exact freshFits.cell_fits position
    · rw [Block.cell_of_size_le _ (by simpa using inBounds)]
      exact Cell.fits_empty position

theorem WellFormed.resize
    {vector resized : LogicVector}
    {newWidth : Nat}
    (wellFormed : vector.WellFormed clipped)
    (succeeds : vector.resize newWidth = .ok resized) :
    resized.WellFormed clipped := by
  unfold LogicVector.resize at succeeds
  obtain ⟨⟨⟩, inLimits, succeeds⟩ := bind_eq_ok_iff.1 succeeds
  rw [require_eq_ok_iff] at inLimits
  have fresh : (Block.initial newWidth (vector.kind.startsUnknown && !vector.twoState)).Fits
      clipped newWidth vector.kind := Block.fits_initial newWidth _
  cases before : vector.storage.content? with
  | none =>
      rw [before] at succeeds
      cases succeeds
      refine ⟨inLimits.1, inLimits.2, ?_⟩
      intro block stored
      cases stored
      exact fresh
  | some old =>
      rw [before] at succeeds
      cases succeeds
      refine ⟨inLimits.1, inLimits.2, ?_⟩
      intro block stored
      cases stored
      exact fits_resized fresh (wellFormed.block_fits old ((block_eq_ok_iff _ _).2 before))
        (Nat.min_le_left _ _)

theorem toVector_wellFormed
    {literal : Literal}
    {vector : LogicVector}
    (succeeds : literal.toVector = .ok vector) :
    vector.WellFormed clipped := by
  unfold Literal.toVector at succeeds
  obtain ⟨fresh, creates, succeeds⟩ := FourState.bind_eq_ok_iff.1 succeeds
  obtain ⟨⟨committed, changed⟩, commits, succeeds⟩ := FourState.bind_eq_ok_iff.1 succeeds
  cases succeeds
  have wellFormed : (fresh.setSigned literal.signed).WellFormed clipped :=
    (create_wellFormed creates).congr rfl rfl rfl
  have updates : ((fresh.setSigned literal.signed).update (.commit literal.value)).result =
      .ok (vector, .flag changed) :=
    Outcome.ofFlagged_of_ok commits
  exact wellFormed.update (by rintro source ⟨⟩) (by rintro ⟨⟩) updates

theorem ofLiteral_wellFormed
    {text : List Char}
    {vector : LogicVector}
    {radix : Radix}
    (succeeds : ofLiteral text = .ok (vector, radix)) :
    vector.WellFormed clipped := by
  unfold ofLiteral at succeeds
  obtain ⟨literal, -, succeeds⟩ := FourState.bind_eq_ok_iff.1 succeeds
  obtain ⟨converted, converts, succeeds⟩ := FourState.bind_eq_ok_iff.1 succeeds
  cases succeeds
  exact toVector_wellFormed (liftM_fault_eq_ok_iff.1 converts)

theorem ofQuoted_wellFormed
    {text : List Char}
    {vector : LogicVector}
    (succeeds : ofQuoted text = .ok vector) :
    vector.WellFormed clipped := by
  unfold ofQuoted at succeeds
  obtain ⟨literal, -, succeeds⟩ := FourState.bind_eq_ok_iff.1 succeeds
  exact toVector_wellFormed (liftM_fault_eq_ok_iff.1 succeeds)

theorem readRecord_wellFormed
    {text rest : List Char}
    {vector : LogicVector}
    (succeeds : (readRecord text).result = .ok (vector, rest)) :
    vector.WellFormed clipped := by
  unfold readRecord at succeeds
  split at succeeds
  · rename_i read remaining reads
    cases succeeds
    exact record_wellFormed reads
  · contradiction

theorem WellFormed.deepClone
    {vector clone : LogicVector}
    (wellFormed : vector.WellFormed clipped)
    (clones : vector.deepClone? = some clone) :
    clone.WellFormed clipped := by
  unfold deepClone? at clones
  rw [Option.map_eq_some_iff] at clones
  obtain ⟨block, stored, rfl⟩ := clones
  exact wellFormed.congr rfl rfl stored.symm

end LogicVector
end FourState
