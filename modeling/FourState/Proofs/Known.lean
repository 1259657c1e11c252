import FourState.Proofs.Preservation

/-!
# Known values

Words without a set high value bit hold known bits only.  Updates of a two-state
vector keep them so, except those that take planes over as they are; these do
if the planes they take hold known bits.
-/

namespace FourState

/-! ## Known words -/

/-- No value bit of the block is unknown. -/
def Block.IsKnown (block : Block) : Prop :=
  ∀ position, block.bit Plane.valueHigh position = false

namespace Block

/-- A block of known bits has zeros for its high value words. -/
theorem IsKnown.word_eq_zero
    {block : Block}
    (known : block.IsKnown)
    (index : Nat) :
    block.word Plane.valueHigh index = 0 := by
  apply BitVec.eq_of_getLsbD_eq
  intro offset inWord
  have clear := known (32 * index + offset)
  have sameWord : (32 * index + offset) / 32 = index := by omega
  have sameOffset : (32 * index + offset) % 32 = offset := by omega
  rw [Block.bit, sameWord, sameOffset] at clear
  rw [BitVec.ofNat_eq_ofNat, BitVec.getLsbD_zero]
  exact clear

theorem IsKnown.isKnown_value
    {block : Block}
    (known : block.IsKnown)
    (position : Nat) :
    (block.value position).isKnown = true := by
  rw [Block.value, Bit.isKnown_ofPlanes, known position]
  rfl

end Block

/-- The bits from position `first` up to `limit` are known, as far as the vector
has them. -/
def LogicVector.KnownBetween (vector : LogicVector) (first limit : Nat) : Prop :=
  ∀ position bit, first ≤ position → position < limit → vector.bit position = .ok bit →
    bit.isKnown = true

namespace LogicVector

variable {vector : LogicVector}

/-- What is known of the bits of a vector is known of its cells; past the width
there is no value bit at all. -/
theorem KnownBetween.cell_valueHigh
    (wellFormed : vector.WellFormed fun plane => plane.isCoverage = false)
    {first limit : Nat}
    (known : vector.KnownBetween first limit)
    {position : Nat}
    (notBefore : first ≤ position)
    (below : position < limit ∨ vector.width ≤ position) :
    vector.cell position Plane.valueHigh = false := by
  cases stored : vector.storage.content? with
  | none =>
      rw [cell, stored]
      rfl
  | some block =>
      rw [← block_eq_ok_iff] at stored
      rw [cell_eq_block_cell stored]
      by_cases inside : position < vector.width
      · have shows := known position _ notBefore (by omega) (bit_eq_ok wellFormed stored inside)
        rw [Block.value, Bit.isKnown_ofPlanes, Bool.not_eq_true'] at shows
        exact shows
      · have clipsHigh : Plane.isCoverage Plane.valueHigh = false := rfl
        exact (wellFormed.block_fits block stored).bit_of_width_le clipsHigh
          (Nat.not_lt.1 inside)

/-- A vector with known bits only has known words. -/
theorem KnownBetween.isKnown
    (wellFormed : vector.WellFormed fun plane => plane.isCoverage = false)
    (known : vector.KnownBetween 0 vector.width)
    {block : Block}
    (stored : vector.block = .ok block) :
    block.IsKnown := by
  intro position
  have clear := known.cell_valueHigh wellFormed (Nat.zero_le position)
    (Nat.lt_or_ge position vector.width)
  rw [cell_eq_block_cell stored] at clear
  exact clear

end LogicVector

/-! ## Effects that keep known bits known -/

/-- An effect on a cell with a known bit leaves a known bit. -/
def Effect.KeepsKnown (effect : Effect) : Prop :=
  ∀ position cell, cell Plane.valueHigh = false →
    effect.apply position cell Plane.valueHigh = false

namespace Effect

theorem keepsKnown_mark (marks : Nat → Cell) : (mark marks).KeepsKnown := by
  intro position cell known
  have notCoverage : Plane.isCoverage Plane.valueHigh = false := rfl
  rw [apply, Cell.mark, known, notCoverage]
  rfl

theorem keepsKnown_absorb (width : Nat) (marks : Nat → Cell) :
    (absorb width marks).KeepsKnown := by
  intro position cell known
  rw [apply]
  split
  · exact keepsKnown_mark marks position cell known
  · rfl

/-- A settled assignment writes known bits. -/
theorem keepsKnown_write (kind : Kind) (assignment : Assignment) :
    (write kind (assignment.settle true)).KeepsKnown := by
  intro position cell known
  rw [apply, Assignment.change]
  split
  · have notLow : Plane.valueHigh ≠ Plane.valueLow := by decide
    rw [Cell.accept, if_neg notLow, if_pos rfl]
    change ((assignment.bit position).collapse).high = false
    cases assignment.bit position <;> rfl
  · exact known

end Effect

namespace Block

/-- A change of cells that leaves no unknown bit leaves known words. -/
theorem isKnown_alter
    {block : Block}
    {change : Nat → Cell → Cell}
    (known : ∀ position, change position (block.cell position) Plane.valueHigh = false) :
    (block.alter change).IsKnown := by
  intro position
  by_cases inBounds : position < 32 * block.size
  · exact (congrFun (block.cell_alter change inBounds) Plane.valueHigh).trans (known position)
  · have outside : 32 * (block.alter change).size ≤ position := by
      rw [size_alter]
      exact Nat.not_lt.1 inBounds
    exact congrFun ((block.alter change).cell_of_size_le outside) Plane.valueHigh

theorem IsKnown.alter
    {block : Block}
    (known : block.IsKnown)
    {effect : Effect}
    (keeps : effect.KeepsKnown) :
    (block.alter effect.apply).IsKnown :=
  isKnown_alter fun position => keeps position _ (known position)

/-- Collapsed words are known, whatever they were before. -/
theorem isKnown_collapse (block : Block) : (block.alter Effect.collapse.apply).IsKnown :=
  isKnown_alter fun _ => rfl

end Block

/-! ## Updates of two-state vectors -/

/-- An update that takes planes over as they are takes known bits only. -/
def Update.TakesKnown (width : Nat) : Update LogicVector → Prop
  | .copyFrom source => source.KnownBetween 0 source.width
  | .copyRange source lsb => source.KnownBetween lsb (lsb + width)
  | _ => True

/-- Updates of a two-state vector bring no unknown bit of their own. -/
theorem LogicVector.effect_keepsKnown
    {vector : LogicVector}
    {change : Update LogicVector}
    (twoState : vector.twoState = true)
    (sourceWellFormed : ∀ source, change.source? = some source →
      source.WellFormed fun plane => plane.isCoverage = false)
    (takes : change.TakesKnown vector.width) :
    (vector.effect change).KeepsKnown := by
  have keeps : Effect.keep.KeepsKnown := fun _ _ known => known
  have assigned : (vector.assignmentEffect (vector.assignment? change)).KeepsKnown := by
    cases vector.assignment? change with
    | none => exact keeps
    | some assignment =>
        rw [assignmentEffect, twoState]
        exact Effect.keepsKnown_write vector.kind assignment
  cases change with
  | assign | applyChange | setNat | setWord | setUnknown | extendFrom | setValue | commit
  | operate | setSigned => exact assigned
  | setTwoState twoState =>
      cases twoState with
      | false => exact keeps
      | true => exact fun _ _ _ => rfl
  | claim | merge | evaluateUnary | evaluate => exact Effect.keepsKnown_mark _
  | resetCoverage => exact fun _ _ known => known
  | copyFrom source =>
      intro position cell _
      exact takes.cell_valueHigh (sourceWellFormed source rfl) (Nat.zero_le position)
        (Nat.lt_or_ge position source.width)
  | copyRange source lsb =>
      intro position cell _
      simp only [effect, Effect.apply]
      split
      · rename_i inside
        exact takes.cell_valueHigh (sourceWellFormed source rfl) (Nat.le_add_right lsb position)
          (Or.inl (Nat.add_lt_add_left inside.1 lsb))
      · rfl
  | mergeRecord text options =>
      simp only [effect]
      split
      · exact Effect.keepsKnown_absorb _ _
      · exact keeps

/-! ## New two-state vectors -/

namespace LogicVector

/-- A new vector keeps unknown bits. -/
theorem twoState_create
    {width : Nat}
    {kind : Kind}
    {allocate : Bool}
    {vector : LogicVector}
    (succeeds : create width kind allocate = .ok vector) :
    vector.twoState = false := by
  unfold create at succeeds
  obtain ⟨⟨⟩, -, succeeds⟩ := bind_eq_ok_iff.1 succeeds
  obtain ⟨⟨⟩, -, succeeds⟩ := bind_eq_ok_iff.1 succeeds
  cases succeeds
  rfl

theorem twoState_toVector
    {literal : Literal}
    {vector : LogicVector}
    (succeeds : literal.toVector = .ok vector) :
    vector.twoState = false := by
  unfold Literal.toVector at succeeds
  obtain ⟨fresh, creates, succeeds⟩ := FourState.bind_eq_ok_iff.1 succeeds
  obtain ⟨⟨committed, changed⟩, commits, succeeds⟩ := FourState.bind_eq_ok_iff.1 succeeds
  cases succeeds
  obtain ⟨-, rfl⟩ := assign_eq_alter commits
  have fourState : fresh.twoState = false := twoState_create creates
  exact fourState

theorem twoState_ofLiteral
    {text : List Char}
    {vector : LogicVector}
    {radix : Radix}
    (succeeds : ofLiteral text = .ok (vector, radix)) :
    vector.twoState = false := by
  unfold ofLiteral at succeeds
  obtain ⟨literal, -, succeeds⟩ := FourState.bind_eq_ok_iff.1 succeeds
  obtain ⟨converted, converts, succeeds⟩ := FourState.bind_eq_ok_iff.1 succeeds
  cases succeeds
  exact twoState_toVector (liftM_fault_eq_ok_iff.1 converts)

theorem twoState_ofQuoted
    {text : List Char}
    {vector : LogicVector}
    (succeeds : ofQuoted text = .ok vector) :
    vector.twoState = false := by
  unfold ofQuoted at succeeds
  obtain ⟨literal, -, succeeds⟩ := FourState.bind_eq_ok_iff.1 succeeds
  exact twoState_toVector (liftM_fault_eq_ok_iff.1 succeeds)

/-- A vector that has been made two-state has known words. -/
theorem isKnown_setTwoState
    {vector : LogicVector}
    {block : Block}
    (stored : (vector.setTwoState true).block = .ok block) :
    block.IsKnown := by
  rw [block_eq_ok_iff] at stored
  simp only [setTwoState, if_true, Storage.content?_map, Option.map_eq_some_iff] at stored
  obtain ⟨old, -, rfl⟩ := stored
  rw [map_collapse_eq_alter]
  exact Block.isKnown_collapse old

/-- A resized two-state vector has zeros where it has no old bits. -/
theorem isKnown_resize
    {vector resized : LogicVector}
    {width : Nat}
    (wellFormed : vector.WellFormed fun plane => plane.isCoverage = false)
    (succeeds : vector.resize width = .ok resized)
    (twoState : resized.twoState = true)
    (known : vector.twoState = true → vector.KnownBetween 0 width)
    {block : Block}
    (stored : resized.block = .ok block) :
    block.IsKnown := by
  unfold LogicVector.resize at succeeds
  obtain ⟨⟨⟩, -, succeeds⟩ := bind_eq_ok_iff.1 succeeds
  have fresh (position : Nat) :
      (Block.initial width (vector.kind.startsUnknown && !vector.twoState)).cell position
        Plane.valueHigh = false := by
    cases succeeds
    have flagged : vector.twoState = true := twoState
    simp [Block.cell_initial, flagged]
  cases before : vector.storage.content? with
  | none =>
      rw [before] at succeeds
      cases succeeds
      cases stored
      exact fresh
  | some old =>
      rw [before] at succeeds
      cases succeeds
      cases stored
      intro position
      by_cases inBounds : position < 32 * (Block.initial width
          (vector.kind.startsUnknown && !vector.twoState)).size
      · refine (congrFun (cell_resized _ old _ position inBounds) Plane.valueHigh).trans ?_
        split
        · rename_i below
          have clear := (known twoState).cell_valueHigh wellFormed (Nat.zero_le position)
            (Or.inl (Nat.lt_of_lt_of_le below (Nat.min_le_left _ _)))
          rwa [cell_eq_block_cell ((block_eq_ok_iff _ _).2 before)] at clear
        · exact fresh position
      · have outside := Nat.not_lt.1 inBounds
        exact congrFun (Block.cell_of_size_le _ (by rwa [Array.size_mapIdx])) Plane.valueHigh

end LogicVector

end FourState
