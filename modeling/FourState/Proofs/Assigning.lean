import FourState.LogicVector.Update
import FourState.Proofs.Assignment
import FourState.Proofs.WellFormed

/-!
# Assigning updates

Every way to give a vector a value ends in one assignment.  The table
`LogicVector.assignment?` says for each of them which positions are covered and
which bit each of them is given, before a two-state vector settles it.
-/

namespace FourState

/-! ## Carrying out an assignment -/

/-- A buffer at the width of a vector: as it is, or cut or zero-extended. -/
def Buffer.fitted (value : Buffer) (width : Nat) : Buffer :=
  if value.width = width then value else value.resized width false

@[simp] theorem Buffer.width_fitted (value : Buffer) (width : Nat) :
    (value.fitted width).width = width := by
  unfold fitted
  split
  · assumption
  · simp

theorem Buffer.canonical_fitted
    {value : Buffer}
    (canonical : value.Canonical)
    (width : Nat) :
    (value.fitted width).Canonical := by
  unfold fitted
  split
  · exact canonical
  · exact canonical_resized _ _ _

/-- A value at another width keeps the bits below it. -/
theorem Buffer.bit_fitted
    {value : Buffer}
    (canonical : value.Canonical)
    {width position : Nat}
    (inside : position < width) :
    (value.fitted width).bit position = value.bit position := by
  unfold fitted
  split
  · rfl
  · rw [bit_resized canonical, if_pos inside]
    split
    · rfl
    · rename_i outside
      exact (bit_of_width_le _ (Nat.not_lt.1 outside)).symm

/-- The update gives the vector a value. -/
def Update.isAssigning {operand : Type} : Update operand → Bool
  | assign _ _ _ _ => true
  | applyChange _ _ _ => true
  | setNat _ => true
  | setWord _ => true
  | setUnknown => true
  | extendFrom _ => true
  | setValue _ => true
  | commit _ => true
  | operate _ => true
  | _ => false

namespace LogicVector

/-- The vector after an assignment has settled. -/
def accept (vector : LogicVector) (assignment : Assignment) : LogicVector :=
  vector.alter ((assignment.settle vector.twoState).change vector.kind)

@[simp] theorem toHeader_accept (vector : LogicVector) (assignment : Assignment) :
    (vector.accept assignment).toHeader = vector.toHeader :=
  rfl

/-- A successful assignment of words that hold the bits of an assignment carries
it out. -/
theorem assign_eq_accept
    {vector updated : LogicVector}
    {low high : Array Word}
    {changed : Bool}
    (assignment : Assignment)
    (succeeds : vector.assign low high assignment.first assignment.last = .ok (updated, changed))
    (sameBits : ∀ position, position < vector.width → assignment.Covers position →
      Bit.ofPlanes (Words.bit low position) (Words.bit high position) = assignment.bit position) :
    (assignment.first ≤ assignment.last ∧ assignment.last < vector.width) ∧
      updated = vector.accept assignment := by
  obtain ⟨inRange, rfl⟩ := assign_eq_alter succeeds
  refine ⟨inRange, ?_⟩
  unfold accept
  congr 1
  funext position cell
  unfold Assignment.change
  by_cases covered : assignment.Covers position
  · have coveredWords : (Assignment.ofWords low high assignment.first assignment.last).Covers
        position := covered
    have inside : position < vector.width := Nat.lt_of_le_of_lt covered.2 inRange.2
    rw [if_pos (by simpa using coveredWords), if_pos (by simpa using covered)]
    simp only [Assignment.settle, Assignment.ofWords, sameBits position inside covered]
  · have notCovered : ¬(Assignment.ofWords low high assignment.first assignment.last).Covers
        position := covered
    rw [if_neg (by simpa using notCovered), if_neg (by simpa using covered)]

/-- The words of a buffer as wide as the vector hold the bits of the buffer. -/
theorem assign_buffer_eq_accept
    {vector updated : LogicVector}
    {value : Buffer}
    {changed : Bool}
    (assignment : Assignment)
    (wide : value.width = vector.width)
    (succeeds : vector.assign value.low value.high assignment.first assignment.last =
      .ok (updated, changed))
    (sameBits : ∀ position, position < vector.width → assignment.Covers position →
      value.bit position = assignment.bit position) :
    (assignment.first ≤ assignment.last ∧ assignment.last < vector.width) ∧
      updated = vector.accept assignment := by
  apply assign_eq_accept assignment succeeds
  intro position inside covered
  rw [← sameBits position inside covered, Buffer.bit_of_lt _ (by rwa [wide])]

/-! ## The assignment of an update -/

/-- The assignment that covers the whole vector. -/
def whole (vector : LogicVector) (bit : Nat → Bit) : Assignment where
  first := 0
  last := vector.width - 1
  bit

/-- What a repeated bit is filled up with: a known bit of an unsigned vector is
followed by zeros. -/
def filler (vector : LogicVector) (bit : Bit) : Bit :=
  if vector.signed then bit else bit.extension

/-- The assignment that an update carries out, if it carries out one. -/
def assignment? (vector : LogicVector) : Update LogicVector → Option Assignment
  | .assign low high lsb msb => some (Assignment.ofWords low high lsb msb)
  | .applyChange text msb lsb =>
      match ValueChange.read text with
      | .ok bits => some {
          first := lsb
          last := msb
          bit := fun position => ValueChange.bitAt bits.toArray (position - lsb) }
      | .error _ => none
  | .setNat value => some (vector.whole fun position => Bit.ofBool (value.testBit position))
  | .setWord value => some (vector.whole fun position =>
      Bit.ofBool ((value.signExtend 64).getLsbD position))
  | .setUnknown => some (vector.whole fun _ => Bit.x)
  | .extendFrom last =>
      match vector.bit? last with
      | some bit =>
          if last + 1 < vector.width then some {
            first := last + 1
            last := vector.width - 1
            bit := fun _ => vector.filler bit }
          else none
      | none => none
  | .setValue source =>
      match source.storage.content? with
      | some block => some {
          first := 0
          last := min vector.width source.width - 1
          bit := block.value }
      | none => none
  | .commit value => some (vector.whole (value.fitted vector.width).bit)
  | .operate operation =>
      match operation.compute vector with
      | .ok value => some {
          first := (operation.range vector.width).1
          last := (operation.range vector.width).2
          bit := (value.fitted vector.width).bit }
      | .error _ => none
  | _ => none

/-! ## Each update and its assignment -/

/-- Assigning a buffer carries out the assignment of its fitted bits. -/
theorem assignBuffer_eq_accept
    {vector updated : LogicVector}
    {value : Buffer}
    {changed : Bool}
    (assignment : Assignment)
    (succeeds : vector.assignBuffer value assignment.first assignment.last =
      .ok (updated, changed))
    (sameBits : ∀ position, position < vector.width → assignment.Covers position →
      (value.fitted vector.width).bit position = assignment.bit position) :
    (assignment.first ≤ assignment.last ∧ assignment.last < vector.width) ∧
      updated = vector.accept assignment :=
  assign_buffer_eq_accept assignment (value.width_fitted vector.width) succeeds sameBits

/-- A buffer of the right width is committed with its own bits. -/
theorem commit_eq_accept
    {vector updated : LogicVector}
    {value : Buffer}
    {changed : Bool}
    {bit : Nat → Bit}
    (succeeds : vector.commit value = .ok (updated, changed))
    (wide : value.width = vector.width)
    (sameBits : ∀ position, position < vector.width → value.bit position = bit position) :
    (0 ≤ vector.width - 1 ∧ vector.width - 1 < vector.width) ∧
      updated = vector.accept (vector.whole bit) := by
  apply assignBuffer_eq_accept (vector.whole bit) succeeds
  intro position inside _
  rw [Buffer.fitted, if_pos wide]
  exact sameBits position inside

theorem setNat_eq_accept
    {vector updated : LogicVector}
    {value : Nat}
    {changed : Bool}
    (succeeds : vector.setNat value = .ok (updated, changed)) :
    (0 ≤ vector.width - 1 ∧ vector.width - 1 < vector.width) ∧
      updated = vector.accept
        (vector.whole fun position => Bit.ofBool (value.testBit position)) := by
  apply commit_eq_accept succeeds (Buffer.width_ofNat _ _)
  intro position inside
  rw [Buffer.bit_ofNat, if_pos inside]

theorem setUnknown_eq_accept
    {vector updated : LogicVector}
    {changed : Bool}
    (succeeds : vector.setUnknown = .ok (updated, changed)) :
    (0 ≤ vector.width - 1 ∧ vector.width - 1 < vector.width) ∧
      updated = vector.accept (vector.whole fun _ => Bit.x) := by
  apply commit_eq_accept succeeds (Buffer.width_unknown _)
  intro position inside
  rw [Buffer.bit_unknown, if_pos inside]

/-- The value of another vector is assigned to the positions both have. -/
theorem setValue_eq_accept
    {vector source updated : LogicVector}
    {block : Block}
    {changed : Bool}
    (stored : source.storage.content? = some block)
    (succeeds : vector.setValue source = .ok (updated, changed)) :
    (0 ≤ min vector.width source.width - 1 ∧
        min vector.width source.width - 1 < vector.width) ∧
      updated = vector.accept {
        first := 0
        last := min vector.width source.width - 1
        bit := block.value } := by
  rw [← block_eq_ok_iff] at stored
  unfold setValue at succeeds
  obtain ⟨value, reads, succeeds⟩ := bind_eq_ok_iff.1 succeeds
  rw [ofVector_eq_ok stored] at reads
  cases reads
  refine assign_eq_accept ⟨0, min vector.width source.width - 1, block.value⟩ succeeds ?_
  intro position _ _
  rw [Words.bit_map_get, Words.bit_map_get]
  rfl

/-- Letters are assigned with their positions counted from the low end of the range. -/
theorem applyChange_eq_accept
    {vector updated : LogicVector}
    {text : List Char}
    {bits : List Bit}
    {msb lsb : Nat}
    {changed : Bool}
    (read : ValueChange.read text = .ok bits)
    (succeeds : vector.applyChange text msb lsb = .ok (updated, changed)) :
    (lsb ≤ msb ∧ msb < vector.width) ∧
      updated = vector.accept {
        first := lsb
        last := msb
        bit := fun position => ValueChange.bitAt bits.toArray (position - lsb) } := by
  unfold applyChange at succeeds
  obtain ⟨⟨⟩, -, succeeds⟩ := bind_eq_ok_iff.1 succeeds
  obtain ⟨readBits, readAgain, succeeds⟩ := bind_eq_ok_iff.1 succeeds
  rw [liftM_literalError_eq_ok_iff, read] at readAgain
  cases readAgain
  rw [liftM_fault_eq_ok_iff] at succeeds
  refine assign_buffer_eq_accept
    ⟨lsb, msb, fun position => ValueChange.bitAt bits.toArray (position - lsb)⟩ rfl succeeds ?_
  intro position inside _
  rw [Buffer.bit_ofBits, if_pos inside]

/-- A vector shows the bit at a position inside its words. -/
theorem bit?_of_bit
    {vector : LogicVector}
    {position : Nat}
    {bit : Bit}
    (shows : vector.bit position = .ok bit) :
    vector.bit? position = some bit := by
  unfold LogicVector.bit at shows
  obtain ⟨⟨⟩, inside, shows⟩ := bind_eq_ok_iff.1 shows
  obtain ⟨block, stored, shows⟩ := bind_eq_ok_iff.1 shows
  obtain ⟨⟨⟩, -, shows⟩ := bind_eq_ok_iff.1 shows
  cases shows
  exact (bit?_eq_some_iff stored position _).2 ⟨require_eq_ok_iff.1 inside, rfl⟩

/-- A well-formed vector shows a bit at every position of its width. -/
theorem bit_eq_ok
    {clipped : Plane → Prop}
    {vector : LogicVector}
    {block : Block}
    (wellFormed : vector.WellFormed clipped)
    (stored : vector.block = .ok block)
    {position : Nat}
    (inside : position < vector.width) :
    vector.bit position = .ok (block.value position) := by
  have inWords : position / 32 < block.size := by
    rw [(wellFormed.block_fits block stored).size_eq]
    exact div_lt_wordCount inside
  unfold LogicVector.bit
  rw [require_bind_of_true inside, stored]
  exact require_bind_of_true inWords _

theorem bit_of_bit?
    {clipped : Plane → Prop}
    {vector : LogicVector}
    (wellFormed : vector.WellFormed clipped)
    {position : Nat}
    {bit : Bit}
    (shows : vector.bit? position = some bit) :
    vector.bit position = .ok bit := by
  unfold bit? at shows
  split at shows
  · rename_i inside
    obtain ⟨block, stored, rfl⟩ := Option.map_eq_some_iff.1 shows
    exact bit_eq_ok wellFormed ((block_eq_ok_iff _ _).2 stored) inside
  · contradiction

/-- Repeating the top bit does nothing; repeating another one fills all higher
positions. -/
theorem extendFrom_eq_accept
    {vector updated : LogicVector}
    {last : Nat}
    {changed : Bool}
    (succeeds : vector.extendFrom last = .ok (updated, changed)) :
    (last + 1 = vector.width ∧ updated = vector) ∨
      ∃ bit, vector.bit? last = some bit ∧ last + 1 < vector.width ∧
        updated = vector.accept {
          first := last + 1
          last := vector.width - 1
          bit := fun _ => vector.filler bit } := by
  unfold extendFrom at succeeds
  obtain ⟨⟨⟩, inside, succeeds⟩ := bind_eq_ok_iff.1 succeeds
  rw [require_eq_ok_iff] at inside
  split at succeeds
  · rename_i atTop
    cases succeeds
    exact Or.inl ⟨atTop, rfl⟩
  · rename_i notAtTop
    have below : last + 1 < vector.width := by omega
    obtain ⟨bit, shows, succeeds⟩ := bind_eq_ok_iff.1 succeeds
    refine Or.inr ⟨bit, bit?_of_bit shows, below, ?_⟩
    refine (assign_buffer_eq_accept ⟨last + 1, vector.width - 1, fun _ => vector.filler bit⟩ rfl
      succeeds ?_).2
    intro position inWidth _
    rw [Buffer.bit_fill (Buffer.canonical_zero _)]
    have filled : 0 ≤ position ∧ position < min vector.width (Buffer.zero vector.width).width := by
      simpa using inWidth
    rw [if_pos filled]
    rfl

/-- An operation assigns the value it computes. -/
theorem operate_eq_accept
    {vector updated : LogicVector}
    {operation : Operation LogicVector}
    {value : Buffer}
    {changed : Bool}
    (computes : operation.compute vector = .ok value)
    (succeeds : (vector.operate operation).result = .ok (updated, changed)) :
    ((operation.range vector.width).1 ≤ (operation.range vector.width).2 ∧
        (operation.range vector.width).2 < vector.width) ∧
      updated = vector.accept {
        first := (operation.range vector.width).1
        last := (operation.range vector.width).2
        bit := (value.fitted vector.width).bit } := by
  unfold operate at succeeds
  rw [computes] at succeeds
  exact assignBuffer_eq_accept ⟨_, _, (value.fitted vector.width).bit⟩
    (liftM_fault_eq_ok_iff.1 succeeds) fun _ _ _ => rfl

/-- A successful update with an assignment carries it out, inside the width. -/
theorem update_eq_accept
    {vector updated : LogicVector}
    {change : Update LogicVector}
    {reply : Reply}
    {assignment : Assignment}
    (carried : vector.assignment? change = some assignment)
    (succeeds : (vector.update change).result = .ok (updated, reply)) :
    (assignment.first ≤ assignment.last ∧ assignment.last < vector.width) ∧
      updated = vector.accept assignment := by
  cases change with
  | assign low high lsb msb =>
      obtain ⟨changed, assigns, -⟩ := Outcome.ofFlagged_eq_ok_iff.1 succeeds
      cases carried
      exact assign_eq_accept _ (liftM_fault_eq_ok_iff.1 assigns) fun _ _ _ => rfl
  | applyChange text msb lsb =>
      obtain ⟨changed, assigns, -⟩ := Outcome.ofFlagged_eq_ok_iff.1 succeeds
      simp only [assignment?] at carried
      split at carried
      · rename_i bits read
        cases carried
        exact applyChange_eq_accept read assigns
      · contradiction
  | setNat value =>
      obtain ⟨changed, assigns, -⟩ := Outcome.ofFlagged_eq_ok_iff.1 succeeds
      cases carried
      exact setNat_eq_accept (liftM_fault_eq_ok_iff.1 assigns)
  | setWord value =>
      obtain ⟨changed, assigns, -⟩ := Outcome.ofFlagged_eq_ok_iff.1 succeeds
      cases carried
      exact setNat_eq_accept (liftM_fault_eq_ok_iff.1 assigns)
  | setUnknown =>
      obtain ⟨changed, assigns, -⟩ := Outcome.ofFlagged_eq_ok_iff.1 succeeds
      cases carried
      exact setUnknown_eq_accept (liftM_fault_eq_ok_iff.1 assigns)
  | extendFrom last =>
      obtain ⟨changed, assigns, -⟩ := Outcome.ofFlagged_eq_ok_iff.1 succeeds
      simp only [assignment?] at carried
      obtain ⟨atTop, -⟩ | ⟨bit, shows, below, same⟩ :=
        extendFrom_eq_accept (liftM_fault_eq_ok_iff.1 assigns)
      · have notBelow : ¬last + 1 < vector.width := by omega
        simp only [if_neg notBelow] at carried
        split at carried <;> contradiction
      · simp only [shows, if_pos below] at carried
        cases carried
        exact ⟨⟨by dsimp only; omega, by dsimp only; omega⟩, same⟩
  | setValue source =>
      obtain ⟨changed, assigns, -⟩ := Outcome.ofFlagged_eq_ok_iff.1 succeeds
      simp only [assignment?] at carried
      split at carried
      · rename_i block stored
        cases carried
        exact setValue_eq_accept stored (liftM_fault_eq_ok_iff.1 assigns)
      · contradiction
  | commit value =>
      obtain ⟨changed, assigns, -⟩ := Outcome.ofFlagged_eq_ok_iff.1 succeeds
      cases carried
      exact assignBuffer_eq_accept (vector.whole (value.fitted vector.width).bit)
        (liftM_fault_eq_ok_iff.1 assigns) fun _ _ _ => rfl
  | operate operation =>
      obtain ⟨⟨_, changed⟩, assigns, same⟩ := Outcome.result_map_eq_ok_iff.1 succeeds
      cases same
      simp only [assignment?] at carried
      split at carried
      · rename_i value computes
        cases carried
        exact operate_eq_accept computes assigns
      · contradiction
  | setSigned | setTwoState | claim | copyFrom | copyRange | merge | resetCoverage
  | evaluateUnary | evaluate | mergeRecord => contradiction

/-- Only repeating the top bit gives a value without covering a position; it
leaves the vector as it is. -/
theorem extendFrom_of_assignment?_eq_none
    {vector updated : LogicVector}
    {change : Update LogicVector}
    {reply : Reply}
    (assigns : change.isAssigning = true)
    (carriesNone : vector.assignment? change = none)
    (succeeds : (vector.update change).result = .ok (updated, reply)) :
    ∃ last, change = .extendFrom last ∧ last + 1 = vector.width ∧ updated = vector := by
  cases change with
  | assign | setNat | setWord | setUnknown | commit => contradiction
  | applyChange text msb lsb =>
      obtain ⟨changed, applies, -⟩ := Outcome.ofFlagged_eq_ok_iff.1 succeeds
      unfold applyChange at applies
      obtain ⟨⟨⟩, -, applies⟩ := bind_eq_ok_iff.1 applies
      obtain ⟨bits, read, applies⟩ := bind_eq_ok_iff.1 applies
      rw [liftM_literalError_eq_ok_iff] at read
      simp [assignment?, read] at carriesNone
  | extendFrom last =>
      obtain ⟨changed, fills, -⟩ := Outcome.ofFlagged_eq_ok_iff.1 succeeds
      obtain ⟨atTop, same⟩ | ⟨bit, shows, below, -⟩ :=
        extendFrom_eq_accept (liftM_fault_eq_ok_iff.1 fills)
      · exact ⟨last, rfl, atTop, same⟩
      · simp [assignment?, shows, below] at carriesNone
  | setValue source =>
      obtain ⟨changed, sets, -⟩ := Outcome.ofFlagged_eq_ok_iff.1 succeeds
      rw [liftM_fault_eq_ok_iff] at sets
      unfold setValue at sets
      obtain ⟨value, reads, -⟩ := bind_eq_ok_iff.1 sets
      obtain ⟨block, stored, -⟩ := bind_eq_ok_iff.1 reads
      rw [block_eq_ok_iff] at stored
      simp [assignment?, stored] at carriesNone
  | operate operation =>
      obtain ⟨answer, operates, -⟩ := Outcome.result_map_eq_ok_iff.1 succeeds
      unfold operate at operates
      cases computes : operation.compute vector with
      | error failure =>
          rw [computes] at operates
          contradiction
      | ok value => simp [assignment?, computes] at carriesNone
  | setSigned | setTwoState | claim | copyFrom | copyRange | merge | resetCoverage
  | evaluateUnary | evaluate | mergeRecord => contradiction

/-- A successful update that gives a value without covering a position leaves
the vector as it is. -/
theorem update_eq_self
    {vector updated : LogicVector}
    {change : Update LogicVector}
    {reply : Reply}
    (assigns : change.isAssigning = true)
    (carriesNone : vector.assignment? change = none)
    (succeeds : (vector.update change).result = .ok (updated, reply)) :
    updated = vector := by
  obtain ⟨last, -, -, same⟩ := extendFrom_of_assignment?_eq_none assigns carriesNone succeeds
  exact same

/-! ## Storing a computed value -/

/-- Below its width, an allocated vector shows the settled bits where an
assignment covers it, and its old ones elsewhere. -/
theorem bit?_accept
    {vector : LogicVector}
    {block : Block}
    (stored : vector.block = .ok block)
    (assignment : Assignment)
    {position : Nat}
    (inside : position < vector.width)
    (inBounds : position < 32 * block.size) :
    (vector.accept assignment).bit? position =
      some (if assignment.Covers position then (assignment.settle vector.twoState).bit position
        else block.value position) := by
  have storedAfter := block_alter stored ((assignment.settle vector.twoState).change vector.kind)
  rw [accept, (bit?_eq_some_iff storedAfter position _).2 ⟨inside, rfl⟩,
    Block.value_eq_cell_value, Block.cell_alter _ _ inBounds]
  unfold Assignment.change
  by_cases covered : assignment.Covers position
  · rw [if_pos (by simpa using covered), if_pos covered, Cell.value_accept]
  · rw [if_neg (by simpa using covered), if_neg covered, ← Block.value_eq_cell_value]

/-- Committing a canonical buffer to a vector succeeds and leaves the bits of the
buffer as they settle there. -/
theorem commit_settles
    {vector : LogicVector}
    (readable : vector.Readable)
    {value : Buffer}
    (canonical : value.Canonical) :
    ∃ updated changed, vector.commit value = .ok (updated, changed) ∧
      updated.toHeader = vector.toHeader ∧
      ∀ position, position < vector.width →
        updated.bit? position =
          some (((vector.whole value.bit).settle vector.twoState).bit position) := by
  obtain ⟨block, stored⟩ := exists_block readable.isAllocated
  have sized := (readable.wellFormed.block_fits block stored).size_eq
  have notEmpty := readable.wellFormed.width_pos
  have lastInWords := div_lt_wordCount (Nat.sub_one_lt_of_lt notEmpty)
  have fitted := Buffer.canonical_fitted canonical vector.width
  have lastInside : vector.width - 1 < (value.fitted vector.width).width := by
    rw [Buffer.width_fitted]
    exact Nat.sub_one_lt_of_lt notEmpty
  obtain ⟨changed, commits⟩ := assign_succeeds stored
    ⟨Nat.zero_le _, Nat.sub_one_lt_of_lt notEmpty⟩ (fitted.has_word lastInside)
    (by rwa [sized])
  refine ⟨_, changed, commits, rfl, ?_⟩
  intro position inside
  have covered : (Assignment.ofWords (value.fitted vector.width).low
      (value.fitted vector.width).high 0 (vector.width - 1)).Covers position :=
    ⟨Nat.zero_le _, Nat.le_sub_one_of_lt inside⟩
  have inBounds : position < 32 * block.size := by
    rw [sized]
    exact Nat.lt_of_lt_of_le inside (le_wordCount _)
  refine (bit?_accept stored _ inside inBounds).trans ?_
  rw [if_pos covered]
  simp only [Assignment.settle, Assignment.ofWords, whole, ← Buffer.bit_fitted canonical inside,
    Buffer.bit_of_lt (value.fitted vector.width) (by rwa [Buffer.width_fitted])]

/-- A four-state vector keeps every bit that is committed to it. -/
theorem commit_whole
    {vector : LogicVector}
    (readable : vector.Readable)
    (fourState : vector.twoState = false)
    {value : Buffer}
    (canonical : value.Canonical) :
    ∃ updated changed, vector.commit value = .ok (updated, changed) ∧
      updated.toHeader = vector.toHeader ∧
      ∀ position, position < vector.width →
        updated.bit? position = some (value.bit position) := by
  obtain ⟨updated, changed, commits, sameHeader, shows⟩ :=
    commit_settles readable canonical
  refine ⟨updated, changed, commits, sameHeader, ?_⟩
  intro position inside
  rw [shows position inside, fourState]
  rfl

/-- An operation on a whole vector succeeds once its value can be computed, and
leaves that value as it settles. -/
theorem operate_settles
    {vector : LogicVector}
    (readable : vector.Readable)
    {operation : Operation LogicVector}
    {value : Buffer}
    (coversAll : operation.range vector.width = (0, vector.width - 1))
    (computes : operation.compute vector = .ok value)
    (canonical : value.Canonical) :
    ∃ updated changed, (vector.operate operation).result = .ok (updated, changed) ∧
      updated.toHeader = vector.toHeader ∧
      ∀ position, position < vector.width →
        updated.bit? position =
          some (((vector.whole value.bit).settle vector.twoState).bit position) := by
  obtain ⟨updated, changed, commits, shows⟩ := commit_settles readable canonical
  refine ⟨updated, changed, ?_, shows⟩
  rw [operate, computes]
  simp only [coversAll, Outcome.quiet]
  exact liftM_fault_eq_ok_iff.2 commits

/-- An operation on a whole four-state vector leaves the value it computes. -/
theorem operate_whole
    {vector : LogicVector}
    (readable : vector.Readable)
    (fourState : vector.twoState = false)
    {operation : Operation LogicVector}
    {value : Buffer}
    (coversAll : operation.range vector.width = (0, vector.width - 1))
    (computes : operation.compute vector = .ok value)
    (canonical : value.Canonical) :
    ∃ updated changed, (vector.operate operation).result = .ok (updated, changed) ∧
      updated.toHeader = vector.toHeader ∧
      ∀ position, position < vector.width →
        updated.bit? position = some (value.bit position) := by
  obtain ⟨updated, changed, operates, sameHeader, shows⟩ :=
    operate_settles readable coversAll computes canonical
  refine ⟨updated, changed, operates, sameHeader, ?_⟩
  intro position inside
  rw [shows position inside, fourState]
  rfl

end LogicVector
end FourState
