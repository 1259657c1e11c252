import FourState.Proofs.Counting
import FourState.Proofs.Operands

/-!
# Sticky coverage

Coverage that a vector has gathered stays.  Three updates can take it away: one
clears it, and two put the planes of another vector in its place.  Every other
update keeps each coverage bit inside the width, and so does a new width as far
as it reaches.
-/

namespace FourState

/-! ## Effects that keep coverage -/

namespace Effect

/-- No coverage bit inside the width is lost. -/
def KeepsCoverage (width : Nat) (effect : Effect) : Prop :=
  ∀ position, position < width → ∀ (cell : Cell) (plane : Plane), plane.isCoverage = true →
    cell plane = true → effect.apply position cell plane = true

variable (width : Nat)

theorem keepsCoverage_keep : keep.KeepsCoverage width :=
  fun _ _ _ _ _ set => set

theorem keepsCoverage_write (kind : Kind) (assignment : Assignment) :
    (write kind assignment).KeepsCoverage width := by
  intro position _ cell plane coverage set
  simp only [apply, Assignment.change]
  split
  · rw [Cell.accept_coverage _ _ _ coverage, set, Bool.true_or]
  · exact set

theorem keepsCoverage_mark (marks : Nat → Cell) : (mark marks).KeepsCoverage width := by
  intro position _ cell plane _ set
  simp only [apply, Cell.mark, set, Bool.true_or]

/-- A record is taken in up to the width, where the coverage bits are. -/
theorem keepsCoverage_absorb (marks : Nat → Cell) :
    (absorb width marks).KeepsCoverage width := by
  intro position inside cell plane coverage set
  simp only [apply, if_pos inside]
  exact keepsCoverage_mark width marks position inside cell plane coverage set

theorem keepsCoverage_collapse : collapse.KeepsCoverage width := by
  intro position _ cell plane coverage set
  rwa [apply, Cell.collapse_of_isCoverage cell coverage]

/-- Effects in order keep what each of them keeps. -/
theorem keepsCoverage_foldl
    {effects : List Effect}
    (keep : ∀ effect ∈ effects, effect.KeepsCoverage width)
    {position : Nat}
    (inside : position < width)
    {cell : Cell}
    {plane : Plane}
    (coverage : plane.isCoverage = true)
    (set : cell plane = true) :
    effects.foldl (fun cell effect => effect.apply position cell) cell plane = true := by
  induction effects generalizing cell with
  | nil => exact set
  | cons effect effects inductionHypothesis =>
      apply inductionHypothesis
      · exact fun other isMember => keep other (List.mem_cons_of_mem _ isMember)
      · exact keep effect (List.mem_cons_self ..) position inside cell plane coverage set

end Effect

/-! ## Updates that keep coverage -/

namespace Update

variable {operand other error : Type}

/-- The update clears coverage, or puts other planes in its place. -/
def clearsCoverage : Update operand → Bool
  | copyFrom _ => true
  | copyRange _ _ => true
  | resetCoverage => true
  | _ => false

@[simp] theorem clearsCoverage_shape (change : Update operand) :
    change.shape.clearsCoverage = change.clearsCoverage := by
  cases change <;> rfl

/-- Exchanging the operands keeps an update one that clears coverage. -/
theorem clearsCoverage_of_traverse
    {resolve : operand → Except error other}
    {change : Update operand}
    {resolved : Update other}
    (succeeds : change.traverse resolve = .ok resolved) :
    resolved.clearsCoverage = change.clearsCoverage := by
  rw [← clearsCoverage_shape, shape_of_traverse succeeds, clearsCoverage_shape]

end Update

namespace LogicVector

variable {clipped : Plane → Prop}

/-- Every update but the three keeps the coverage of its vector. -/
theorem effect_keepsCoverage
    (vector : LogicVector)
    {change : Update LogicVector}
    (lasting : change.clearsCoverage = false) :
    (vector.effect change).KeepsCoverage vector.width := by
  have assigned :
      (vector.assignmentEffect (vector.assignment? change)).KeepsCoverage vector.width := by
    cases vector.assignment? change with
    | none => exact Effect.keepsCoverage_keep _
    | some assignment => exact Effect.keepsCoverage_write _ _ _
  cases change with
  | assign | applyChange | setNat | setWord | setUnknown | extendFrom | setValue | commit
  | operate | setSigned => exact assigned
  | setTwoState twoState =>
      cases twoState with
      | false => exact Effect.keepsCoverage_keep _
      | true => exact Effect.keepsCoverage_collapse _
  | claim | merge | evaluateUnary | evaluate => exact Effect.keepsCoverage_mark _ _
  | mergeRecord text options =>
      simp only [effect]
      split
      · exact Effect.keepsCoverage_absorb _ _
      · exact Effect.keepsCoverage_keep _
  | copyFrom | copyRange | resetCoverage => contradiction

/-- Noting what is read keeps the coverage of the source. -/
theorem readEffect_keepsCoverage (vector : LogicVector) (lsb msb width : Nat) :
    (vector.readEffect lsb msb).KeepsCoverage width := by
  unfold readEffect
  split
  · exact Effect.keepsCoverage_mark _ _
  · exact Effect.keepsCoverage_keep _

/-! ## Coverage of one vector in another -/

/-- At the given positions, a vector has all the coverage of an earlier one of its
kind. -/
structure Retains (positions : Nat → Prop) (before after : LogicVector) : Prop where
  kind_eq : after.kind = before.kind
  /-- The positions are inside the new width as far as they are inside the old one. -/
  lt_width : ∀ position, positions position → position < before.width → position < after.width
  /-- What was covered still is. -/
  covered : ∀ position (plane : Plane), positions position → position < before.width →
    plane.isCoverage = true → before.cell position plane = true → after.cell position plane = true

theorem retains_refl (positions : Nat → Prop) (vector : LogicVector) :
    Retains positions vector vector :=
  ⟨rfl, fun _ _ inside => inside, fun _ _ _ _ _ set => set⟩

theorem Retains.trans
    {positions : Nat → Prop}
    {first second third : LogicVector}
    (earlier : Retains positions first second)
    (later : Retains positions second third) :
    Retains positions first third where
  kind_eq := later.kind_eq.trans earlier.kind_eq
  lt_width := fun position watched inside =>
    later.lt_width position watched (earlier.lt_width position watched inside)
  covered := fun position plane watched inside coverage set =>
    later.covered position plane watched (earlier.lt_width position watched inside) coverage
      (earlier.covered position plane watched inside coverage set)

/-- A vector of another width has the old coverage at every position that the new
width still holds. -/
theorem retains_resize
    {positions : Nat → Prop}
    {vector resized : LogicVector}
    {width : Nat}
    (succeeds : vector.resize width = .ok resized)
    (holds : ∀ position, positions position → position < width) :
    Retains positions vector resized := by
  unfold resize at succeeds
  obtain ⟨⟨⟩, -, succeeds⟩ := bind_eq_ok_iff.1 succeeds
  cases before : vector.storage.content? with
  | none =>
      rw [before] at succeeds
      cases succeeds
      refine ⟨rfl, fun position watched _ => holds position watched, ?_⟩
      intro position plane _ _ _ set
      rw [cell, before] at set
      contradiction
  | some old =>
      rw [before] at succeeds
      cases succeeds
      refine ⟨rfl, fun position watched _ => holds position watched, ?_⟩
      intro position plane watched inside _ set
      have below : position < min width vector.width :=
        Nat.lt_min.2 ⟨holds position watched, inside⟩
      have inBounds : position <
          32 * (Block.initial width (vector.kind.startsUnknown && !vector.twoState)).size := by
        rw [Block.size_initial]
        exact Nat.lt_of_lt_of_le (holds position watched) (le_wordCount width)
      rw [cell, before] at set
      refine (congrFun (cell_resized _ old _ position inBounds) plane).trans ?_
      rw [if_pos below]
      exact set

/-! ## Coverage as it is read -/

/-- A bit of a plane reads as set exactly if it is set and inside the width. -/
theorem WellFormed.planeBit_eq_ok_true_iff
    {vector : LogicVector}
    (wellFormed : vector.WellFormed clipped)
    (plane : Plane)
    (position : Nat) :
    vector.planeBit plane position = .ok true ↔
      position < vector.width ∧ vector.cell position plane = true := by
  constructor
  · intro reads
    obtain ⟨⟨⟩, inside, reads⟩ := bind_eq_ok_iff.1 reads
    obtain ⟨word, readsWord, set⟩ := bind_eq_ok_iff.1 reads
    refine ⟨require_eq_ok_iff.1 inside, ?_⟩
    unfold LogicVector.plane at readsWord
    split at readsWord
    · contradiction
    · rename_i live isLive
      obtain ⟨block, stored, readsWord⟩ := bind_eq_ok_iff.1 readsWord
      obtain ⟨⟨⟩, -, readsWord⟩ := bind_eq_ok_iff.1 readsWord
      cases readsWord
      have same : plane = live := by
        simp only [Kind.plane?, Plane.ofNat?_val] at isLive
        exact Option.some.inj (Option.filter_eq_some_iff.1 isLive).1
      rw [cell_eq_block_cell stored, same]
      exact Except.ok.inj set
  · rintro ⟨inside, set⟩
    cases content : vector.storage.content? with
    | none =>
        rw [cell, content] at set
        contradiction
    | some block =>
        have stored := (block_eq_ok_iff vector block).2 content
        have live := (wellFormed.cell_fits position plane set).1
        rw [planeBit_eq_ok stored (wellFormed.block_fits block stored).size_eq live inside]
        rw [cell_eq_block_cell stored] at set
        exact congrArg Except.ok set

end LogicVector
end FourState
