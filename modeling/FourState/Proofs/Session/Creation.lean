import FourState.Proofs.Session.History

/-!
# New vectors in a session

A new vector with words gets a block that no name has referred to.  Whatever run
follows, the names that come to refer to the block have the width and kind that
the vector was made with, and show its first words with the history of the run.
-/

namespace FourState

/-! ## New words -/

namespace Block

/-- Turning the unknown bits of new words into zeros gives new words of zeros. -/
theorem map_collapse_initial (width : Nat) (unknown : Bool) :
    (initial width unknown).map Slice.collapse = initial width false := by
  rw [LogicVector.map_collapse_eq_alter]
  apply ext_cell
  · simp
  · intro position inBounds
    rw [size_alter] at inBounds
    rw [cell_alter _ _ inBounds]
    funext plane
    by_cases isLow : plane = Plane.valueLow
    · simp [Effect.apply, Cell.collapse, cell_initial, isLow]
    · by_cases isHigh : plane = Plane.valueHigh
      · simp [Effect.apply, Cell.collapse, cell_initial, isHigh]
      · simp [Effect.apply, Cell.collapse, cell_initial, isLow, isHigh]

end Block

namespace Session

/-! ## Creating and running -/

/-- A new vector has its width and kind, and words of its own: zeros if it is made
two-state at once, else as its kind starts. -/
theorem create_eq_place
    (session : Session)
    (name : String)
    {width : Nat}
    (kind : Kind)
    (signed? twoState? : Option Bool)
    (inLimits : 0 < width ∧ width ≤ maxWidth) :
    ∃ vector,
      (session.apply (.create name width kind true signed? twoState?)).1 =
        session.place name vector ∧
      vector.width = width ∧ vector.kind = kind ∧
      vector.storage =
        .owned (Block.initial width (kind.startsUnknown && twoState? != some true)) := by
  have creates : LogicVector.create width kind true = .ok {
      width
      kind
      format := .bits32
      signed := false
      twoState := false
      storage := .owned (Block.initial width kind.startsUnknown) } := by
    rw [LogicVector.create, require_bind_of_true inLimits.1, require_bind_of_true inLimits.2]
    rfl
  unfold Session.apply
  simp only [creates]
  cases twoState? with
  | none =>
      rw [show (none != some true) = true from rfl, Bool.and_true]
      cases signed? <;> exact ⟨_, rfl, rfl, rfl, rfl⟩
  | some twoState =>
      cases twoState with
      | false =>
          rw [show (some false != some true) = true from rfl, Bool.and_true]
          cases signed? <;> exact ⟨_, rfl, rfl, rfl, rfl⟩
      | true =>
          rw [show (some true != some true) = false from rfl, Bool.and_false,
            ← Block.map_collapse_initial width kind.startsUnknown]
          cases signed? <;> exact ⟨_, rfl, rfl, rfl, rfl⟩

section Placed

variable {session : Session} {name : String} {vector : LogicVector}

/-- Only the new name refers to the block of a placed vector. -/
theorem Sound.refersAs_place
    {clipped : Plane → Prop}
    (sound : session.Sound clipped) :
    (session.place name vector).RefersAs session.blocks.size vector.width vector.kind := by
  intro other handle bound refers
  obtain ⟨-, rfl⟩ | ⟨-, old⟩ := (binds_place_iff _ _ _ _ _).1 bound
  · exact ⟨rfl, rfl⟩
  · exact absurd (sound.lt_size old refers) (Nat.lt_irrefl _)

/-- The block of a placed vector is one of the session. -/
theorem size_lt_size_place
    {words : Block}
    (stored : vector.storage.content? = some words) :
    session.blocks.size < (session.place name vector).blocks.size := by
  rw [(session.block_place name stored).1]
  exact Nat.lt_succ_self _

/-- The words of a placed vector after a run are the ones it was placed with and the
history of the run. -/
theorem block_run_place
    {words : Block}
    (sound : (session.place name vector).Sound fun plane => plane.isCoverage = false)
    (stored : vector.storage.content? = some words)
    (commands : List Command) :
    ((session.place name vector).run commands).block session.blocks.size =
      words.replay ((session.place name vector).history session.blocks.size commands) := by
  rw [block_run sound commands (size_lt_size_place stored), (session.block_place name stored).2]

end Placed

end Session
end FourState
