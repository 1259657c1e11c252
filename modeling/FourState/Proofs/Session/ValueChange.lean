import FourState.Proofs.Guarded.Filling
import FourState.Proofs.Session.Arithmetic

/-!
# Value changes in a session

In every session that commands lead to, a text that is no value change leaves all as it
was, and any other one gives a range of bits of its target the letters that it has for
them, from the right end on, or what its leftmost letter is extended by.
-/

namespace FourState

/-- The command that gives the bits `lsb` to `msb` of a target by letters. -/
def Command.applyChange (target : String) (text : List Char) (msb lsb : Nat) : Command :=
  .update target (.applyChange text msb lsb)

namespace Session

/-- What value changes do to a range of bits of a target. -/
structure TakesChanges
    (session : Session)
    (target : session.AllocatedName)
    (lsb msb : Nat) : Prop where
  /-- Any other text is malformed, and leaves the session as it was. -/
  malformed : ∀ text, ¬ValueChange.IsChange text → ∃ defect,
    session.apply (.applyChange target.name text msb lsb) =
      (session, { result := .error (.literal (.malformed defect)), log := [] })
  /-- A change gives the bits of the range, as the target keeps them.  Every plane of the
  other bits stays as it was. -/
  takes : ∀ text, ValueChange.IsChange text → ∃ updated,
    session.Leaves (.applyChange target.name text msb lsb) target.name updated ∧
      updated.toHeader = target.vector.toHeader ∧
      (∀ position, lsb ≤ position → position ≤ msb →
        ∃ bit, ValueChange.Gives text (position - lsb) bit ∧
          updated.bit? position =
            some (if target.vector.twoState then bit.collapse else bit)) ∧
      ∀ position, ¬(lsb ≤ position ∧ position ≤ msb) →
        updated.cell position = target.vector.cell position
  /-- Letters in front of a change that reaches the end of the range make no difference. -/
  surplus : ∀ surplus text, ValueChange.IsChange (surplus ++ text) → msb - lsb < text.length →
    session.apply (.applyChange target.name (surplus ++ text) msb lsb) =
      session.apply (.applyChange target.name text msb lsb)
  /-- Setting the bits one by one and filling the rest up runs to its end and does the same. -/
  stepwise : ∀ text, ∃ answer, Guarded.applyChange target.vector text msb lsb = .ok answer ∧
    target.vector.applyChange text msb lsb = liftM answer

section

variable
  {session : Session}
  (target : session.AllocatedName)
  {lsb msb : Nat}

/-- A change that fails for the vector fails in the session and stores nothing. -/
theorem apply_applyChange_of_error
    {text : List Char}
    {failure : Failure}
    (fails : target.vector.applyChange text msb lsb = .error failure) :
    session.apply (.applyChange target.name text msb lsb) =
      (session, { result := .error failure, log := [] }) := by
  have refuses : target.vector.update (.applyChange text msb lsb) =
      { result := .error failure, log := [] } := by
    rw [LogicVector.update, fails]
    rfl
  change session.update target.name _ = _
  rw [update_of_noteReads_eq target.reads rfl rfl, refuses]
  rfl

/-- Texts that do the same to the vector do the same to the session. -/
theorem apply_applyChange_congr
    {text other : List Char}
    (same : target.vector.applyChange text msb lsb = target.vector.applyChange other msb lsb) :
    session.apply (.applyChange target.name text msb lsb) =
      session.apply (.applyChange target.name other msb lsb) := by
  have updates : target.vector.update (.applyChange text msb lsb) =
      target.vector.update (.applyChange other msb lsb) := by
    rw [LogicVector.update, LogicVector.update, same]
  change session.update target.name _ = session.update target.name _
  rw [update_of_noteReads_eq target.reads rfl rfl, update_of_noteReads_eq target.reads rfl rfl,
    updates]

end

/-- In every session that commands lead to, an allocated vector of any kind and width,
two-state or not, takes value changes in any range of its bits. -/
theorem takesChanges_run_empty
    (commands : List Command)
    (target : (Session.empty.run commands).AllocatedName)
    {lsb msb : Nat}
    (inRange : lsb ≤ msb ∧ msb < target.vector.width) :
    (Session.empty.run commands).TakesChanges target lsb msb where
  malformed text notChange := by
    obtain ⟨defect, fails⟩ := LogicVector.applyChange_malformed inRange notChange
    exact ⟨defect, apply_applyChange_of_error target fails⟩
  takes text change := by
    obtain ⟨updated, changed, applies, sameHeader, given, kept⟩ :=
      LogicVector.exists_applyChange target.readable inRange change
    refine ⟨updated, ?_, sameHeader, given, kept⟩
    exact (sound_run_empty commands).leaves_update target.reads rfl (by simp)
      (Outcome.ofFlagged_eq_ok_iff.2 ⟨changed, applies, rfl⟩)
  surplus surplus text change reaches :=
    apply_applyChange_congr target
      (LogicVector.applyChange_append target.readable inRange change reaches)
  stepwise text := Guarded.applyChange_eq_ok target.readable inRange text

/-- A signal of three words, of which a range that starts in the first and ends in the
last is given bits. -/
def wideSignal : List Command := [.create "s" 70 .signal true (some true) none]

theorem takesChanges_run_empty_wideSignal :
    ∃ target : (Session.empty.run wideSignal).AllocatedName, ∃ updated defect,
      target.name = "s" ∧ (Session.empty.run wideSignal).TakesChanges target 30 66 ∧
      (Session.empty.run wideSignal).Leaves (.applyChange "s" ['Z', '0', '1'] 66 30) "s" updated ∧
      updated.bit? 30 = some Bit.one ∧ updated.bit? 31 = some Bit.zero ∧
      updated.bit? 66 = some Bit.z ∧ updated.cell 67 = target.vector.cell 67 ∧
      (Session.empty.run wideSignal).apply (.applyChange "s" ['1', '?'] 66 30) =
        (Session.empty.run wideSignal,
          { result := .error (.literal (.malformed defect)), log := [] }) := by
  obtain ⟨target, isTarget, wide, fourState⟩ :
      ∃ target : (Session.empty.run wideSignal).AllocatedName,
        target.name = "s" ∧ target.vector.width = 70 ∧ target.vector.twoState = false :=
    ⟨⟨"s", _, rfl, rfl⟩, rfl, rfl, rfl⟩
  have takesChanges : (Session.empty.run wideSignal).TakesChanges target 30 66 :=
    takesChanges_run_empty wideSignal target ⟨by decide, wide ▸ by decide⟩
  obtain ⟨defect, refused⟩ := takesChanges.malformed ['1', '?'] (by decide)
  obtain ⟨updated, leaves, -, given, kept⟩ := takesChanges.takes ['Z', '0', '1'] (by decide)
  have shows {position : Nat} {bit : Bit} (inRange : 30 ≤ position ∧ position ≤ 66)
      (gives : ValueChange.Gives ['Z', '0', '1'] (position - 30) bit) :
      updated.bit? position = some bit := by
    obtain ⟨same, givesSame, showsSame⟩ := given position inRange.1 inRange.2
    rw [showsSame, fourState, givesSame.unique gives]
    rfl
  rw [isTarget] at refused leaves
  exact ⟨target, updated, defect, isTarget, takesChanges, leaves,
    shows (by decide) (.letter rfl .one), shows (by decide) (.letter rfl .zero),
    shows (by decide) (.unknown (by decide) rfl .upperZ (.inr rfl)), kept 67 (by decide), refused⟩

end Session
end FourState
