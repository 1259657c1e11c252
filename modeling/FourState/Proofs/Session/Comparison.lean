import FourState.Proofs.Matching
import FourState.Proofs.Ordering
import FourState.Proofs.Session.Arithmetic

/-!
# Comparisons in a session

In every session that commands lead to, comparing allocated vectors of any widths
succeeds.  A relational operator decides the order of their integers, and leaves `x` if
a bit of them is unknown.  A case operator always leaves a known answer, which says
whether the vectors match bit by bit.
-/

namespace FourState
namespace Session

/-! ## Order -/

/-- In every session that commands lead to, a relational operator succeeds on allocated
operands of any widths and an allocated four-state target of any width.  It leaves in bit
zero whether the relation holds between the integers of the operands, or `x` if one of
them has an unknown bit, and zeros above. -/
theorem compare_decides
    (commands : List Command)
    (relation : Relation)
    (target left right : (Session.empty.run commands).AllocatedName)
    (fourState : target.vector.twoState = false) :
    ∃ updated answer,
      (Session.empty.run commands).Leaves
        (.update target.name (.operate (.compare relation left.name right.name))) target.name
        updated ∧
      updated.toHeader = target.vector.toHeader ∧ updated.Answers answer ∧
      relation.Tells left.vector right.vector answer := by
  obtain ⟨answer, compares, tells⟩ :=
    Operator.exists_compare relation target.vector.width left.readable right.readable
  have computes : (Operation.compare relation left.vector right.vector).compute target.vector =
      .ok (Buffer.ofBit target.vector.width answer) :=
    liftM_fault_eq_ok_iff.2 compares
  obtain ⟨updated, changed, operates, sameHeader, answers⟩ :=
    LogicVector.operate_answers target.readable rfl computes fun twoState => by
      rw [fourState] at twoState
      contradiction
  exact ⟨updated, answer, (sound_run_empty commands).leaves_operate target.reads
    (AllocatedName.traverse (.compare relation left right)) (by simp) operates, sameHeader,
    answers, tells⟩

/-- Minus three and five, in eight and in forty bits. -/
def mixedWidths : List Command := [
  .create "t" 3 .memory true none none,
  .create "a" 8 .plain true (some true) none,
  .update "a" (.setNat 253),
  .create "b" 40 .signal true (some true) none,
  .update "b" (.setNat 5)]

theorem compare_decides_mixedWidths :
    ∃ target left right : (Session.empty.run mixedWidths).AllocatedName, ∃ updated,
      target.name = "t" ∧ left.name = "a" ∧ right.name = "b" ∧
      left.vector.integer true = -3 ∧ right.vector.integer true = 5 ∧
      (Session.empty.run mixedWidths).Leaves
        (.update "t" (.operate (.compare .less "a" "b"))) "t" updated ∧
      updated.Answers Bit.one := by
  obtain ⟨target, left, right, isTarget, isLeft, isRight, fourState, leftKnown, rightKnown,
      isMinusThree, isFive, signed⟩ :
      ∃ target left right : (Session.empty.run mixedWidths).AllocatedName,
        target.name = "t" ∧ left.name = "a" ∧ right.name = "b" ∧
        target.vector.twoState = false ∧ left.vector.IsKnown ∧ right.vector.IsKnown ∧
        left.vector.integer true = -3 ∧ right.vector.integer true = 5 ∧
        bothSigned left.vector right.vector = true :=
    ⟨⟨"t", _, rfl, rfl⟩, ⟨"a", _, rfl, rfl⟩, ⟨"b", _, rfl, rfl⟩, rfl, rfl, rfl, rfl,
      by decide +kernel, by decide +kernel, by decide +kernel, by decide +kernel, rfl⟩
  obtain ⟨updated, answer, leaves, -, answers, tells⟩ :=
    compare_decides mixedWidths .less target left right fourState
  have isOne : answer = Bit.one := by
    rw [tells.known, signed, isMinusThree, isFive]
    · rfl
    · rw [not_or, ← left.readable.isKnown_iff, ← right.readable.isKnown_iff]
      exact ⟨leftKnown, rightKnown⟩
  rw [isTarget, isLeft, isRight] at leaves
  exact ⟨target, left, right, updated, isTarget, isLeft, isRight, isMinusThree, isFive, leaves,
    isOne ▸ answers⟩

/-! ## Bit by bit -/

/-- Matching two names leaves a one. -/
def Finds
    (session : Session)
    (target : String)
    (operator : CaseMatch)
    (left right : session.AllocatedName) : Prop :=
  ∃ updated, session.Leaves
      (.update target (.operate (.caseCompare operator left.name right.name))) target updated ∧
    updated.Answers Bit.one

/-- What matching allocated vectors leaves in a target, and the laws that the answers
obey. -/
structure MatchesBits (session : Session) (target : session.AllocatedName) : Prop where
  /-- Every operator has a known answer for vectors of any widths: whether the match holds
  of them. -/
  answers : ∀ operator (left right : session.AllocatedName),
    ∃ updated, session.Leaves
        (.update target.name (.operate (.caseCompare operator left.name right.name)))
        target.name updated ∧
      updated.toHeader = target.vector.toHeader ∧
      updated.Answers (Bit.ofBool (decide (operator.Holds left.vector right.vector)))
  same_equivalence : Equivalence (session.Finds target.name .same)
  different_iff : ∀ left right,
    session.Finds target.name .different left right ↔ ¬session.Finds target.name .same left right
  refl : ∀ operator, operator ≠ .different → ∀ left,
    session.Finds target.name operator left left
  symm : ∀ operator left right,
    session.Finds target.name operator left right → session.Finds target.name operator right left
  ignoreHighZ_of_same : ∀ left right,
    session.Finds target.name .same left right → session.Finds target.name .ignoreHighZ left right
  ignoreUnknown_of_ignoreHighZ : ∀ left right,
    session.Finds target.name .ignoreHighZ left right →
      session.Finds target.name .ignoreUnknown left right

section

variable {commands : List Command}

/-- Matching leaves whether the match holds, also in a two-state target. -/
theorem leaves_caseCompare
    (target : (Session.empty.run commands).AllocatedName)
    (operator : CaseMatch)
    (left right : (Session.empty.run commands).AllocatedName) :
    ∃ updated, (Session.empty.run commands).Leaves
        (.update target.name (.operate (.caseCompare operator left.name right.name)))
        target.name updated ∧
      updated.toHeader = target.vector.toHeader ∧
      updated.Answers (Bit.ofBool (decide (operator.Holds left.vector right.vector))) := by
  have computes : (Operation.caseCompare operator left.vector right.vector).compute
      target.vector = .ok (Buffer.ofBit target.vector.width
        (Bit.ofBool (decide (operator.Holds left.vector right.vector)))) :=
    liftM_fault_eq_ok_iff.2 (Operator.caseCompare_eq_ok operator target.vector.width
      left.readable right.readable)
  obtain ⟨updated, changed, operates, sameHeader, answers⟩ :=
    LogicVector.operate_answers target.readable rfl computes fun _ => by
      cases decide (operator.Holds left.vector right.vector) <;> rfl
  exact ⟨updated, (sound_run_empty commands).leaves_operate target.reads
    (AllocatedName.traverse (.caseCompare operator left right)) (by simp) operates, sameHeader,
    answers⟩

/-- A one is left exactly if the match holds. -/
theorem finds_iff
    (target : (Session.empty.run commands).AllocatedName)
    {operator : CaseMatch}
    {left right : (Session.empty.run commands).AllocatedName} :
    (Session.empty.run commands).Finds target.name operator left right ↔
      operator.Holds left.vector right.vector := by
  obtain ⟨updated, leaves, sameHeader, answers⟩ := leaves_caseCompare target operator left right
  have notEmpty : 0 < updated.width :=
    congrArg Header.width sameHeader ▸ target.readable.wellFormed.width_pos
  constructor
  · rintro ⟨_, leavesOne, isOne⟩
    cases leaves.vector_eq.symm.trans leavesOne.vector_eq
    have sameAnswer := (isOne 0 notEmpty).symm.trans (answers 0 notEmpty)
    by_contra fails
    rw [decide_eq_false fails] at sameAnswer
    contradiction
  · intro holds
    rw [decide_eq_true holds] at answers
    exact ⟨updated, leaves, answers⟩

end

/-- In every session that commands lead to, the case operators succeed on allocated
operands of any widths and an allocated target of any width, two-state or not, and leave
whether the operands match.  Being the same is an equivalence, matching with wildcards is
reflexive and symmetric, and each wildcard finds what the stricter operators find. -/
theorem caseCompare_matches
    (commands : List Command)
    (target : (Session.empty.run commands).AllocatedName) :
    (Session.empty.run commands).MatchesBits target where
  answers := leaves_caseCompare target
  same_equivalence := by
    refine ⟨?_, ?_, ?_⟩
    · intro left
      exact (finds_iff target).2 (CaseMatch.holds_refl (by decide) _)
    · intro left right finds
      rw [finds_iff] at finds ⊢
      exact finds.symm
    · intro left middle right finds findsNext
      rw [finds_iff] at finds findsNext ⊢
      exact finds.trans_same findsNext
  different_iff left right := by
    rw [finds_iff, finds_iff]
    rfl
  refl operator notDifferent left := (finds_iff target).2 (CaseMatch.holds_refl notDifferent _)
  symm operator left right finds := by
    rw [finds_iff] at finds ⊢
    exact finds.symm
  ignoreHighZ_of_same left right finds := by
    rw [finds_iff] at finds ⊢
    exact finds.ignoreHighZ
  ignoreUnknown_of_ignoreHighZ left right finds := by
    rw [finds_iff] at finds ⊢
    exact finds.ignoreUnknown

/-- A value with an `x` and a `z`, and the same one with a one for the `z` and more zeros. -/
def highZAndOne : List Command := [
  .create "t" 40 .signal true none (some true),
  .create "a" 4 .plain true none none,
  .update "a" (.applyChange ['1', 'x', 'z', '0'] 3 0),
  .create "b" 6 .memory true none none,
  .update "b" (.applyChange ['1', 'x', '1', '0'] 5 0)]

theorem caseCompare_matches_highZAndOne :
    ∃ target left right : (Session.empty.run highZAndOne).AllocatedName,
      target.name = "t" ∧ left.name = "a" ∧ right.name = "b" ∧ target.vector.twoState = true ∧
      (Session.empty.run highZAndOne).MatchesBits target ∧
      (Session.empty.run highZAndOne).Finds "t" .ignoreHighZ left right ∧
      ¬(Session.empty.run highZAndOne).Finds "t" .same left right := by
  obtain ⟨target, left, right, isTarget, isLeft, isRight, twoState, holds, differs⟩ :
      ∃ target left right : (Session.empty.run highZAndOne).AllocatedName,
        target.name = "t" ∧ left.name = "a" ∧ right.name = "b" ∧
        target.vector.twoState = true ∧
        CaseMatch.ignoreHighZ.Holds left.vector right.vector ∧
        ¬CaseMatch.same.Holds left.vector right.vector :=
    ⟨⟨"t", _, rfl, rfl⟩, ⟨"a", _, rfl, rfl⟩, ⟨"b", _, rfl, rfl⟩, rfl, rfl, rfl, rfl,
      by decide +kernel, by decide +kernel⟩
  refine ⟨target, left, right, isTarget, isLeft, isRight, twoState,
    caseCompare_matches highZAndOne target, ?_, ?_⟩
  · exact isTarget ▸ (finds_iff target).2 holds
  · exact isTarget ▸ mt (finds_iff target).1 differs

end Session
end FourState
