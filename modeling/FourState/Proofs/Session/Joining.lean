import FourState.Proofs.Joining
import FourState.Proofs.Session.Parts

/-!
# Joined and repeated vectors in a session

In every session that commands lead to, a concatenation and a replication place every
bit of their operands exactly, whatever the widths are and however large the count is.
So a concatenation can be bracketed in any way, as long as each vector on the way holds
its part of it, and a replication is a concatenation as often as the count says.
-/

namespace FourState

namespace Command

/-- The command that puts a left operand above a right one, into a target. -/
def concat (target left right : String) : Command :=
  .update target (.operate (.concat left right))

/-- The command that puts as many copies of a value above each other as a count says. -/
def expand (target count value : String) : Command :=
  .update target (.operate (.expand count value))

/-- The commands that clear a target and then put a value below it, a number of times. -/
def concatTimes (target value : String) (times : Nat) : List Command :=
  .update target (.setNat 0) :: List.replicate times (.concat target target value)

end Command

namespace LogicVector

/-- A readable four-state vector is cleared. -/
theorem update_setZero
    {target : LogicVector}
    (readable : target.Readable)
    (fourState : target.twoState = false) :
    ∃ updated reply, (target.update (.setNat 0)).result = .ok (updated, reply) ∧
      updated.toHeader = target.toHeader ∧
      ∀ position, position < target.width → updated.bit? position = some Bit.zero := by
  obtain ⟨updated, changed, commits, sameHeader, shows⟩ :=
    commit_whole readable fourState (Buffer.canonical_ofNat target.width 0)
  refine ⟨updated, .flag changed, Outcome.ofFlagged_of_ok commits, sameHeader, ?_⟩
  intro position inside
  rw [shows position inside, Buffer.bit_ofNat, if_pos inside, Nat.zero_testBit]
  rfl

end LogicVector

namespace Session

/-! ## One command -/

section

variable
  {session : Session}
  (sound : session.Sound fun plane => plane.isCoverage = false)
  (target left right count value : session.AllocatedName)
  (fourState : target.vector.twoState = false)

include sound fourState

/-- A concatenation leaves the left operand above the right one. -/
theorem Sound.exists_concat :
    ∃ updated, session.Leaves (.concat target.name left.name right.name) target.name updated ∧
      updated.toHeader = target.vector.toHeader ∧ updated.storage.isAllocated = true ∧
      ∀ position, position < target.vector.width → updated.bit? position =
        LogicVector.stacked [right.vector, left.vector] position := by
  obtain ⟨updated, changed, operates, sameHeader, shows⟩ := LogicVector.operate_concat
    (sound.readable target) fourState (sound.readable left) (sound.readable right)
  refine ⟨updated, sound.leaves_operate target.reads
    (AllocatedName.traverse (.concat left right)) (by simp) operates, sameHeader,
    ((sound.readable target).operate operates).isAllocated, ?_⟩
  intro position inside
  rw [shows position inside, LogicVector.stacked_pair]

/-- A replication leaves copies of the value, or `x` for an unknown count. -/
theorem Sound.exists_expand :
    ∃ updated, session.Leaves (.expand target.name count.name value.name) target.name updated ∧
      updated.toHeader = target.vector.toHeader ∧
      (¬count.vector.IsKnown → ∀ position, position < target.vector.width →
        updated.bit? position = some Bit.x) ∧
      (count.vector.IsKnown → ∀ position, position < target.vector.width →
        updated.bit? position =
          if position < count.vector.pattern.toNat * value.vector.width then
            value.vector.bit? (position % value.vector.width)
          else some Bit.zero) := by
  obtain ⟨updated, changed, operates, sameHeader, unknown, known⟩ := LogicVector.operate_expand
    (sound.readable target) fourState (sound.readable count) (sound.readable value)
  exact ⟨updated, sound.leaves_operate target.reads
    (AllocatedName.traverse (.expand count value)) (by simp) operates, sameHeader, unknown, known⟩

end

/-! ## Nested concatenations -/

section

variable
  {session : Session}
  (sound : session.Sound fun plane => plane.isCoverage = false)
  (target between left middle right : session.AllocatedName)
  (fourState : target.vector.twoState = false)
  (betweenFourState : between.vector.twoState = false)

include sound fourState betweenFourState

/-- The left two of three operands are joined first, in a vector that holds them. -/
theorem Sound.exists_concat_left
    (holds : left.vector.width + middle.vector.width ≤ between.vector.width)
    (apart : ¬session.Shares between.name right.name) :
    ∃ after, (session.run [.concat between.name left.name middle.name,
          .concat target.name between.name right.name]).vector target.name = .ok after ∧
      after.toHeader = target.vector.toHeader ∧
      ∀ position, position < target.vector.width → after.bit? position =
        LogicVector.stacked [right.vector, middle.vector, left.vector] position := by
  obtain ⟨inner, joins, innerHeader, allocated, shows⟩ :=
    sound.exists_concat between left middle betweenFourState
  obtain ⟨targetNow, sameTarget, targetHeader, -⟩ :=
    sound.exists_bits_of_update between target joins innerHeader allocated
  obtain ⟨rightNow, sameRight, rightHeader, -, rightBits⟩ :=
    sound.exists_bits_of_update between right joins innerHeader allocated
  obtain ⟨after, joinsAll, afterHeader, -, showsAll⟩ :=
    (sound.applyAny (.concat between.name left.name middle.name)).exists_concat targetNow
      ⟨between.name, inner, joins.vector_eq, allocated⟩ rightNow
      ((congrArg Header.twoState targetHeader).trans fourState)
  rw [sameTarget, sameRight] at joinsAll
  refine ⟨after, joinsAll.vector_eq, afterHeader.trans targetHeader, ?_⟩
  intro position inside
  have innerWidth : inner.width = between.vector.width := congrArg Header.width innerHeader
  have rightWidth : rightNow.vector.width = right.vector.width := congrArg Header.width rightHeader
  have sameStack := LogicVector.stacked_congr rightWidth (rightBits apart) [] [inner]
  rw [showsAll position (by rwa [congrArg Header.width targetHeader])]
  refine (sameStack position).trans ?_
  rw [List.nil_append]
  by_cases inRight : position < right.vector.width
  · rw [LogicVector.stacked_of_lt inRight, LogicVector.stacked_of_lt inRight]
  · have above := Nat.not_lt.1 inRight
    rw [LogicVector.stacked_of_le above, LogicVector.stacked_of_le above]
    by_cases inInner : position - right.vector.width < inner.width
    · rw [LogicVector.stacked_of_lt inInner, shows _ (by rwa [← innerWidth])]
    · -- Past the vector on the way there is nothing of its operands.
      rw [LogicVector.stacked_of_le (Nat.not_lt.1 inInner), LogicVector.stacked_pair,
        if_neg (by omega), if_neg (by omega), LogicVector.stacked]

/-- The right two of three operands are joined first, in a vector that holds them; the
left one comes above all of that vector. -/
theorem Sound.exists_concat_right
    (apart : ¬session.Shares between.name left.name) :
    ∃ after, (session.run [.concat between.name middle.name right.name,
          .concat target.name left.name between.name]).vector target.name = .ok after ∧
      after.toHeader = target.vector.toHeader ∧
      ∀ position, position < target.vector.width → after.bit? position =
        if position < between.vector.width then
          LogicVector.stacked [right.vector, middle.vector] position
        else LogicVector.stacked [left.vector] (position - between.vector.width) := by
  obtain ⟨inner, joins, innerHeader, allocated, shows⟩ :=
    sound.exists_concat between middle right betweenFourState
  obtain ⟨targetNow, sameTarget, targetHeader, -⟩ :=
    sound.exists_bits_of_update between target joins innerHeader allocated
  obtain ⟨leftNow, sameLeft, leftHeader, -, leftBits⟩ :=
    sound.exists_bits_of_update between left joins innerHeader allocated
  obtain ⟨after, joinsAll, afterHeader, -, showsAll⟩ :=
    (sound.applyAny (.concat between.name middle.name right.name)).exists_concat targetNow
      leftNow ⟨between.name, inner, joins.vector_eq, allocated⟩
      ((congrArg Header.twoState targetHeader).trans fourState)
  rw [sameTarget, sameLeft] at joinsAll
  refine ⟨after, joinsAll.vector_eq, afterHeader.trans targetHeader, ?_⟩
  intro position inside
  have innerWidth : inner.width = between.vector.width := congrArg Header.width innerHeader
  have leftWidth : leftNow.vector.width = left.vector.width := congrArg Header.width leftHeader
  have sameStack := LogicVector.stacked_congr leftWidth (leftBits apart) [inner] []
  rw [showsAll position (by rwa [congrArg Header.width targetHeader])]
  refine (sameStack position).trans ?_
  rw [List.singleton_append, ← innerWidth]
  by_cases inInner : position < inner.width
  · rw [LogicVector.stacked_of_lt inInner, if_pos inInner, shows position (by rwa [← innerWidth])]
  · rw [LogicVector.stacked_of_le (Nat.not_lt.1 inInner), if_neg inInner]

end

/-! ## Repeated concatenations -/

section

variable
  {session : Session}
  (sound : session.Sound fun plane => plane.isCoverage = false)
  (target value : session.AllocatedName)
  (fourState : target.vector.twoState = false)
  (apart : ¬session.Shares target.name value.name)

include sound fourState apart

/-- Putting a value below a target a number of times moves what the target shows above
as many copies of the value. -/
theorem Sound.exists_concat_replicate (times : Nat) :
    ∃ after, (session.run
          (List.replicate times (.concat target.name target.name value.name))).vector
          target.name = .ok after ∧
      ∀ position, position < target.vector.width → after.bit? position =
        if position < times * value.vector.width then
          value.vector.bit? (position % value.vector.width)
        else target.vector.bit? (position - times * value.vector.width) := by
  induction times generalizing session with
  | zero =>
      refine ⟨target.vector, target.reads, ?_⟩
      intro position _
      rw [Nat.zero_mul, if_neg (Nat.not_lt_zero _), Nat.sub_zero]
  | succ times inductionHypothesis =>
      obtain ⟨updated, joins, sameHeader, allocated, shows⟩ :=
        sound.exists_concat target target value fourState
      obtain ⟨valueNow, sameName, valueHeader, -, sameBits⟩ :=
        sound.exists_bits_of_update target value joins sameHeader allocated
      have apartNow : ¬(session.apply (.concat target.name target.name value.name)).1.Shares
          target.name valueNow.name := by
        rw [sameName]
        exact mt (shares_update_iff sound target.name _ target.name value.name).1 apart
      obtain ⟨after, readsAfter, showsAfter⟩ :=
        inductionHypothesis (sound.applyAny (.concat target.name target.name value.name))
          ⟨target.name, updated, joins.vector_eq, allocated⟩ valueNow
          ((congrArg Header.twoState sameHeader).trans fourState) apartNow
      have valueWidth : valueNow.vector.width = value.vector.width :=
        congrArg Header.width valueHeader
      have targetWidth : updated.width = target.vector.width := congrArg Header.width sameHeader
      rw [sameName] at readsAfter
      refine ⟨after, readsAfter, ?_⟩
      intro position inside
      rw [showsAfter position (by rwa [targetWidth]), valueWidth, sameBits apart, Nat.succ_mul]
      by_cases below : position < times * value.vector.width
      · rw [if_pos below, if_pos (by omega)]
      · -- The copy that was put in first is the highest one.
        rw [if_neg below, shows _ (by omega), LogicVector.stacked_pair]
        by_cases inCopy : position < times * value.vector.width + value.vector.width
        · rw [if_pos (by omega), if_pos inCopy, mod_eq_sub_of_lt (Nat.not_lt.1 below) inCopy]
        · rw [if_neg (by omega), if_pos (by omega), if_neg inCopy, Nat.sub_sub]

/-- Clearing a target and putting a value below it a number of times leaves as many copies
of the value. -/
theorem Sound.exists_concatTimes (times : Nat) :
    ∃ after, (session.run (Command.concatTimes target.name value.name times)).vector target.name =
        .ok after ∧
      ∀ position, position < target.vector.width → after.bit? position =
        if position < times * value.vector.width then
          value.vector.bit? (position % value.vector.width)
        else some Bit.zero := by
  obtain ⟨cleared, reply, clears, sameHeader, isClear⟩ :=
    LogicVector.update_setZero (sound.readable target) fourState
  have leaves : session.Leaves (.update target.name (.setNat 0)) target.name cleared :=
    sound.leaves_update target.reads rfl (by simp) clears
  have allocated := ((sound.readable target).update (by simp [Update.source?]) clears).isAllocated
  obtain ⟨valueNow, sameName, valueHeader, -, sameBits⟩ :=
    sound.exists_bits_of_update target value leaves sameHeader allocated
  have apartNow : ¬(session.apply (.update target.name (.setNat 0))).1.Shares
      target.name valueNow.name := by
    rw [sameName]
    exact mt (shares_update_iff sound target.name _ target.name value.name).1 apart
  obtain ⟨after, readsAfter, showsAfter⟩ :=
    (sound.applyAny (.update target.name (.setNat 0))).exists_concat_replicate
      ⟨target.name, cleared, leaves.vector_eq, allocated⟩ valueNow
      ((congrArg Header.twoState sameHeader).trans fourState) apartNow times
  have valueWidth : valueNow.vector.width = value.vector.width :=
    congrArg Header.width valueHeader
  have targetWidth : cleared.width = target.vector.width := congrArg Header.width sameHeader
  rw [sameName] at readsAfter
  refine ⟨after, readsAfter, ?_⟩
  intro position inside
  rw [showsAfter position (by rwa [targetWidth]), valueWidth, sameBits apart,
    isClear _ (Nat.lt_of_le_of_lt (Nat.sub_le _ _) inside)]

end

/-! ## The laws -/

/-- The laws of joining and repeating vectors in a four-state target. -/
structure JoiningLaws (session : Session) (target : session.AllocatedName) : Prop where
  /-- A concatenation has the right operand below the left one, and zeros above them. -/
  concat : ∀ left right : session.AllocatedName, ∃ updated,
    session.Leaves (.concat target.name left.name right.name) target.name updated ∧
      updated.toHeader = target.vector.toHeader ∧
      ∀ position, position < target.vector.width → updated.bit? position =
        if position < right.vector.width then right.vector.bit? position
        else if position < right.vector.width + left.vector.width then
          left.vector.bit? (position - right.vector.width)
        else some Bit.zero
  /-- A replication by a count with an unknown bit is unknown. -/
  expand_unknown : ∀ count value : session.AllocatedName,
    count.vector.UnknownBelow count.vector.width → ∃ updated,
    session.Leaves (.expand target.name count.name value.name) target.name updated ∧
      updated.toHeader = target.vector.toHeader ∧
      ∀ position, position < target.vector.width → updated.bit? position = some Bit.x
  /-- A replication has as many copies of the value as the count says, and zeros above. -/
  expand : ∀ count value : session.AllocatedName,
    ¬count.vector.UnknownBelow count.vector.width → ∃ updated,
    session.Leaves (.expand target.name count.name value.name) target.name updated ∧
      updated.toHeader = target.vector.toHeader ∧
      ∀ position, position < target.vector.width → updated.bit? position =
        if position < count.vector.pattern.toNat * value.vector.width then
          value.vector.bit? (position % value.vector.width)
        else some Bit.zero
  /-- A replication stops after as many copies as fill the target at the latest, however
  large the count is. -/
  rounds : ∀ count value : session.AllocatedName,
    ¬count.vector.UnknownBelow count.vector.width → ∃ copies item final rounds,
    Buffer.ofVector count.vector = .ok copies ∧ Buffer.ofVector value.vector = .ok item ∧
      Operator.replicateCounted item copies.toCount 0 (Buffer.zero target.vector.width) =
        .ok (final, rounds) ∧
      Operator.replicate item copies.toCount 0 (Buffer.zero target.vector.width) = .ok final ∧
      rounds ≤ (target.vector.width + value.vector.width - 1) / value.vector.width ∧
      Operator.expand target.vector.width count.vector value.vector = .ok final
  /-- A concatenation of three operands, the right two first, has the left one above all of
  the vector on the way. -/
  concat_right : ∀ between left middle right : session.AllocatedName,
    between.vector.twoState = false → ¬session.Shares between.name left.name → ∃ after,
    (session.run [.concat between.name middle.name right.name,
        .concat target.name left.name between.name]).vector target.name = .ok after ∧
      ∀ position, position < target.vector.width → after.bit? position =
        if position < between.vector.width then
          LogicVector.stacked [right.vector, middle.vector] position
        else LogicVector.stacked [left.vector] (position - between.vector.width)
  /-- A concatenation of three operands can be bracketed in either way, if the vectors on the
  way hold their two operands, the one below the left operand exactly, and do not share
  words with the third. -/
  concat_assoc : ∀ upper lower left middle right : session.AllocatedName,
    upper.vector.twoState = false → lower.vector.twoState = false →
    left.vector.width + middle.vector.width ≤ upper.vector.width →
    lower.vector.width = middle.vector.width + right.vector.width →
    ¬session.Shares upper.name right.name → ¬session.Shares lower.name left.name →
    ∃ one other,
      (session.run [.concat upper.name left.name middle.name,
        .concat target.name upper.name right.name]).vector target.name = .ok one ∧
      (session.run [.concat lower.name middle.name right.name,
        .concat target.name left.name lower.name]).vector target.name = .ok other ∧
      ∀ position, position < target.vector.width →
        one.bit? position = LogicVector.stacked [right.vector, middle.vector, left.vector] position ∧
        other.bit? position = one.bit? position
  /-- A replication by a number is a concatenation as many times. -/
  expand_eq_concat : ∀ count value : session.AllocatedName,
    ¬count.vector.UnknownBelow count.vector.width → ¬session.Shares target.name value.name →
    ∃ one other,
      session.Leaves (.expand target.name count.name value.name) target.name one ∧
      (session.run (Command.concatTimes target.name value.name
        count.vector.pattern.toNat)).vector target.name = .ok other ∧
      ∀ position, position < target.vector.width → other.bit? position = one.bit? position

/-- In every session that commands lead to, joining and repeating vectors in a four-state
target of any width place every bit exactly. -/
theorem joiningLaws_run_empty
    (commands : List Command)
    (target : (Session.empty.run commands).AllocatedName)
    (fourState : target.vector.twoState = false) :
    (Session.empty.run commands).JoiningLaws target where
  concat left right := by
    obtain ⟨updated, joins, sameHeader, -, shows⟩ :=
      (sound_run_empty commands).exists_concat target left right fourState
    refine ⟨updated, joins, sameHeader, ?_⟩
    intro position inside
    rw [shows position inside, LogicVector.stacked_pair]
  expand_unknown count value unknown := by
    obtain ⟨updated, expands, sameHeader, shows, -⟩ :=
      (sound_run_empty commands).exists_expand target count value fourState
    exact ⟨updated, expands, sameHeader,
      shows fun known => count.readable.isKnown_iff.1 known unknown⟩
  expand count value noUnknown := by
    obtain ⟨updated, expands, sameHeader, -, shows⟩ :=
      (sound_run_empty commands).exists_expand target count value fourState
    exact ⟨updated, expands, sameHeader, shows (count.readable.isKnown_iff.2 noUnknown)⟩
  rounds count value noUnknown := by
    obtain ⟨copies, item, final, rounds, readsCount, readsValue, counts, bounded, expands, -⟩ :=
      Operator.exists_expand (count.readable.isKnown_iff.2 noUnknown) count.readable
        value.readable target.readable.wellFormed.width_pos target.readable.wellFormed.width_le
    exact ⟨copies, item, final, rounds, readsCount, readsValue, counts,
      Operator.replicate_of_counted counts, bounded, expands⟩
  concat_right between left middle right betweenFourState apart := by
    obtain ⟨after, readsAfter, -, shows⟩ := (sound_run_empty commands).exists_concat_right target
      between left middle right fourState betweenFourState apart
    exact ⟨after, readsAfter, shows⟩
  concat_assoc upper lower left middle right upperFourState lowerFourState upperHolds lowerHolds
      upperApart lowerApart := by
    obtain ⟨one, readsOne, -, showsOne⟩ := (sound_run_empty commands).exists_concat_left target
      upper left middle right fourState upperFourState upperHolds upperApart
    obtain ⟨other, readsOther, -, showsOther⟩ := (sound_run_empty commands).exists_concat_right
      target lower left middle right fourState lowerFourState lowerApart
    refine ⟨one, other, readsOne, readsOther, ?_⟩
    intro position inside
    refine ⟨showsOne position inside, ?_⟩
    have regroups := LogicVector.stacked_append [right.vector, middle.vector] [left.vector] position
    simp only [List.map_cons, List.map_nil, List.sum_cons, List.sum_nil, Nat.add_zero] at regroups
    rw [showsOne position inside, showsOther position inside, lowerHolds, Nat.add_comm,
      ← regroups, List.cons_append, List.singleton_append]
  expand_eq_concat count value noUnknown apart := by
    obtain ⟨one, expands, -, -, showsOne⟩ :=
      (sound_run_empty commands).exists_expand target count value fourState
    obtain ⟨other, readsOther, showsOther⟩ := (sound_run_empty commands).exists_concatTimes
      target value fourState apart count.vector.pattern.toNat
    refine ⟨one, other, expands, readsOther, ?_⟩
    intro position inside
    rw [showsOther position inside,
      showsOne (count.readable.isKnown_iff.2 noUnknown) position inside]

/-- A value of seven bits with an `x` on top, a target of three words, and a count of more
than 64 bits. -/
def manyCopies : List Command := [
  .create "t" 70 .signal true none none,
  .create "v" 7 .plain true (some true) none,
  .update "v" (.applyChange ['x', '0', '1'] 6 0),
  .create "n" 70 .memory true none none,
  .update "n" (.assign #[0, 0, 32] #[0, 0, 0] 0 69)]

theorem joiningLaws_run_empty_manyCopies :
    ∃ target count value : (Session.empty.run manyCopies).AllocatedName, ∃ updated,
      target.name = "t" ∧ count.name = "n" ∧ value.name = "v" ∧
      target.vector.twoState = false ∧ count.vector.pattern.toNat = 2 ^ 69 ∧
      (Session.empty.run manyCopies).JoiningLaws target ∧
      (Session.empty.run manyCopies).Leaves (.expand "t" "n" "v") "t" updated ∧
      updated.bit? 63 = some Bit.one ∧ updated.bit? 64 = some Bit.zero ∧
      updated.bit? 69 = some Bit.x := by
  obtain ⟨target, count, value, isTarget, isCount, isValue, fourState, wide, narrow, known, isLarge,
      low, next, top⟩ :
      ∃ target count value : (Session.empty.run manyCopies).AllocatedName,
        target.name = "t" ∧ count.name = "n" ∧ value.name = "v" ∧
        target.vector.twoState = false ∧ target.vector.width = 70 ∧ value.vector.width = 7 ∧
        count.vector.IsKnown ∧ count.vector.pattern.toNat = 2 ^ 69 ∧
        value.vector.bit? 0 = some Bit.one ∧ value.vector.bit? 1 = some Bit.zero ∧
        value.vector.bit? 6 = some Bit.x :=
    ⟨⟨"t", _, rfl, rfl⟩, ⟨"n", _, rfl, rfl⟩, ⟨"v", _, rfl, rfl⟩, rfl, rfl, rfl, rfl, rfl, rfl,
      by decide +kernel, by decide +kernel, by decide +kernel, by decide +kernel,
      by decide +kernel⟩
  have laws := joiningLaws_run_empty manyCopies target fourState
  obtain ⟨updated, leaves, -, shows⟩ :=
    laws.expand count value (count.readable.isKnown_iff.1 known)
  rw [isTarget, isCount, isValue] at leaves
  have copied (position : Nat) (inside : position < 70) :
      updated.bit? position = value.vector.bit? (position % 7) := by
    rw [shows position (wide ▸ inside), isLarge, narrow, if_pos (by omega)]
  exact ⟨target, count, value, updated, isTarget, isCount, isValue, fourState, isLarge, laws,
    leaves, (copied 63 (by decide)).trans low, (copied 64 (by decide)).trans next,
    (copied 69 (by decide)).trans top⟩

/-- Operands of one and two bits, vectors of three bits on the way, a target of four bits, and
second names for the words of an operand and of the target. -/
def aliasedParts : List Command := [
  .create "a" 1 .plain true none none,
  .update "a" (.setNat 1),
  .create "b" 2 .plain true none none,
  .update "b" (.setNat 1),
  .share "c" "b",
  .create "u" 3 .plain true none none,
  .create "l" 3 .plain true none none,
  .create "n" 2 .plain true none none,
  .update "n" (.setNat 2),
  .create "t" 4 .plain true none none,
  .update "t" (.setNat 1),
  .share "v" "t"]

/-- The bit that a name shows at a position after a run of commands. -/
def shownAfter (session : Session) (commands : List Command) (name : String) (position : Nat) :
    Option Bit :=
  match (session.run commands).vector name with
  | .ok vector => vector.bit? position
  | .error _ => none

/-- Brackets count when the vector on the way is wider than the two right operands, or has the
words of the left one; and a replication is no repeated concatenation when the target has the
words of the value. -/
theorem concat_brackets_count :
    ∃ target upper lower left aliased part count value :
        (Session.empty.run aliasedParts).AllocatedName,
      (target.name = "t" ∧ upper.name = "u" ∧ lower.name = "l" ∧ left.name = "b" ∧
        aliased.name = "c" ∧ part.name = "a" ∧ count.name = "n" ∧ value.name = "v") ∧
      (target.vector.width = 4 ∧ upper.vector.width = 3 ∧ lower.vector.width = 3 ∧
        left.vector.width = 2 ∧ aliased.vector.width = 2 ∧ part.vector.width = 1) ∧
      (target.vector.twoState = false ∧ upper.vector.twoState = false ∧
        lower.vector.twoState = false ∧ aliased.vector.twoState = false) ∧
      count.vector.pattern.toNat = 2 ∧
      ((Session.empty.run aliasedParts).shownAfter
          [.concat "u" "a" "a", .concat "t" "u" "a"] "t" 2 = some Bit.one ∧
        (Session.empty.run aliasedParts).shownAfter
          [.concat "l" "a" "a", .concat "t" "a" "l"] "t" 2 = some Bit.zero) ∧
      ((Session.empty.run aliasedParts).shownAfter
          [.concat "u" "b" "a", .concat "t" "u" "a"] "t" 3 = some Bit.zero ∧
        (Session.empty.run aliasedParts).shownAfter
          [.concat "c" "a" "a", .concat "t" "b" "c"] "t" 3 = some Bit.one) ∧
      (Session.empty.run aliasedParts).shownAfter
          [.expand "t" "n" "v"] "t" 0 = some Bit.one ∧
        (Session.empty.run aliasedParts).shownAfter
          (Command.concatTimes "t" "v" 2) "t" 0 = some Bit.zero :=
  ⟨⟨"t", _, rfl, rfl⟩, ⟨"u", _, rfl, rfl⟩, ⟨"l", _, rfl, rfl⟩, ⟨"b", _, rfl, rfl⟩,
    ⟨"c", _, rfl, rfl⟩, ⟨"a", _, rfl, rfl⟩, ⟨"n", _, rfl, rfl⟩, ⟨"v", _, rfl, rfl⟩,
    ⟨rfl, rfl, rfl, rfl, rfl, rfl, rfl, rfl⟩, ⟨rfl, rfl, rfl, rfl, rfl, rfl⟩,
    ⟨rfl, rfl, rfl, rfl⟩, by decide +kernel, by decide +kernel, by decide +kernel,
    by decide +kernel, by decide +kernel⟩

end Session
end FourState
