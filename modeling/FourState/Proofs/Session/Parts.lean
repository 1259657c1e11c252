import FourState.Proofs.Parts
import FourState.Proofs.Session.Arithmetic
import FourState.Proofs.Session.Confinement

/-!
# Parts in a session

In every session that commands lead to, selecting a range of bits and assigning it obey
the laws of reading and writing a field: what has been assigned is selected again, what
has just been selected is assigned without effect, bits outside the range are not
touched, and ranges that do not meet can be assigned in any order.  The order counts only
for a source that has the words of the target.
-/

namespace FourState

/-- The command that selects the bits `lsb` to `msb` of a source into a target. -/
def Command.selectPart (target source : String) (lsb msb : Nat) : Command :=
  .update target (.operate (.partSelect source lsb msb))

/-- The command that assigns a source to the bits `lsb` to `msb` of a target. -/
def Command.assignPart (target source : String) (lsb msb : Nat) : Command :=
  .update target (.operate (.partAssign source lsb msb))

theorem LogicVector.extended_of_bit?
    {vector : LogicVector}
    {signExtend : Bool}
    {position : Nat}
    {bit : Bit}
    (shows : vector.bit? position = some bit) :
    vector.extended signExtend position = bit := by
  rw [extended, shows]
  rfl

namespace Session

/-- An allocated vector shares words with itself. -/
theorem AllocatedName.shares_self
    {session : Session}
    (target : session.AllocatedName) :
    session.Shares target.name target.name := by
  obtain ⟨handle, bound, isVector⟩ := (vector_eq_ok_iff _ _ _).1 target.reads
  obtain ⟨block, stored⟩ := LogicVector.exists_block target.isAllocated
  rw [← isVector, LogicVector.block_eq_ok_iff, load, Storage.content?_map,
    Option.map_eq_some_iff] at stored
  obtain ⟨number, refers, -⟩ := stored
  exact ⟨handle, handle, number, bound, bound, refers, refers⟩

/-! ## One command -/

section

variable
  {session : Session}
  (sound : session.Sound fun plane => plane.isCoverage = false)
  (target source : session.AllocatedName)
  {lsb msb : Nat}

include sound

/-- Selecting a part leaves the bits of the range in a four-state target, with zeros
above. -/
theorem Sound.exists_selectPart
    (fourState : target.vector.twoState = false)
    (inRange : lsb ≤ msb ∧ msb < source.vector.width) :
    ∃ updated, session.Leaves (.selectPart target.name source.name lsb msb) target.name updated ∧
      updated.toHeader = target.vector.toHeader ∧ updated.storage.isAllocated = true ∧
      ∀ position, position < target.vector.width → updated.bit? position =
        if position ≤ msb - lsb then source.vector.bit? (lsb + position) else some Bit.zero := by
  obtain ⟨updated, changed, operates, sameHeader, shows⟩ :=
    LogicVector.operate_partSelect (sound.readable target) fourState (sound.readable source) inRange
  obtain ⟨isRead, succeeds, readsAfter, -⟩ :=
    sound.exists_noteRead_operate target.reads
      (AllocatedName.traverse (.partSelect source lsb msb)) operates
  have allocated := ((sound.readable target).operate operates).isAllocated
  refine ⟨updated.noteRead isRead, ⟨⟨_, succeeds⟩, readsAfter⟩, sameHeader,
    (LogicVector.isAllocated_noteRead _ _).trans allocated, ?_⟩
  intro position inside
  rw [LogicVector.bit?_noteRead allocated]
  exact shows position inside

/-- Assigning a part leaves the extended source in the range, and every plane elsewhere. -/
theorem Sound.exists_assignPart
    (fourState : target.vector.twoState = false)
    (inRange : lsb ≤ msb ∧ msb < target.vector.width) :
    ∃ updated, session.Leaves (.assignPart target.name source.name lsb msb) target.name updated ∧
      updated.toHeader = target.vector.toHeader ∧ updated.storage.isAllocated = true ∧
      (∀ position, updated.bit? position =
        if lsb ≤ position ∧ position ≤ msb then
          some (source.vector.extended source.vector.signed (position - lsb))
        else target.vector.bit? position) ∧
      ∀ position, ¬(lsb ≤ position ∧ position ≤ msb) →
        updated.cell position = target.vector.cell position := by
  obtain ⟨updated, changed, operates, sameHeader, shows, frame⟩ :=
    LogicVector.operate_partAssign (sound.readable target) fourState (sound.readable source) inRange
  exact ⟨updated, sound.leaves_operate target.reads
    (AllocatedName.traverse (.partAssign source lsb msb)) (by simp) operates, sameHeader,
    ((sound.readable target).operate operates).isAllocated, shows, frame⟩

/-- Vectors with the same words show the same bits. -/
theorem Sound.bit?_eq_of_shares (shares : session.Shares target.name source.name) :
    source.vector.width = target.vector.width ∧
      ∀ position, source.vector.bit? position = target.vector.bit? position := by
  obtain ⟨handle, otherHandle, number, bound, otherBound, refers, otherRefers⟩ := shares
  obtain ⟨_, boundAgain, isTarget⟩ := (vector_eq_ok_iff _ _ _).1 target.reads
  obtain ⟨_, otherBoundAgain, isSource⟩ := (vector_eq_ok_iff _ _ _).1 source.reads
  cases bound.symm.trans boundAgain
  cases otherBound.symm.trans otherBoundAgain
  have sameWidth : source.vector.width = target.vector.width := by
    rw [← isTarget, ← isSource]
    exact (sound.agree _ _ _ _ _ otherBound bound otherRefers refers).1
  refine ⟨sameWidth, fun position => ?_⟩
  apply LogicVector.bit?_congr sameWidth source.isAllocated target.isAllocated
  rw [← isTarget, ← isSource, LogicVector.cell_eq_block_cell (block_load refers),
    LogicVector.cell_eq_block_cell (block_load otherRefers)]

/-- After an update of a target, the vectors with its words show its new bits, and all
others show their old ones. -/
theorem Sound.exists_bits_of_update
    {change : Update String}
    {updated : LogicVector}
    (other : session.AllocatedName)
    (leaves : session.Leaves (.update target.name change) target.name updated)
    (sameHeader : updated.toHeader = target.vector.toHeader)
    (allocated : updated.storage.isAllocated = true) :
    ∃ after : (session.apply (.update target.name change)).1.AllocatedName,
      after.name = other.name ∧ after.vector.toHeader = other.vector.toHeader ∧
      (session.Shares target.name other.name →
        ∀ position, after.vector.bit? position = updated.bit? position) ∧
      (¬session.Shares target.name other.name →
        ∀ position, after.vector.bit? position = other.vector.bit? position) := by
  by_cases shares : session.Shares target.name other.name
  · obtain ⟨_, _, after, readsTarget, readsUpdated, readsAfter, -, sameBlock, keepsHeader, -⟩ :=
      @exists_shared_update _ _ _ _ change sound shares _ other.reads
    cases target.reads.symm.trans readsTarget
    cases leaves.vector_eq.symm.trans readsUpdated
    obtain ⟨block, stored⟩ := LogicVector.exists_block allocated
    have afterAllocated := LogicVector.isAllocated_of_block (sameBlock.trans stored)
    have afterHeader : after.toHeader = other.vector.toHeader := by
      by_cases same : other.name = target.name
      · have sameVector : target.vector = other.vector :=
          Except.ok.inj (target.reads.symm.trans (same ▸ other.reads))
        rw [same] at readsAfter
        rw [← Except.ok.inj (leaves.vector_eq.symm.trans readsAfter), sameHeader, sameVector]
      · exact keepsHeader same
    refine ⟨⟨other.name, after, readsAfter, afterAllocated⟩, rfl, afterHeader, fun _ position => ?_,
      fun notShared => absurd shares notShared⟩
    have sameWidth : after.width = updated.width := by
      rw [congrArg Header.width afterHeader, congrArg Header.width sameHeader]
      exact (sound.bit?_eq_of_shares target other shares).1
    apply LogicVector.bit?_congr sameWidth afterAllocated allocated
    rw [LogicVector.cell_eq_block_cell (sameBlock.trans stored),
      LogicVector.cell_eq_block_cell stored]
  · have apart : other.name ≠ target.name := by
      intro same
      exact shares (same ▸ other.shares_self)
    obtain ⟨isRead, readsAfter, -⟩ :=
      @exists_noteRead_update _ _ _ _ change sound apart shares _ other.reads
    exact ⟨⟨other.name, _, readsAfter,
        (LogicVector.isAllocated_noteRead _ _).trans other.isAllocated⟩, rfl, rfl,
      fun shared => absurd shared shares,
      fun _ => LogicVector.bit?_noteRead other.isAllocated isRead⟩

/-- Assigning the bits that a part has already answers that nothing changes. -/
theorem Sound.assignPart_same
    (fourState : target.vector.twoState = false)
    (inRange : lsb ≤ msb ∧ msb < target.vector.width)
    (same : ∀ position, lsb ≤ position → position ≤ msb → target.vector.bit? position =
      some (source.vector.extended source.vector.signed (position - lsb))) :
    ∃ after, (session.apply (.assignPart target.name source.name lsb msb)).2.result =
        .ok (.flag false) ∧
      (session.apply (.assignPart target.name source.name lsb msb)).1.vector target.name =
        .ok after ∧
      ∀ position, after.bit? position = target.vector.bit? position := by
  obtain ⟨updated, operates, -, sameBits⟩ := LogicVector.operate_partAssign_same
    (sound.readable target) fourState (sound.readable source) inRange same
  have allocated := ((sound.readable target).operate operates).isAllocated
  obtain ⟨isRead, succeeds, readsAfter, -⟩ :=
    sound.exists_noteRead_operate target.reads
      (AllocatedName.traverse (.partAssign source lsb msb)) operates
  refine ⟨updated.noteRead isRead, succeeds, readsAfter, ?_⟩
  intro position
  rw [LogicVector.bit?_noteRead allocated, sameBits]

/-! ## Two commands -/

/-- What has been assigned to a range is selected from it. -/
theorem Sound.exists_selectPart_assigned
    (fourState : target.vector.twoState = false)
    (inRange : lsb ≤ msb ∧ msb < target.vector.width)
    (view : (session.apply (.assignPart target.name source.name lsb msb)).1.AllocatedName)
    (viewFourState : view.vector.twoState = false)
    (wide : view.vector.width = msb - lsb + 1) :
    ∃ selected, (session.apply (.assignPart target.name source.name lsb msb)).1.Leaves
        (.selectPart view.name target.name lsb msb) view.name selected ∧
      ∀ position, position ≤ msb - lsb → selected.bit? position =
        some (source.vector.extended source.vector.signed position) := by
  obtain ⟨updated, assigns, sameHeader, allocated, shows, -⟩ :=
    sound.exists_assignPart target source fourState inRange
  have inUpdated : lsb ≤ msb ∧ msb < updated.width :=
    congrArg Header.width sameHeader ▸ inRange
  obtain ⟨selected, selects, -, -, selectedBits⟩ :=
    (sound.applyAny (.assignPart target.name source.name lsb msb)).exists_selectPart view
      ⟨target.name, updated, assigns.vector_eq, allocated⟩ viewFourState inUpdated
  refine ⟨selected, selects, ?_⟩
  intro position inPart
  have covered : lsb ≤ lsb + position ∧ lsb + position ≤ msb := by omega
  rw [selectedBits position (by omega), if_pos inPart]
  exact (shows (lsb + position)).trans (by rw [if_pos covered, Nat.add_sub_cancel_left])

/-- Assigning a part that has just been selected changes no value. -/
theorem Sound.exists_assignPart_selected
    (view : session.AllocatedName)
    (fourState : target.vector.twoState = false)
    (viewFourState : view.vector.twoState = false)
    (wide : view.vector.width = msb - lsb + 1)
    (inRange : lsb ≤ msb ∧ msb < target.vector.width) :
    ∃ after, ((session.apply (.selectPart view.name target.name lsb msb)).1.apply
          (.assignPart target.name view.name lsb msb)).2.result = .ok (.flag false) ∧
      ((session.apply (.selectPart view.name target.name lsb msb)).1.apply
          (.assignPart target.name view.name lsb msb)).1.vector target.name = .ok after ∧
      ∀ position, after.bit? position = target.vector.bit? position := by
  obtain ⟨selected, selects, sameHeader, allocated, shows⟩ :=
    sound.exists_selectPart view target viewFourState inRange
  obtain ⟨kept, sameName, keptHeader, shared, notShared⟩ :=
    sound.exists_bits_of_update view target selects sameHeader allocated
  have sameBits (position : Nat) : kept.vector.bit? position = target.vector.bit? position := by
    by_cases shares : session.Shares view.name target.name
    · have sameWidth := (sound.bit?_eq_of_shares view target shares).1
      rw [shared shares]
      by_cases inside : position < target.vector.width
      · -- The range is as wide as the two vectors, so it is all of the target.
        have fromZero : lsb = 0 := by omega
        rw [shows position (by omega), if_pos (by omega), fromZero, Nat.zero_add]
      · have selectedWidth : selected.width = view.vector.width :=
          congrArg Header.width sameHeader
        rw [LogicVector.bit?_of_width_le (by omega), LogicVector.bit?_of_width_le (by omega)]
    · exact notShared shares position
  have same : ∀ position, lsb ≤ position → position ≤ msb → kept.vector.bit? position =
      some (selected.extended selected.signed (position - lsb)) := by
    intro position above below
    have there : lsb + (position - lsb) = position := by omega
    have shown := shows (position - lsb) (by omega)
    rw [if_pos (by omega), there, LogicVector.bit?_eq_cell_value target.isAllocated (by omega)]
      at shown
    rw [sameBits, LogicVector.extended_of_bit? shown,
      LogicVector.bit?_eq_cell_value target.isAllocated (by omega)]
  obtain ⟨after, unchanged, readsAfter, keptBits⟩ :=
    (sound.applyAny (.selectPart view.name target.name lsb msb)).assignPart_same kept
      ⟨view.name, selected, selects.vector_eq, allocated⟩
      ((congrArg Header.twoState keptHeader).trans fourState)
      (congrArg Header.width keptHeader ▸ inRange) same
  rw [sameName] at unchanged readsAfter
  exact ⟨after, unchanged, readsAfter, fun position =>
    (keptBits position).trans (sameBits position)⟩

/-- Two parts are assigned one after the other.  The second source may see what the
first assignment does, but not in the bits that are read of it. -/
theorem Sound.exists_assignPart_assignPart
    (second : session.AllocatedName)
    {otherLsb otherMsb : Nat}
    (fourState : target.vector.twoState = false)
    (inRange : lsb ≤ msb ∧ msb < target.vector.width)
    (otherInRange : otherLsb ≤ otherMsb ∧ otherMsb < target.vector.width)
    (unread : session.Shares target.name second.name → otherMsb - otherLsb < lsb) :
    ∃ after, (session.run [.assignPart target.name source.name lsb msb,
          .assignPart target.name second.name otherLsb otherMsb]).vector target.name =
        .ok after ∧
      ∀ position, after.bit? position =
        if otherLsb ≤ position ∧ position ≤ otherMsb then
          some (second.vector.extended second.vector.signed (position - otherLsb))
        else if lsb ≤ position ∧ position ≤ msb then
          some (source.vector.extended source.vector.signed (position - lsb))
        else target.vector.bit? position := by
  obtain ⟨updated, assigns, sameHeader, allocated, shows, -⟩ :=
    sound.exists_assignPart target source fourState inRange
  obtain ⟨seen, sameName, seenHeader, shared, notShared⟩ :=
    sound.exists_bits_of_update target second assigns sameHeader allocated
  have sameSource (position : Nat) (isRead : position ≤ otherMsb - otherLsb) :
      seen.vector.extended seen.vector.signed position =
        second.vector.extended second.vector.signed position := by
    by_cases shares : session.Shares target.name second.name
    · have below := unread shares
      obtain ⟨sameWidth, sameBits⟩ := sound.bit?_eq_of_shares target second shares
      have inside : position < second.vector.width := by omega
      have shown := LogicVector.bit?_eq_cell_value second.isAllocated inside
      rw [LogicVector.extended_of_bit? shown]
      apply LogicVector.extended_of_bit?
      rw [shared shares, shows, if_neg (by omega), ← sameBits, shown]
    · simp only [LogicVector.extended, notShared shares, congrArg Header.signed seenHeader,
        congrArg Header.width seenHeader]
  obtain ⟨after, assignsSecond, -, -, showsAfter, -⟩ :=
    (sound.applyAny (.assignPart target.name source.name lsb msb)).exists_assignPart
      ⟨target.name, updated, assigns.vector_eq, allocated⟩ seen
      ((congrArg Header.twoState sameHeader).trans fourState)
      (congrArg Header.width sameHeader ▸ otherInRange)
  rw [sameName] at assignsSecond
  refine ⟨after, assignsSecond.vector_eq, ?_⟩
  intro position
  rw [showsAfter position]
  by_cases covered : otherLsb ≤ position ∧ position ≤ otherMsb
  · rw [if_pos covered, if_pos covered, sameSource _ (by omega)]
  · rw [if_neg covered, if_neg covered]
    exact shows position

end

/-! ## The laws -/

/-- The laws of selecting ranges of bits and assigning them to a target. -/
structure PartLaws (session : Session) (target : session.AllocatedName) : Prop where
  /-- Selecting leaves the bits of the range of a source, with zeros above. -/
  select : ∀ (source : session.AllocatedName) lsb msb, lsb ≤ msb → msb < source.vector.width →
    ∃ updated, session.Leaves (.selectPart target.name source.name lsb msb) target.name updated ∧
      updated.toHeader = target.vector.toHeader ∧
      ∀ position, position < target.vector.width → updated.bit? position =
        if position ≤ msb - lsb then source.vector.bit? (lsb + position) else some Bit.zero
  /-- Assigning succeeds and leaves every plane outside the range as it was. -/
  frame : ∀ (source : session.AllocatedName) lsb msb, lsb ≤ msb → msb < target.vector.width →
    ∃ updated, session.Leaves (.assignPart target.name source.name lsb msb) target.name updated ∧
      updated.toHeader = target.vector.toHeader ∧
      ∀ position, ¬(lsb ≤ position ∧ position ≤ msb) →
        updated.cell position = target.vector.cell position
  /-- What has been assigned is selected into a four-state vector of the width of the range:
  the source, cut or extended by its own signedness. -/
  put_get : ∀ (source : session.AllocatedName) lsb msb, lsb ≤ msb → msb < target.vector.width →
    ∀ view : (session.apply (.assignPart target.name source.name lsb msb)).1.AllocatedName,
    view.vector.twoState = false → view.vector.width = msb - lsb + 1 →
    ∃ selected, (session.apply (.assignPart target.name source.name lsb msb)).1.Leaves
        (.selectPart view.name target.name lsb msb) view.name selected ∧
      ∀ position, position ≤ msb - lsb → selected.bit? position =
        some (source.vector.extended source.vector.signed position)
  /-- What has been selected into a four-state vector of the width of the range is assigned
  back without an effect on the value. -/
  get_put : ∀ (view : session.AllocatedName) lsb msb, lsb ≤ msb → msb < target.vector.width →
    view.vector.twoState = false → view.vector.width = msb - lsb + 1 →
    ∃ after, ((session.apply (.selectPart view.name target.name lsb msb)).1.apply
          (.assignPart target.name view.name lsb msb)).2.result = .ok (.flag false) ∧
      ((session.apply (.selectPart view.name target.name lsb msb)).1.apply
          (.assignPart target.name view.name lsb msb)).1.vector target.name = .ok after ∧
      ∀ position, after.bit? position = target.vector.bit? position
  /-- Two assignments to ranges that do not meet can be made in either order, if a source
  with the words of the target is not read in the bits that the other assignment gives. -/
  comm : ∀ (first second : session.AllocatedName) lsb msb otherLsb otherMsb,
    lsb ≤ msb → msb < target.vector.width →
    otherLsb ≤ otherMsb → otherMsb < target.vector.width → msb < otherLsb ∨ otherMsb < lsb →
    (session.Shares target.name first.name → msb - lsb < otherLsb) →
    (session.Shares target.name second.name → otherMsb - otherLsb < lsb) →
    ∃ one other,
      (session.run [.assignPart target.name first.name lsb msb,
        .assignPart target.name second.name otherLsb otherMsb]).vector target.name = .ok one ∧
      (session.run [.assignPart target.name second.name otherLsb otherMsb,
        .assignPart target.name first.name lsb msb]).vector target.name = .ok other ∧
      ∀ position, one.bit? position = other.bit? position

/-- In every session that commands lead to, parts of a four-state target obey the laws. -/
theorem partLaws_run_empty
    (commands : List Command)
    (target : (Session.empty.run commands).AllocatedName)
    (fourState : target.vector.twoState = false) :
    (Session.empty.run commands).PartLaws target where
  select source lsb msb ordered inside := by
    obtain ⟨updated, selects, sameHeader, -, shows⟩ :=
      (sound_run_empty commands).exists_selectPart target source fourState ⟨ordered, inside⟩
    exact ⟨updated, selects, sameHeader, shows⟩
  frame source lsb msb ordered inside := by
    obtain ⟨updated, assigns, sameHeader, -, -, frame⟩ :=
      (sound_run_empty commands).exists_assignPart target source fourState ⟨ordered, inside⟩
    exact ⟨updated, assigns, sameHeader, frame⟩
  put_get source lsb msb ordered inside view viewFourState wide :=
    (sound_run_empty commands).exists_selectPart_assigned target source fourState
      ⟨ordered, inside⟩ view viewFourState wide
  get_put view lsb msb ordered inside viewFourState wide :=
    (sound_run_empty commands).exists_assignPart_selected target view fourState viewFourState
      wide ⟨ordered, inside⟩
  comm first second lsb msb otherLsb otherMsb ordered inside otherOrdered otherInside apart
      firstUnread secondUnread := by
    obtain ⟨one, readsOne, showsOne⟩ :=
      (sound_run_empty commands).exists_assignPart_assignPart target first second fourState
        ⟨ordered, inside⟩ ⟨otherOrdered, otherInside⟩ secondUnread
    obtain ⟨other, readsOther, showsOther⟩ :=
      (sound_run_empty commands).exists_assignPart_assignPart target second first fourState
        ⟨otherOrdered, otherInside⟩ ⟨ordered, inside⟩ firstUnread
    refine ⟨one, other, readsOne, readsOther, fun position => ?_⟩
    rw [showsOne, showsOther]
    by_cases covered : lsb ≤ position ∧ position ≤ msb
    · -- The ranges are apart, so no position is in both.
      rw [if_neg (by omega), if_pos covered, if_pos covered]
    · rw [if_neg covered, if_neg covered]

/-- A signed source with an `x` on top, and a target of three words that shares none. -/
def signedUnknown : List Command := [
  .create "t" 70 .signal true none none,
  .create "s" 3 .plain true (some true) none,
  .update "s" (.applyChange ['x', '0', '1'] 2 0),
  .create "v" 8 .memory true none none]

theorem partLaws_run_empty_signedUnknown :
    ∃ target : (Session.empty.run signedUnknown).AllocatedName,
      target.name = "t" ∧ target.vector.twoState = false ∧
      (Session.empty.run signedUnknown).PartLaws target ∧
      ∃ selected, ((Session.empty.run signedUnknown).apply (.assignPart "t" "s" 28 35)).1.Leaves
          (.selectPart "v" "t" 28 35) "v" selected ∧
        selected.bit? 1 = some Bit.zero ∧ selected.bit? 7 = some Bit.x := by
  obtain ⟨target, source, isTarget, isSource, fourState, wide, low, high⟩ :
      ∃ target source : (Session.empty.run signedUnknown).AllocatedName,
        target.name = "t" ∧ source.name = "s" ∧ target.vector.twoState = false ∧
        target.vector.width = 70 ∧
        source.vector.extended source.vector.signed 1 = Bit.zero ∧
        source.vector.extended source.vector.signed 7 = Bit.x :=
    ⟨⟨"t", _, rfl, rfl⟩, ⟨"s", _, rfl, rfl⟩, rfl, rfl, rfl, rfl, by decide +kernel,
      by decide +kernel⟩
  have laws := partLaws_run_empty signedUnknown target fourState
  have putGet := laws.put_get source 28 35 (by decide) (wide ▸ by decide)
  rw [isTarget, isSource] at putGet
  obtain ⟨selected, selects, shows⟩ := putGet ⟨"v", _, rfl, rfl⟩ rfl rfl
  exact ⟨target, isTarget, fourState, laws, selected, selects,
    (shows 1 (by decide)).trans (congrArg some low),
    (shows 7 (by decide)).trans (congrArg some high)⟩

/-- A target of eight bits, another name of its words, and a source apart from it. -/
def aliasedSource : List Command := [
  .create "t" 8 .plain true none none,
  .update "t" (.setNat 5),
  .share "a" "t",
  .create "s" 4 .plain true none none,
  .update "s" (.setNat 3)]

/-- The order of two assignments to ranges that do not meet counts, when the second source
has the words of the target and is read where the first assignment writes. -/
theorem assignPart_order_counts :
    ∃ target first second : (Session.empty.run aliasedSource).AllocatedName, ∃ one other,
      target.name = "t" ∧ first.name = "s" ∧ second.name = "a" ∧
      target.vector.twoState = false ∧ target.vector.width = 8 ∧
      ((Session.empty.run aliasedSource).run
        [.assignPart "t" "s" 0 3, .assignPart "t" "a" 4 7]).vector "t" = .ok one ∧
      ((Session.empty.run aliasedSource).run
        [.assignPart "t" "a" 4 7, .assignPart "t" "s" 0 3]).vector "t" = .ok other ∧
      one.bit? 5 = some Bit.one ∧ other.bit? 5 = some Bit.zero :=
  ⟨⟨"t", _, rfl, rfl⟩, ⟨"s", _, rfl, rfl⟩, ⟨"a", _, rfl, rfl⟩, _, _, rfl, rfl, rfl, rfl, rfl,
    rfl, rfl, by decide +kernel, by decide +kernel⟩

end Session
end FourState
