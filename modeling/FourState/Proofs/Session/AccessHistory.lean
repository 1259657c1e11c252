import FourState.Proofs.Counting
import FourState.Proofs.Session.ToggleHistory

/-!
# Access history of memories

The coverage planes of a memory tell how its bits were accessed since coverage
was last cleared: which were written, which were read by a part-select, and which
went from one known value to the other.  Unlike a signal, a memory counts a toggle
from the value a bit happens to have, so the value that it starts with and the
values from before the last reset take part.
-/

namespace FourState

/-! ## Accesses -/

namespace Effect

/-- Noting in a memory that a range is read. -/
def reading (lsb msb : Nat) : Effect :=
  .mark fun position plane => decide (plane = Plane.read ∧ lsb ≤ position ∧ position ≤ msb)

/-- What assignments, reads and resets do to a memory. -/
inductive IsAccess (width : Nat) : Effect → Prop
  | keep : IsAccess width .keep
  | write (assignment : Assignment) (inside : assignment.last < width) :
      IsAccess width (.write .memory assignment)
  | reading (lsb msb : Nat) (inside : msb < width) : IsAccess width (Effect.reading lsb msb)
  | reset : IsAccess width .clearCoverage

/-- The bit that an effect writes to a position, if it writes one. -/
def given? (effect : Effect) (position : Nat) : Option Bit :=
  match effect with
  | write _ assignment =>
      if assignment.Covers position then some (assignment.bit position) else none
  | _ => none

/-- The value at a position after some effects: the last bit written to it, or else
the value from before them. -/
def valueAfter (position : Nat) (start : Bit) (effects : List Effect) : Bit :=
  effects.foldl (fun value effect => (effect.given? position).getD value) start

/-- Some effect of a history was an event of a kind, and coverage has not been
cleared after it.  Whether it was may depend on what came before. -/
def SinceReset (event : List Effect → Effect → Prop) (history : List Effect) : Prop :=
  ∃ front effect back, history = front ++ effect :: back ∧
    Effect.clearCoverage ∉ back ∧ event front effect

/-- The effect writes a bit to the position. -/
def Writes (position : Nat) (_ : List Effect) (effect : Effect) : Prop :=
  ∃ bit, effect.given? position = some bit

/-- The effect notes that the position is read, in a range around it. -/
def Selects (position : Nat) (_ : List Effect) (effect : Effect) : Prop :=
  ∃ lsb msb, effect = reading lsb msb ∧ lsb ≤ position ∧ position ≤ msb

/-- The effect writes a known one where there was a known zero. -/
def Rises (start : Bit) (position : Nat) (front : List Effect) (effect : Effect) : Prop :=
  valueAfter position start front = Bit.zero ∧ effect.given? position = some Bit.one

/-- The effect writes a known zero where there was a known one. -/
def Falls (start : Bit) (position : Nat) (front : List Effect) (effect : Effect) : Prop :=
  valueAfter position start front = Bit.one ∧ effect.given? position = some Bit.zero

theorem valueAfter_concat
    (position : Nat)
    (start : Bit)
    (history : List Effect)
    (effect : Effect) :
    valueAfter position start (history ++ [effect]) =
      (effect.given? position).getD (valueAfter position start history) := by
  simp [valueAfter]

theorem not_sinceReset_nil (event : List Effect → Effect → Prop) : ¬SinceReset event [] := by
  rintro ⟨front, effect, back, split, -⟩
  simp at split

/-- One more effect is an event itself, or keeps the earlier ones unless it is a
reset. -/
theorem sinceReset_concat
    (event : List Effect → Effect → Prop)
    (history : List Effect)
    (effect : Effect) :
    SinceReset event (history ++ [effect]) ↔
      event history effect ∨ effect ≠ .clearCoverage ∧ SinceReset event history := by
  constructor
  · rintro ⟨front, found, back, split, noReset, holds⟩
    obtain rfl | ⟨rest, last, rfl⟩ := List.eq_nil_or_concat back
    · obtain ⟨rfl, same⟩ := List.append_inj' split rfl
      cases same
      exact Or.inl holds
    · rw [List.concat_eq_append] at split noReset
      rw [← List.cons_append, ← List.append_assoc] at split
      obtain ⟨rfl, same⟩ := List.append_inj' split rfl
      cases same
      rw [List.mem_append, List.mem_singleton, not_or] at noReset
      exact Or.inr ⟨Ne.symm noReset.2, front, found, rest, rfl, noReset.1, holds⟩
  · rintro (holds | ⟨notReset, front, found, back, rfl, noReset, holds⟩)
    · exact ⟨history, effect, [], rfl, List.not_mem_nil, holds⟩
    · refine ⟨front, found, back ++ [effect], by simp, ?_, holds⟩
      rw [List.mem_append, List.mem_singleton, not_or]
      exact ⟨noReset, Ne.symm notReset⟩

/-- A bit that gains the events of an effect tells them with the earlier ones. -/
theorem sinceReset_concat_of_gains
    {event : List Effect → Effect → Prop}
    {history : List Effect}
    {effect : Effect}
    (notReset : effect ≠ .clearCoverage)
    {before after : Bool}
    (tells : before = true ↔ SinceReset event history)
    (gains : after = true ↔ before = true ∨ event history effect) :
    after = true ↔ SinceReset event (history ++ [effect]) := by
  rw [sinceReset_concat, gains, tells, or_comm]
  exact or_congr_right (and_iff_right notReset).symm

/-- After a reset nothing is told, as it is no event itself. -/
theorem not_sinceReset_clearCoverage
    {event : List Effect → Effect → Prop}
    {history : List Effect}
    (noEvent : ¬event history .clearCoverage) :
    ¬SinceReset event (history ++ [.clearCoverage]) := by
  rw [sinceReset_concat]
  rintro (holds | ⟨notReset, -⟩)
  · exact noEvent holds
  · exact notReset rfl

/-- Only a mark selects positions. -/
theorem not_selects_of_ne_mark
    {effect : Effect}
    (notMark : ∀ marks, effect ≠ .mark marks)
    (position : Nat)
    (front : List Effect) :
    ¬Selects position front effect := by
  rintro ⟨lsb, msb, same, -⟩
  exact notMark _ same

/-- A range that is noted as read selects the positions in it. -/
theorem selects_reading_iff (lsb msb position : Nat) (front : List Effect) :
    Selects position front (reading lsb msb) ↔ lsb ≤ position ∧ position ≤ msb := by
  constructor
  · rintro ⟨first, last, same, inRange⟩
    have sameMarks := congrFun (congrFun (Effect.mark.inj same) position) Plane.read
    simpa [inRange] using sameMarks
  · intro inRange
    exact ⟨lsb, msb, rfl, inRange⟩

/-- No access writes past the width. -/
theorem IsAccess.given?_of_width_le
    {width : Nat}
    {effect : Effect}
    (access : effect.IsAccess width)
    {position : Nat}
    (outside : width ≤ position) :
    effect.given? position = none := by
  cases access with
  | write assignment inside =>
      have uncovered : ¬assignment.Covers position := fun covered =>
        absurd covered.2 (by omega)
      rw [given?, if_neg uncovered]
  | keep | reading | reset => rfl

/-- No access reads past the width. -/
theorem IsAccess.not_selects_of_width_le
    {width : Nat}
    {effect : Effect}
    (access : effect.IsAccess width)
    {position : Nat}
    (outside : width ≤ position)
    (front : List Effect) :
    ¬Selects position front effect := by
  cases access with
  | reading lsb msb inside =>
      rw [selects_reading_iff]
      omega
  | keep | write | reset => exact not_selects_of_ne_mark (by simp) _ _

end Effect

/-! ## Cells that tell their accesses -/

namespace Cell

open Effect

/-- The cell of a memory tells the accesses to its position. -/
structure Recalls
    (start : Bit)
    (position : Nat)
    (history : List Effect)
    (cell : Cell) : Prop where
  value_eq : cell.value = valueAfter position start history
  written_iff : cell Plane.written = true ↔ SinceReset (Writes position) history
  read_iff : cell Plane.read = true ↔ SinceReset (Selects position) history
  toggle01_iff : cell Plane.toggle01 = true ↔ SinceReset (Rises start position) history
  toggle10_iff : cell Plane.toggle10 = true ↔ SinceReset (Falls start position) history

/-- A cell without coverage tells of no access. -/
theorem recalls_nil
    {cell : Cell}
    (clear : ∀ plane : Plane, plane.isCoverage = true → cell plane = false)
    (position : Nat) :
    cell.Recalls cell.value position [] where
  value_eq := rfl
  written_iff := by simp [clear Plane.written rfl, not_sinceReset_nil]
  read_iff := by simp [clear Plane.read rfl, not_sinceReset_nil]
  toggle01_iff := by simp [clear Plane.toggle01 rfl, not_sinceReset_nil]
  toggle10_iff := by simp [clear Plane.toggle10 rfl, not_sinceReset_nil]

variable {start : Bit} {position : Nat} {history : List Effect} {cell : Cell}

/-- An effect that writes nothing adds to what the cell tells of reads only. -/
theorem Recalls.concat_of_given?_eq_none
    (recalls : cell.Recalls start position history)
    {effect : Effect}
    (notReset : effect ≠ .clearCoverage)
    (writesNothing : effect.given? position = none)
    {after : Cell}
    (others : ∀ plane, plane ≠ Plane.read → after plane = cell plane)
    (gains : after Plane.read = true ↔
      cell Plane.read = true ∨ Selects position history effect) :
    after.Recalls start position (history ++ [effect]) where
  value_eq := by
    rw [valueAfter_concat, writesNothing, Option.getD_none, ← recalls.value_eq, value, value,
      others _ (by decide), others _ (by decide)]
  written_iff := by
    apply sinceReset_concat_of_gains notReset recalls.written_iff
    simp [others Plane.written (by decide), Writes, writesNothing]
  read_iff := sinceReset_concat_of_gains notReset recalls.read_iff gains
  toggle01_iff := by
    apply sinceReset_concat_of_gains notReset recalls.toggle01_iff
    simp [others Plane.toggle01 (by decide), Rises, writesNothing]
  toggle10_iff := by
    apply sinceReset_concat_of_gains notReset recalls.toggle10_iff
    simp [others Plane.toggle10 (by decide), Falls, writesNothing]

/-- Giving a bit adds a write, and a toggle if the value before is the other one. -/
theorem Recalls.accept
    (recalls : cell.Recalls start position history)
    {kind : Kind}
    {assignment : Assignment}
    (covered : assignment.Covers position) :
    (cell.accept .memory (assignment.bit position)).Recalls start position
      (history ++ [.write kind assignment]) := by
  have gives : Effect.given? (.write kind assignment) position = some (assignment.bit position) :=
    if_pos covered
  have notReset : Effect.write kind assignment ≠ .clearCoverage := by
    intro same
    contradiction
  refine ⟨?_, ?_, ?_, ?_, ?_⟩
  · rw [value_accept, valueAfter_concat, gives, Option.getD_some]
  · apply sinceReset_concat_of_gains notReset recalls.written_iff
    rw [accept_coverage _ _ _ rfl, gains_given rfl]
    simp [Writes, gives]
  · apply sinceReset_concat_of_gains notReset recalls.read_iff
    have notSelected : ¬Selects position history (.write kind assignment) :=
      not_selects_of_ne_mark (by simp) _ _
    rw [accept_coverage _ _ _ rfl, gains_other (by decide) (by decide), Bool.or_false]
    exact (or_iff_left notSelected).symm
  · apply sinceReset_concat_of_gains notReset recalls.toggle01_iff
    rw [accept_coverage _ _ _ rfl, Bool.or_eq_true, gains_toggle01 rfl, recalls.value_eq]
    simp [Rises, gives]
  · apply sinceReset_concat_of_gains notReset recalls.toggle10_iff
    rw [accept_coverage _ _ _ rfl, Bool.or_eq_true, gains_toggle10 rfl, recalls.value_eq]
    simp [Falls, gives]

/-- A reset clears what the cell tells, and keeps its value. -/
theorem Recalls.clearCoverage (recalls : cell.Recalls start position history) :
    cell.clearCoverage.Recalls start position (history ++ [.clearCoverage]) := by
  have clear (plane : Plane) (coverage : plane.isCoverage = true) :
      ¬cell.clearCoverage plane = true := by
    simp [Cell.clearCoverage, coverage]
  have gives : Effect.clearCoverage.given? position = none := rfl
  refine ⟨?_, ?_, ?_, ?_, ?_⟩
  · rw [value_clearCoverage, valueAfter_concat, gives, Option.getD_none, recalls.value_eq]
  · refine iff_of_false (clear _ rfl) (not_sinceReset_clearCoverage ?_)
    rintro ⟨bit, isGiven⟩
    contradiction
  · exact iff_of_false (clear _ rfl)
      (not_sinceReset_clearCoverage (not_selects_of_ne_mark (by simp) _ _))
  · refine iff_of_false (clear _ rfl) (not_sinceReset_clearCoverage ?_)
    rintro ⟨-, isGiven⟩
    contradiction
  · refine iff_of_false (clear _ rfl) (not_sinceReset_clearCoverage ?_)
    rintro ⟨-, isGiven⟩
    contradiction

/-- An access changes a cell and what it tells alike. -/
theorem Recalls.apply
    (recalls : cell.Recalls start position history)
    {width : Nat}
    {effect : Effect}
    (access : effect.IsAccess width) :
    (effect.apply position cell).Recalls start position (history ++ [effect]) := by
  cases access with
  | keep =>
      refine recalls.concat_of_given?_eq_none (by simp) rfl (fun _ _ => rfl) ?_
      exact (or_iff_left (not_selects_of_ne_mark (by simp) _ _)).symm
  | write assignment inside =>
      simp only [Effect.apply, Assignment.change]
      by_cases covered : assignment.Covers position
      · rw [if_pos covered]
        exact recalls.accept covered
      · rw [if_neg covered]
        have writesNothing : Effect.given? (.write .memory assignment) position = none :=
          if_neg covered
        refine recalls.concat_of_given?_eq_none (by simp) writesNothing (fun _ _ => rfl) ?_
        exact (or_iff_left (not_selects_of_ne_mark (by simp) _ _)).symm
  | reading lsb msb inside =>
      refine recalls.concat_of_given?_eq_none (by simp [reading]) rfl ?_ ?_
      · intro plane notRead
        simp [Effect.apply, reading, mark, notRead]
      · have coverage : Plane.read.isCoverage = true := rfl
        rw [selects_reading_iff]
        simp [Effect.apply, reading, mark, coverage]
  | reset => exact recalls.clearCoverage

/-- Accesses in order change a cell and what it tells alike. -/
theorem Recalls.replay
    (recalls : cell.Recalls start position history)
    {width : Nat}
    {effects : List Effect}
    (accesses : ∀ effect ∈ effects, effect.IsAccess width) :
    Cell.Recalls start position (history ++ effects)
      (effects.foldl (fun cell effect => effect.apply position cell) cell) := by
  induction effects generalizing history cell with
  | nil => rwa [List.append_nil]
  | cons effect effects inductionHypothesis =>
      rw [List.append_cons]
      exact inductionHypothesis (recalls.apply (accesses effect (List.mem_cons_self ..)))
        fun other isMember => accesses other (List.mem_cons_of_mem _ isMember)

/-- Past the width a cell tells of nothing. -/
theorem Recalls.clear_of_width_le
    (recalls : cell.Recalls start position history)
    {width : Nat}
    (accesses : ∀ effect ∈ history, effect.IsAccess width)
    (outside : width ≤ position) :
    cell Plane.written = false ∧ cell Plane.read = false := by
  have isMember {front back : List Effect} {effect : Effect}
      (split : history = front ++ effect :: back) : effect ∈ history :=
    split ▸ List.mem_append_right front (List.mem_cons_self ..)
  constructor
  · rw [Bool.eq_false_iff, ne_eq, recalls.written_iff]
    rintro ⟨front, effect, back, split, -, bit, isGiven⟩
    rw [(accesses effect (isMember split)).given?_of_width_le outside] at isGiven
    contradiction
  · rw [Bool.eq_false_iff, ne_eq, recalls.read_iff]
    rintro ⟨front, effect, back, split, -, selects⟩
    exact (accesses effect (isMember split)).not_selects_of_width_le outside front selects

end Cell

namespace Session

open Effect

/-! ## Commands that access a memory -/

/-- On a memory, commands that only assign and reset have only accesses as effects,
through whatever name they reach it. -/
theorem RefersAs.isAccess_of_mem_effects
    {session : Session}
    {number width : Nat}
    (refersAs : session.RefersAs number width Kind.memory)
    {command : Command}
    (suitable : command.assignsOrResets = true)
    {effect : Effect}
    (isMember : effect ∈ session.effects number command) :
    effect.IsAccess width := by
  obtain ⟨name, change, requests, isRead | isChange⟩ := mem_effects isMember
  · obtain ⟨source, handle, lsb, msb, bound, refers, ⟨marked, marks⟩, rfl⟩ := isRead
    obtain ⟨sameWidth, isMemory⟩ := refersAs source handle bound refers
    have inRange : msb < handle.width := (LogicVector.markRead_eq_alter marks).1.2
    have reads : (session.load handle).readEffect lsb msb = .reading lsb msb := if_pos isMemory
    rw [reads]
    exact .reading lsb msb (sameWidth ▸ inRange)
  · obtain ⟨handle, resolved, bound, refers, resolves, ⟨answer, succeeds⟩, rfl⟩ := isChange
    obtain ⟨sameWidth, isMemory⟩ := refersAs name handle bound refers
    obtain assigns | rfl :=
      isAssigning_or_eq_resetCoverage_of_request requests resolves suitable
    · rw [LogicVector.effect_of_isAssigning _ assigns]
      cases carried : ((session.noteReads change).load handle).assignment? resolved with
      | none => exact .keep
      | some assignment =>
          have inside : assignment.last < handle.width :=
            (LogicVector.update_eq_accept carried succeeds).1.2
          have asMemory : ((session.noteReads change).load handle).kind = Kind.memory := isMemory
          rw [LogicVector.assignmentEffect, asMemory]
          exact .write _ (sameWidth ▸ inside)
    · exact .reset

/-! ## A new memory -/

/-- The session after a new memory has been bound to a name. -/
def withMemory
    (session : Session)
    (name : String)
    (width : Nat)
    (signed? twoState? : Option Bool) : Session :=
  (session.apply (.create name width .memory true signed? twoState?)).1

/-- The effects of a run on the words of a memory that is new at its beginning. -/
def memoryHistory
    (session : Session)
    (name : String)
    (width : Nat)
    (signed? twoState? : Option Bool)
    (commands : List Command) : List Effect :=
  (session.withMemory name width signed? twoState?).history session.blocks.size commands

/-- The value of every bit of a new memory. -/
def initialBit (twoState? : Option Bool) : Bit :=
  if twoState? != some true then Bit.x else Bit.zero

/-- On a memory, a run of commands that only assign and reset has only accesses as
effects. -/
theorem RefersAs.isAccess_of_mem_history
    {session : Session}
    {number width : Nat}
    (refersAs : session.RefersAs number width Kind.memory)
    (sound : session.Sound fun plane => plane.isCoverage = false)
    (inBounds : number < session.blocks.size)
    {commands : List Command}
    (suitable : ∀ command ∈ commands, command.assignsOrResets = true) :
    ∀ effect ∈ session.history number commands, effect.IsAccess width := by
  intro effect isMember
  refine refersAs.of_mem_history sound inBounds (motive := fun effect => effect.IsAccess width)
    ?_ isMember
  intro before command isCommand stillRefersAs effect inEffects
  exact stillRefersAs.isAccess_of_mem_effects (suitable command isCommand) inEffects

/-- The coverage of a memory is its exact history.  After any run that only gives
values and clears coverage, on a memory that was new in a session reached by any
commands, and through every name for its words: a bit is noted as written if an
assignment covered it since coverage was last cleared, and as read if a
part-select from the memory did, into whatever target; and the toggle bits say
whether a known one was written since then where there was a known zero, and a
known zero where there was a known one, be it an old value or the first one.  The
counts of written and read bits are the numbers of such positions. -/
theorem memory_tells_history
    (earlier later : List Command)
    (name : String)
    {width : Nat}
    (signed? twoState? : Option Bool)
    (inLimits : 0 < width ∧ width ≤ maxWidth)
    (suitable : ∀ command ∈ later, command.assignsOrResets = true) :
    ∀ reference handle,
      (((Session.empty.run earlier).withMemory name width signed? twoState?).run later).Binds
        reference handle →
      handle.storage.content? = some (Session.empty.run earlier).blocks.size →
      let memory :=
        (((Session.empty.run earlier).withMemory name width signed? twoState?).run later).load
          handle
      let history := (Session.empty.run earlier).memoryHistory name width signed? twoState? later
      let start := initialBit twoState?
      ∃ block, memory.block = .ok block ∧ memory.width = width ∧
        (∀ position < width,
          (block.bit Plane.written position = true ↔ SinceReset (Writes position) history) ∧
          (block.bit Plane.read position = true ↔ SinceReset (Selects position) history) ∧
          (block.bit Plane.toggle01 position = true ↔
            SinceReset (Rises start position) history) ∧
          (block.bit Plane.toggle10 position = true ↔
            SinceReset (Falls start position) history)) ∧
        memory.accessCount = .ok
          ((List.range width).countP fun position => block.bit Plane.written position,
            (List.range width).countP fun position => block.bit Plane.read position) := by
  generalize starts : Session.empty.run earlier = before
  have soundBefore : before.Sound fun plane => plane.isCoverage = false :=
    starts ▸ sound_run_empty earlier
  obtain ⟨vector, placed, rfl, isMemory, storage⟩ :=
    before.create_eq_place name Kind.memory signed? twoState? inLimits
  have stored := content?_of_eq_owned storage
  have sound : (before.place name vector).Sound fun plane => plane.isCoverage = false :=
    placed ▸ soundBefore.applyAny _
  have inBounds : before.blocks.size < (before.place name vector).blocks.size :=
    before.size_lt_size_place stored
  have refersAs : (before.place name vector).RefersAs before.blocks.size vector.width vector.kind :=
    soundBefore.refersAs_place
  rw [isMemory] at refersAs
  have accesses := refersAs.isAccess_of_mem_history sound inBounds suitable
  intro reference handle
  rw [memoryHistory, withMemory, placed]
  intro bound refers
  obtain ⟨sameWidth, sameKind⟩ := refersAs.run sound inBounds later reference handle bound refers
  have size : Array.size (((before.place name vector).run later).block before.blocks.size) =
      wordCount vector.width := by
    rw [block_run_place sound stored, Block.size_replay, Block.size_initial]
  -- What a cell of the block tells is kept by each access, whatever handle it came through.
  have recalls (position : Nat) (inWords : position < 32 * wordCount vector.width) :
      Cell.Recalls ((Block.initial vector.width (twoState? != some true)).cell position).value
        position ((before.place name vector).history before.blocks.size later)
        (Block.cell (((before.place name vector).run later).block before.blocks.size) position) := by
    rw [block_run_place sound stored, Block.cell_replay _ _ (by rwa [Block.size_initial])]
    exact (Cell.recalls_nil (fun _ => Block.cell_initial_of_isCoverage _ _ position)
      position).replay accesses
  refine ⟨_, block_load refers, sameWidth, ?_, ?_⟩
  · intro position inside
    have tells := recalls position (Nat.lt_of_lt_of_le inside (le_wordCount _))
    rw [Block.value_cell_initial inside] at tells
    exact ⟨tells.written_iff, tells.read_iff, tells.toggle01_iff, tells.toggle10_iff⟩
  · rw [← sameWidth] at size recalls accesses ⊢
    apply LogicVector.accessCount_eq_ok sameKind (block_load refers) size
    intro position outside inWords
    exact (recalls position inWords).clear_of_width_le accesses outside

/-- Zeros from before a reset, ones over two words after it, and a range that is read
into the memory itself through its other name. -/
def aliasedAccesses : List Command := [
  .share "n" "m",
  .update "m" (.assign #[0#32, 0#32] #[0#32, 0#32] 0 35),
  .update "n" .resetCoverage,
  .update "n" (.assign #[0xffffffff#32, 0xffffffff#32] #[0#32, 0#32] 30 33),
  .update "m" (.assign #[0#32, 0#32] #[0#32, 0#32] 39 39),
  .update "n" (.operate (.partSelect "m" 32 38))]

/-- A bit rose from the zero that it had before the reset; the range that was read
does not reach it. -/
theorem memory_tells_aliasedAccesses :
    (∀ command ∈ aliasedAccesses, command.assignsOrResets = true) ∧
    ∃ handle,
      ((Session.empty.withMemory "m" 40 none none).run aliasedAccesses).Binds "n" handle ∧
      SinceReset (Rises Bit.x 31)
        (Session.empty.memoryHistory "m" 40 none none aliasedAccesses) ∧
      ¬SinceReset (Selects 31)
        (Session.empty.memoryHistory "m" 40 none none aliasedAccesses) ∧
      SinceReset (Selects 33)
        (Session.empty.memoryHistory "m" 40 none none aliasedAccesses) ∧
      (((Session.empty.withMemory "m" 40 none none).run aliasedAccesses).load
        handle).accessCount = .ok (40, 7) := by
  have suitable : ∀ command ∈ aliasedAccesses, command.assignsOrResets = true := by decide
  have bound : ((Session.empty.withMemory "m" 40 none none).run aliasedAccesses).Binds "n" {
      width := 40
      kind := .memory
      format := .bits32
      signed := false
      twoState := false
      storage := .borrowed 0 } := by
    unfold Binds
    decide +kernel
  obtain ⟨block, shows, -, tells, counts⟩ := memory_tells_history [] aliasedAccesses "m" none none
    (by decide) suitable "n" _ bound rfl
  cases (block_load rfl).symm.trans shows
  obtain ⟨-, unread, rises, -⟩ := tells 31 (by decide)
  obtain ⟨-, read, -, -⟩ := tells 33 (by decide)
  refine ⟨suitable, _, bound, rises.1 (by decide +kernel), ?_, read.1 (by decide +kernel), ?_⟩
  · rw [← Session.run_nil Session.empty, ← unread]
    decide +kernel
  · refine counts.trans ?_
    decide +kernel

end Session
end FourState
