import FourState.Proofs.Session.Creation

/-!
# Toggle history of signals

The set plane and the toggle planes of a signal tell its history exactly.  The
invariant relates a cell to the bits that were written to it since coverage was
last cleared: the cell holds the last of them, its set bit says that there is
one, and its toggle bits say which known bits followed each other.
-/

namespace FourState

/-! ## Bits written to a position -/

namespace Effect

/-- The effect writes bits, clears coverage, or does nothing. -/
def isWriteOrReset : Effect → Bool
  | keep => true
  | write _ _ => true
  | clearCoverage => true
  | mark _ => false
  | absorb _ _ => false
  | replace _ => false
  | collapse => false

/-- The bits known to be written to a position, after an effect. -/
def record (effect : Effect) (position : Nat) (bits : List Bit) : List Bit :=
  match effect with
  | write _ assignment =>
      if assignment.Covers position then bits ++ [assignment.bit position] else bits
  | clearCoverage => []
  | _ => bits

/-- The bits that effects wrote to a position since they last cleared the
coverage, the first one first. -/
def written (position : Nat) (effects : List Effect) : List Bit :=
  effects.foldl (fun bits effect => effect.record position bits) []

/-- Every way to give a vector a value is a write, and clearing is a reset. -/
theorem isWriteOrReset_effect
    (vector : LogicVector)
    {change : Update LogicVector}
    (suitable : change.isAssigning = true ∨ change = .resetCoverage) :
    (vector.effect change).isWriteOrReset = true := by
  obtain assigns | rfl := suitable
  · rw [vector.effect_of_isAssigning assigns]
    cases vector.assignment? change with
    | none => rfl
    | some assignment => rfl
  · rfl

end Effect

/-- Two bits follow each other in an extended list if they did before or are the
last bit and the new one. -/
theorem pair_infix_concat
    (bits : List Bit)
    (earlier later bit : Bit) :
    [earlier, later] <:+: bits ++ [bit] ↔
      [earlier, later] <:+: bits ∨ bits.getLast? = some earlier ∧ bit = later := by
  rw [List.infix_concat_iff, List.suffix_concat_iff,
    ← List.singleton_suffix_iff_getLast?_eq_some]
  constructor
  · rintro ((isNil | ⟨front, split, isSuffix⟩) | isInfix)
    · contradiction
    · have joined : [earlier] ++ [later] = front ++ [bit] := split
      obtain ⟨rfl, same⟩ := List.append_inj' joined rfl
      cases same
      exact Or.inr ⟨isSuffix, rfl⟩
    · exact Or.inl isInfix
  · rintro (isInfix | ⟨isSuffix, rfl⟩)
    · exact Or.inr isInfix
    · exact Or.inl (Or.inr ⟨[earlier], rfl, isSuffix⟩)

/-! ## Cells that tell their history -/

namespace Cell

/-- The cell of a signal tells the bits written to it. -/
structure Tells (bits : List Bit) (cell : Cell) : Prop where
  set_iff : cell Plane.signalSet = true ↔ bits ≠ []
  value_eq : ∀ last, bits.getLast? = some last → cell.value = last
  toggle01_iff : cell Plane.toggle01 = true ↔ [Bit.zero, Bit.one] <:+: bits
  toggle10_iff : cell Plane.toggle10 = true ↔ [Bit.one, Bit.zero] <:+: bits

/-- A cell without coverage tells of no written bit. -/
theorem tells_nil
    {cell : Cell}
    (clear : ∀ plane : Plane, plane.isCoverage = true → cell plane = false) :
    cell.Tells [] where
  set_iff := by simp [clear Plane.signalSet rfl]
  value_eq := by
    intro last isLast
    contradiction
  toggle01_iff := by simp [clear Plane.toggle01 rfl]
  toggle10_iff := by simp [clear Plane.toggle10 rfl]

/-- A signal that has been given a value holds the last bit written to it. -/
theorem Tells.getLast?_eq_some_iff
    {bits : List Bit}
    {cell : Cell}
    (tells : cell.Tells bits)
    (bit : Bit) :
    bits.getLast? = some bit ↔ cell Plane.signalSet = true ∧ cell.value = bit := by
  constructor
  · intro isLast
    refine ⟨tells.set_iff.2 ?_, tells.value_eq bit isLast⟩
    rintro rfl
    contradiction
  · rintro ⟨isSet, rfl⟩
    cases isLast : bits.getLast? with
    | none => exact absurd (List.getLast?_eq_none_iff.1 isLast) (tells.set_iff.1 isSet)
    | some last => rw [tells.value_eq last isLast]

/-- A single written bit never toggles. -/
theorem Tells.not_toggled
    {bits : List Bit}
    {cell : Cell}
    (tells : cell.Tells bits)
    (single : bits.length ≤ 1) :
    cell Plane.toggle01 = false ∧ cell Plane.toggle10 = false := by
  constructor
  · rw [Bool.eq_false_iff, ne_eq, tells.toggle01_iff]
    intro isInfix
    have twoBits : 2 ≤ bits.length := isInfix.length_le
    omega
  · rw [Bool.eq_false_iff, ne_eq, tells.toggle10_iff]
    intro isInfix
    have twoBits : 2 ≤ bits.length := isInfix.length_le
    omega

/-- Giving a bit adds it to what the cell tells. -/
theorem Tells.accept
    {bits : List Bit}
    {cell : Cell}
    (tells : cell.Tells bits)
    (bit : Bit) :
    (cell.accept Kind.signal bit).Tells (bits ++ [bit]) where
  set_iff := by
    rw [accept_coverage _ _ _ rfl, gains_given rfl, Bool.or_true]
    simp
  value_eq := by
    intro last isLast
    rw [value_accept]
    simpa using isLast
  toggle01_iff := by
    have last := tells.getLast?_eq_some_iff Bit.zero
    rw [accept_coverage _ _ _ rfl, Bool.or_eq_true, gains_toggle01 rfl, pair_infix_concat,
      ← tells.toggle01_iff, last]
    refine or_congr_right ⟨?_, ?_⟩
    · rintro ⟨isZero, isOne, isSet⟩
      exact ⟨⟨isSet rfl, isZero⟩, isOne⟩
    · rintro ⟨⟨isSet, isZero⟩, isOne⟩
      exact ⟨isZero, isOne, fun _ => isSet⟩
  toggle10_iff := by
    have last := tells.getLast?_eq_some_iff Bit.one
    rw [accept_coverage _ _ _ rfl, Bool.or_eq_true, gains_toggle10 rfl, pair_infix_concat,
      ← tells.toggle10_iff, last]
    refine or_congr_right ⟨?_, ?_⟩
    · rintro ⟨isOne, isZero, isSet⟩
      exact ⟨⟨isSet rfl, isOne⟩, isZero⟩
    · rintro ⟨⟨isSet, isOne⟩, isZero⟩
      exact ⟨isOne, isZero, fun _ => isSet⟩

/-- An effect on a signal changes a cell and what it tells alike. -/
theorem Tells.apply
    {bits : List Bit}
    {cell : Cell}
    (tells : cell.Tells bits)
    {effect : Effect}
    (suitable : effect.isWriteOrReset = true)
    (asSignal : ∀ kind assignment, effect = .write kind assignment → kind = Kind.signal)
    (position : Nat) :
    (effect.apply position cell).Tells (effect.record position bits) := by
  cases effect with
  | keep => exact tells
  | write kind assignment =>
      rw [asSignal kind assignment rfl]
      simp only [Effect.apply, Effect.record, Assignment.change]
      split
      · exact tells.accept _
      · exact tells
  | clearCoverage =>
      apply tells_nil
      intro plane coverage
      simp [Effect.apply, clearCoverage, coverage]
  | mark | absorb | replace | collapse => contradiction

/-- Effects in order change a cell and what it tells alike. -/
theorem Tells.replay
    {bits : List Bit}
    {cell : Cell}
    (tells : cell.Tells bits)
    {effects : List Effect}
    (suitable : ∀ effect ∈ effects, effect.isWriteOrReset = true)
    (asSignal : ∀ kind assignment, Effect.write kind assignment ∈ effects → kind = Kind.signal)
    (position : Nat) :
    Cell.Tells (effects.foldl (fun bits effect => effect.record position bits) bits)
      (effects.foldl (fun cell effect => effect.apply position cell) cell) := by
  induction effects generalizing bits cell with
  | nil => exact tells
  | cons effect effects inductionHypothesis =>
      have first := tells.apply (suitable effect (List.mem_cons_self ..))
        (fun kind assignment same => asSignal kind assignment (same ▸ List.mem_cons_self ..))
        position
      exact inductionHypothesis first
        (fun other isMember => suitable other (List.mem_cons_of_mem _ isMember))
        (fun kind assignment isMember => asSignal kind assignment (List.mem_cons_of_mem _ isMember))

end Cell

/-! ## Commands that only assign and reset -/

/-- The update gives a value or clears the coverage. -/
def Update.assignsOrResets {operand : Type} : Update operand → Bool
  | resetCoverage => true
  | change => change.isAssigning

theorem Update.assignsOrResets_iff {operand : Type} (change : Update operand) :
    change.assignsOrResets = true ↔ change.isAssigning = true ∨ change = .resetCoverage := by
  cases change <;> simp [assignsOrResets, isAssigning]

@[simp] theorem Update.assignsOrResets_shape {operand : Type} (change : Update operand) :
    change.shape.assignsOrResets = change.assignsOrResets := by
  cases change <;> rfl

/-- Exchanging the operands keeps the sort of an update. -/
theorem Update.assignsOrResets_of_traverse
    {operand other error : Type}
    {resolve : operand → Except error other}
    {change : Update operand}
    {resolved : Update other}
    (succeeds : change.traverse resolve = .ok resolved) :
    resolved.assignsOrResets = change.assignsOrResets := by
  rw [← assignsOrResets_shape, shape_of_traverse succeeds, assignsOrResets_shape]

/-- The command gives values, clears coverage, or updates no vector. -/
def Command.assignsOrResets : Command → Bool
  | update _ change => change.assignsOrResets
  | _ => true

namespace Session

/-- Commands that only assign and reset ask for such updates. -/
theorem isAssigning_or_eq_resetCoverage_of_request
    {session : Session}
    {command : Command}
    {name : String}
    {change : Update String}
    {error : Type}
    {resolve : String → Except error LogicVector}
    {resolved : Update LogicVector}
    (requests : session.request? command = some (name, change))
    (resolves : change.traverse resolve = .ok resolved)
    (suitable : command.assignsOrResets = true) :
    resolved.isAssigning = true ∨ resolved = .resetCoverage := by
  rw [← Update.assignsOrResets_iff, Update.assignsOrResets_of_traverse resolves]
  obtain rfl | ⟨value, rfl⟩ := eq_update_of_request requests
  · exact suitable
  · rfl

/-- On a signal, commands that only assign and reset have only such effects,
through whatever name they reach it. -/
theorem RefersAs.isWriteOrReset_of_mem_effects
    {session : Session}
    {number width : Nat}
    (refersAs : session.RefersAs number width Kind.signal)
    {command : Command}
    (suitable : command.assignsOrResets = true)
    {effect : Effect}
    (isMember : effect ∈ session.effects number command) :
    effect.isWriteOrReset = true := by
  obtain ⟨name, change, requests, isRead | isChange⟩ := mem_effects isMember
  · obtain ⟨source, handle, lsb, msb, bound, refers, -, rfl⟩ := isRead
    have notMemory : ¬(session.load handle).kind = Kind.memory := by
      change ¬handle.kind = Kind.memory
      rw [(refersAs source handle bound refers).2]
      decide
    rw [LogicVector.readEffect, if_neg notMemory]
    rfl
  · obtain ⟨handle, resolved, -, -, resolves, -, rfl⟩ := isChange
    exact Effect.isWriteOrReset_effect _
      (isAssigning_or_eq_resetCoverage_of_request requests resolves suitable)

/-- A run of commands that only assign and reset has only such effects on a
signal. -/
theorem RefersAs.isWriteOrReset_of_mem_history
    {session : Session}
    {number width : Nat}
    (refersAs : session.RefersAs number width Kind.signal)
    (sound : session.Sound fun plane => plane.isCoverage = false)
    (inBounds : number < session.blocks.size)
    {commands : List Command}
    (suitable : ∀ command ∈ commands, command.assignsOrResets = true)
    {effect : Effect}
    (isMember : effect ∈ session.history number commands) :
    effect.isWriteOrReset = true := by
  refine refersAs.of_mem_history sound inBounds (motive := fun effect =>
    effect.isWriteOrReset = true) ?_ isMember
  intro before command isCommand stillRefersAs effect inEffects
  exact stillRefersAs.isWriteOrReset_of_mem_effects (suitable command isCommand) inEffects

/-! ## A new signal -/

/-- The session after a new signal has been bound to a name. -/
def withSignal
    (session : Session)
    (name : String)
    (width : Nat)
    (signed? twoState? : Option Bool) : Session :=
  (session.apply (.create name width .signal true signed? twoState?)).1

/-- A new signal has its width and kind, the words it needs, and no coverage. -/
theorem withSignal_eq_place
    (session : Session)
    (name : String)
    {width : Nat}
    (signed? twoState? : Option Bool)
    (inLimits : 0 < width ∧ width ≤ maxWidth) :
    ∃ vector block, session.withSignal name width signed? twoState? = session.place name vector ∧
      vector.width = width ∧ vector.kind = Kind.signal ∧ vector.storage = .owned block ∧
      block.size = wordCount width ∧
      ∀ position plane, plane.isCoverage = true → block.cell position plane = false := by
  obtain ⟨vector, placed, sameWidth, sameKind, storage⟩ :=
    session.create_eq_place name Kind.signal signed? twoState? inLimits
  exact ⟨vector, _, placed, sameWidth, sameKind, storage, Block.size_initial _ _,
    fun position plane coverage => Block.cell_initial_of_isCoverage _ _ position coverage⟩

/-- The words of a new signal exist, and every handle of them sees a signal of its width. -/
theorem Sound.refersAs_withSignal
    {session : Session}
    (sound : session.Sound fun plane => plane.isCoverage = false)
    (name : String)
    {width : Nat}
    (signed? twoState? : Option Bool)
    (inLimits : 0 < width ∧ width ≤ maxWidth) :
    session.blocks.size < (session.withSignal name width signed? twoState?).blocks.size ∧
      (session.withSignal name width signed? twoState?).RefersAs session.blocks.size width
        Kind.signal := by
  obtain ⟨vector, block, placed, sameWidth, sameKind, storage, -, -⟩ :=
    session.withSignal_eq_place name signed? twoState? inLimits
  rw [placed, (session.block_place name (content?_of_eq_owned storage)).1]
  refine ⟨Nat.lt_succ_self _, ?_⟩
  intro other handle bound refers
  obtain ⟨-, rfl⟩ | ⟨-, old⟩ := (binds_place_iff _ _ _ _ _).1 bound
  · exact ⟨sameWidth, sameKind⟩
  · exact absurd (sound.lt_size old refers) (Nat.lt_irrefl _)

/-- The effects of a run on the words of a signal that is new at its beginning. -/
def signalHistory
    (session : Session)
    (name : String)
    (width : Nat)
    (signed? twoState? : Option Bool)
    (commands : List Command) : List Effect :=
  (session.withSignal name width signed? twoState?).history session.blocks.size commands

/-- A run of commands that only give values and clear coverage, to whatever names, has only
such effects on a new signal. -/
theorem isWriteOrReset_of_mem_signalHistory
    (earlier : List Command)
    {later : List Command}
    (name : String)
    {width : Nat}
    (signed? twoState? : Option Bool)
    (inLimits : 0 < width ∧ width ≤ maxWidth)
    (suitable : ∀ command ∈ later, command.assignsOrResets = true) :
    ∀ effect ∈ (Session.empty.run earlier).signalHistory name width signed? twoState? later,
      effect.isWriteOrReset = true := by
  have sound := sound_run_empty earlier
  obtain ⟨inBounds, refersAs⟩ := sound.refersAs_withSignal name signed? twoState? inLimits
  intro effect isMember
  exact refersAs.isWriteOrReset_of_mem_history (sound.applyAny _) inBounds suitable isMember

/-- The coverage of a signal is its exact history.  After any run on a signal
that was new in a session reached by any commands, if the run gave its words
values and cleared their coverage only, then at every position inside the width,
and through every name for the words: the set bit says whether a bit was written
since coverage was last cleared, and the toggle bits say whether a known zero
was followed by a known one, and a known one by a known zero, among the bits
written there since.  One write alone never toggles. -/
theorem signal_tells_history
    (earlier later : List Command)
    (name : String)
    {width : Nat}
    (signed? twoState? : Option Bool)
    (inLimits : 0 < width ∧ width ≤ maxWidth)
    (suitable : ∀ effect ∈
      (Session.empty.run earlier).signalHistory name width signed? twoState? later,
      effect.isWriteOrReset = true) :
    ∀ reference handle,
      (((Session.empty.run earlier).withSignal name width signed? twoState?).run later).Binds
        reference handle →
      handle.storage.content? = some (Session.empty.run earlier).blocks.size →
      ∃ block,
        ((((Session.empty.run earlier).withSignal name width signed? twoState?).run later).load
          handle).block = .ok block ∧ handle.width = width ∧
        ∀ position < width,
          let bits := Effect.written position
            ((Session.empty.run earlier).signalHistory name width signed? twoState? later)
          (block.bit Plane.signalSet position = true ↔ bits ≠ []) ∧
          (block.bit Plane.toggle01 position = true ↔ [Bit.zero, Bit.one] <:+: bits) ∧
          (block.bit Plane.toggle10 position = true ↔ [Bit.one, Bit.zero] <:+: bits) ∧
          (bits.length ≤ 1 → block.bit Plane.toggle01 position = false ∧
            block.bit Plane.toggle10 position = false) := by
  generalize starts : Session.empty.run earlier = before at suitable ⊢
  have soundBefore : before.Sound fun plane => plane.isCoverage = false :=
    starts ▸ sound_run_empty earlier
  obtain ⟨vector, block, placed, -, -, storage, size, clear⟩ :=
    before.withSignal_eq_place name signed? twoState? inLimits
  have sound : (before.withSignal name width signed? twoState?).Sound
      fun plane => plane.isCoverage = false := soundBefore.applyAny _
  have stored : vector.storage.content? = some block := content?_of_eq_owned storage
  obtain ⟨inBounds, refersAs⟩ := soundBefore.refersAs_withSignal name signed? twoState? inLimits
  -- Other names may come to share the words: the history is kept for the block,
  -- whatever handle it was changed through, and is replayed on each of its cells.
  have replayed := block_run sound later inBounds
  rw [show (before.withSignal name width signed? twoState?).block before.blocks.size = block by
    rw [placed, (before.block_place name stored).2]] at replayed
  intro reference handle bound refers
  refine ⟨_, block_load refers, (refersAs.run sound inBounds later reference handle bound refers).1,
    ?_⟩
  intro position inside
  have inWords : position < 32 * block.size := by
    rw [size]
    exact Nat.lt_of_lt_of_le inside (le_wordCount width)
  have tells := (Cell.tells_nil (clear position)).replay suitable
    (fun kind assignment isMember => refersAs.kind_of_mem_history sound inBounds isMember) position
  have sameCell := block.cell_replay ((before.withSignal name width signed? twoState?).history
    before.blocks.size later) inWords
  rw [← replayed] at sameCell
  have tellsFinal : Cell.Tells
      (Effect.written position (before.signalHistory name width signed? twoState? later))
      (Block.cell (((before.withSignal name width signed? twoState?).run later).block
        before.blocks.size) position) := by
    rw [sameCell]
    exact tells
  exact ⟨tellsFinal.set_iff, tellsFinal.toggle01_iff, tellsFinal.toggle10_iff,
    tellsFinal.not_toggled⟩

/-- Two names for a signal: one write is forgotten by a reset, two are not. -/
def aliasedWrites : List Command := [
  .share "b" "a",
  .update "b" (.setNat 5),
  .update "a" .resetCoverage,
  .update "a" (.setNat 3),
  .update "b" (.setNat 9)]

/-- The second bit of the signal fell from one to zero, and never rose. -/
theorem signal_tells_aliasedWrites :
    (0 < 4 ∧ 4 ≤ maxWidth) ∧
    (∀ effect ∈ (Session.empty.run []).signalHistory "a" 4 none none aliasedWrites,
      effect.isWriteOrReset = true) ∧
    ∃ handle block,
      (((Session.empty.run []).withSignal "a" 4 none none).run aliasedWrites).Binds "b" handle ∧
      ((((Session.empty.run []).withSignal "a" 4 none none).run aliasedWrites).load
        handle).block = .ok block ∧
      block.bit Plane.signalSet 1 = true ∧ block.bit Plane.toggle01 1 = false ∧
      block.bit Plane.toggle10 1 = true := by
  have inLimits : 0 < 4 ∧ 4 ≤ maxWidth := by decide
  have suitable : ∀ effect ∈
      (Session.empty.run []).signalHistory "a" 4 none none aliasedWrites,
      effect.isWriteOrReset = true :=
    isWriteOrReset_of_mem_signalHistory [] "a" none none inLimits (by decide)
  have writes : Effect.written 1
      ((Session.empty.run []).signalHistory "a" 4 none none aliasedWrites) =
      [Bit.one, Bit.zero] := by decide +kernel
  have bound : (((Session.empty.run []).withSignal "a" 4 none none).run aliasedWrites).Binds "b" {
      width := 4
      kind := .signal
      format := .bits32
      signed := false
      twoState := false
      storage := .borrowed 0 } := by
    unfold Binds
    decide +kernel
  obtain ⟨block, shows, -, tells⟩ := signal_tells_history [] aliasedWrites "a" none none inLimits
    suitable "b" _ bound rfl
  obtain ⟨set, rises, falls, -⟩ := tells 1 (by decide)
  rw [writes] at set rises falls
  refine ⟨inLimits, suitable, _, block, bound, shows, set.2 (by simp), ?_, falls.2 (by simp)⟩
  rw [Bool.eq_false_iff, ne_eq, rises]
  decide

end Session
end FourState
