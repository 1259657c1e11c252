import FourState.Event
import FourState.Proofs.Guarded.Step
import FourState.Session.Basic

/-!
# Stepwise programs

A stepwise program reads and writes one word of a block at a time, in blocks that
several handles may share, so what one step writes the next one reads.  A block is
taken for reading or for writing before its words are looked at: many readers can
have it at once, a writer only alone.  A program that takes a block against this rule
stops there, and what it has written until then stays written.
-/

namespace FourState

/-- Why a stepwise program stops. -/
inductive Stop
  | failure (failure : Failure)
  /-- A block is taken that is in use. -/
  | inUse (number : Nat)
  deriving DecidableEq

/-- The blocks that are in use. -/
structure Borrows where
  /-- The blocks that are read. -/
  reading : List Nat
  /-- The blocks that are written. -/
  writing : List Nat

/-- Nothing is in use. -/
def Borrows.none : Borrows where
  reading := []
  writing := []

/-- The blocks between two steps, and what has been logged. -/
structure Heap where
  /-- The words, by block number. -/
  blocks : Array Block
  /-- The events, oldest first. -/
  log : List Event

/-- A program whose steps see the blocks as the steps before have left them. -/
abbrev Stepwise :=
  ReaderT Borrows (ExceptT Stop (StateM Heap))

instance : MonadLift (Except Failure) Stepwise where
  monadLift step :=
    match step with
    | .ok answer => pure answer
    | .error failure => throw (.failure failure)

namespace Heap

/-- The words of a block. -/
def block (heap : Heap) (number : Nat) : Block :=
  heap.blocks.getD number #[]

/-- The vector that a handle stands for. -/
def load (heap : Heap) (handle : Handle) : LogicVector where
  toHeader := handle.toHeader
  storage := handle.storage.map heap.block

/-- Give a block new words. -/
def setBlock (heap : Heap) (number : Nat) (block : Block) : Heap :=
  { heap with blocks := heap.blocks.setIfInBounds number block }

/-- Add events to the log. -/
def logged (heap : Heap) (events : List Event) : Heap :=
  { heap with log := heap.log ++ events }

variable (heap : Heap) {number : Nat}

@[simp] theorem size_setBlock (block : Block) :
    (heap.setBlock number block).blocks.size = heap.blocks.size := by
  simp [setBlock]

theorem block_setBlock
    (exists_block : number < heap.blocks.size)
    (block : Block) :
    (heap.setBlock number block).block number = block := by
  simp [setBlock, Heap.block, exists_block]

theorem block_setBlock_of_ne
    {other : Nat}
    (differs : other ≠ number)
    (block : Block) :
    (heap.setBlock number block).block other = heap.block other := by
  simp [setBlock, Heap.block, differs.symm]

/-- Giving a block its own words does nothing. -/
@[simp] theorem setBlock_self : heap.setBlock number (heap.block number) = heap := by
  rcases heap with ⟨blocks, log⟩
  simp only [setBlock, block, mk.injEq, and_true]
  apply Array.ext (by simp)
  intro index inSet inBlocks
  rw [Array.getElem_setIfInBounds (by simpa using inSet)]
  split
  · rename_i same
    subst same
    simp [inBlocks]
  · rfl

/-- The words that a block is given last are its words. -/
@[simp] theorem setBlock_setBlock (first second : Block) :
    (heap.setBlock number first).setBlock number second = heap.setBlock number second := by
  simp [setBlock]

@[simp] theorem logged_nil : heap.logged [] = heap := by
  simp [logged]

/-- Put the words of a vector where those of a handle are. -/
def put (handle : Handle) (vector : LogicVector) : Heap :=
  match handle.storage.content?, vector.storage.content? with
  | some number, some block => heap.setBlock number block
  | _, _ => heap

section Handles

variable {handle : Handle}

theorem content?_load (refers : handle.storage.content? = some number) :
    (heap.load handle).storage.content? = some (heap.block number) := by
  simp [load, refers]

theorem content?_load_of_widthOnly (widthOnly : handle.storage.content? = none) :
    (heap.load handle).storage.content? = none := by
  simp [load, widthOnly]

/-- A handle of a block shows the words of the block. -/
theorem block_load (refers : handle.storage.content? = some number) :
    (heap.load handle).block = .ok (heap.block number) :=
  (LogicVector.block_eq_ok_iff _ _).2 (heap.content?_load refers)

theorem put_withBlock (refers : handle.storage.content? = some number) (block : Block) :
    heap.put handle ((heap.load handle).withBlock block) = heap.setBlock number block := by
  simp [put, LogicVector.withBlock, load, refers]

/-- Putting the words of a handle back does nothing. -/
@[simp] theorem put_load : heap.put handle (heap.load handle) = heap := by
  cases refers : handle.storage.content? with
  | none => simp [put, refers]
  | some number => simp [put, refers, heap.content?_load refers]

end Handles

end Heap

namespace Stepwise

variable {answer other : Type} {borrows : Borrows} {heap after : Heap} {number index : Nat}

/-- Run a program with blocks in use. -/
def run (program : Stepwise answer) (borrows : Borrows) (heap : Heap) :
    Except Stop answer × Heap :=
  StateT.run (ExceptT.run (ReaderT.run program borrows)) heap

/-! ## Steps -/

/-- The number of the block of a handle; a width-only vector has none. -/
def blockOf (handle : Handle) : Stepwise Nat :=
  match handle.storage.content? with
  | some number => return number
  | none => throw (.failure (.fault .noStorage))

/-- Take a block for reading while a program runs. -/
def reading (number : Nat) (program : Stepwise answer) : Stepwise answer := do
  let borrows ← read
  if number ∈ borrows.writing then
    throw (.inUse number)
  withReader (fun borrows => { borrows with reading := number :: borrows.reading }) program

/-- Take a block for writing while a program runs. -/
def writing (number : Nat) (program : Stepwise answer) : Stepwise answer := do
  let borrows ← read
  if number ∈ borrows.reading ∨ number ∈ borrows.writing then
    throw (.inUse number)
  withReader (fun borrows => { borrows with writing := number :: borrows.writing }) program

/-- The number of words of a block. -/
def size (number : Nat) : Stepwise Nat := do
  let heap ← get
  return (heap.block number).size

/-- Read a word of a block. -/
def word (number index : Nat) : Stepwise (Slice 32) := do
  let heap ← get
  match (heap.block number)[index]? with
  | some slice => return slice
  | none => throw (.failure (.fault .wordIndex))

/-- Write a word of a block. -/
def setWord (number index : Nat) (slice : Slice 32) : Stepwise Unit := do
  let heap ← get
  require (index < (heap.block number).size) (Failure.fault .wordIndex)
  set (heap.setBlock number ((heap.block number).setIfInBounds index slice))

/-- Log an event. -/
def report (event : Event) : Stepwise Unit :=
  modify fun heap => heap.logged [event]

/-- Read a word of a block, and write what a program makes of it. -/
def visitWord (number index : Nat) (change : Slice 32 → Stepwise (answer × Slice 32)) :
    Stepwise answer := do
  let slice ← word number index
  let (value, changed) ← change slice
  setWord number index changed
  return value

/-- Visit words of a block, from `first` on, and carry a state along. -/
def visit {state : Type} (number first count : Nat)
    (change : state → Nat → Slice 32 → Stepwise (state × Slice 32)) (start : state) :
    Stepwise state :=
  (List.range' first count).foldlM
    (fun state index => visitWord number index (change state index)) start

/-! ## What the steps do -/

/-- A program goes on where its first part has ended, and ends with it if that stops. -/
theorem run_bind (program : Stepwise answer) (next : answer → Stepwise other) :
    run (program >>= next) borrows heap =
      match run program borrows heap with
      | (.ok value, after) => run (next value) borrows after
      | (.error stop, after) => (.error stop, after) := by
  simp only [run, ReaderT.run_bind, ExceptT.run_bind, StateT.run_bind]
  rcases StateT.run (ExceptT.run (ReaderT.run program borrows)) heap with ⟨result, after⟩
  cases result <;> rfl

theorem bind_of_ok
    {program : Stepwise answer}
    {value : answer}
    (runs : run program borrows heap = (.ok value, after))
    (next : answer → Stepwise other) :
    run (program >>= next) borrows heap = run (next value) borrows after := by
  rw [run_bind, runs]

theorem bind_of_stop
    {program : Stepwise answer}
    {stop : Stop}
    (runs : run program borrows heap = (.error stop, after))
    (next : answer → Stepwise other) :
    run (program >>= next) borrows heap = (.error stop, after) := by
  rw [run_bind, runs]

/-- A pure computation stops with its fault. -/
theorem run_liftM_fault (step : Except Fault answer) :
    run (liftM step) borrows heap =
      (step.mapError fun fault => Stop.failure (.fault fault), heap) := by
  cases step <;> rfl

/-- A met condition of use does not show. -/
theorem require_run
    {condition : Prop}
    [Decidable condition]
    (holds : condition)
    (fault : Fault)
    (next : Stepwise answer) :
    run (liftM (require condition fault) >>= fun _ => next) borrows heap =
      run next borrows heap := by
  rw [require, if_pos holds]
  rfl

theorem blockOf_eq_ok
    {handle : Handle}
    (refers : handle.storage.content? = some number) :
    run (blockOf handle) borrows heap = (.ok number, heap) := by
  rw [blockOf, refers]
  rfl

theorem blockOf_of_widthOnly
    {handle : Handle}
    (widthOnly : handle.storage.content? = none) :
    run (blockOf handle) borrows heap = (.error (.failure (.fault .noStorage)), heap) := by
  rw [blockOf, widthOnly]
  rfl

/-- A block that nobody writes can be taken for reading. -/
theorem reading_run
    (unwritten : number ∉ borrows.writing)
    (program : Stepwise answer) :
    run (reading number program) borrows heap =
      run program { borrows with reading := number :: borrows.reading } heap := by
  change run (if number ∈ borrows.writing then _ else _) borrows heap = _
  rw [if_neg unwritten]
  rfl

/-- A block that nobody uses can be taken for writing. -/
theorem writing_run
    (unread : number ∉ borrows.reading)
    (unwritten : number ∉ borrows.writing)
    (program : Stepwise answer) :
    run (writing number program) borrows heap =
      run program { borrows with writing := number :: borrows.writing } heap := by
  change run (if number ∈ borrows.reading ∨ number ∈ borrows.writing then _ else _) borrows heap = _
  rw [if_neg (by simp [unread, unwritten])]
  rfl

/-- A block that is being read cannot be written. -/
example : run (reading 3 (writing 3 (size 3))) Borrows.none heap = (.error (.inUse 3), heap) :=
  rfl

theorem size_run :
    run (size number) borrows heap = (.ok (heap.block number).size, heap) :=
  rfl

section Words

variable {block : Block}

theorem word_run
    (shows : heap.block number = block)
    (inBlock : index < block.size) :
    run (word number index) borrows heap = (.ok block[index], heap) := by
  subst shows
  change run (match (heap.block number)[index]? with | some _ => _ | none => _) borrows heap = _
  rw [Array.getElem?_eq_getElem inBlock]
  rfl

theorem word_of_size_le
    (shows : heap.block number = block)
    (outside : block.size ≤ index) :
    run (word number index) borrows heap = (.error (.failure (.fault .wordIndex)), heap) := by
  subst shows
  change run (match (heap.block number)[index]? with | some _ => _ | none => _) borrows heap = _
  rw [Array.getElem?_eq_none outside]
  rfl

theorem setWord_run
    (shows : heap.block number = block)
    (inBlock : index < block.size)
    (slice : Slice 32) :
    run (setWord number index slice) borrows heap =
      (.ok (), heap.setBlock number (block.setIfInBounds index slice)) := by
  subst shows
  change run (liftM (require (index < (heap.block number).size) (Failure.fault .wordIndex)) >>=
    fun _ => _) borrows heap = _
  rw [require, if_pos inBlock]
  rfl

end Words

/-! ## Loops -/

/-- A loop over rising numbers runs to its end if each round does, from the state and the
heap that the rounds before it leave. -/
theorem foldlM_range'_run
    {state : Type}
    {body : state → Nat → Stepwise state}
    {first count : Nat}
    (states : Nat → state)
    (heaps : Nat → Heap)
    (each : ∀ index, first ≤ index → index < first + count →
      run (body (states index) index) borrows (heaps index) =
        (.ok (states (index + 1)), heaps (index + 1))) :
    run ((List.range' first count).foldlM body (states first)) borrows (heaps first) =
      (.ok (states (first + count)), heaps (first + count)) := by
  induction count generalizing first with
  | zero => rfl
  | succ count inductionHypothesis =>
      rw [List.range'_succ, List.foldlM_cons, bind_of_ok (each first (by omega) (by omega)),
        inductionHypothesis fun index past below => each index (by omega) (by omega),
        Nat.add_right_comm, Nat.add_assoc]

/-! ## Programs that only read -/

/-- The program ends as a computation does and leaves the heap, whatever is read besides. -/
def Reads (program : Stepwise answer) (heap : Heap) (result : Except Fault answer) : Prop :=
  ∀ borrows, borrows.writing = [] →
    run program borrows heap = (result.mapError fun fault => .failure (.fault fault), heap)

theorem reads_pure (value : answer) : Reads (pure value) heap (.ok value) :=
  fun _ _ => rfl

theorem reads_liftM (step : Except Fault answer) : Reads (liftM step) heap step :=
  fun _ _ => run_liftM_fault step

/-- Programs only read if their parts do. -/
theorem Reads.bind
    {program : Stepwise answer}
    {result : Except Fault answer}
    {next : answer → Stepwise other}
    {nextResult : answer → Except Fault other}
    (reads : Reads program heap result)
    (readsNext : ∀ value, result = .ok value → Reads (next value) heap (nextResult value)) :
    Reads (program >>= next) heap (result >>= nextResult) := by
  intro borrows unwritten
  have runs := reads borrows unwritten
  cases result with
  | error fault => exact bind_of_stop runs next
  | ok value => exact (bind_of_ok runs next).trans (readsNext value rfl borrows unwritten)

/-- The words of a handle are read after its block has been taken for reading. -/
theorem reads_block
    {handle : Handle}
    {program : Nat → Stepwise answer}
    {result : Block → Except Fault answer}
    (reads : ∀ number, handle.storage.content? = some number →
      Reads (program number) heap (result (heap.block number))) :
    Reads (do
        let number ← blockOf handle
        reading number (program number))
      heap ((heap.load handle).block >>= result) := by
  intro borrows unwritten
  cases refers : handle.storage.content? with
  | none =>
      rw [bind_of_stop (blockOf_of_widthOnly refers), LogicVector.block,
        heap.content?_load_of_widthOnly refers]
      rfl
  | some number =>
      rw [bind_of_ok (blockOf_eq_ok refers), reading_run (by simp [unwritten]),
        heap.block_load refers]
      exact reads number refers _ unwritten

/-! ## Programs that change a vector -/

/-- The end of a program that succeeds with a changed vector or fails and changes nothing. -/
def settled (heap : Heap) (target : Handle) (result : Except Failure (LogicVector × answer)) :
    Except Stop answer × Heap :=
  match result with
  | .ok (vector, value) => (.ok value, heap.put target vector)
  | .error failure => (.error (.failure failure), heap)

/-- With nothing in use before, the program does to the heap what a computation does to the
vector of a handle. -/
def Settles (program : Stepwise answer) (heap : Heap) (target : Handle)
    (result : Except Fault (LogicVector × answer)) : Prop :=
  run program Borrows.none heap = settled heap target (liftM result)

/-- The end of a program with the outcome of a computation, its log included. -/
def finished (heap : Heap) (target : Handle) (outcome : Outcome (LogicVector × answer)) :
    Except Stop answer × Heap :=
  let (result, after) := settled heap target outcome.result
  (result, after.logged outcome.log)

section Settling

variable {target : Handle}

/-- A change that logs nothing ends with its result. -/
theorem finished_quiet (result : Except Failure (LogicVector × answer)) :
    finished heap target (.quiet result) = settled heap target result := by
  simp [finished, Outcome.quiet]

/-- What leaves the vector as it is only logs. -/
theorem finished_of_unchanged (value : answer) (log : List Event) :
    finished heap target { result := .ok (heap.load target, value), log } =
      (.ok value, heap.logged log) := by
  change (Except.ok value, (heap.put target (heap.load target)).logged log) = _
  rw [Heap.put_load]

theorem settles_pure (value : answer) :
    Settles (pure value) heap target (.ok (heap.load target, value)) := by
  change _ = (Except.ok value, heap.put target (heap.load target))
  rw [Heap.put_load]
  rfl

/-- What only reads can come before a change. -/
theorem Reads.settles
    {program : Stepwise answer}
    {result : Except Fault answer}
    {next : answer → Stepwise other}
    {nextResult : answer → Except Fault (LogicVector × other)}
    (reads : Reads program heap result)
    (settlesNext : ∀ value, result = .ok value →
      Settles (next value) heap target (nextResult value)) :
    Settles (program >>= next) heap target (result >>= nextResult) := by
  have runs := reads Borrows.none rfl
  cases result with
  | error fault => exact bind_of_stop runs next
  | ok value => exact (bind_of_ok runs next).trans (settlesNext value rfl)

/-- A condition of use comes before a change. -/
theorem settles_require
    {condition : Prop}
    [Decidable condition]
    {fault : Fault}
    {next : Stepwise answer}
    {nextResult : Except Fault (LogicVector × answer)}
    (settlesNext : condition → Settles next heap target nextResult) :
    Settles (liftM (require condition fault) >>= fun _ => next) heap target
      (require condition fault >>= fun _ => nextResult) :=
  (reads_liftM _).settles fun _ holds => settlesNext (require_eq_ok_iff.1 holds)

/-- The words of a vector are written after its block has been taken for writing. -/
theorem settles_block
    {program : Nat → Stepwise answer}
    {result : Block → Except Fault (LogicVector × answer)}
    (settles : ∀ number, target.storage.content? = some number →
      Settles (program number) heap target (result (heap.block number))) :
    Settles (blockOf target >>= program) heap target ((heap.load target).block >>= result) := by
  cases refers : target.storage.content? with
  | none =>
      rw [LogicVector.block, heap.content?_load_of_widthOnly refers]
      exact bind_of_stop (blockOf_of_widthOnly refers) _
  | some number =>
      rw [heap.block_load refers]
      exact (bind_of_ok (blockOf_eq_ok refers) _).trans (settles number refers)

end Settling

end Stepwise
end FourState
