import FourState.Proofs.Copying
import FourState.Proofs.CoverageUnion
import FourState.Proofs.Stepwise.Operator

/-!
# Stepwise copies and marks

Copies, merges and evaluation marks on the heap.  A copy or a merge has the block of
its source and the block of its target in use at the same time, so it looks first
whether they are one block, and does nothing if they are.  A range is copied to words of
its own before the target is touched, and a record is merged after all of it has been
read.
-/

namespace FourState

variable {clipped : Plane → Prop}

namespace Stepwise

/-! ## Programs -/

/-- Two handles have the words of one block. -/
def sharesWith (first second : Handle) : Bool :=
  match first.storage.content?, second.storage.content? with
  | some number, some other => number == other
  | _, _ => false

/-- Take over the words of a vector of the same width and kind. -/
def copyFrom (target source : Handle) : Stepwise Unit := do
  require (target.width = source.width) Fault.copyWidths
  require (target.kind = source.kind) Fault.copyKinds
  if sharesWith target source then return ()
  else do
    let other ← blockOf source
    reading other do
      let number ← blockOf target
      writing number do
        let count ← size number
        let available ← size other
        require (count = available) Fault.wordIndex
        visit number 0 count (fun _ index _ => do
          let copied ← word other index
          return ((), copied)) ()

/-- Add the coverage of a vector of the same width and kind. -/
def merge (target source : Handle) : Stepwise Unit := do
  require (target.width = source.width) Fault.mergeWidths
  require (target.kind = source.kind) Fault.mergeKinds
  if sharesWith target source then return ()
  else do
    let other ← blockOf source
    reading other do
      let number ← blockOf target
      writing number do
        let count ← size number
        let available ← size other
        visit number 0 (min count available) (fun _ index slice => do
          let added ← word other index
          return ((), slice.mark fun plane =>
            if plane.isCoverage && target.kind.hasPlane plane then added.get plane else 0)) ()

/-- Read the word after the one that a position falls into, if bits of it are needed; past
the end of the block there are zeros. -/
def nextWord (number start : Nat) : Stepwise (Slice 32) :=
  if start % 32 = 0 then return Slice.empty
  else do
    let count ← size number
    if start / 32 + 1 < count then word number (start / 32 + 1) else return Slice.empty

/-- Read the bits of every live plane that start at a position, as one word; past the limit
there are zeros. -/
def extract (number : Nat) (kind : Kind) (limit start : Nat) : Stepwise (Slice 32) :=
  if limit ≤ start then return Slice.empty
  else do
    let lower ← word number (start / 32)
    let upper ← nextWord number start
    return Slice.ofPlanes fun plane =>
      if kind.hasPlane plane then
        BitWord.window (fun index => if index = start / 32 then lower.get plane
          else upper.get plane) start &&& Mask.low (limit - start)
      else 0

/-- Read as many words from a position on. -/
def extractAll (source : Handle) (kind : Kind) (lsb count : Nat) : Stepwise Block := do
  let number ← blockOf source
  reading number <| collect count fun index => extract number kind source.width (lsb + 32 * index)

/-- The word with its live planes cut by a mask. -/
def maskPlanes (kind : Kind) (mask : Word) (slice : Slice 32) : Slice 32 :=
  Slice.ofPlanes fun plane =>
    if kind.hasPlane plane then slice.get plane &&& mask else slice.get plane

/-- Drop the bits past the width from the last word of a block. -/
def maskTop (number : Nat) (kind : Kind) (width : Nat) : Stepwise Unit := do
  let count ← size number
  visit number (count - 1) (min 1 count)
    (fun _ _ slice => return ((), maskPlanes kind (Mask.top width) slice)) ()

/-- Fill every plane with the bits of the source from position `lsb` on. -/
def copyRange (target source : Handle) (lsb : Nat) : Stepwise Unit := do
  require (target.kind = source.kind) Fault.copyRangeKinds
  require (lsb < source.width) (Fault.copyRangeStart lsb source.width)
  let copied ← extractAll source target.kind lsb (wordCount target.width)
  let number ← blockOf target
  writing number do
    let count ← size number
    require (count = copied.size) Fault.wordIndex
    visit number 0 count (fun _ index _ => return ((), copied.slice index)) ()
    maskTop number target.kind target.width

/-- Add marks to some planes of an expression, plane by plane. -/
def markEvaluations (target : Handle) (planes : List Plane) (marks : Nat → Plane → Word) :
    Stepwise Unit := do
  require (target.kind = Kind.expression) Fault.evaluationKind
  let number ← blockOf target
  writing number do
    let count ← size number
    forM planes fun plane =>
      visit number 0 count
        (fun _ index slice => return ((), slice.markPlane plane (marks index plane))) ()

/-- Record where the expression's own value is a known 0 and a known 1. -/
def evaluateUnary (target : Handle) : Stepwise Unit := do
  let value ← snapshot target
  markEvaluations target [Plane.evalA, Plane.evalB] fun index plane =>
    if plane = Plane.evalA then value.knownZeros index
    else if plane = Plane.evalB then value.knownOnes index
    else 0

end Stepwise

/-- The planes whose combinations are told apart. -/
def Evaluation.planes : Evaluation → List Plane
  | and => [Plane.evalA, Plane.evalB, Plane.evalC]
  | or => [Plane.evalA, Plane.evalB, Plane.evalC]
  | table => [Plane.evalA, Plane.evalB, Plane.evalC, Plane.evalD]

namespace Stepwise

/-- Record the combinations that two operands show. -/
def evaluate (target : Handle) (evaluation : Evaluation) (left right : Handle) :
    Stepwise Unit := do
  let leftValue ← snapshot left
  let rightValue ← snapshot right
  markEvaluations target evaluation.planes (evaluation.marks leftValue rightValue)

/-- A record that cannot be merged is logged. -/
def recordFailed (error : RecordError) (rest : List Char) : Stepwise (List Char) := do
  report (.recordFailed error)
  throw (.failure (.record error rest))

/-- Add the coverage planes of words that have been read to a vector, if it has words. -/
def addCoverage (target : Handle) (added : Block) : Stepwise Unit :=
  if target.storage.isAllocated then do
    let number ← blockOf target
    writing number do
      let count ← size number
      visit number 0 (min count added.size) (fun _ index slice =>
        return ((), slice.mark fun plane =>
          if plane.isCoverage then Block.word added plane index else 0)) ()
      maskTop number target.kind target.width
  else return ()

/-- Merge a record from the front of a text, and tell what remains unread. -/
def mergeRecord (target : Handle) (text : List Char) (options : RecordOptions) :
    Stepwise (List Char) :=
  match Reader.header text with
  | .error error rest => recordFailed error rest
  | .ok (width, descriptor) rest =>
      if descriptor.kind ≠ target.kind then
        recordFailed (.kindMismatch target.kind descriptor.kind) rest
      else if width ≠ target.width then
        if options.strictMerge then
          recordFailed (.widthMismatch target.width width) rest
        else do
          report (.recordSkipped width target.width)
          match Reader.planes width descriptor rest with
          | .error error rest => throw (.failure (.record error rest))
          | .ok _ rest => return rest
      else
        match Reader.planes width descriptor rest with
        | .error error rest => recordFailed error rest
        | .ok run rest => do
            if descriptor.ownsStorage then
              addCoverage target (slicesOfRun descriptor.kind (wordCount width) run).toArray
            report (.recordMerged width descriptor.kind)
            return rest

/-! ## Two blocks -/

section Copies

variable {heap : Heap} {target source : Handle} {number other : Nat}

/-- A loop that reads the words of another block changes each word with the one there. -/
theorem visit_other_run
    {borrows : Borrows}
    (isBlock : number < heap.blocks.size)
    (differs : other ≠ number)
    (sameSize : (heap.block other).size = (heap.block number).size)
    (change : Slice 32 → Slice 32 → Slice 32) :
    run (visit number 0 (heap.block number).size (fun _ index slice => do
        let added ← word other index
        return ((), change added slice)) ()) borrows heap =
      (.ok (), heap.setBlock number ((heap.block number).mapIdx fun index slice =>
        change ((heap.block other).slice index) slice)) := by
  refine visit_run (fun _ => ()) isBlock rfl (fun _ _ _ _ => by omega) (by omega)
    fun index inBlock _ _ => ?_
  have inOther : index < (heap.block other).size := by omega
  rw [bind_of_ok (word_run (heap.block_setBlock_of_ne differs _) inOther),
    Block.slice_of_lt _ inOther]
  rfl

/-- With two blocks, one can be read while the other is written. -/
theorem settles_apart
    {answer : Type}
    {program : Nat → Nat → Stepwise answer}
    (result : Block → Block → Block)
    {value : answer}
    (apart : sharesWith target source = false)
    (runs : ∀ other number, source.storage.content? = some other →
      target.storage.content? = some number → other ≠ number → ∀ borrows,
      run (program other number) borrows heap =
        (.ok value, heap.setBlock number (result (heap.block other) (heap.block number)))) :
    Settles (do
        let other ← blockOf source
        reading other do
          let number ← blockOf target
          writing number (program other number)) heap target
      (do
        let read ← (heap.load source).block
        let written ← (heap.load target).block
        .ok ((heap.load target).withBlock (result read written), value)) := by
  unfold Settles
  cases sourceRefers : source.storage.content? with
  | none =>
      rw [bind_of_stop (blockOf_of_widthOnly sourceRefers), LogicVector.block,
        heap.content?_load_of_widthOnly sourceRefers]
      rfl
  | some other =>
      rw [bind_of_ok (blockOf_eq_ok sourceRefers), reading_run (by simp [Borrows.none]),
        heap.block_load sourceRefers]
      cases refers : target.storage.content? with
      | none =>
          rw [bind_of_stop (blockOf_of_widthOnly refers), LogicVector.block,
            heap.content?_load_of_widthOnly refers]
          rfl
      | some number =>
          have differs : number ≠ other := by
            simpa [sharesWith, sourceRefers, refers] using apart
          rw [bind_of_ok (blockOf_eq_ok refers),
            writing_run (by simpa [Borrows.none] using differs) (by simp [Borrows.none]),
            runs other number sourceRefers refers differs.symm, heap.block_load refers]
          change _ = (Except.ok value, heap.put target
            ((heap.load target).withBlock (result (heap.block other) (heap.block number))))
          rw [heap.put_withBlock refers]

/-- Vectors that share their words have one block. -/
theorem exists_block_of_sharesWith (shares : sharesWith target source = true) :
    ∃ block, (heap.load target).block = .ok block ∧ (heap.load source).block = .ok block := by
  unfold sharesWith at shares
  cases refers : target.storage.content? with
  | none => simp [refers] at shares
  | some number =>
      cases sourceRefers : source.storage.content? with
      | none => simp [refers, sourceRefers] at shares
      | some other =>
          obtain rfl : number = other := by simpa [refers, sourceRefers] using shares
          exact ⟨heap.block number, heap.block_load refers, heap.block_load sourceRefers⟩

/-- The coverage in the live planes is all the coverage of a block that fits its kind. -/
theorem coverage_of_livePlanes
    {width : Nat}
    {kind : Kind}
    {block : Block}
    (fits : block.Fits clipped width kind)
    (index : Nat)
    (plane : Plane) :
    (if plane.isCoverage && kind.hasPlane plane then (block.slice index).get plane else 0) =
      if plane.isCoverage then block.word plane index else 0 := by
  cases live : kind.hasPlane plane with
  | true => simp [Block.word]
  | false => simp [Block.word, fits.get_slice_of_not_hasPlane live]

section WellFormed

variable
  (wellFormed : (heap.load target).WellFormed clipped)
  (sourceWellFormed : (heap.load source).WellFormed clipped)

include wellFormed sourceWellFormed

/-- Copying word by word is copying all words at once, and nothing within one block. -/
theorem copyFrom_settles :
    Settles (copyFrom target source) heap target
      ((fun vector => (vector, ())) <$> (heap.load target).copyFrom (heap.load source)) := by
  rw [LogicVector.copyFrom, map_bind]
  refine settles_require fun sameWidth => ?_
  rw [map_bind]
  refine settles_require fun sameKind => ?_
  change (heap.load target).width = (heap.load source).width at sameWidth
  change (heap.load target).kind = (heap.load source).kind at sameKind
  cases shares : sharesWith target source with
  | true =>
      obtain ⟨block, stored, sourceStored⟩ := @exists_block_of_sharesWith heap _ _ shares
      have copies := LogicVector.copyFrom_of_same_block stored sourceStored sameWidth.symm
        sameKind.symm
      rw [LogicVector.copyFrom, require_bind_of_true sameWidth, require_bind_of_true sameKind]
        at copies
      rw [copies]
      exact settles_pure ()
  | false =>
      simp only [map_bind]
      refine settles_apart (fun read _ => read) shares
        fun other number sourceRefers refers differs borrows => ?_
      have sameSize : (heap.block other).size = (heap.block number).size := by
        rw [Heap.size_block sourceWellFormed sourceRefers, Heap.size_block wellFormed refers]
        exact congrArg wordCount sameWidth.symm
      have copied : ((heap.block number).mapIdx fun index _ => (heap.block other).slice index) =
          heap.block other := by
        refine Array.ext (by simpa using sameSize.symm) fun index _ inOther => ?_
        rw [Array.getElem_mapIdx, Block.slice_of_lt _ inOther]
      rw [bind_of_ok size_run, bind_of_ok size_run, require_run sameSize.symm,
        visit_other_run (Heap.lt_size_blocks wellFormed refers) differs sameSize
          fun added _ => added, copied]

/-- Merging word by word is merging all words at once, and nothing within one block. -/
theorem merge_settles :
    Settles (merge target source) heap target
      ((fun vector => (vector, ())) <$> (heap.load target).merge (heap.load source)) := by
  rw [LogicVector.merge, map_bind]
  refine settles_require fun sameWidth => ?_
  rw [map_bind]
  refine settles_require fun sameKind => ?_
  change (heap.load target).width = (heap.load source).width at sameWidth
  change (heap.load target).kind = (heap.load source).kind at sameKind
  cases shares : sharesWith target source with
  | true =>
      obtain ⟨block, stored, sourceStored⟩ := @exists_block_of_sharesWith heap _ _ shares
      have merges := LogicVector.merge_of_same_block stored sourceStored sameWidth.symm
        sameKind.symm
      rw [LogicVector.merge, require_bind_of_true sameWidth, require_bind_of_true sameKind]
        at merges
      rw [merges]
      exact settles_pure ()
  | false =>
      simp only [map_bind]
      refine settles_apart (fun read written => written.mapIdx fun index slice =>
        slice.mark fun plane => if plane.isCoverage then read.word plane index else 0) shares
        fun other number sourceRefers refers differs borrows => ?_
      have sameSize : (heap.block other).size = (heap.block number).size := by
        rw [Heap.size_block sourceWellFormed sourceRefers, Heap.size_block wellFormed refers]
        exact congrArg wordCount sameWidth.symm
      have fits := sourceWellFormed.block_fits _ (heap.block_load sourceRefers)
      have live : target.kind = (heap.load source).kind := sameKind
      rw [bind_of_ok size_run, bind_of_ok size_run, Nat.min_eq_left (by omega),
        visit_other_run (Heap.lt_size_blocks wellFormed refers) differs sameSize
          fun added slice => slice.mark fun plane =>
            if plane.isCoverage && target.kind.hasPlane plane then added.get plane else 0]
      simp only [live, coverage_of_livePlanes fits]

end WellFormed

/-! ## Ranges -/

theorem reads_nextWord (number start : Nat) :
    Reads (nextWord number start) heap
      (.ok (if start % 32 = 0 then Slice.empty
        else (heap.block number).slice (start / 32 + 1))) := by
  unfold nextWord
  split
  · exact reads_pure _
  · intro borrows unwritten
    rw [bind_of_ok size_run]
    split
    · rename_i inBlock
      rw [word_run rfl inBlock, Block.slice_of_lt _ inBlock]
      rfl
    · rename_i outside
      rw [Block.slice_of_size_le _ (Nat.le_of_not_lt outside)]
      rfl

/-- The bits of the live planes from a position on, as one word. -/
def extracted (block : Block) (kind : Kind) (limit start : Nat) : Slice 32 :=
  Slice.ofPlanes fun plane => if kind.hasPlane plane then block.extract plane start limit else 0

theorem reads_extract
    {kind : Kind}
    {limit start : Nat}
    (inBlock : limit ≤ 32 * (heap.block number).size) :
    Reads (extract number kind limit start) heap
      (.ok (extracted (heap.block number) kind limit start)) := by
  unfold extract
  split
  · rename_i outside
    have nothing : extracted (heap.block number) kind limit start = Slice.empty := by
      refine Slice.ext fun plane => ?_
      have noBits : (Mask.low (limit - start) : Word) = 0 := by
        rw [Nat.sub_eq_zero_of_le outside]
        decide
      rw [extracted, Slice.get_ofPlanes, Slice.get_empty, Block.extract, noBits]
      split
      · exact BitVec.and_zero
      · rfl
    rw [nothing]
    exact reads_pure _
  · rename_i inside
    have startInBlock : start / 32 < (heap.block number).size := by omega
    have same : extracted (heap.block number) kind limit start = Slice.ofPlanes fun plane =>
        if kind.hasPlane plane then
          BitWord.window (fun index =>
            if index = start / 32 then ((heap.block number)[start / 32]).get plane
            else (if start % 32 = 0 then Slice.empty
              else (heap.block number).slice (start / 32 + 1)).get plane) start &&&
              Mask.low (limit - start)
        else 0 := by
      refine congrArg Slice.ofPlanes (funext fun plane => ?_)
      unfold Block.extract BitWord.window Block.word
      rw [← Block.slice_of_lt _ startInBlock]
      by_cases aligned : start % 32 = 0
      · simp [aligned]
      · simp [aligned]
    rw [same]
    exact (reads_word startInBlock).bind fun _ _ =>
      (reads_nextWord number start).bind fun _ _ => reads_pure _

/-- As many words from a position on. -/
def extractedAll (block : Block) (kind : Kind) (limit lsb count : Nat) : Block :=
  Array.ofFn fun index : Fin count => extracted block kind limit (lsb + 32 * index.val)

@[simp] theorem size_extractedAll (block : Block) (kind : Kind) (limit lsb count : Nat) :
    (extractedAll block kind limit lsb count).size = count :=
  Array.size_ofFn

theorem getElem_extractedAll
    {block : Block}
    {kind : Kind}
    {limit lsb count index : Nat}
    (inWords : index < (extractedAll block kind limit lsb count).size) :
    (extractedAll block kind limit lsb count)[index] =
      extracted block kind limit (lsb + 32 * index) :=
  Array.getElem_ofFn _

/-- In the planes that are left out, nothing is extracted. -/
theorem get_extractedAll_of_not_hasPlane
    {block : Block}
    {kind : Kind}
    {plane : Plane}
    (notLive : kind.hasPlane plane = false)
    (limit lsb count index : Nat) :
    ((extractedAll block kind limit lsb count).slice index).get plane = 0 := by
  by_cases inWords : index < (extractedAll block kind limit lsb count).size
  · rw [Block.slice_of_lt _ inWords]
    simp [getElem_extractedAll, extracted, notLive]
  · rw [Block.slice_of_size_le _ (Nat.le_of_not_lt inWords)]
    exact Slice.get_empty plane

theorem reads_extractAll
    (sourceWellFormed : (heap.load source).WellFormed clipped)
    (kind : Kind)
    (lsb count : Nat) :
    Reads (extractAll source kind lsb count) heap
      ((heap.load source).block >>= fun block =>
        .ok (extractedAll block kind source.width lsb count)) := by
  refine reads_block fun number refers => ?_
  have enough : source.width ≤ 32 * (heap.block number).size := by
    rw [Heap.size_block sourceWellFormed refers]
    exact le_wordCount source.width
  have collects := @reads_collect heap _
    (fun index => extract number kind source.width (lsb + 32 * index))
    (extractedAll (heap.block number) kind source.width lsb count)
    fun index inWords => by
      rw [getElem_extractedAll]
      exact reads_extract enough
  rwa [size_extractedAll] at collects

/-! ## The last word -/

/-- Cutting the last word of a block that has as many words as the width needs, and nothing
in the other planes, is cutting the block. -/
theorem maskTop_run
    {borrows : Borrows}
    {block : Block}
    {kind : Kind}
    {width : Nat}
    (isBlock : number < heap.blocks.size)
    (shows : heap.block number = block)
    (widthPositive : 0 < width)
    (sized : block.size = wordCount width)
    (dead : ∀ index plane, kind.hasPlane plane = false → (block.slice index).get plane = 0) :
    run (maskTop number kind width) borrows heap =
      (.ok (), heap.setBlock number (block.restrict width)) := by
  have enough := le_wordCount width
  have cuts : (block.mapIdx fun index slice =>
      if index + 1 = block.size then maskPlanes kind (Mask.top width) slice else slice) =
      block.restrict width := by
    refine Array.ext (by simp) fun index inMapped inRestricted => Slice.ext fun plane => ?_
    have inBlock : index < block.size := by simpa using inMapped
    simp only [Block.restrict, Array.getElem_mapIdx, Slice.get_restrict]
    split
    · rename_i isLast
      rw [Mask.inside_of_last (isLast.trans sized), maskPlanes, Slice.get_ofPlanes]
      split
      · rfl
      · rename_i notLive
        have zero := dead index plane (by simpa using notLive)
        rw [Block.slice_of_lt _ inBlock] at zero
        rw [zero]
        exact BitVec.zero_and.symm
    · rw [Mask.inside_of_not_last (by omega), BitVec.and_allOnes]
  rw [maskTop, bind_of_ok size_run, shows, Nat.min_eq_left (by omega), ← cuts]
  refine visit_run (fun _ => ()) isBlock shows (fun index slice inBlock outside => ?_) (by omega)
    fun index inBlock _ _ => ?_
  · rw [if_neg (by omega)]
  · rw [if_pos (by omega)]
    rfl

section WellFormed

variable
  (wellFormed : (heap.load target).WellFormed clipped)
  (sourceWellFormed : (heap.load source).WellFormed clipped)

include wellFormed sourceWellFormed

omit wellFormed in
/-- In the planes that are left out, there is nothing to be read. -/
theorem extracted_eq
    {block : Block}
    (stored : (heap.load source).block = .ok block)
    (limit start : Nat) :
    extracted block source.kind limit start =
      Slice.ofPlanes fun plane => block.extract plane start limit := by
  have fits := sourceWellFormed.block_fits block stored
  refine congrArg Slice.ofPlanes (funext fun plane => ?_)
  cases live : source.kind.hasPlane plane with
  | true => rfl
  | false =>
      have zero := fits.get_slice_of_not_hasPlane live
      have noBits : BitWord.window (block.word plane) start = 0 := by
        refine BitVec.eq_of_getLsbD_eq fun offset inWord => ?_
        rw [BitWord.getLsbD_window _ _ inWord, Block.word, zero]
        exact BitVec.getLsbD_zero.trans BitVec.getLsbD_zero.symm
      rw [Block.extract, noBits]
      exact BitVec.zero_and.symm

omit wellFormed in
/-- Copying a range reads its words, and then gives them to the target. -/
theorem copyRange_eq
    (sameKind : target.kind = source.kind)
    {lsb : Nat}
    (inSource : lsb < source.width) :
    (heap.load target).copyRange (heap.load source) lsb =
      ((heap.load source).block >>= fun block => .ok
        (extractedAll block target.kind source.width lsb (wordCount target.width))) >>=
      fun copied => (heap.load target).block >>= fun _ =>
        .ok ((heap.load target).withBlock (Block.restrict copied target.width)) := by
  have loadedKind : (heap.load target).kind = (heap.load source).kind := sameKind
  have inLoaded : lsb < (heap.load source).width := inSource
  rw [LogicVector.copyRange, require_bind_of_true loadedKind, require_bind_of_true inLoaded]
  cases stored : (heap.load source).block with
  | error fault => rfl
  | ok block =>
      have sameWords : extractedAll block target.kind source.width lsb (wordCount target.width) =
          Array.ofFn fun index : Fin (wordCount target.width) =>
            Slice.ofPlanes fun plane => block.extract plane (lsb + 32 * index.val) source.width := by
        simp only [extractedAll, sameKind, extracted_eq sourceWellFormed stored]
      change _ = (heap.load target).block >>= fun _ => Except.ok ((heap.load target).withBlock
        (Block.restrict (extractedAll block target.kind source.width lsb
          (wordCount target.width)) target.width))
      rw [sameWords]
      rfl

/-- A range is copied as a whole before a word of the target is written. -/
theorem copyRange_settles (lsb : Nat) :
    Settles (copyRange target source lsb) heap target
      ((fun vector => (vector, ())) <$> (heap.load target).copyRange (heap.load source) lsb) := by
  rw [LogicVector.copyRange, map_bind]
  refine settles_require fun sameKind => ?_
  rw [map_bind]
  refine settles_require fun inSource => ?_
  have loadedKind : (heap.load target).kind = (heap.load source).kind := sameKind
  have inLoaded : lsb < (heap.load source).width := inSource
  have copies := copyRange_eq sourceWellFormed sameKind inSource
  rw [LogicVector.copyRange, require_bind_of_true loadedKind, require_bind_of_true inLoaded]
    at copies
  rw [copies, map_bind]
  refine (reads_extractAll sourceWellFormed _ _ _).settles fun copied reads => ?_
  rw [map_bind]
  refine settles_block fun number refers => settles_writing refers fun borrows => ?_
  have isBlock := Heap.lt_size_blocks wellFormed refers
  have widthPositive : 0 < target.width := wellFormed.width_pos
  obtain ⟨block, -, same⟩ := bind_eq_ok_iff.1 reads
  have isCopied : extractedAll block target.kind source.width lsb (wordCount target.width) =
      copied :=
    Except.ok.inj same
  have sized : copied.size = wordCount target.width := by
    rw [← isCopied, size_extractedAll]
  have sameSize : (heap.block number).size = copied.size :=
    (Heap.size_block wellFormed refers).trans sized.symm
  have dead (index : Nat) (plane : Plane) (notLive : target.kind.hasPlane plane = false) :
      (copied.slice index).get plane = 0 := by
    rw [← isCopied]
    exact get_extractedAll_of_not_hasPlane notLive _ _ _ index
  have writes : ((heap.block number).mapIdx fun index _ => copied.slice index) = copied := by
    refine Array.ext (by simpa using sameSize) fun index _ inCopied => ?_
    rw [Array.getElem_mapIdx, Block.slice_of_lt _ inCopied]
  rw [bind_of_ok size_run, require_run sameSize,
    bind_of_ok (visit_all_run isBlock rfl fun index _ => copied.slice index), writes,
    maskTop_run (by simpa using isBlock) (heap.block_setBlock isBlock copied) widthPositive
      sized dead, Heap.setBlock_setBlock]

end WellFormed

/-! ## Evaluations and records -/

/-- A mark of one plane before a mark of others is a mark of all of them. -/
theorem mark_markPlane
    (slice : Slice 32)
    (first : Plane)
    (rest : List Plane)
    (marks : Plane → Word) :
    ((slice.markPlane first (marks first)).mark fun plane =>
        if rest.contains plane then marks plane else 0) =
      slice.mark fun plane => if (first :: rest).contains plane then marks plane else 0 := by
  refine Slice.ext fun plane => ?_
  rw [Slice.get_mark, Slice.get_mark, Slice.get_markPlane]
  by_cases isFirst : plane = first
  · subst isFirst
    rw [if_pos rfl, if_pos (List.contains_iff_mem.2 List.mem_cons_self), BitVec.or_assoc]
    split
    · rw [BitVec.or_self]
    · rw [show marks plane ||| 0 = marks plane from BitVec.or_zero]
  · simp only [List.contains_cons, beq_eq_false_iff_ne.2 isFirst, Bool.false_or, isFirst, if_false]

/-- Marks of several planes, one plane after the other, are one mark of all of them. -/
theorem forM_markPlane_run
    {borrows : Borrows}
    {block : Block}
    {count : Nat}
    (isBlock : number < heap.blocks.size)
    (shows : heap.block number = block)
    (sized : count = block.size)
    (planes : List Plane)
    (marks : Nat → Plane → Word) :
    run (forM planes fun plane => visit number 0 count
        (fun _ index slice => return ((), slice.markPlane plane (marks index plane))) ())
        borrows heap =
      (.ok (), heap.setBlock number (block.mapIdx fun index slice =>
        slice.mark fun plane => if planes.contains plane then marks index plane else 0)) := by
  subst sized
  induction planes generalizing heap block with
  | nil =>
      have unmarked : (block.mapIdx fun index slice =>
          slice.mark fun plane => if List.contains [] plane then marks index plane else 0) = block := by
        refine Array.ext (by simp) fun index _ _ => Slice.ext fun plane => ?_
        rw [Array.getElem_mapIdx, Slice.get_mark]
        exact BitVec.or_zero
      rw [unmarked, ← shows, Heap.setBlock_self]
      rfl
  | cons first rest inductionHypothesis =>
      have marksFirst := @visit_all_run borrows _ _ _ isBlock shows fun index slice =>
        slice.markPlane first (marks index first)
      have marksRest := @inductionHypothesis
        (heap.setBlock number (block.mapIdx fun index slice =>
          slice.markPlane first (marks index first)))
        _ (by simpa using isBlock) (heap.block_setBlock isBlock _)
      rw [Array.size_mapIdx] at marksRest
      rw [List.forM_cons, bind_of_ok marksFirst, marksRest, Heap.setBlock_setBlock,
        Array.mapIdx_mapIdx]
      simp only [Function.comp_def, mark_markPlane]

/-- Marking plane by plane is marking all planes at once, where only those planes are marked. -/
theorem markEvaluations_settles
    (wellFormed : (heap.load target).WellFormed clipped)
    (planes : List Plane)
    (marks : Nat → Plane → Word)
    (only : ∀ index plane, plane ∉ planes → marks index plane = 0) :
    Settles (markEvaluations target planes marks) heap target
      ((fun vector => (vector, ())) <$> (heap.load target).markEvaluations marks) := by
  rw [LogicVector.markEvaluations, map_bind]
  refine settles_require fun _ => ?_
  rw [map_bind]
  refine settles_block fun number refers => settles_writing refers fun borrows => ?_
  have onlyThese (index : Nat) :
      (fun plane => if planes.contains plane then marks index plane else 0) = marks index := by
    funext plane
    split
    · rfl
    · rename_i notThere
      exact (only index plane fun isMember => notThere (List.contains_iff_mem.2 isMember)).symm
  rw [bind_of_ok size_run,
    forM_markPlane_run (Heap.lt_size_blocks wellFormed refers) rfl rfl planes marks]
  simp only [onlyThese]

theorem evaluateUnary_settles (wellFormed : (heap.load target).WellFormed clipped) :
    Settles (evaluateUnary target) heap target
      ((fun vector => (vector, ())) <$> (heap.load target).evaluateUnary) := by
  rw [LogicVector.evaluateUnary, map_bind]
  refine (reads_snapshot target).settles fun value _ =>
    markEvaluations_settles wellFormed _ _ fun index plane notThere => ?_
  simp only [List.mem_cons, List.not_mem_nil, or_false, not_or] at notThere
  rw [if_neg notThere.1, if_neg notThere.2]

theorem evaluate_settles
    (wellFormed : (heap.load target).WellFormed clipped)
    (evaluation : Evaluation)
    (left right : Handle) :
    Settles (evaluate target evaluation left right) heap target
      ((fun vector => (vector, ())) <$>
        (heap.load target).evaluate evaluation (heap.load left) (heap.load right)) := by
  unfold LogicVector.evaluate
  simp only [map_bind]
  refine (reads_snapshot left).settles fun leftValue _ =>
    (reads_snapshot right).settles fun rightValue _ =>
      markEvaluations_settles wellFormed _ _ fun index plane notThere => ?_
  cases evaluation <;>
    simp_all [Evaluation.planes, Evaluation.marks]

/-- Coverage that has been read is added word by word, and the last word is cut. -/
theorem addCoverage_run
    (wellFormed : (heap.load target).WellFormed clipped)
    {added : Block}
    (sameSize : added.size = wordCount target.width)
    (dead : ∀ index plane, target.kind.hasPlane plane = false → added.word plane index = 0) :
    run (addCoverage target added) Borrows.none heap =
      (.ok (), heap.put target ((heap.load target).addCoverage added)) := by
  rw [addCoverage, Storage.isAllocated_eq_isSome]
  cases refers : target.storage.content? with
  | none =>
      rw [Heap.put, refers]
      rfl
  | some number =>
      have isBlock := Heap.lt_size_blocks wellFormed refers
      have sized := Heap.size_block wellFormed refers
      have widthPositive : 0 < target.width := wellFormed.width_pos
      have fits := wellFormed.block_fits _ (heap.block_load refers)
      let mark (index : Nat) (slice : Slice 32) : Slice 32 :=
        slice.mark fun plane => if plane.isCoverage then added.word plane index else 0
      have puts : heap.put target ((heap.load target).addCoverage added) =
          heap.setBlock number (Block.restrict ((heap.block number).mapIdx mark) target.width) := by
        simp [Heap.put, refers, LogicVector.addCoverage, mark, Heap.load]
      have stillDead (index : Nat) (plane : Plane) (notLive : target.kind.hasPlane plane = false) :
          (Block.slice ((heap.block number).mapIdx mark) index).get plane = 0 := by
        by_cases inBlock : index < (heap.block number).size
        · rw [Block.slice_mapIdx _ _ inBlock, Slice.get_mark, dead index plane notLive, ite_self,
            fits.get_slice_of_not_hasPlane notLive]
          exact BitVec.or_zero
        · rw [Block.slice_of_size_le _ (by simpa using inBlock)]
          exact Slice.get_empty plane
      have marked := @visit_all_run
        { reading := [], writing := [number] } heap (heap.block number) number isBlock rfl mark
      rw [puts]
      change run (blockOf target >>= fun number => _) Borrows.none heap = _
      rw [bind_of_ok (blockOf_eq_ok refers), writing_run (by simp [Borrows.none])
        (by simp [Borrows.none]), bind_of_ok size_run, Nat.min_eq_left (by omega)]
      refine (bind_of_ok marked _).trans ?_
      rw [maskTop_run (by simpa using isBlock) (heap.block_setBlock isBlock _) widthPositive
        (by simpa using sized) stillDead, Heap.setBlock_setBlock]

/-- Words that have been read have no bits outside the planes of their kind. -/
theorem word_slicesOfRun_of_not_hasPlane
    {kind : Kind}
    {count : Nat}
    {run : List Word}
    {plane : Plane}
    (notLive : kind.hasPlane plane = false)
    (index : Nat) :
    Block.word (slicesOfRun kind count run).toArray plane index = 0 := by
  unfold Block.word
  by_cases inWords : index < (slicesOfRun kind count run).toArray.size
  · rw [Block.slice_of_lt _ inWords]
    exact get_of_mem_slicesOfRun (List.mem_toArray.1 (Array.getElem_mem inWords)) notLive
  · rw [Block.slice_of_size_le _ (Nat.le_of_not_lt inWords)]
    exact Slice.get_empty plane

/-- A record that cannot be merged is logged and changes nothing. -/
theorem recordFailed_run (error : RecordError) (rest : List Char) :
    run (recordFailed error rest) Borrows.none heap =
      finished heap target (Outcome.recordFailed error rest) :=
  rfl

/-- A record is merged as a whole, or not at all. -/
theorem mergeRecord_run
    (wellFormed : (heap.load target).WellFormed clipped)
    (text : List Char)
    (options : RecordOptions) :
    run (mergeRecord target text options) Borrows.none heap =
      finished heap target ((heap.load target).mergeRecord text options) := by
  unfold mergeRecord LogicVector.mergeRecord
  cases Reader.header text with
  | error error rest => exact recordFailed_run error rest
  | ok header rest =>
      obtain ⟨width, descriptor⟩ := header
      dsimp only
      by_cases otherKind : descriptor.kind ≠ target.kind
      · have loadedKind : descriptor.kind ≠ (heap.load target).kind := otherKind
        rw [if_pos otherKind, if_pos loadedKind]
        exact recordFailed_run _ rest
      have loadedKind : ¬descriptor.kind ≠ (heap.load target).kind := otherKind
      rw [if_neg otherKind, if_neg loadedKind]
      by_cases otherWidth : width ≠ target.width
      · have loadedWidth : width ≠ (heap.load target).width := otherWidth
        rw [if_pos otherWidth, if_pos loadedWidth]
        split
        · exact recordFailed_run _ rest
        · cases Reader.planes width descriptor rest with
          | error error rest => rfl
          | ok run rest =>
              exact (finished_of_unchanged _ _).symm
      have loadedWidth : ¬width ≠ (heap.load target).width := otherWidth
      rw [if_neg otherWidth, if_neg loadedWidth]
      cases Reader.planes width descriptor rest with
      | error error rest => exact recordFailed_run error rest
      | ok run rest =>
          have sameKind : descriptor.kind = target.kind := not_not.1 otherKind
          have sameWidth : width = target.width := not_not.1 otherWidth
          have sameSize : (slicesOfRun descriptor.kind (wordCount width) run).toArray.size =
              wordCount target.width := by
            rw [← sameWidth, List.size_toArray, length_slicesOfRun]
          have dead (index : Nat) (plane : Plane)
              (notLive : target.kind.hasPlane plane = false) :
              Block.word (slicesOfRun descriptor.kind (wordCount width) run).toArray plane index =
                0 :=
            word_slicesOfRun_of_not_hasPlane (by rwa [sameKind]) index
          dsimp only
          split
          · rw [bind_of_ok (addCoverage_run wellFormed sameSize dead)]
            rfl
          · exact (finished_of_unchanged _ _).symm

end Copies

end Stepwise
end FourState
