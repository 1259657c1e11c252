import FourState.Record.Merge
import FourState.Proofs.WellFormed

/-!
# Vectors from records

What a successful read has taken: a record gives a well-formed vector, because
its width is checked, its words fill the live planes only, and the bits past
the width are dropped.  Merging takes the words of a record in one run, which are
the words that reading takes position by position.
-/

namespace FourState
namespace Reader

-- What is read from a concrete text can be decided.
deriving instance DecidableEq for EStateM.Result

section

variable {first second : Type} {step : Reader first} {next : first → Reader second}
variable {text middle rest : List Char}

theorem bind_of_ok
    {between : first}
    (takes : step text = .ok between middle) :
    (step >>= next) text = next between middle := by
  change EStateM.bind step next text = _
  rw [EStateM.bind, takes]

theorem bind_of_error
    {error : RecordError}
    (fails : step text = .error error middle) :
    (step >>= next) text = .error error middle := by
  change EStateM.bind step next text = _
  rw [EStateM.bind, fails]

theorem map_of_ok
    {between : first}
    (change : first → second)
    (takes : step text = .ok between middle) :
    (change <$> step) text = .ok (change between) middle := by
  show EStateM.map change step text = _
  rw [EStateM.map, takes]

/-- Two reads succeed exactly when the second succeeds on what the first leaves. -/
theorem bind_eq_ok_iff {value : second} :
    (step >>= next) text = .ok value rest ↔
      ∃ between middle, step text = .ok between middle ∧ next between middle = .ok value rest := by
  cases takes : step text with
  | error error middle => simp [bind_of_error takes]
  | ok between middle =>
      rw [bind_of_ok takes]
      constructor
      · intro succeeds
        exact ⟨between, middle, rfl, succeeds⟩
      · rintro ⟨_, _, same, succeeds⟩
        cases same
        exact succeeds

/-- Only what the first read can give counts for the second. -/
theorem bind_congr_of_ok
    {other : first → Reader second}
    (agree : ∀ between text rest, step text = .ok between rest → next between = other between) :
    step >>= next = step >>= other := by
  funext text
  cases takes : step text with
  | error error middle =>
      exact (bind_of_error takes).trans (bind_of_error takes).symm
  | ok between middle =>
      have same : next between middle = other between middle := by
        rw [agree between text middle takes]
      exact (bind_of_ok takes).trans (same.trans (bind_of_ok takes).symm)

end

/-- Taking the same thing several times gives that many things, each of them
taken from some text. -/
theorem times_eq_ok
    {item : Type}
    {take : Reader item}
    {count : Nat}
    {items : List item}
    {text rest : List Char}
    (succeeds : times take count text = .ok items rest) :
    items.length = count ∧
      ∀ taken ∈ items, ∃ before after, take before = .ok taken after := by
  induction count generalizing items text with
  | zero =>
      cases succeeds
      simp
  | succ count inductionHypothesis =>
      obtain ⟨first, middle, takesFirst, succeeds⟩ := bind_eq_ok_iff.1 succeeds
      obtain ⟨others, last, takesOthers, succeeds⟩ := bind_eq_ok_iff.1 succeeds
      cases succeeds
      obtain ⟨length, each⟩ := inductionHypothesis takesOthers
      refine ⟨by simp [length], ?_⟩
      intro taken isTaken
      obtain rfl | inOthers := List.mem_cons.1 isTaken
      · exact ⟨text, middle, takesFirst⟩
      · exact each taken inOthers

/-- Taking more things is taking some and then the others. -/
theorem times_add {item : Type} (take : Reader item) (count more : Nat) :
    times take (count + more) = do
      let front ← times take count
      let back ← times take more
      return front ++ back := by
  induction count with
  | zero => simp [times]
  | succ count inductionHypothesis =>
      rw [Nat.succ_add, times, times, inductionHypothesis]
      simp only [bind_assoc, pure_bind, List.cons_append]

/-! ## Slices and runs -/

/-- The words of several positions, taken position by position, are those of one run,
cut into slices. -/
theorem times_slice (kind : Kind) (count : Nat) :
    times (slice kind) count =
      slicesOfRun kind count <$> times plane (count * kind.planeCount) := by
  induction count with
  | zero =>
      rw [Nat.zero_mul]
      rfl
  | succ count inductionHypothesis =>
      rw [times, inductionHypothesis, Nat.succ_mul, Nat.add_comm (count * kind.planeCount),
        times_add, slice]
      simp only [map_eq_pure_bind, bind_assoc, pure_bind]
      apply bind_congr_of_ok
      intro front text rest takes
      have length : front.length = kind.planeCount := (times_eq_ok takes).1
      simp only [slicesOfRun, List.take_left' length, List.drop_left' length]

/-- The words of a record can be taken in one run and cut into slices afterwards. -/
theorem words_eq_map_planes (width : Nat) (descriptor : Descriptor) :
    words width descriptor =
      (fun run =>
        if descriptor.ownsStorage then
          (slicesOfRun descriptor.kind (wordCount width) run).toArray
        else #[]) <$> planes width descriptor := by
  unfold words planes Descriptor.tokenCount
  cases descriptor.ownsStorage with
  | false => rfl
  | true => simp only [if_true, times_slice, map_eq_pure_bind, bind_assoc, pure_bind]

/-- The run is taken and fails like the words, position by position. -/
theorem words_eq_match (width : Nat) (descriptor : Descriptor) (text : List Char) :
    words width descriptor text =
      match planes width descriptor text with
      | .error error rest => .error error rest
      | .ok run rest =>
          .ok
            (if descriptor.ownsStorage then
              (slicesOfRun descriptor.kind (wordCount width) run).toArray
            else #[])
            rest := by
  rw [words_eq_map_planes]
  change EStateM.map _ _ text = _
  unfold EStateM.map
  cases planes width descriptor text <;> rfl

/-! ## What is read -/

/-- A slice of a record has no bits outside the live planes. -/
theorem get_slice_of_planeCount_le
    {kind : Kind}
    {slice : Slice 32}
    {text rest : List Char}
    (succeeds : Reader.slice kind text = .ok slice rest)
    {plane : Plane}
    (dead : kind.planeCount ≤ plane.val) :
    slice.get plane = 0 := by
  obtain ⟨words, middle, takes, succeeds⟩ := bind_eq_ok_iff.1 succeeds
  cases succeeds
  have length := (times_eq_ok takes).1
  have outside : words.length ≤ plane.val := by omega
  rw [Slice.get_ofPlanes, List.getD_eq_getElem?_getD, List.getElem?_eq_none outside]
  rfl

/-- The words of a record are as many as the width needs, with bits in live
planes only. -/
theorem words_eq_ok
    {width : Nat}
    {descriptor : Descriptor}
    {block : Block}
    {text rest : List Char}
    (succeeds : words width descriptor text = .ok block rest)
    (owns : descriptor.ownsStorage = true) :
    block.size = wordCount width ∧
      ∀ position plane, block.cell position plane = true →
        plane.val < descriptor.kind.planeCount := by
  unfold words at succeeds
  rw [if_pos owns] at succeeds
  obtain ⟨slices, middle, takes, succeeds⟩ := bind_eq_ok_iff.1 succeeds
  cases succeeds
  obtain ⟨length, each⟩ := times_eq_ok takes
  refine ⟨by simpa using length, ?_⟩
  intro position plane set
  apply Nat.lt_of_not_le
  intro dead
  by_cases inBounds : position / 32 < slices.toArray.size
  · rw [Block.cell_eq_slice_cell, Block.slice_of_lt _ inBounds] at set
    obtain ⟨before, after, takesSlice⟩ :=
      each _ (Array.mem_toList_iff.2 (Array.getElem_mem inBounds))
    rw [Slice.cell, Slice.bit, get_slice_of_planeCount_le takesSlice dead] at set
    simp at set
  · rw [Block.cell_of_size_le _ (by omega)] at set
    contradiction

theorem width_eq_ok
    {width : Nat}
    {text rest : List Char}
    (succeeds : Reader.width text = .ok width rest) :
    0 < width ∧ width ≤ maxWidth := by
  obtain ⟨number, middle, takes, succeeds⟩ := bind_eq_ok_iff.1 succeeds
  by_cases zero : number = 0
  · rw [if_pos zero] at succeeds
    contradiction
  · rw [if_neg zero] at succeeds
    by_cases tooWide : maxWidth < number
    · rw [if_pos tooWide] at succeeds
      contradiction
    · rw [if_neg tooWide] at succeeds
      cases succeeds
      omega

end Reader

/-- A vector that is read from a record is well-formed. -/
theorem LogicVector.record_wellFormed
    {clipped : Plane → Prop}
    {vector : LogicVector}
    {text rest : List Char}
    (succeeds : Reader.record text = .ok vector rest) :
    vector.WellFormed clipped := by
  obtain ⟨⟨width, descriptor⟩, middle, takesHeader, succeeds⟩ := Reader.bind_eq_ok_iff.1 succeeds
  obtain ⟨readWidth, _, takesWidth, takesHeader⟩ := Reader.bind_eq_ok_iff.1 takesHeader
  obtain ⟨readDescriptor, _, takesDescriptor, takesHeader⟩ := Reader.bind_eq_ok_iff.1 takesHeader
  cases takesHeader
  obtain ⟨block, _, takesWords, succeeds⟩ := Reader.bind_eq_ok_iff.1 succeeds
  cases succeeds
  obtain ⟨positive, inLimit⟩ := Reader.width_eq_ok takesWidth
  refine ⟨positive, inLimit, ?_⟩
  intro stored storedIs
  rw [LogicVector.block_eq_ok_iff] at storedIs
  cases owns : descriptor.ownsStorage with
  | false => simp [owns, Storage.content?] at storedIs
  | true =>
      simp only [owns, if_true, Storage.content?, Option.some.injEq] at storedIs
      cases storedIs
      obtain ⟨size, live⟩ := Reader.words_eq_ok takesWords owns
      refine ⟨by rw [Block.size_restrict, size], ?_⟩
      intro position
      rw [Block.cell_restrict]
      by_cases inside : position < width
      · rw [if_pos inside]
        exact Cell.fits_of_lt inside (live position)
      · rw [if_neg inside]
        exact Cell.fits_empty position

/-! ## Merged records -/

namespace LogicVector

variable {vector updated : LogicVector} {text middle rest : List Char} {options : RecordOptions}
variable {width : Nat} {descriptor : Descriptor}

section Header

variable (takesHeader : Reader.header text = .ok (width, descriptor) middle)

include takesHeader

theorem mergeRecord_of_otherKind (otherKind : descriptor.kind ≠ vector.kind) :
    vector.mergeRecord text options =
      .recordFailed (.kindMismatch vector.kind descriptor.kind) middle := by
  rw [mergeRecord, takesHeader]
  dsimp only
  rw [if_pos otherKind]

variable (sameKind : descriptor.kind = vector.kind)

include sameKind

theorem mergeRecord_of_sameWidth (sameWidth : width = vector.width) :
    vector.mergeRecord text options =
      match Reader.planes width descriptor middle with
      | .error error rest => .recordFailed error rest
      | .ok run rest =>
          { result := .ok (
              if descriptor.ownsStorage then
                vector.addCoverage (slicesOfRun descriptor.kind (wordCount width) run).toArray
              else vector, rest)
            log := [.recordMerged width descriptor.kind] } := by
  rw [mergeRecord, takesHeader]
  dsimp only
  refine (if_neg (not_not_intro sameKind)).trans
    ((if_neg (not_not_intro sameWidth)).trans ?_)
  cases Reader.planes width descriptor middle <;> rfl

section OtherWidth

variable (otherWidth : width ≠ vector.width)

include otherWidth

theorem mergeRecord_of_strict (strict : options.strictMerge = true) :
    vector.mergeRecord text options =
      .recordFailed (.widthMismatch vector.width width) middle := by
  rw [mergeRecord, takesHeader]
  dsimp only
  rw [if_neg (not_not_intro sameKind), if_pos otherWidth, if_pos strict]

/-- Skipping is told before the words are looked at. -/
theorem mergeRecord_of_lenient (lenient : options.strictMerge = false) :
    vector.mergeRecord text options =
      match Reader.planes width descriptor middle with
      | .error error rest =>
          { result := .error (.record error rest), log := [.recordSkipped width vector.width] }
      | .ok _ rest =>
          { result := .ok (vector, rest), log := [.recordSkipped width vector.width] } := by
  rw [mergeRecord, takesHeader]
  dsimp only
  refine (if_neg (not_not_intro sameKind)).trans ((if_pos otherWidth).trans ?_)
  rw [lenient]
  cases Reader.planes width descriptor middle <;> rfl

end OtherWidth

/-- What merging does behind a header that suits the vector, or has another width
that may be skipped. -/
theorem result_mergeRecord_of_suitable
    (suitable : width = vector.width ∨ options.strictMerge = false) :
    (vector.mergeRecord text options).result =
      match Reader.words width descriptor middle with
      | .error error rest => .error (.record error rest)
      | .ok added rest =>
          .ok (if width = vector.width ∧ descriptor.ownsStorage = true then
            vector.addCoverage added else vector, rest) := by
  rw [Reader.words_eq_match]
  by_cases sameWidth : width = vector.width
  · rw [mergeRecord_of_sameWidth takesHeader sameKind sameWidth]
    cases Reader.planes width descriptor middle with
    | error error rest => rfl
    | ok run rest => cases owns : descriptor.ownsStorage <;> simp [sameWidth]
  · rw [mergeRecord_of_lenient takesHeader sameKind sameWidth (suitable.resolve_left sameWidth)]
    cases Reader.planes width descriptor middle with
    | error error rest => rfl
    | ok run rest => simp [sameWidth]

end Header

/-- A record is merged exactly when its header suits the vector, or has another width
that may be skipped, and its words can be taken.  It changes the vector only if it
has its width and has words. -/
theorem mergeRecord_eq_ok_iff :
    (vector.mergeRecord text options).result = .ok (updated, rest) ↔
      ∃ width descriptor middle added,
        Reader.header text = .ok (width, descriptor) middle ∧
        descriptor.kind = vector.kind ∧
        (width = vector.width ∨ options.strictMerge = false) ∧
        Reader.words width descriptor middle = .ok added rest ∧
        updated =
          if width = vector.width ∧ descriptor.ownsStorage = true then vector.addCoverage added
          else vector := by
  constructor
  · intro succeeds
    cases takesHeader : Reader.header text with
    | error error middle =>
        rw [mergeRecord, takesHeader] at succeeds
        contradiction
    | ok answer middle =>
        obtain ⟨width, descriptor⟩ := answer
        by_cases sameKind : descriptor.kind = vector.kind
        · by_cases suitable : width = vector.width ∨ options.strictMerge = false
          · rw [result_mergeRecord_of_suitable takesHeader sameKind suitable] at succeeds
            split at succeeds
            · contradiction
            · rename_i added last takesWords
              cases succeeds
              exact ⟨width, descriptor, middle, added, rfl, sameKind, suitable, takesWords, rfl⟩
          · obtain ⟨otherWidth, strict⟩ := not_or.1 suitable
            rw [mergeRecord_of_strict takesHeader sameKind otherWidth
              (eq_true_of_ne_false strict)] at succeeds
            contradiction
        · rw [mergeRecord_of_otherKind takesHeader sameKind] at succeeds
          contradiction
  · rintro ⟨width, descriptor, middle, added, takesHeader, sameKind, suitable, takesWords, rfl⟩
    rw [result_mergeRecord_of_suitable takesHeader sameKind suitable, takesWords]

end LogicVector
end FourState
