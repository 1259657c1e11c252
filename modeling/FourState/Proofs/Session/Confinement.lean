import FourState.Proofs.Session.Aliasing
import FourState.Proofs.Session.History

/-!
# Effects stay inside one storage

A command changes the words of its target and nothing else.  A vector with other
words keeps its header, its words and whether it owns them; only the reads of a
part-select are noted in the vectors with the words of its source.  Vectors with
the words of the target see what becomes of them, and a command that makes new
words takes its target out of their number.  So whatever a run does through some
names cannot be seen in a vector that shares words with none of them.
-/

namespace FourState

variable {clipped : Plane → Prop}

namespace Session

variable {session changed : Session} {command : Command} {name other : String}

theorem Shares.symm (shares : session.Shares name other) : session.Shares other name := by
  obtain ⟨handle, otherHandle, number, bound, otherBound, refers, otherRefers⟩ := shares
  exact ⟨otherHandle, handle, number, otherBound, bound, otherRefers, refers⟩

/-- The name stands for a vector with the words of a block. -/
def Refers (session : Session) (name : String) (number : Nat) : Prop :=
  ∃ handle, session.Binds name handle ∧ handle.storage.content? = some number

theorem shares_iff :
    session.Shares name other ↔
      ∃ number, session.Refers name number ∧ session.Refers other number := by
  constructor
  · rintro ⟨handle, otherHandle, number, bound, otherBound, refers, otherRefers⟩
    exact ⟨number, ⟨handle, bound, refers⟩, ⟨otherHandle, otherBound, otherRefers⟩⟩
  · rintro ⟨number, ⟨handle, bound, refers⟩, ⟨otherHandle, otherBound, otherRefers⟩⟩
    exact ⟨handle, otherHandle, number, bound, otherBound, refers, otherRefers⟩

/-! ## Commands without an update -/

section Rebinding

variable {result : Except Failure Reply}

/-- A name that a command does not bind keeps its handle. -/
theorem Rebinding.binds_iff
    (rebinding : session.Rebinding command changed result)
    (untouched : command.target? ≠ some other)
    (handle : Handle) :
    changed.Binds other handle ↔ session.Binds other handle := by
  cases rebinding with
  | refuse | noWords | keep => exact Iff.rfl
  | place isTarget makesWords vector wellFormed makes =>
      rename_i name reply
      have apart : other ≠ name := by
        rintro rfl
        exact untouched isTarget
      simp [binds_place_iff, apart]
  | share name source sourceHandle bound =>
      have apart : other ≠ name := by
        rintro rfl
        exact untouched rfl
      simp [binds_share_iff, apart]

/-- A name that a command does not bind keeps its vector. -/
theorem Rebinding.vector_eq
    (rebinding : session.Rebinding command changed result)
    (sound : session.Sound clipped)
    (untouched : command.target? ≠ some other)
    {vector : LogicVector}
    (reads : session.vector other = .ok vector) :
    changed.vector other = .ok vector := by
  obtain ⟨handle, bound, rfl⟩ := (vector_eq_ok_iff _ _ _).1 reads
  refine (vector_eq_ok_iff _ _ _).2 ⟨handle, (rebinding.binds_iff untouched handle).2 bound, ?_⟩
  exact load_congr fun number refers =>
    block_rebinds rebinding.rebinds (sound.lt_size bound refers)

/-- New words are shared with nobody. -/
theorem Rebinding.not_shares
    {reply : Reply}
    (rebinding : session.Rebinding command changed (.ok reply))
    (sound : session.Sound clipped)
    (makesWords : command.makesWords = true)
    (isTarget : command.target? = some name)
    (makes : reply ≠ .flag false)
    (apart : other ≠ name) :
    ¬changed.Shares name other := by
  rintro ⟨handle, otherHandle, number, bound, otherBound, refers, otherRefers⟩
  have otherBefore := (rebinding.binds_iff
    (fun same => apart (Option.some.inj (same.symm.trans isTarget))) otherHandle).1 otherBound
  have isOld := sound.lt_size otherBefore otherRefers
  cases rebinding with
  | noWords => exact makes rfl
  | share => contradiction
  | keep noTarget => cases isTarget.symm.trans noTarget
  | place isPlaced makesWords vector wellFormed makes =>
      cases isTarget.symm.trans isPlaced
      obtain ⟨-, rfl⟩ | ⟨differs, -⟩ := (binds_place_iff _ _ _ _ _).1 bound
      · have isNew := number_of_placedHandle refers
        omega
      · exact differs rfl

end Rebinding

/-! ## Updates -/

section Update

variable {change : Update String}

/-- An update leaves every name with the block of its words. -/
theorem refers_update_iff
    (sound : session.Sound clipped)
    (name other : String)
    (change : Update String)
    (number : Nat) :
    (session.update name change).1.Refers other number ↔ session.Refers other number := by
  constructor
  · rintro ⟨handle, after, refers⟩
    obtain before | ⟨rfl, old, before, rfl⟩ := binds_before_update sound after
    · exact ⟨handle, before, refers⟩
    · exact ⟨old, before, refers⟩
  · rintro ⟨handle, before, refers⟩
    obtain ⟨after, bound, -, -, sameStorage⟩ :
        ∃ after, (session.update name change).1.Binds other after ∧ after.width = handle.width ∧
          after.kind = handle.kind ∧ after.storage = handle.storage :=
      exists_binds_update sound before
    exact ⟨after, bound, by rw [sameStorage, refers]⟩

/-- After an update names share words as before. -/
theorem shares_update_iff
    (sound : session.Sound clipped)
    (name : String)
    (change : Update String)
    (first second : String) :
    (session.update name change).1.Shares first second ↔ session.Shares first second := by
  simp only [shares_iff, refers_update_iff sound]

/-- Storing the vector of one name keeps the vectors with other words. -/
theorem Sound.vector_store_of_not_shares
    (sound : session.Sound clipped)
    {handle otherHandle : Handle}
    (bound : session.Binds name handle)
    (otherBound : session.Binds other otherHandle)
    {alter : Block → Block}
    {updated : LogicVector}
    (replaces : session.Replaces handle alter updated)
    (apart : other ≠ name)
    (notShared : ¬session.Shares name other) :
    (session.store name updated).vector other = .ok (session.load otherHandle) := by
  have keepsHandle : (session.store name updated).Binds other otherHandle :=
    (binds_store_iff bound _ _ _).2 (.inr ⟨apart, otherBound⟩)
  refine (vector_eq_ok_iff _ _ _).2 ⟨otherHandle, keepsHandle, ?_⟩
  apply load_congr
  intro number refers
  rw [block_store bound replaces (sound.lt_size otherBound refers), if_neg]
  intro sameBlock
  exact notShared ⟨handle, otherHandle, number, bound, otherBound, sameBlock, refers⟩

/-- A vector with other words than the target keeps all but noted reads. -/
theorem exists_noteRead_update
    (sound : session.Sound clipped)
    (apart : other ≠ name)
    (notShared : ¬session.Shares name other)
    {vector : LogicVector}
    (reads : session.vector other = .ok vector) :
    ∃ isRead, (session.update name change).1.vector other = .ok (vector.noteRead isRead) ∧
      (∀ position, isRead position = true → session.NotesRead other change position) ∧
      ∀ reply, (session.update name change).2.result = .ok reply →
        ∀ position, session.NotesRead other change position → isRead position = true := by
  obtain ⟨failure, refused⟩ | ⟨handle, resolved, bound, resolves⟩ :=
    session.update_refused_or_resolved name change
  · rw [refused]
    exact ⟨fun _ => false, by rw [reads, LogicVector.noteRead_false], nofun, nofun⟩
  · obtain ⟨otherHandle, otherBound, rfl⟩ := (vector_eq_ok_iff _ _ _).1 reads
    obtain ⟨isRead, loads, only, all⟩ := exists_noteRead sound otherBound resolves
    have noted := sound.noteReads change
    have boundNoted := (binds_noteReads_iff session change name handle).2 bound
    have otherNoted := (binds_noteReads_iff session change other otherHandle).2 otherBound
    have notSharedNoted : ¬(session.noteReads change).Shares name other := by
      simpa only [Shares, binds_noteReads_iff] using notShared
    refine ⟨isRead, ?_, only, ?_⟩
    · rw [← loads, update_eq_of_resolved bound resolves]
      cases outcome : (((session.noteReads change).load handle).update resolved).result with
      | error failure => exact (vector_eq_ok_iff _ _ _).2 ⟨otherHandle, otherNoted, rfl⟩
      | ok answer =>
          have replaces := replaces_of_update (noted.wellFormed name handle boundNoted)
            (sound.source resolves) outcome
          exact noted.vector_store_of_not_shares boundNoted otherNoted replaces apart
            notSharedNoted
    · intro reply succeeds
      rw [update_eq_of_resolved bound resolves] at succeeds
      obtain ⟨answer, updates, -⟩ := Outcome.result_map_eq_ok_iff.1 succeeds
      exact all _ answer updates

/-- After an update, vectors with the words of its target still show the words of its
target.  Each keeps its own header, and owns or borrows the words as before. -/
theorem exists_shared_update
    (sound : session.Sound clipped)
    (shares : session.Shares name other)
    {vector : LogicVector}
    (reads : session.vector other = .ok vector) :
    ∃ target updated after,
      session.vector name = .ok target ∧
      (session.update name change).1.vector name = .ok updated ∧
      (session.update name change).1.vector other = .ok after ∧
      vector.block = target.block ∧ after.block = updated.block ∧
      (other ≠ name → after.toHeader = vector.toHeader) ∧
      after.storage.isOwned = vector.storage.isOwned := by
  obtain ⟨handle, otherHandle, number, bound, otherBound, refers, otherRefers⟩ := shares
  obtain ⟨sameHandle, boundAgain, rfl⟩ := (vector_eq_ok_iff _ _ _).1 reads
  cases otherBound.symm.trans boundAgain
  obtain ⟨handleAfter, boundAfter, -, -, storageAfter⟩ :
      ∃ after, (session.update name change).1.Binds name after ∧ after.width = handle.width ∧
        after.kind = handle.kind ∧ after.storage = handle.storage :=
    exists_binds_update sound bound
  obtain ⟨otherAfter, otherBoundAfter, -, -, otherStorageAfter⟩ :
      ∃ after, (session.update name change).1.Binds other after ∧
        after.width = otherHandle.width ∧ after.kind = otherHandle.kind ∧
        after.storage = otherHandle.storage :=
    exists_binds_update sound otherBound
  refine ⟨_, _, _, (vector_eq_ok_iff _ _ _).2 ⟨handle, bound, rfl⟩,
    (vector_eq_ok_iff _ _ _).2 ⟨handleAfter, boundAfter, rfl⟩,
    (vector_eq_ok_iff _ _ _).2 ⟨otherAfter, otherBoundAfter, rfl⟩, ?_, ?_, ?_, ?_⟩
  · exact (block_load otherRefers).trans (block_load refers).symm
  · exact (block_load (by rw [otherStorageAfter, otherRefers])).trans
      (block_load (by rw [storageAfter, refers])).symm
  · intro apart
    obtain before | ⟨isTarget, -⟩ := binds_before_update sound otherBoundAfter
    · cases otherBound.symm.trans before
      rfl
    · exact absurd isTarget apart
  · simp only [load, Storage.isOwned_map, otherStorageAfter]

end Update

/-! ## One command -/

/-- The command selects bits of a vector with the words of a name, and the position is
one of them. -/
def Notes (session : Session) (command : Command) (other : String) (position : Nat) : Prop :=
  ∃ target change, session.request? command = some (target, change) ∧
    session.NotesRead other change position

/-- A set of names shares no words with the names outside of it. -/
def Split (session : Session) (names : String → Prop) : Prop :=
  ∀ name other, names name → ¬names other → ¬session.Shares name other

/-- What a command leaves alone, and whom it reaches. -/
structure Confined (session : Session) (command : Command) : Prop where
  /-- A vector with other words than the target keeps every plane, its header and
  its storage; what a part-select reads is noted, all of it if it succeeds. -/
  apart : ∀ other before, command.target? ≠ some other → session.vector other = .ok before →
    (∀ target, command.target? = some target → ¬session.Shares target other) →
    ∃ isRead, (session.apply command).1.vector other = .ok (before.noteRead isRead) ∧
      (∀ position, isRead position = true → session.Notes command other position) ∧
      ∀ reply, (session.apply command).2.result = .ok reply →
        ∀ position, session.Notes command other position → isRead position = true
  /-- An update shows in every vector with the words of its target, and only in the
  words: each keeps its own header and storage. -/
  shared : ∀ target change other before, session.request? command = some (target, change) →
    session.Shares target other → session.vector other = .ok before →
    ∃ targetBefore targetAfter after,
      session.vector target = .ok targetBefore ∧
      (session.apply command).1.vector target = .ok targetAfter ∧
      (session.apply command).1.vector other = .ok after ∧
      before.block = targetBefore.block ∧ after.block = targetAfter.block ∧
      (other ≠ target → after.toHeader = before.toHeader) ∧
      after.storage.isOwned = before.storage.isOwned
  /-- Any other command, a resizing among them, leaves all vectors but its target,
  even those with the words of its target. -/
  kept : session.request? command = none → ∀ other before, command.target? ≠ some other →
    session.vector other = .ok before → (session.apply command).1.vector other = .ok before
  /-- Names share words as before; an update does not even separate its target. -/
  sharing : ∀ first second,
    (session.request? command = none →
      command.target? ≠ some first ∧ command.target? ≠ some second) →
    ((session.apply command).1.Shares first second ↔ session.Shares first second)
  /-- New words are shared with nobody, seen from the target and from all others. -/
  fresh : ∀ target reply, command.makesWords = true → command.target? = some target →
    (session.apply command).2.result = .ok reply → reply ≠ .flag false →
    (session.apply command).1.Split (· = target) ∧ (session.apply command).1.Split (· ≠ target)

theorem target?_of_request
    {target : String}
    {change : Update String}
    (requests : session.request? command = some (target, change)) :
    command.target? = some target := by
  cases command with
  | update name requested =>
      cases requests
      rfl
  | commit name buffer =>
      simp only [request?] at requests
      split at requests
      · cases requests
        rfl
      · contradiction
  | _ => contradiction

theorem makesWords_of_request
    {request : String × Update String}
    (requests : session.request? command = some request) :
    command.makesWords = false := by
  cases command with
  | update | commit => rfl
  | _ => contradiction

/-- A vector with other words than the target of an update keeps all but noted reads. -/
theorem Sound.apart_of_request
    (sound : session.Sound clipped)
    {target : String}
    {change : Update String}
    (requests : session.request? command = some (target, change))
    (apart : other ≠ target)
    (notShared : ¬session.Shares target other)
    {before : LogicVector}
    (reads : session.vector other = .ok before) :
    ∃ isRead, (session.apply command).1.vector other = .ok (before.noteRead isRead) ∧
      (∀ position, isRead position = true → session.Notes command other position) ∧
      ∀ reply, (session.apply command).2.result = .ok reply →
        ∀ position, session.Notes command other position → isRead position = true := by
  obtain ⟨isRead, keeps, only, all⟩ :=
    @exists_noteRead_update _ _ _ _ change sound apart notShared _ reads
  rw [apply_of_request requests]
  refine ⟨isRead, keeps, ?_, ?_⟩
  · intro position isMarked
    exact ⟨target, change, requests, only position isMarked⟩
  · rintro reply succeeds position ⟨sameTarget, sameChange, requestsAgain, notes⟩
    cases requests.symm.trans requestsAgain
    exact all reply succeeds position notes

/-- Every command on a sound session is confined. -/
theorem Sound.confined
    (sound : session.Sound clipped)
    (command : Command) :
    session.Confined command := by
  cases requests : session.request? command with
  | some request =>
      obtain ⟨target, change⟩ := request
      have isTarget := target?_of_request requests
      refine ⟨?_, ?_, ?_, ?_, ?_⟩
      · intro other before untouched reads notShared
        have apart : other ≠ target := by
          rintro rfl
          exact untouched isTarget
        exact sound.apart_of_request requests apart (notShared target isTarget) reads
      · intro target' change' other before requestsAgain shares reads
        cases requests.symm.trans requestsAgain
        rw [apply_of_request requests]
        exact exists_shared_update sound shares reads
      · intro requestsNone
        cases requests.symm.trans requestsNone
      · intro first second _
        rw [apply_of_request requests]
        exact shares_update_iff sound target change first second
      · intro target' reply makesWords
        cases makesWords.symm.trans (makesWords_of_request requests)
  | none =>
      have rebinding := rebinding_apply requests
      refine ⟨?_, ?_, ?_, ?_, ?_⟩
      · intro other before untouched reads _
        refine ⟨fun _ => false, ?_, nofun, ?_⟩
        · rw [LogicVector.noteRead_false]
          exact rebinding.vector_eq sound untouched reads
        · rintro reply - position ⟨target, change, requestsAgain, -⟩
          cases requests.symm.trans requestsAgain
      · intro target change other before requestsAgain
        cases requests.symm.trans requestsAgain
      · intro _ other before untouched reads
        exact rebinding.vector_eq sound untouched reads
      · intro first second untouched
        obtain ⟨firstUntouched, secondUntouched⟩ := untouched requests
        simp only [Shares, rebinding.binds_iff firstUntouched,
          rebinding.binds_iff secondUntouched]
      · intro target reply makesWords isTarget succeeds makes
        rw [succeeds] at rebinding
        constructor
        · rintro name other rfl apart
          exact rebinding.not_shares sound makesWords isTarget makes apart
        · intro name other apart isSame shares
          obtain rfl := not_not.1 isSame
          exact rebinding.not_shares sound makesWords isTarget makes apart shares.symm

/-! ## Runs -/

/-- Old words of a name were those of the name before, or the name shares them now. -/
theorem Rebinding.exists_refers
    {result : Except Failure Reply}
    (rebinding : session.Rebinding command changed result)
    {number : Nat}
    (isOld : number < session.blocks.size)
    (refers : changed.Refers name number) :
    ∃ origin, session.Refers origin number ∧
      (origin = name ∨ command = .share name origin) := by
  obtain ⟨handle, after, content⟩ := refers
  cases rebinding with
  | refuse | noWords | keep => exact ⟨name, ⟨handle, after, content⟩, .inl rfl⟩
  | place isTarget makesWords vector wellFormed makes =>
      obtain ⟨-, rfl⟩ | ⟨-, before⟩ := (binds_place_iff _ _ _ _ _).1 after
      · have isNew := number_of_placedHandle content
        omega
      · exact ⟨name, ⟨handle, before, content⟩, .inl rfl⟩
  | share target source sourceHandle bound =>
      obtain ⟨rfl, rfl⟩ | ⟨-, before⟩ := (binds_share_iff _ _ _ _ _).1 after
      · rw [content?_borrow] at content
        exact ⟨source, ⟨sourceHandle, bound, content⟩, .inr rfl⟩
      · exact ⟨name, ⟨handle, before, content⟩, .inl rfl⟩

/-- Only the target of a command can get new words. -/
theorem Rebinding.isTarget_of_new
    {result : Except Failure Reply}
    (rebinding : session.Rebinding command changed result)
    (sound : session.Sound clipped)
    {number : Nat}
    (isNew : ¬number < session.blocks.size)
    (refers : changed.Refers name number) :
    command.target? = some name := by
  by_contra untouched
  obtain ⟨handle, after, content⟩ := refers
  exact isNew (sound.lt_size ((rebinding.binds_iff untouched handle).1 after) content)

end Session

namespace Command

/-- The command lets no name of the set share the words of one outside, or the other
way round. -/
def Within (names : String → Prop) : Command → Prop
  | share name source => names name ↔ names source
  | _ => True

/-- The command changes the vector of a name of the set, if any, and stays within it. -/
def Through (names : String → Prop) (command : Command) : Prop :=
  command.Within names ∧ ∀ target, command.target? = some target → names target

end Command

namespace Session

variable {session : Session} {names : String → Prop}

/-- A command within a set of names keeps it apart. -/
theorem Split.apply
    (split : session.Split names)
    (sound : session.Sound clipped)
    {command : Command}
    (within : command.Within names) :
    (session.apply command).1.Split names := by
  intro name other isIn isOut shares
  cases requests : session.request? command with
  | some request =>
      obtain ⟨target, change⟩ := request
      rw [apply_of_request requests, shares_iff] at shares
      simp only [refers_update_iff sound] at shares
      exact split name other isIn isOut (shares_iff.2 shares)
  | none =>
      have rebinding := rebinding_apply requests
      obtain ⟨number, refers, otherRefers⟩ := shares_iff.1 shares
      by_cases isOld : number < session.blocks.size
      · obtain ⟨first, firstRefers, fromFirst⟩ := rebinding.exists_refers isOld refers
        obtain ⟨second, secondRefers, fromSecond⟩ := rebinding.exists_refers isOld otherRefers
        have firstIn : names first := by
          obtain rfl | rfl := fromFirst
          · exact isIn
          · exact within.1 isIn
        have secondOut : ¬names second := by
          obtain rfl | rfl := fromSecond
          · exact isOut
          · exact fun isSecond => isOut (within.2 isSecond)
        exact split first second firstIn secondOut
          (shares_iff.2 ⟨number, firstRefers, secondRefers⟩)
      · have isTarget := rebinding.isTarget_of_new sound isOld refers
        have otherTarget := rebinding.isTarget_of_new sound isOld otherRefers
        cases isTarget.symm.trans otherTarget
        exact isOut isIn

/-- The bits that the commands select of vectors outside of a set of names. -/
def SelectsOutside (names : String → Prop) (commands : List Command) (position : Nat) : Prop :=
  ∃ target source lsb msb, Command.update target (.operate (.partSelect source lsb msb)) ∈ commands ∧
    ¬names source ∧ lsb ≤ position ∧ position ≤ msb

/-- A command through a set of names that is apart leaves all other vectors, but for
selected bits. -/
theorem Sound.apply_through
    (sound : session.Sound clipped)
    (split : session.Split names)
    {command : Command}
    (through : command.Through names)
    {other : String}
    (isOut : ¬names other)
    {before : LogicVector}
    (reads : session.vector other = .ok before) :
    ∃ isRead, (session.apply command).1.vector other = .ok (before.noteRead isRead) ∧
      ∀ position, isRead position = true → SelectsOutside names [command] position := by
  obtain ⟨-, reaches⟩ := through
  obtain ⟨isRead, keeps, only, -⟩ := (sound.confined command).apart other before
    (fun isTarget => isOut (reaches other isTarget)) reads
    (fun target isTarget => split target other (reaches target isTarget) isOut)
  refine ⟨isRead, keeps, ?_⟩
  intro position isMarked
  obtain ⟨target, change, requests, source, lsb, msb, rfl, shares, inRange⟩ :=
    only position isMarked
  obtain rfl | ⟨value, isCommit⟩ := eq_update_of_request requests
  · have sourceOut : ¬names source := fun isSource => split source other isSource isOut shares
    exact ⟨target, source, lsb, msb, List.mem_singleton_self _, sourceOut, inRange⟩
  · contradiction

/-- Commands through a set of names that is apart leave all other vectors, but for
selected bits. -/
theorem Sound.run_through
    (sound : session.Sound fun plane => plane.isCoverage = false)
    (split : session.Split names)
    {commands : List Command}
    (through : ∀ command ∈ commands, command.Through names)
    {other : String}
    (isOut : ¬names other)
    {before : LogicVector}
    (reads : session.vector other = .ok before) :
    ∃ isRead, (session.run commands).vector other = .ok (before.noteRead isRead) ∧
      ∀ position, isRead position = true → SelectsOutside names commands position := by
  induction commands generalizing session before with
  | nil => exact ⟨fun _ => false, by rw [run_nil, reads, LogicVector.noteRead_false], nofun⟩
  | cons command commands inductionHypothesis =>
      have first := through command (List.mem_cons_self ..)
      obtain ⟨isRead, keeps, only⟩ := sound.apply_through split first isOut reads
      obtain ⟨isReadLater, keepsLater, onlyLater⟩ := inductionHypothesis
        (sound.applyAny command) (split.apply sound first.1)
        (fun later isMember => through later (List.mem_cons_of_mem _ isMember)) keeps
      rw [LogicVector.noteRead_noteRead] at keepsLater
      refine ⟨_, keepsLater, ?_⟩
      intro position isMarked
      rcases Bool.or_eq_true_iff.1 isMarked with isMarked | isMarked
      · obtain ⟨target, source, lsb, msb, isMember, selects⟩ := only position isMarked
        obtain rfl := List.mem_singleton.1 isMember
        exact ⟨target, source, lsb, msb, List.mem_cons_self .., selects⟩
      · obtain ⟨target, source, lsb, msb, isMember, selects⟩ := onlyLater position isMarked
        exact ⟨target, source, lsb, msb, List.mem_cons_of_mem _ isMember, selects⟩

theorem Split.run
    (split : session.Split names)
    (sound : session.Sound fun plane => plane.isCoverage = false)
    {commands : List Command}
    (within : ∀ command ∈ commands, command.Within names) :
    (session.run commands).Split names := by
  induction commands generalizing session with
  | nil => exact split
  | cons command commands inductionHypothesis =>
      rw [run_cons]
      exact inductionHypothesis (split.apply sound (within command (List.mem_cons_self ..)))
        (sound.applyAny command)
        (fun later isMember => within later (List.mem_cons_of_mem _ isMember))

/-- In every session that commands lead to, each command is confined to the words of
its target.  A set of names that shares no words with the others stays apart while
no name is shared across, and what is done through its names cannot be seen in the
others. -/
theorem effects_confined (commands : List Command) :
    (∀ command, (Session.empty.run commands).Confined command) ∧
    ∀ names later, (Session.empty.run commands).Split names →
      ((∀ command ∈ later, command.Within names) →
        ((Session.empty.run commands).run later).Split names) ∧
      ((∀ command ∈ later, command.Through names) →
        ∀ other before, ¬names other → (Session.empty.run commands).vector other = .ok before →
          ∃ isRead,
            ((Session.empty.run commands).run later).vector other =
              .ok (before.noteRead isRead) ∧
            ∀ position, isRead position = true → SelectsOutside names later position) := by
  have sound := sound_run_empty commands
  refine ⟨sound.confined, ?_⟩
  intro names later split
  exact ⟨split.run sound, fun through other before isOut reads =>
    sound.run_through split through isOut reads⟩

/-- A memory, another name for it, and a copy of it. -/
def copiedMemory : List Command := [
  .create "m" 40 .memory true none none,
  .share "n" "m",
  .clone "c" "m"]

/-- Writing, reading and resizing the memory through both of its names. -/
def memoryAccesses : List Command := [
  .update "n" (.setNat 5),
  .update "m" (.operate (.partSelect "n" 0 3)),
  .resize "n" 7,
  .update "n" (.setWord (-1))]

theorem effects_confined_copiedMemory :
    ((Session.empty.run copiedMemory).run memoryAccesses).vector "c" =
      (Session.empty.run copiedMemory).vector "c" := by
  have split : (Session.empty.run copiedMemory).Split (· ≠ "c") :=
    (((effects_confined (copiedMemory.take 2)).1 (.clone "c" "m")).fresh "c" (.flag true) rfl rfl
      (by decide +kernel) nofun).2
  obtain ⟨before, reads⟩ : ∃ before, (Session.empty.run copiedMemory).vector "c" = .ok before :=
    ⟨_, rfl⟩
  obtain ⟨isRead, keeps, only⟩ := ((effects_confined copiedMemory).2 (· ≠ "c") memoryAccesses
    split).2 (by simp [memoryAccesses, Command.Through, Command.Within, Command.target?]) "c" before
      (by simp) reads
  have readsNothing : isRead = fun _ => false := by
    funext position
    rw [← Bool.not_eq_true]
    intro isMarked
    obtain ⟨target, source, lsb, msb, isMember, isCopy, -⟩ := only position isMarked
    obtain rfl := not_not.1 isCopy
    simp [memoryAccesses] at isMember
  rw [keeps, readsNothing, LogicVector.noteRead_false, reads]

end Session
end FourState
