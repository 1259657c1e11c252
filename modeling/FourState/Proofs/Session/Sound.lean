import FourState.Proofs.Preservation
import FourState.Session.Command

/-!
# Sound sessions

In a sound session every name stands for a well-formed vector, handles of one
block agree on width and kind, and a block has at most one owner.  The four
primitives that change a session keep it sound, and so does every command,
whether it succeeds or fails.
-/

namespace FourState

variable {clipped : Plane → Prop}

namespace Session

/-- A name stands for a handle. -/
def Binds (session : Session) (name : String) (handle : Handle) : Prop :=
  session.vectors.get? name = some handle

/-- The invariant of sessions. -/
structure Sound (clipped : Plane → Prop) (session : Session) : Prop where
  /-- Every name stands for a well-formed vector. -/
  wellFormed : ∀ name handle, session.Binds name handle →
    (session.load handle).WellFormed clipped
  /-- Handles of one block agree on width and kind. -/
  agree : ∀ name other handle otherHandle number,
    session.Binds name handle → session.Binds other otherHandle →
    handle.storage.content? = some number → otherHandle.storage.content? = some number →
    handle.width = otherHandle.width ∧ handle.kind = otherHandle.kind
  /-- A block has at most one owner. -/
  singleOwner : ∀ name other handle otherHandle number,
    session.Binds name handle → session.Binds other otherHandle →
    handle.storage = .owned number → otherHandle.storage = .owned number → name = other

/-! ## Reading a session -/

theorem handle_eq_ok_iff (session : Session) (name : String) (handle : Handle) :
    session.handle name = .ok handle ↔ session.Binds name handle := by
  unfold Session.handle Binds
  split <;> simp_all

theorem vector_eq_ok_iff (session : Session) (name : String) (vector : LogicVector) :
    session.vector name = .ok vector ↔
      ∃ handle, session.Binds name handle ∧ session.load handle = vector := by
  unfold Session.vector
  rw [bind_eq_ok_iff]
  constructor
  · rintro ⟨handle, bound, same⟩
    cases same
    exact ⟨handle, (handle_eq_ok_iff _ _ _).1 bound, rfl⟩
  · rintro ⟨handle, bound, rfl⟩
    exact ⟨handle, (handle_eq_ok_iff _ _ _).2 bound, rfl⟩

/-- A name that stands for a vector stands for a well-formed one. -/
theorem Sound.vector
    {session : Session}
    (sound : session.Sound clipped)
    {name : String}
    {vector : LogicVector}
    (reads : session.vector name = .ok vector) :
    vector.WellFormed clipped := by
  obtain ⟨handle, bound, rfl⟩ := (vector_eq_ok_iff _ _ _).1 reads
  exact sound.wellFormed name handle bound

/-- A handle of a block shows the words of the block. -/
theorem block_load
    {session : Session}
    {handle : Handle}
    {number : Nat}
    (refers : handle.storage.content? = some number) :
    (session.load handle).block = .ok (session.block number) := by
  rw [LogicVector.block_eq_ok_iff]
  simp [load, refers]

/-- The block of a bound handle exists. -/
theorem Sound.lt_size
    {session : Session}
    (sound : session.Sound clipped)
    {name : String}
    {handle : Handle}
    {number : Nat}
    (bound : session.Binds name handle)
    (refers : handle.storage.content? = some number) :
    number < session.blocks.size := by
  have wellFormed := sound.wellFormed name handle bound
  have fits := wellFormed.block_fits _ (block_load refers)
  have widthPositive : 0 < handle.width := wellFormed.width_pos
  have sized : (session.block number).size = wordCount handle.width := fits.size_eq
  have enough := le_wordCount handle.width
  apply Nat.lt_of_not_le
  intro outside
  have noWords : session.block number = #[] := by simp [block, outside]
  rw [noWords] at sized
  simp only [Array.size_empty] at sized
  omega

/-- Sessions with the same words load a handle alike. -/
theorem load_congr
    {session other : Session}
    {handle : Handle}
    (sameBlock : ∀ number, handle.storage.content? = some number →
      other.block number = session.block number) :
    other.load handle = session.load handle := by
  unfold load
  cases stored : handle.storage with
  | absent => rfl
  | owned number => simp only [Storage.map, sameBlock number (by rw [stored]; rfl)]
  | borrowed number => simp only [Storage.map, sameBlock number (by rw [stored]; rfl)]

theorem sound_empty : Session.empty.Sound clipped where
  wellFormed := by
    intro name handle bound
    contradiction
  agree := by
    intro name other handle otherHandle number bound
    contradiction
  singleOwner := by
    intro name other handle otherHandle number bound
    contradiction

/-- Words still agree in width and kind if every handle refers to the words of one
from before with the same width and kind. -/
theorem Sound.agree_of_inherits
    {session after : Session}
    (sound : session.Sound clipped)
    (inherits : ∀ name handle, after.Binds name handle →
      ∃ source old, session.Binds source old ∧ old.width = handle.width ∧
        old.kind = handle.kind ∧ old.storage.content? = handle.storage.content?)
    {first second : String}
    {firstHandle secondHandle : Handle}
    {number : Nat}
    (firstBound : after.Binds first firstHandle)
    (secondBound : after.Binds second secondHandle)
    (firstRefers : firstHandle.storage.content? = some number)
    (secondRefers : secondHandle.storage.content? = some number) :
    firstHandle.width = secondHandle.width ∧ firstHandle.kind = secondHandle.kind := by
  obtain ⟨_, firstOld, firstBefore, firstWidth, firstKind, firstSame⟩ :=
    inherits first firstHandle firstBound
  obtain ⟨_, secondOld, secondBefore, secondWidth, secondKind, secondSame⟩ :=
    inherits second secondHandle secondBound
  have same := sound.agree _ _ _ _ _ firstBefore secondBefore (firstSame.trans firstRefers)
    (secondSame.trans secondRefers)
  rwa [firstWidth, secondWidth, firstKind, secondKind] at same

/-! ## Placing a vector -/

/-- The handle of a vector that is placed in a session. -/
def placedHandle (session : Session) (vector : LogicVector) : Handle where
  toHeader := vector.toHeader
  storage := vector.storage.map fun _ => session.blocks.size

theorem binds_place_iff
    (session : Session)
    (name other : String)
    (vector : LogicVector)
    (handle : Handle) :
    (session.place name vector).Binds other handle ↔
      (other = name ∧ handle = session.placedHandle vector) ∨
        (other ≠ name ∧ session.Binds other handle) := by
  exact Bindings.get?_bind_eq_some_iff _ _ _ _ _

/-- Placing a vector keeps the words of the old blocks. -/
theorem block_place_of_lt
    (session : Session)
    (name : String)
    (vector : LogicVector)
    {number : Nat}
    (old : number < session.blocks.size) :
    (session.place name vector).block number = session.block number := by
  unfold place block
  cases vector.storage.content? with
  | none => rfl
  | some words => simp [Array.getElem?_push, old, Nat.ne_of_lt old]

/-- The words of a placed vector are in a new block. -/
theorem block_place
    (session : Session)
    (name : String)
    {vector : LogicVector}
    {words : Block}
    (stored : vector.storage.content? = some words) :
    (session.place name vector).blocks.size = session.blocks.size + 1 ∧
      (session.place name vector).block session.blocks.size = words := by
  unfold place block
  simp [stored]

/-- A placed vector is the one its name stands for. -/
theorem load_place (session : Session) (name : String) (vector : LogicVector) :
    (session.place name vector).load (session.placedHandle vector) = vector := by
  rcases vector with ⟨header, storage⟩
  cases storage with
  | absent => rfl
  | owned words => simp [load, place, placedHandle, Storage.map, Storage.content?, block]
  | borrowed words => simp [load, place, placedHandle, Storage.map, Storage.content?, block]

/-- A placed vector refers to the new block only. -/
theorem number_of_placedHandle
    {session : Session}
    {vector : LogicVector}
    {number : Nat}
    (refers : (session.placedHandle vector).storage.content? = some number) :
    number = session.blocks.size := by
  rcases vector with ⟨header, storage⟩
  cases storage with
  | absent => contradiction
  | owned words => exact (Option.some.inj refers).symm
  | borrowed words => exact (Option.some.inj refers).symm

theorem content?_of_eq_owned
    {content : Type}
    {storage : Storage content}
    {words : content}
    (owned : storage = .owned words) :
    storage.content? = some words := by
  rw [owned]
  rfl

theorem Sound.place
    {session : Session}
    (sound : session.Sound clipped)
    (name : String)
    {vector : LogicVector}
    (wellFormed : vector.WellFormed clipped) :
    (session.place name vector).Sound clipped where
  wellFormed := by
    intro other handle bound
    obtain ⟨-, rfl⟩ | ⟨-, before⟩ := (binds_place_iff _ _ _ _ _).1 bound
    · rw [load_place]
      exact wellFormed
    · rw [load_congr fun number refers =>
        block_place_of_lt session name vector (sound.lt_size before refers)]
      exact sound.wellFormed other handle before
  agree := by
    intro first second handle otherHandle number firstBound secondBound firstRefers secondRefers
    obtain ⟨-, rfl⟩ | ⟨-, firstBefore⟩ := (binds_place_iff _ _ _ _ _).1 firstBound
    · obtain ⟨-, rfl⟩ | ⟨-, secondBefore⟩ := (binds_place_iff _ _ _ _ _).1 secondBound
      · exact ⟨rfl, rfl⟩
      · have isNew := number_of_placedHandle firstRefers
        have isOld := sound.lt_size secondBefore secondRefers
        omega
    · obtain ⟨-, rfl⟩ | ⟨-, secondBefore⟩ := (binds_place_iff _ _ _ _ _).1 secondBound
      · have isNew := number_of_placedHandle secondRefers
        have isOld := sound.lt_size firstBefore firstRefers
        omega
      · exact sound.agree _ _ _ _ _ firstBefore secondBefore firstRefers secondRefers
  singleOwner := by
    intro first second handle otherHandle number firstBound secondBound firstOwns secondOwns
    obtain ⟨rfl, rfl⟩ | ⟨-, firstBefore⟩ := (binds_place_iff _ _ _ _ _).1 firstBound
    · obtain ⟨rfl, rfl⟩ | ⟨-, secondBefore⟩ := (binds_place_iff _ _ _ _ _).1 secondBound
      · rfl
      · have isNew := number_of_placedHandle (content?_of_eq_owned firstOwns)
        have isOld := sound.lt_size secondBefore (content?_of_eq_owned secondOwns)
        omega
    · obtain ⟨rfl, rfl⟩ | ⟨-, secondBefore⟩ := (binds_place_iff _ _ _ _ _).1 secondBound
      · have isNew := number_of_placedHandle (content?_of_eq_owned secondOwns)
        have isOld := sound.lt_size firstBefore (content?_of_eq_owned firstOwns)
        omega
      · exact sound.singleOwner _ _ _ _ _ firstBefore secondBefore firstOwns secondOwns

/-! ## Storing a vector -/

/-- A vector that is stored differs from the one before in its header and its
words, not in the place of the words. -/
structure Replaces
    (session : Session)
    (handle : Handle)
    (change : Block → Block)
    (vector : LogicVector) : Prop where
  width_eq : vector.width = handle.width
  kind_eq : vector.kind = handle.kind
  storage_eq : vector.storage = (session.load handle).storage.map change

theorem binds_store_iff
    {session : Session}
    {name : String}
    {handle : Handle}
    (bound : session.Binds name handle)
    (vector : LogicVector)
    (other : String)
    (otherHandle : Handle) :
    (session.store name vector).Binds other otherHandle ↔
      (other = name ∧ otherHandle = { handle with toHeader := vector.toHeader }) ∨
        (other ≠ name ∧ session.Binds other otherHandle) := by
  unfold Binds at bound ⊢
  unfold store
  rw [bound]
  exact Bindings.get?_bind_eq_some_iff _ _ _ _ _

/-- After a vector is stored, a name refers to the same words as before, with the
same width and kind. -/
theorem binds_before_store
    {session : Session}
    {name other : String}
    {handle otherHandle : Handle}
    {change : Block → Block}
    {vector : LogicVector}
    (bound : session.Binds name handle)
    (replaces : session.Replaces handle change vector)
    (after : (session.store name vector).Binds other otherHandle) :
    ∃ old, session.Binds other old ∧ old.width = otherHandle.width ∧
      old.kind = otherHandle.kind ∧ old.storage = otherHandle.storage := by
  obtain ⟨rfl, rfl⟩ | ⟨-, before⟩ := (binds_store_iff bound _ _ _).1 after
  · exact ⟨handle, bound, replaces.width_eq.symm, replaces.kind_eq.symm, rfl⟩
  · exact ⟨otherHandle, before, rfl, rfl, rfl⟩

/-- Storing a vector changes the words of its own block only. -/
theorem block_store
    {session : Session}
    {name : String}
    {handle : Handle}
    {change : Block → Block}
    {vector : LogicVector}
    (bound : session.Binds name handle)
    (replaces : session.Replaces handle change vector)
    {number : Nat}
    (inBounds : number < session.blocks.size) :
    (session.store name vector).block number =
      if handle.storage.content? = some number then change (session.block number)
      else session.block number := by
  unfold Binds at bound
  unfold store
  rw [bound]
  have content : vector.storage.content? =
      handle.storage.content?.map fun number => change (session.block number) := by
    rw [replaces.storage_eq]
    simp [load, Function.comp_def]
  cases refers : handle.storage.content? with
  | none =>
      simp only [refers, reduceCtorEq, if_false]
      rfl
  | some own =>
      rw [refers, Option.map_some] at content
      simp only [refers, content, Option.some.injEq]
      by_cases same : own = number
      · subst same
        simp [block, inBounds]
      · simp [block, same]

theorem size_store
    (session : Session)
    (name : String)
    (vector : LogicVector) :
    (session.store name vector).blocks.size = session.blocks.size := by
  unfold store
  cases session.vectors.get? name with
  | none => rfl
  | some handle =>
      dsimp only
      split
      · exact Array.size_setIfInBounds
      · rfl

/-- The vector that has been stored is the one its name stands for. -/
theorem load_store
    {session : Session}
    {name : String}
    {handle : Handle}
    {change : Block → Block}
    {vector : LogicVector}
    (sound : session.Sound clipped)
    (bound : session.Binds name handle)
    (replaces : session.Replaces handle change vector) :
    (session.store name vector).load { handle with toHeader := vector.toHeader } = vector := by
  have shown (number : Nat) (refers : handle.storage.content? = some number) :
      (session.store name vector).block number = change (session.block number) := by
    rw [block_store bound replaces (sound.lt_size bound refers), if_pos refers]
  have storage := replaces.storage_eq
  rcases vector with ⟨header, words⟩
  simp only at storage
  subst storage
  simp only [load] at shown ⊢
  cases stored : handle.storage with
  | absent => rfl
  | owned number =>
      rw [stored] at shown
      simp only [Storage.map] at shown ⊢
      rw [shown number rfl]
  | borrowed number =>
      rw [stored] at shown
      simp only [Storage.map] at shown ⊢
      rw [shown number rfl]

theorem Sound.store
    {session : Session}
    (sound : session.Sound clipped)
    {name : String}
    {handle : Handle}
    {change : Block → Block}
    {vector : LogicVector}
    (bound : session.Binds name handle)
    (replaces : session.Replaces handle change vector)
    (wellFormed : vector.WellFormed clipped) :
    (session.store name vector).Sound clipped where
  wellFormed := by
    intro other otherHandle otherBound
    obtain ⟨-, rfl⟩ | ⟨-, before⟩ := (binds_store_iff bound _ _ _).1 otherBound
    · rw [load_store sound bound replaces]
      exact wellFormed
    · have fitting := sound.wellFormed other otherHandle before
      refine ⟨fitting.width_pos, fitting.width_le, ?_⟩
      intro block stored
      rw [LogicVector.block_eq_ok_iff] at stored
      simp only [load, Storage.content?_map, Option.map_eq_some_iff] at stored
      obtain ⟨number, refers, rfl⟩ := stored
      rw [block_store bound replaces (sound.lt_size before refers)]
      split
      -- A vector that shares the changed words has the same width and kind, so they fit it too.
      · rename_i shared
        obtain ⟨sameWidth, sameKind⟩ := sound.agree _ _ _ _ _ bound before shared refers
        have shows : vector.block = .ok (change (session.block number)) := by
          rw [LogicVector.block_eq_ok_iff, replaces.storage_eq]
          simp [load, shared]
        have fits := wellFormed.block_fits _ shows
        rw [replaces.width_eq, replaces.kind_eq, sameWidth, sameKind] at fits
        exact fits
      · exact fitting.block_fits _ (block_load refers)
  agree := by
    intro first second firstHandle secondHandle number firstBound secondBound
    apply sound.agree_of_inherits ?_ firstBound secondBound
    intro other otherHandle otherBound
    obtain ⟨old, before, sameWidth, sameKind, sameStorage⟩ :=
      binds_before_store bound replaces otherBound
    exact ⟨other, old, before, sameWidth, sameKind, by rw [sameStorage]⟩
  singleOwner := by
    intro first second firstHandle secondHandle number firstBound secondBound firstOwns secondOwns
    obtain ⟨firstOld, firstBefore, -, -, firstStorage⟩ :=
      binds_before_store bound replaces firstBound
    obtain ⟨secondOld, secondBefore, -, -, secondStorage⟩ :=
      binds_before_store bound replaces secondBound
    exact sound.singleOwner _ _ _ _ _ firstBefore secondBefore (firstStorage.trans firstOwns)
      (secondStorage.trans secondOwns)

/-- Storing a vector with the header that it had leaves every name with its handle. -/
theorem handle_store
    {session : Session}
    {name : String}
    {handle : Handle}
    {vector : LogicVector}
    (bound : session.Binds name handle)
    (sameHeader : vector.toHeader = handle.toHeader)
    (other : String) :
    (session.store name vector).handle other = session.handle other := by
  unfold Binds at bound
  unfold store Session.handle
  rw [bound, sameHeader]
  by_cases isName : other = name
  · simp [isName, bound]
  · simp [isName]

/-! ## Sharing words, keeping buffers -/

theorem binds_share_iff
    (session : Session)
    (name : String)
    (handle : Handle)
    (other : String)
    (otherHandle : Handle) :
    (session.share name handle).Binds other otherHandle ↔
      (other = name ∧ otherHandle = { handle with storage := handle.storage.borrow }) ∨
        (other ≠ name ∧ session.Binds other otherHandle) := by
  exact Bindings.get?_bind_eq_some_iff _ _ _ _ _

@[simp] theorem content?_borrow {content : Type} (storage : Storage content) :
    storage.borrow.content? = storage.content? := by
  cases storage <;> rfl

theorem borrow_ne_owned {content : Type} (storage : Storage content) (words : content) :
    storage.borrow ≠ .owned words := by
  cases storage <;> simp [Storage.borrow]

theorem Sound.share
    {session : Session}
    (sound : session.Sound clipped)
    (name : String)
    {source : String}
    {handle : Handle}
    (bound : session.Binds source handle) :
    (session.share name handle).Sound clipped where
  wellFormed := by
    intro other otherHandle otherBound
    obtain ⟨-, rfl⟩ | ⟨-, before⟩ := (binds_share_iff _ _ _ _ _).1 otherBound
    · have fitting := sound.wellFormed source handle bound
      refine LogicVector.WellFormed.congr fitting rfl rfl ?_
      simp only [load, Storage.content?_map, content?_borrow]
      rfl
    · exact sound.wellFormed other otherHandle before
  agree := by
    intro first second firstHandle secondHandle number firstBound secondBound
    apply sound.agree_of_inherits ?_ firstBound secondBound
    intro other otherHandle otherBound
    obtain ⟨-, rfl⟩ | ⟨-, before⟩ := (binds_share_iff _ _ _ _ _).1 otherBound
    · exact ⟨source, handle, bound, rfl, rfl, (content?_borrow _).symm⟩
    · exact ⟨other, otherHandle, before, rfl, rfl, rfl⟩
  singleOwner := by
    intro first second firstHandle secondHandle number firstBound secondBound firstOwns secondOwns
    obtain ⟨-, rfl⟩ | ⟨-, firstBefore⟩ := (binds_share_iff _ _ _ _ _).1 firstBound
    · exact absurd firstOwns (borrow_ne_owned _ _)
    · obtain ⟨-, rfl⟩ | ⟨-, secondBefore⟩ := (binds_share_iff _ _ _ _ _).1 secondBound
      · exact absurd secondOwns (borrow_ne_owned _ _)
      · exact sound.singleOwner _ _ _ _ _ firstBefore secondBefore firstOwns secondOwns

theorem Sound.keep
    {session : Session}
    (sound : session.Sound clipped)
    (name : String)
    (buffer : Buffer) :
    (session.keep name buffer).Sound clipped :=
  ⟨sound.wellFormed, sound.agree, sound.singleOwner⟩

end Session
end FourState
