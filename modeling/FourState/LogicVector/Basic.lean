import FourState.Bit
import FourState.Fault
import FourState.Slice

/-!
# Logic vectors

A logic vector has a header, which says how wide it is and how its bits are to
be read, and storage for its words.  A vector without words records a width
only.  Words are owned, or borrowed from a vector that owns them; the
operations treat both alike.
-/

namespace FourState

/-- What is known of a vector apart from its words. -/
structure Header where
  /-- The number of bits. -/
  width : Nat
  /-- The role, which decides the planes. -/
  kind : Kind
  /-- The word format of the planes. -/
  format : WordFormat
  /-- The value is read as two's complement. -/
  signed : Bool
  /-- Unknown bits are not kept. -/
  twoState : Bool
  deriving DecidableEq

/-- Where the content of a vector lives. -/
inductive Storage (content : Type)
  /-- Nowhere: a width-only vector. -/
  | absent
  /-- In words that belong to the vector. -/
  | owned (words : content)
  /-- In words that belong to another vector. -/
  | borrowed (words : content)
  deriving DecidableEq

namespace Storage

variable {content other : Type}

/-- The content, if there is any. -/
def content? : Storage content → Option content
  | absent => none
  | owned words => some words
  | borrowed words => some words

/-- The words belong to the vector. -/
def isOwned : Storage content → Bool
  | absent => false
  | owned _ => true
  | borrowed _ => false

/-- There are words. -/
def isAllocated : Storage content → Bool
  | absent => false
  | owned _ => true
  | borrowed _ => true

/-- Change the content and keep its ownership. -/
def map (change : content → other) : Storage content → Storage other
  | absent => absent
  | owned words => owned (change words)
  | borrowed words => borrowed (change words)

/-- The same words without ownership. -/
def borrow : Storage content → Storage content
  | absent => absent
  | owned words => borrowed words
  | borrowed words => borrowed words

/-- Content is allocated if there is any. -/
theorem isAllocated_eq_isSome (storage : Storage content) :
    storage.isAllocated = storage.content?.isSome := by
  cases storage <;> rfl

@[simp] theorem content?_map (change : content → other) (storage : Storage content) :
    (storage.map change).content? = storage.content?.map change := by
  cases storage <;> rfl

@[simp] theorem isOwned_map (change : content → other) (storage : Storage content) :
    (storage.map change).isOwned = storage.isOwned := by
  cases storage <;> rfl

@[simp] theorem isAllocated_map (change : content → other) (storage : Storage content) :
    (storage.map change).isAllocated = storage.isAllocated := by
  cases storage <;> rfl

end Storage

/-- A four-state vector with its coverage planes. -/
structure LogicVector extends Header where
  /-- The words. -/
  storage : Storage Block
  deriving DecidableEq

/-- The value bit at a position of a block. -/
def Block.value (block : Block) (position : Nat) : Bit :=
  Bit.ofPlanes (block.bit Plane.valueLow position) (block.bit Plane.valueHigh position)

namespace LogicVector

/-- The words of a vector; a width-only vector has none. -/
def block (vector : LogicVector) : Except Fault Block :=
  match vector.storage.content? with
  | some block => .ok block
  | none => .error Fault.noStorage

/-- The vector with other words in the same place. -/
def withBlock (vector : LogicVector) (block : Block) : LogicVector :=
  { vector with storage := vector.storage.map fun _ => block }

/-- A new vector of a kind: known zeros for a plain one, else all `x`. -/
def create (width : Nat) (kind : Kind) (allocate : Bool) : Except Fault LogicVector := do
  require (0 < width) Fault.zeroWidth
  require (width ≤ maxWidth) (Fault.widthTooLarge width)
  return {
    width
    kind
    format := WordFormat.bits32
    signed := false
    twoState := false
    storage :=
      if allocate then .owned (Block.initial width kind.startsUnknown) else .absent }

/-- Choose how the value is read. -/
def setSigned (vector : LogicVector) (signed : Bool) : LogicVector :=
  { vector with signed }

/-- Choose whether unknown bits are kept; giving them up collapses the words. -/
def setTwoState (vector : LogicVector) (twoState : Bool) : LogicVector :=
  { vector with
    twoState
    storage :=
      if twoState then vector.storage.map fun block => block.map Slice.collapse
      else vector.storage }

/-- A vector of its own with the same header and words; none for a width-only vector. -/
def deepClone? (vector : LogicVector) : Option LogicVector :=
  vector.storage.content?.map fun block => { vector with storage := .owned block }

/-- One word of one plane. -/
def plane (vector : LogicVector) (word number : Nat) : Except Fault Word :=
  match vector.kind.plane? number with
  | none => throw (Fault.planeNotPresent number)
  | some plane => do
      let block ← vector.block
      require (word < block.size) Fault.wordIndex
      return block.word plane word

/-- One value bit. -/
def bit (vector : LogicVector) (index : Nat) : Except Fault Bit := do
  require (index < vector.width) (Fault.bitOutOfRange index)
  let block ← vector.block
  require (index / 32 < block.size) Fault.wordIndex
  return block.value index

/-- Two slices agree on the planes that a kind uses. -/
def sameSlice (kind : Kind) (first second : Slice 32) : Bool :=
  kind.planes.all fun plane => first.get plane == second.get plane

/-- Two vectors are equal when their headers, ownership and live planes are. -/
def sameAs (first second : LogicVector) : Bool :=
  first.toHeader == second.toHeader &&
    first.storage.isOwned == second.storage.isOwned &&
    first.storage.isAllocated == second.storage.isAllocated &&
    match first.storage.content?, second.storage.content? with
    | some left, some right =>
        (left.toList.zip right.toList).all fun pair => sameSlice first.kind pair.1 pair.2
    | _, _ => true

instance : BEq LogicVector where
  beq := sameAs

@[simp] theorem toHeader_withBlock (vector : LogicVector) (block : Block) :
    (vector.withBlock block).toHeader = vector.toHeader :=
  rfl

/-- A vector with words shows the words last put there. -/
theorem block_withBlock (vector : LogicVector) (block : Block)
    (allocated : vector.storage.isAllocated = true) :
    (vector.withBlock block).block = .ok block := by
  cases stored : vector.storage with
  | absent => simp [stored, Storage.isAllocated] at allocated
  | owned words => simp [LogicVector.block, withBlock, stored, Storage.map, Storage.content?]
  | borrowed words => simp [LogicVector.block, withBlock, stored, Storage.map, Storage.content?]

/-- A vector has words exactly when it is not width-only. -/
theorem block_eq_ok_iff (vector : LogicVector) (block : Block) :
    vector.block = .ok block ↔ vector.storage.content? = some block := by
  unfold LogicVector.block
  split <;> simp_all

/-- Putting the words of a vector in their place does nothing. -/
theorem withBlock_eq_self
    {vector : LogicVector}
    {block : Block}
    (stored : vector.block = .ok block) :
    vector.withBlock block = vector := by
  rw [block_eq_ok_iff] at stored
  rcases vector with ⟨header, storage⟩
  cases storage with
  | absent => contradiction
  | owned words =>
      cases stored
      rfl
  | borrowed words =>
      cases stored
      rfl

end LogicVector
end FourState
