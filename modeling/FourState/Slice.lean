import FourState.Fault
import FourState.Kind
import FourState.Mask

/-!
# Slices

A slice is one word of a vector across all planes.  Its coverage planes are
sticky: `mark` only adds bits.  Only `assign` and `collapse` touch the value
planes.
-/

namespace FourState

/-- One word of every plane. -/
structure Slice (size : Nat) where
  /-- The words in plane order. -/
  planes : Vector (BitVec size) 7
  deriving DecidableEq

namespace Slice

variable {size : Nat}

/-- The slice whose planes are given by a function. -/
def ofPlanes (wordOf : Plane → BitVec size) : Slice size :=
  ⟨Vector.ofFn wordOf⟩

/-- The word of one plane. -/
def get (slice : Slice size) (plane : Plane) : BitVec size :=
  slice.planes[plane.val]

/-- One bit of one plane. -/
def bit (slice : Slice size) (plane : Plane) (index : Nat) : Bool :=
  (slice.get plane).getLsbD index

/-- The slice with the given value and no coverage. -/
def ofValue (low high : BitVec size) : Slice size :=
  ofPlanes fun plane =>
    if plane = Plane.valueLow then low else if plane = Plane.valueHigh then high else 0

/-- The slice without a set bit. -/
def empty : Slice size :=
  ofPlanes fun _ => 0

instance : Inhabited (Slice size) where
  default := empty

/-- The low and high words of the value. -/
def value (slice : Slice size) : BitVec size × BitVec size :=
  (slice.get Plane.valueLow, slice.get Plane.valueHigh)

/-- Replace the word of one plane. -/
def set (slice : Slice size) (plane : Plane) (word : BitVec size) : Slice size :=
  ⟨slice.planes.set plane.val word plane.isLt⟩

/-- Add bits to every plane. -/
def mark (slice : Slice size) (marks : Plane → BitVec size) : Slice size :=
  ofPlanes fun plane => slice.get plane ||| marks plane

/-- Add bits to one plane. -/
def markPlane (slice : Slice size) (plane : Plane) (word : BitVec size) : Slice size :=
  slice.set plane (slice.get plane ||| word)

/-- Take the bits under `mask` from another slice and keep the rest. -/
def blend (slice : Slice size) (mask : BitVec size) (other : Slice size) : Slice size :=
  ofPlanes fun plane => (slice.get plane &&& ~~~mask) ||| (other.get plane &&& mask)

/-- Replace the value bits under `mask`. -/
def assign (slice : Slice size) (mask low high : BitVec size) : Slice size :=
  ofPlanes fun plane =>
    if plane = Plane.valueLow then (slice.get plane &&& ~~~mask) ||| (low &&& mask)
    else if plane = Plane.valueHigh then (slice.get plane &&& ~~~mask) ||| (high &&& mask)
    else slice.get plane

/-- Turn unknown value bits into known zeros. -/
def collapse (slice : Slice size) : Slice size :=
  ofPlanes fun plane =>
    if plane = Plane.valueLow then slice.get Plane.valueLow &&& ~~~slice.get Plane.valueHigh
    else if plane = Plane.valueHigh then 0
    else slice.get plane

/-- Clear every plane from number `first` on. -/
def clearFrom (slice : Slice size) (first : Nat) : Slice size :=
  ofPlanes fun plane => if first ≤ plane.val then 0 else slice.get plane

/-- The number of set bits in the given planes. -/
def countOnes (slice : Slice size) (planes : List Plane) : Nat :=
  planes.foldr (fun plane total => BitWord.countOnes (slice.get plane) + total) 0

/-- Keep only the bits under `mask`, in every plane. -/
def restrict (slice : Slice size) (mask : BitVec size) : Slice size :=
  ofPlanes fun plane => slice.get plane &&& mask

@[simp] theorem get_ofPlanes (wordOf : Plane → BitVec size) (plane : Plane) :
    (ofPlanes wordOf).get plane = wordOf plane := by
  simp [ofPlanes, get]

/-- A slice is determined by its planes. -/
@[ext] theorem ext {first second : Slice size}
    (samePlanes : ∀ plane, first.get plane = second.get plane) : first = second := by
  cases first with
  | mk firstPlanes =>
      cases second with
      | mk secondPlanes =>
          congr 1
          apply Vector.ext
          intro index inBounds
          simpa [get] using samePlanes ⟨index, inBounds⟩

@[simp] theorem get_empty (plane : Plane) : (empty : Slice size).get plane = 0 := by
  simp [empty]

@[simp] theorem get_set (slice : Slice size) (plane other : Plane) (word : BitVec size) :
    (slice.set plane word).get other = if other = plane then word else slice.get other := by
  simp only [set, get, Vector.getElem_set]
  by_cases same : other = plane
  · subst same
    simp
  · have differs : ¬plane.val = other.val := fun equal => same (Fin.ext equal.symm)
    simp [same, differs]

@[simp] theorem get_mark (slice : Slice size) (marks : Plane → BitVec size) (plane : Plane) :
    (slice.mark marks).get plane = slice.get plane ||| marks plane := by
  simp [mark]

@[simp] theorem get_markPlane (slice : Slice size) (plane other : Plane) (word : BitVec size) :
    (slice.markPlane plane word).get other =
      if other = plane then slice.get plane ||| word else slice.get other := by
  simp [markPlane]

@[simp] theorem get_blend (slice other : Slice size) (mask : BitVec size) (plane : Plane) :
    (slice.blend mask other).get plane =
      (slice.get plane &&& ~~~mask) ||| (other.get plane &&& mask) := by
  simp [blend]

@[simp] theorem get_clearFrom (slice : Slice size) (first : Nat) (plane : Plane) :
    (slice.clearFrom first).get plane = if first ≤ plane.val then 0 else slice.get plane := by
  simp [clearFrom]

@[simp] theorem get_restrict (slice : Slice size) (mask : BitVec size) (plane : Plane) :
    (slice.restrict mask).get plane = slice.get plane &&& mask := by
  simp [restrict]

/-- One change of a slice, with planes given by number. -/
inductive Edit (size : Nat)
  | set (plane : Nat) (word : BitVec size)
  | mark (plane : Nat) (word : BitVec size)
  | assign (mask low high : BitVec size)
  | clearFrom (first : Nat)

/-- Carry out a change; the planes it names must exist. -/
def edit (slice : Slice size) : Edit size → Except Fault (Slice size)
  | .set plane word =>
      match Plane.ofNat? plane with
      | some plane => return slice.set plane word
      | none => throw Fault.planeIndex
  | .mark plane word =>
      match Plane.ofNat? plane with
      | some plane => return slice.markPlane plane word
      | none => throw Fault.planeIndex
  | .assign mask low high => return slice.assign mask low high
  | .clearFrom first => do
      require (first ≤ 7) Fault.planeIndex
      return slice.clearFrom first

/-- Carry out changes one after the other, and keep every intermediate slice. -/
def edits (slice : Slice size) : List (Edit size) → Except Fault (List (Slice size))
  | [] => return [slice]
  | change :: changes => do
      let changed ← slice.edit change
      let rest ← changed.edits changes
      return slice :: rest

end Slice

/-- The slices of a vector, least significant word first. -/
abbrev Block := Array (Slice 32)

namespace Block

/-- Slice `index`, empty past the end of the block. -/
def slice (block : Block) (index : Nat) : Slice 32 :=
  block.getD index Slice.empty

/-- Bit `position` of one plane, counted over the whole block. -/
def bit (block : Block) (plane : Plane) (position : Nat) : Bool :=
  (block.slice (position / 32)).bit plane (position % 32)

/-- The words of one plane as a sequence. -/
def word (block : Block) (plane : Plane) (index : Nat) : Word :=
  (block.slice index).get plane

/-- The block of a new vector: known zeros, or unknown inside the width. -/
def initial (width : Nat) (unknown : Bool) : Block :=
  Array.ofFn fun index : Fin (wordCount width) =>
    Slice.ofValue 0 (if unknown then Mask.inside width index else 0)

/-- Keep only the bits inside the width, in every plane. -/
def restrict (block : Block) (width : Nat) : Block :=
  block.mapIdx fun index slice => slice.restrict (Mask.inside width index)

theorem slice_of_lt (block : Block) {index : Nat} (inBounds : index < block.size) :
    block.slice index = block[index] := by
  simp [slice, inBounds]

theorem slice_of_size_le (block : Block) {index : Nat} (outside : block.size ≤ index) :
    block.slice index = Slice.empty := by
  simp [slice, outside]

/-- Mapping with the word index acts slice by slice. -/
theorem slice_mapIdx (block : Block) (change : Nat → Slice 32 → Slice 32) {index : Nat}
    (inBounds : index < block.size) :
    Block.slice (block.mapIdx change) index = change index (block.slice index) := by
  simp [slice, inBounds]

@[simp] theorem size_initial (width : Nat) (unknown : Bool) :
    (initial width unknown).size = wordCount width := by
  simp [initial]

@[simp] theorem size_restrict (block : Block) (width : Nat) :
    (block.restrict width).size = block.size := by
  simp [restrict]

end Block
end FourState
