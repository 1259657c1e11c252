/-!
# Vector kinds and their planes

A vector keeps its value in two planes and, depending on its kind, further
coverage planes.  Plane numbers are positions in a slice; the same number can
have a different role in another kind.
-/

namespace FourState

/-- The position of a plane in a slice. -/
abbrev Plane := Fin 7

namespace Plane

/-- Low half of the value. -/
abbrev valueLow : Plane := 0

/-- High half of the value: set where a bit is unknown. -/
abbrev valueHigh : Plane := 1

/-- Signals and memories: the bit went from known 0 to known 1. -/
abbrev toggle01 : Plane := 2

/-- Signals and memories: the bit went from known 1 to known 0. -/
abbrev toggle10 : Plane := 3

/-- Signals: the bit has been given a value. -/
abbrev signalSet : Plane := 4

/-- Signals: the bit has been claimed by an assigner. -/
abbrev assigned : Plane := 5

/-- Memories: the bit has been written. -/
abbrev written : Plane := 4

/-- Memories: the bit has been read. -/
abbrev read : Plane := 5

/-- Expressions: first evaluation condition. -/
abbrev evalA : Plane := 2

/-- Expressions: second evaluation condition. -/
abbrev evalB : Plane := 3

/-- Expressions: third evaluation condition. -/
abbrev evalC : Plane := 4

/-- Expressions: fourth evaluation condition. -/
abbrev evalD : Plane := 5

/-- Expressions: the bit has been given a value. -/
abbrev expressionSet : Plane := 6

/-- The plane with a number, if slices have one. -/
def ofNat? (number : Nat) : Option Plane :=
  if inSlice : number < 7 then some ⟨number, inSlice⟩ else none

/-- Every plane but the two value planes records coverage. -/
def isCoverage (plane : Plane) : Bool :=
  decide (2 ≤ plane.val)

@[simp] theorem ofNat?_val (plane : Plane) : ofNat? plane.val = some plane := by
  simp [ofNat?]

end Plane

/-- The role of a vector, which decides its planes. -/
inductive Kind
  /-- A computed value without coverage. -/
  | plain
  | signal
  | expression
  | memory
  deriving DecidableEq

namespace Kind

/-- The number of planes in use. -/
def planeCount : Kind → Nat
  | plain => 2
  | signal => 6
  | expression => 7
  | memory => 6

/-- A plane is live when the kind uses it. -/
def hasPlane (kind : Kind) (plane : Plane) : Bool :=
  decide (plane.val < kind.planeCount)

/-- The live plane with a number. -/
def plane? (kind : Kind) (number : Nat) : Option Plane :=
  (Plane.ofNat? number).filter kind.hasPlane

/-- The live planes in order. -/
def planes (kind : Kind) : List Plane :=
  (List.finRange 7).filter kind.hasPlane

/-- The number a record descriptor stores for the kind. -/
def code : Kind → Nat
  | plain => 0
  | signal => 1
  | expression => 2
  | memory => 3

/-- The kind with the code that two descriptor bits hold. -/
def ofCode (code : Nat) : Kind :=
  match code % 4 with
  | 0 => plain
  | 1 => signal
  | 2 => expression
  | _ => memory

/-- The plane that remembers which bits have been given a value. -/
def setPlane? : Kind → Option Plane
  | plain => none
  | signal => some Plane.signalSet
  | expression => some Plane.expressionSet
  | memory => none

/-- Kinds with toggle planes. -/
def hasToggles : Kind → Bool
  | plain => false
  | signal => true
  | expression => false
  | memory => true

/-- The value of a new vector of the kind is `x`, not `0`. -/
def startsUnknown : Kind → Bool
  | plain => false
  | signal => true
  | expression => true
  | memory => true

/-- The kind's name in messages. -/
def name : Kind → String
  | plain => "Plain"
  | signal => "Signal"
  | expression => "Expression"
  | memory => "Memory"

theorem length_planes (kind : Kind) : kind.planes.length = kind.planeCount := by
  cases kind <;> rfl

end Kind

/-- The word format of the planes; one format is in use. -/
inductive WordFormat
  /-- Unsigned words of 32 bits. -/
  | bits32
  deriving DecidableEq

namespace WordFormat

/-- The number a record descriptor stores for the format. -/
def code : WordFormat → Nat
  | bits32 => 0

/-- The format with a given code. -/
def ofCode? : Nat → Option WordFormat
  | 0 => some bits32
  | _ => none

end WordFormat
end FourState
