/-!
# Faults

A fault is a broken condition of use: the caller asked for something the
operation does not offer.  An operation checks its conditions one after the
other and stops at the first that fails.
-/

namespace FourState

/-- The conditions of use that can be broken. -/
inductive Fault
  | zeroWidth
  | widthTooLarge (width : Nat)
  | invalidWidth (width : Nat)
  | noStorage
  | planeNotPresent (plane : Nat)
  | bitOutOfRange (index : Nat)
  | copyWidths
  | copyKinds
  | copyRangeKinds
  | copyRangeStart (lsb width : Nat)
  | mergeWidths
  | mergeKinds
  | assignmentRange (msb lsb width : Nat)
  | shortBuffer (bit : Nat)
  | fillPosition (position : Nat)
  | claimKind
  | claimRange (msb lsb : Nat)
  | evaluationKind
  | memoryKind
  | selectRange (msb lsb width : Nat)
  | valueChangeRange (msb lsb width : Nat)
  /-- A word past the end of a block. -/
  | wordIndex
  /-- A plane number that no slice has. -/
  | planeIndex
  /-- A position past the end of a buffer. -/
  | bufferIndex
  /-- A sum or product that does not fit a 64-bit machine integer. -/
  | overflow
  deriving DecidableEq

/-- The largest width of a vector. -/
def maxWidth : Nat :=
  65536

/-- The wording of a fault, for those that have one. -/
def Fault.message? : Fault → Option String
  | zeroWidth => some "vector width must be non-zero"
  | widthTooLarge width => some s!"vector width {width} exceeds maximum of {maxWidth}"
  | invalidWidth width => some s!"invalid width {width}"
  | noStorage => some "width-only vector has no word storage"
  | planeNotPresent plane => some s!"plane {plane} not present"
  | bitOutOfRange index => some s!"bit {index} out of range"
  | copyWidths => some "copy requires equal widths"
  | copyKinds => some "copy requires equal kinds"
  | copyRangeKinds => some "copy_range requires equal kinds"
  | copyRangeStart lsb width => some s!"copy_range start bit {lsb} outside {width}-bit source"
  | mergeWidths => some "merge requires equal widths"
  | mergeKinds => some "merge requires equal kinds"
  | assignmentRange msb lsb width =>
      some s!"assignment range [{msb}:{lsb}] outside {width}-bit vector"
  | shortBuffer bit => some s!"scratch buffer too short for bit {bit}"
  | fillPosition position => some s!"bit-fill position {position} out of range"
  | claimKind => some "assigned bits exist only on signals"
  | claimRange msb lsb => some s!"range [{msb}:{lsb}] out of bounds"
  | evaluationKind => some "eval planes exist only on expressions"
  | memoryKind => some "read/write planes exist only on memories"
  | selectRange msb lsb width => some s!"part-select [{msb}:{lsb}] outside {width}-bit vector"
  | valueChangeRange msb lsb width =>
      some s!"value change range [{msb}:{lsb}] outside {width}-bit vector"
  | wordIndex => none
  | planeIndex => none
  | bufferIndex => none
  | overflow => none

/-- Go on only if a condition holds. -/
def require {error : Type} (condition : Prop) [Decidable condition] (otherwise : error) :
    Except error Unit :=
  if condition then .ok () else .error otherwise

section Require

variable {error result : Type} {condition : Prop} [Decidable condition] {otherwise : error}

@[simp] theorem require_eq_ok_iff : require condition otherwise = .ok () ↔ condition := by
  unfold require
  split <;> simp_all

/-- A met condition does not show in the outcome. -/
theorem require_bind_of_true (holds : condition) (next : Unit → Except error result) :
    (require condition otherwise >>= next) = next () := by
  simp [require, holds, bind, Except.bind]

/-- A broken condition decides the outcome. -/
theorem require_bind_of_false (fails : ¬condition) (next : Unit → Except error result) :
    (require condition otherwise >>= next) = .error otherwise := by
  simp [require, fails, bind, Except.bind]

end Require

/-- Two steps succeed with a value exactly when the first gives something from
which the second gives the value. -/
theorem bind_eq_ok_iff
    {error first second : Type}
    {step : Except error first}
    {next : first → Except error second}
    {value : second} :
    (step >>= next) = .ok value ↔ ∃ between, step = .ok between ∧ next between = .ok value := by
  cases step with
  | error cause => simp [bind, Except.bind]
  | ok between => simp [bind, Except.bind]

end FourState
