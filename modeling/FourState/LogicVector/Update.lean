import FourState.Coverage.Evaluation
import FourState.LogicVector.Copy
import FourState.Operator.Operation
import FourState.Record.Merge
import FourState.Text.Radix
import FourState.Text.ValueChange

/-!
# Updates

An update is a change of one vector that leaves its words where they are.  Its
operands are vectors or whatever stands for them.  An update either succeeds
with the changed vector and an answer, or fails and changes nothing.
-/

namespace FourState

/-- A change of one vector. -/
inductive Update (operand : Type)
  | setSigned (signed : Bool)
  | setTwoState (twoState : Bool)
  /-- Assign a range from words. -/
  | assign (low high : Array Word) (lsb msb : Nat)
  /-- Assign a range from the letters of a value change. -/
  | applyChange (text : List Char) (msb lsb : Nat)
  | setNat (value : Nat)
  | setWord (value : Word)
  | setUnknown
  | extendFrom (last : Nat)
  | setValue (source : operand)
  | commit (value : Buffer)
  | operate (operation : Operation operand)
  | claim (msb lsb : Nat)
  | copyFrom (source : operand)
  | copyRange (source : operand) (lsb : Nat)
  | merge (source : operand)
  | resetCoverage
  | evaluateUnary
  | evaluate (evaluation : Evaluation) (left right : operand)
  | mergeRecord (text : List Char) (options : RecordOptions)

/-- What a request answers. -/
inductive Reply
  /-- It is done. -/
  | done
  /-- A yes or no: a value bit changed, a bit had been claimed, a clone was made. -/
  | flag (value : Bool)
  /-- The text that remains unread. -/
  | rest (text : List Char)
  /-- The way a literal was written. -/
  | radix (radix : Radix)
  deriving DecidableEq

namespace Update

variable {operand other : Type}

/-- Exchange the operands, where each of them can be. -/
def traverse {error : Type} (resolve : operand → Except error other) :
    Update operand → Except error (Update other)
  | setSigned signed => return setSigned signed
  | setTwoState twoState => return setTwoState twoState
  | assign low high lsb msb => return assign low high lsb msb
  | applyChange text msb lsb => return applyChange text msb lsb
  | setNat value => return setNat value
  | setWord value => return setWord value
  | setUnknown => return setUnknown
  | extendFrom last => return extendFrom last
  | setValue source => return setValue (← resolve source)
  | commit value => return commit value
  | operate operation => return operate (← operation.traverse resolve)
  | claim msb lsb => return claim msb lsb
  | copyFrom source => return copyFrom (← resolve source)
  | copyRange source lsb => return copyRange (← resolve source) lsb
  | merge source => return merge (← resolve source)
  | resetCoverage => return resetCoverage
  | evaluateUnary => return evaluateUnary
  | evaluate evaluation left right => return evaluate evaluation (← resolve left) (← resolve right)
  | mergeRecord text options => return mergeRecord text options

end Update

namespace Outcome

/-- The outcome of a change that only succeeds or fails. -/
def ofChange (result : Except Fault LogicVector) : Outcome (LogicVector × Reply) :=
  quiet do
    let vector ← result
    return (vector, .done)

/-- The outcome of a change that answers yes or no. -/
def ofFlagged (result : Except Failure (LogicVector × Bool)) : Outcome (LogicVector × Reply) :=
  quiet do
    let (vector, value) ← result
    return (vector, .flag value)

theorem ofChange_eq_ok_iff
    {result : Except Fault LogicVector}
    {updated : LogicVector}
    {reply : Reply} :
    (ofChange result).result = .ok (updated, reply) ↔ result = .ok updated ∧ reply = .done := by
  unfold ofChange quiet
  rw [bind_eq_ok_iff]
  constructor
  · rintro ⟨between, succeeds, same⟩
    cases same
    exact ⟨liftM_fault_eq_ok_iff.1 succeeds, rfl⟩
  · rintro ⟨succeeds, rfl⟩
    exact ⟨updated, liftM_fault_eq_ok_iff.2 succeeds, rfl⟩

theorem ofFlagged_eq_ok_iff
    {result : Except Failure (LogicVector × Bool)}
    {updated : LogicVector}
    {reply : Reply} :
    (ofFlagged result).result = .ok (updated, reply) ↔
      ∃ value, result = .ok (updated, value) ∧ reply = .flag value := by
  unfold ofFlagged quiet
  rw [bind_eq_ok_iff]
  constructor
  · rintro ⟨⟨between, value⟩, succeeds, same⟩
    cases same
    exact ⟨value, succeeds, rfl⟩
  · rintro ⟨value, succeeds, rfl⟩
    exact ⟨(updated, value), succeeds, rfl⟩

/-- A change that keeps to its conditions of use gives its answer. -/
theorem ofFlagged_of_ok
    {result : Except Fault (LogicVector × Bool)}
    {updated : LogicVector}
    {value : Bool}
    (succeeds : result = .ok (updated, value)) :
    (ofFlagged (liftM result)).result = .ok (updated, .flag value) :=
  ofFlagged_eq_ok_iff.2 ⟨value, liftM_fault_eq_ok_iff.2 succeeds, rfl⟩

end Outcome

/-- Carry out an update. -/
def LogicVector.update (vector : LogicVector) :
    Update LogicVector → Outcome (LogicVector × Reply)
  | .setSigned signed => .ofChange (.ok (vector.setSigned signed))
  | .setTwoState twoState => .ofChange (.ok (vector.setTwoState twoState))
  | .assign low high lsb msb => .ofFlagged (vector.assign low high lsb msb)
  | .applyChange text msb lsb => .ofFlagged (vector.applyChange text msb lsb)
  | .setNat value => .ofFlagged (vector.setNat value)
  | .setWord value => .ofFlagged (vector.setWord value)
  | .setUnknown => .ofFlagged vector.setUnknown
  | .extendFrom last => .ofFlagged (vector.extendFrom last)
  | .setValue source => .ofFlagged (vector.setValue source)
  | .commit value => .ofFlagged (vector.commit value)
  | .operate operation =>
      (vector.operate operation).map fun answer => (answer.1, .flag answer.2)
  | .claim msb lsb => .ofFlagged (vector.claim msb lsb)
  | .copyFrom source => .ofChange (vector.copyFrom source)
  | .copyRange source lsb => .ofChange (vector.copyRange source lsb)
  | .merge source => .ofChange (vector.merge source)
  | .resetCoverage => .ofChange vector.resetCoverage
  | .evaluateUnary => .ofChange vector.evaluateUnary
  | .evaluate evaluation left right => .ofChange (vector.evaluate evaluation left right)
  | .mergeRecord text options =>
      (vector.mergeRecord text options).map fun answer => (answer.1, .rest answer.2)

/-- Note in a memory that the bits `lsb` to `msb` are read. -/
def LogicVector.markRead (source : LogicVector) (lsb msb : Nat) : Except Fault LogicVector := do
  source.requireRange lsb msb
  let block ← source.block
  if source.kind = Kind.memory then
    return source.withBlock <| block.mapIdx fun index slice =>
      slice.markPlane Plane.read (Mask.span lsb (msb + 1) index)
  else
    return source

end FourState
