import FourState.Checked
import FourState.Proofs.Buffer
import FourState.Proofs.Number

/-!
# Guarded machine steps

A guarded computation takes each step as the machine does and stops with a fault
where the machine would: at a word or a plane that is not there, at a shift by a
whole word, below zero, past the largest machine integer, at a division by zero, or
at an assertion that does not hold.  Each step has one lemma, that it succeeds under
its condition, and the masks built from them are the masks of the theory.
-/

namespace FourState

/-- What can go wrong in a machine step. -/
inductive MachineFault
  /-- A broken condition of use, a missing word or plane, or an overflow. -/
  | condition (fault : Fault)
  /-- A shift by at least the bits of a word. -/
  | shift (amount : Nat)
  /-- A difference below zero. -/
  | underflow (left right : Nat)
  /-- A division by zero. -/
  | division
  /-- An assertion that does not hold. -/
  | assertion
  deriving DecidableEq

/-- A computation whose machine steps are guarded. -/
abbrev Guarded (result : Type) :=
  Except MachineFault result

instance : MonadLift (Except Fault) (Except MachineFault) where
  monadLift := Except.mapError MachineFault.condition

namespace Guarded

/-! ## Steps -/

/-- Go on only if an assertion holds. -/
def assert (condition : Prop) [Decidable condition] : Guarded Unit :=
  require condition MachineFault.assertion

/-- Add machine integers of a size. -/
def add (size left right : Nat) : Guarded Nat := do
  require (left + right < modulus size) (MachineFault.condition Fault.overflow)
  return left + right

/-- Multiply machine integers of a size. -/
def mul (size left right : Nat) : Guarded Nat := do
  require (left * right < modulus size) (MachineFault.condition Fault.overflow)
  return left * right

/-- Subtract machine integers. -/
def sub (left right : Nat) : Guarded Nat := do
  require (right ≤ left) (MachineFault.underflow left right)
  return left - right

/-- Shift a word up. -/
def shiftLeft (word : Word) (amount : Nat) : Guarded Word := do
  require (amount < 32) (MachineFault.shift amount)
  return word <<< amount

/-- Shift a word down. -/
def shiftRight (word : Word) (amount : Nat) : Guarded Word := do
  require (amount < 32) (MachineFault.shift amount)
  return word >>> amount

section Arrays

variable {content : Type}

/-- Read an entry. -/
def get (entries : Array content) (index : Nat) : Guarded content :=
  match entries[index]? with
  | some entry => return entry
  | none => throw (MachineFault.condition Fault.wordIndex)

/-- Write an entry. -/
def set (entries : Array content) (index : Nat) (entry : content) : Guarded (Array content) := do
  require (index < entries.size) (MachineFault.condition Fault.wordIndex)
  return entries.setIfInBounds index entry

end Arrays

/-- A number of machine words, bits or positions is far from the largest integer. -/
theorem lt_modulus {size value : Nat} (wide : 32 ≤ size) (small : value < 4294967296) :
    value < modulus size := by
  obtain ⟨added, rfl⟩ := Nat.exists_eq_add_of_le wide
  calc value
      < modulus 32 := small
    _ ≤ modulus 32 * modulus added := Nat.le_mul_of_pos_right _ (modulus_pos added)
    _ = modulus (32 + added) := (modulus_add 32 added).symm

section Steps

variable {size left right amount : Nat}

theorem assert_eq_ok {condition : Prop} [Decidable condition] (holds : condition) :
    assert condition = .ok () :=
  require_eq_ok_iff.2 holds

theorem add_eq_ok (fits : left + right < modulus size) :
    add size left right = .ok (left + right) := by
  rw [add, require_bind_of_true fits]
  rfl

theorem mul_eq_ok (fits : left * right < modulus size) :
    mul size left right = .ok (left * right) := by
  rw [mul, require_bind_of_true fits]
  rfl

theorem sub_eq_ok (notBelow : right ≤ left) : sub left right = .ok (left - right) := by
  rw [sub, require_bind_of_true notBelow]
  rfl

theorem shiftLeft_eq_ok (word : Word) (inWord : amount < 32) :
    shiftLeft word amount = .ok (word <<< amount) := by
  rw [shiftLeft, require_bind_of_true inWord]
  rfl

theorem shiftRight_eq_ok (word : Word) (inWord : amount < 32) :
    shiftRight word amount = .ok (word >>> amount) := by
  rw [shiftRight, require_bind_of_true inWord]
  rfl

theorem get_eq_ok
    {content : Type}
    {entries : Array content}
    {index : Nat}
    (inBounds : index < entries.size) :
    get entries index = .ok entries[index] := by
  rw [get, Array.getElem?_eq_getElem inBounds]
  rfl

theorem set_eq_ok
    {content : Type}
    {entries : Array content}
    {index : Nat}
    (inBounds : index < entries.size)
    (entry : content) :
    set entries index entry = .ok (entries.setIfInBounds index entry) := by
  rw [set, require_bind_of_true inBounds]
  rfl

end Steps

/-- A step that succeeds hands on its result. -/
theorem bind_of_ok
    {first second : Type}
    {step : Guarded first}
    {value : first}
    (succeeds : step = .ok value)
    (next : first → Guarded second) :
    (step >>= next) = next value := by
  rw [succeeds]
  rfl

/-- A condition of use that is met is no fault. -/
theorem liftM_eq_ok
    {result : Type}
    {step : Except Fault result}
    {value : result}
    (succeeds : step = .ok value) :
    (liftM step : Guarded result) = .ok value := by
  rw [succeeds]
  rfl

/-! ## Agreement -/

/-- A guarded computation succeeds with the result of another one, and the result is fit. -/
def Agrees {result : Type} (fit : result → Prop) (guarded : Guarded result)
    (other : Except Fault result) : Prop :=
  ∃ value, guarded = .ok value ∧ other = .ok value ∧ fit value

theorem agrees_ok
    {result : Type}
    {fit : result → Prop}
    {guarded : Guarded result}
    {value : result}
    (succeeds : guarded = .ok value)
    (fits : fit value) :
    Agrees fit guarded (.ok value) :=
  ⟨value, succeeds, rfl, fits⟩

/-- Computations agree if their parts do. -/
theorem Agrees.bind
    {first second : Type}
    {fit : first → Prop}
    {fitNext : second → Prop}
    {guarded : Guarded first}
    {other : Except Fault first}
    {guardedNext : first → Guarded second}
    {otherNext : first → Except Fault second}
    (agrees : Agrees fit guarded other)
    (agreesNext : ∀ value, fit value → Agrees fitNext (guardedNext value) (otherNext value)) :
    Agrees fitNext (guarded >>= guardedNext) (other >>= otherNext) := by
  obtain ⟨value, rfl, rfl, fits⟩ := agrees
  exact agreesNext value fits

/-! ## Loops -/

/-- A loop over rising numbers succeeds if each round does, from the state that the
rounds before it leave. -/
theorem foldlM_range'_eq_ok
    {state : Type}
    {body : state → Nat → Guarded state}
    {first count : Nat}
    (states : Nat → state)
    (each : ∀ index, first ≤ index → index < first + count →
      body (states index) index = .ok (states (index + 1))) :
    (List.range' first count).foldlM body (states first) = .ok (states (first + count)) := by
  induction count generalizing first with
  | zero => rfl
  | succ count inductionHypothesis =>
      rw [List.range'_succ, List.foldlM_cons, bind_of_ok (each first (by omega) (by omega)),
        inductionHypothesis fun index past below => each index (by omega) (by omega),
        Nat.add_right_comm, Nat.add_assoc]

/-- A table whose entries can all be computed can be computed. -/
theorem ofFnM_eq_ok
    {content : Type}
    {count : Nat}
    {entryAt : Nat → Guarded content}
    {entry : Nat → content}
    (each : ∀ index, index < count → entryAt index = .ok (entry index)) :
    (Array.ofFnM fun index : Fin count => entryAt index) =
      .ok (Array.ofFn fun index : Fin count => entry index) := by
  have same : (fun index : Fin count => entryAt index) =
      fun index : Fin count => pure (entry index) := by
    funext index
    exact each index index.isLt
  rw [same]
  exact Array.ofFnM_pure

/-! ## Masks -/

/-- The lowest bits of a word. -/
def lowMask (count : Nat) : Guarded Word :=
  if 32 ≤ count then return BitVec.allOnes 32
  else if count = 0 then return 0
  else do
    let above ← shiftLeft (BitVec.allOnes 32) count
    return ~~~above

/-- The bits from `first` up to and including `last`. -/
def rangeMask (first last : Nat) : Guarded Word := do
  assert (first ≤ last ∧ last < 32)
  let stop ← add 32 last 1
  let upper ← lowMask stop
  let lower ← lowMask first
  return upper &&& ~~~lower

/-- The bits of the most significant word that lie inside a width. -/
def topMask (width : Nat) : Guarded Word := do
  assert (0 < width)
  let last ← sub width 1
  let count ← add 32 (last % 32) 1
  lowMask count

/-- One bit of a word. -/
def bit (word : Word) (index : Nat) : Guarded Bool := do
  let shifted ← shiftRight word index
  let lowest ← lowMask 1
  return decide (shifted &&& lowest ≠ 0)

/-- The word with one bit set or cleared. -/
def withBit (word : Word) (index : Nat) (value : Bool) : Guarded Word := do
  let lowest ← lowMask 1
  let selected ← shiftLeft lowest index
  return if value then word ||| selected else word &&& ~~~selected

theorem lowMask_eq_ok (count : Nat) : lowMask count = .ok (Mask.low count) := by
  unfold lowMask
  split
  · rename_i wholeWord
    refine congrArg Except.ok (BitVec.eq_of_getLsbD_eq fun offset inWord => ?_)
    simp only [BitVec.getLsbD_allOnes, Mask.getLsbD_low, decide_eq_decide]
    omega
  · rename_i notWhole
    split
    · rename_i isZero
      subst isZero
      refine congrArg Except.ok (BitVec.eq_of_getLsbD_eq fun offset inWord => ?_)
      simp
    · rw [bind_of_ok (shiftLeft_eq_ok _ (by omega))]
      refine congrArg Except.ok (BitVec.eq_of_getLsbD_eq fun offset inWord => ?_)
      simp only [BitVec.getLsbD_not, BitVec.getLsbD_shiftLeft, BitVec.getLsbD_allOnes,
        Mask.getLsbD_low, inWord, decide_true, Bool.true_and]
      by_cases below : offset < count
      · simp [below]
      · simp [below]
        omega

theorem rangeMask_eq_ok {first last : Nat} (ordered : first ≤ last) (inWord : last < 32) :
    rangeMask first last = .ok (Mask.range first last) := by
  rw [rangeMask, bind_of_ok (assert_eq_ok ⟨ordered, inWord⟩),
    bind_of_ok (add_eq_ok (lt_modulus (le_refl 32) (by omega))), bind_of_ok (lowMask_eq_ok _),
    bind_of_ok (lowMask_eq_ok _)]
  rfl

theorem topMask_eq_ok {width : Nat} (notEmpty : 0 < width) :
    topMask width = .ok (Mask.top width) := by
  rw [topMask, bind_of_ok (assert_eq_ok notEmpty), bind_of_ok (sub_eq_ok notEmpty),
    bind_of_ok (add_eq_ok (lt_modulus (le_refl 32) (by omega)))]
  exact lowMask_eq_ok _

theorem bit_eq_ok (word : Word) {index : Nat} (inWord : index < 32) :
    bit word index = .ok (word.getLsbD index) := by
  rw [bit, bind_of_ok (shiftRight_eq_ok word inWord), bind_of_ok (lowMask_eq_ok 1)]
  refine congrArg Except.ok (Bool.eq_iff_iff.2 ?_)
  rw [decide_eq_true_iff, BitWord.ne_zero_iff]
  simp only [BitVec.getLsbD_and, BitVec.getLsbD_ushiftRight, Mask.getLsbD_low]
  constructor
  · rintro ⟨offset, inWord, selected⟩
    simp only [Bool.and_eq_true, decide_eq_true_eq] at selected
    obtain ⟨set, -, isLowest⟩ := selected
    obtain rfl : offset = 0 := by omega
    exact set
  · intro set
    exact ⟨0, by decide, by simp [set]⟩

theorem withBit_eq_ok (word : Word) {index : Nat} (inWord : index < 32) (value : Bool) :
    withBit word index value = .ok (BitWord.withBit word index value) := by
  have selected : (Mask.low 1 : Word) <<< index = BitVec.twoPow 32 index := by
    rw [show (Mask.low 1 : Word) = 1#32 by decide]
    rfl
  rw [withBit, bind_of_ok (lowMask_eq_ok 1), bind_of_ok (shiftLeft_eq_ok _ inWord), selected]
  rfl

end Guarded
end FourState
