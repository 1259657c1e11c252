import FourState.Fault
import FourState.Kind
import FourState.Text.Numeral

/-!
# Failures

Why a request can fail: a fault of use, a literal or a record that cannot be
read, a division by zero, options that cannot be read, or a name that stands
for nothing.
-/

namespace FourState

/-- What is wrong with the wording of a literal or of a value change. -/
inductive LiteralDefect
  | invalidSize (text : String)
  | missingRadix (text : String)
  | noDigits (text : String)
  | invalidDigit (digit : Char) (digits : String)
  | invalidDecimal (digits : String)
  | invalidChange (change : String)
  | emptyChange
  deriving DecidableEq

/-- Why a literal denotes no vector. -/
inductive LiteralError
  | zeroWidth
  | tooWide (width : Nat)
  | malformed (defect : LiteralDefect)
  deriving DecidableEq

/-- The parts of a record. -/
inductive RecordItem
  | width
  | descriptor
  | plane
  deriving DecidableEq

/-- Why a record cannot be read, merged or written. -/
inductive RecordError
  | malformed (expected : RecordItem) (found : String)
  | unexpectedEnd (expected : RecordItem)
  | invalidDescriptor (byte : Nat)
  | widthMismatch (expected found : Nat)
  | kindMismatch (expected found : Kind)
  | zeroWidth
  | tooWide (width : Nat)
  /-- The room for the record is used up. -/
  | outOfRoom
  deriving DecidableEq

/-- The two results of a division. -/
inductive Division
  | quotient
  | remainder
  deriving DecidableEq

/-- Why a request fails. -/
inductive Failure
  /-- A name without a vector or a buffer. -/
  | unbound
  | fault (fault : Fault)
  | literal (error : LiteralError)
  /-- A record that cannot be read, with the text that remains unread. -/
  | record (error : RecordError) (rest : List Char)
  /-- A record that does not fit, with the part that does. -/
  | truncated (written : List Char)
  | divisionByZero (division : Division)
  | options
  deriving DecidableEq

instance : MonadLift (Except Fault) (Except Failure) where
  monadLift := Except.mapError Failure.fault

instance : MonadLift (Except LiteralError) (Except Failure) where
  monadLift := Except.mapError Failure.literal

/-- Counting a fault as a failure does not change a success. -/
@[simp] theorem liftM_fault_eq_ok_iff
    {answer : Type}
    {step : Except Fault answer}
    {value : answer} :
    (liftM step : Except Failure answer) = .ok value ↔ step = .ok value := by
  cases step with
  | error cause =>
      constructor
      · intro succeeds
        contradiction
      · intro succeeds
        contradiction
  | ok between =>
      constructor
      · intro succeeds
        cases succeeds
        rfl
      · intro succeeds
        cases succeeds
        rfl

/-- Counting faults as failures goes step by step. -/
theorem liftM_fault_bind
    {first second : Type}
    (step : Except Fault first)
    (next : first → Except Fault second) :
    (liftM (step >>= next) : Except Failure second) =
      liftM step >>= fun value => liftM (next value) := by
  cases step <;> rfl

/-- Counting a literal error as a failure does not change a success. -/
@[simp] theorem liftM_literalError_eq_ok_iff
    {answer : Type}
    {step : Except LiteralError answer}
    {value : answer} :
    (liftM step : Except Failure answer) = .ok value ↔ step = .ok value := by
  cases step with
  | error cause =>
      constructor
      · intro succeeds
        contradiction
      · intro succeeds
        contradiction
  | ok between =>
      constructor
      · intro succeeds
        cases succeeds
        rfl
      · intro succeeds
        cases succeeds
        rfl

/-- The wording of a defect. -/
def LiteralDefect.message : LiteralDefect → String
  | invalidSize text => s!"invalid size in `{text}`"
  | missingRadix text => s!"missing radix in `{text}`"
  | noDigits text => s!"no digits in `{text}`"
  | invalidDigit digit digits => s!"invalid digit `{digit}` in {digits}"
  | invalidDecimal digits => s!"invalid decimal digits `{digits}`"
  | invalidChange change => s!"invalid value change `{change}`"
  | emptyChange => "empty value change"

/-- The wording of a literal error. -/
def LiteralError.message : LiteralError → String
  | zeroWidth => "Literal has zero width"
  | tooWide width => s!"Literal width {width} exceeds maximum of {maxWidth}"
  | malformed defect => "Malformed literal: " ++ defect.message

/-- The name of a record part that is missing. -/
def RecordItem.name : RecordItem → String
  | width => "vector width"
  | descriptor => "vector descriptor"
  | plane => "plane word"

/-- The form that a record part must have. -/
def RecordItem.form : RecordItem → String
  | width => "vector width"
  | descriptor => "vector descriptor"
  | plane => "hexadecimal plane word"

/-- A byte as two hexadecimal digits. -/
def hexByte (byte : Nat) : String :=
  String.ofList (Nat.toDigits 16 (byte / 16) ++ Nat.toDigits 16 (byte % 16))

/-- The wording of a record error. -/
def RecordError.message : RecordError → String
  | malformed expected found =>
      "Malformed vector record: expected " ++ expected.form ++ s!", found `{found}`"
  | unexpectedEnd expected => "Unexpected end of vector record while reading " ++ expected.name
  | invalidDescriptor byte => "Invalid vector descriptor byte 0x" ++ hexByte byte
  | widthMismatch expected found =>
      s!"Vector width mismatch on merge: expected {expected}, found {found}"
  | kindMismatch expected found =>
      "Vector kind mismatch on merge: expected " ++ expected.name ++ ", found " ++ found.name
  | zeroWidth => "Vector record has zero width"
  | tooWide width => s!"Vector width {width} exceeds maximum of {maxWidth}"
  | outOfRoom => "failed to write whole buffer"

/-- The wording of a division by zero. -/
def Division.message : Division → String
  | quotient => "Division by zero"
  | remainder => "Modulus by zero"

/-- The wording of a failure, for those that have one. -/
def Failure.message? : Failure → Option String
  | .unbound => none
  | .fault broken => broken.message?
  | .literal error => some error.message
  | .record error _ => some error.message
  | .truncated _ => some RecordError.outOfRoom.message
  | .divisionByZero division => some division.message
  | .options => none

end FourState
