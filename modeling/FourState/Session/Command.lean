import FourState.LogicVector.Update
import FourState.Session.Basic
import FourState.Text.Literal

/-!
# Commands

Everything that changes a session.  A command that fails leaves the session as
it was, with one exception: a part-select from a memory notes the bits as read
before the target is looked at.
-/

namespace FourState

/-- Where the content of a new buffer comes from. -/
inductive BufferSource
  | zero (width : Nat)
  | unknown (width : Nat)
  | number (width value : Nat)
  | integer (width : Nat) (value : Int)
  /-- The value of a vector. -/
  | vector (name : String)
  /-- Another buffer at a new width. -/
  | resized (name : String) (width : Nat) (signExtend : Bool)

/-- A request to change a session. -/
inductive Command
  /-- Bind a name to a new vector. -/
  | create (name : String) (width : Nat) (kind : Kind) (allocate : Bool)
      (signed? twoState? : Option Bool)
  | literal (name : String) (text : List Char)
  | quoted (name : String) (text : List Char)
  | readRecord (name : String) (text : List Char)
  /-- Bind a name to the words of another vector. -/
  | share (name source : String)
  /-- Bind a name to a copy of another vector, with words of its own. -/
  | clone (name source : String)
  | resize (name : String) (width : Nat)
  | update (name : String) (change : Update String)
  /-- Assign a buffer to a vector. -/
  | commit (name buffer : String)
  | makeBuffer (name : String) (source : BufferSource)
  | signBuffer (name : String) (signed : Bool)
  | setBufferBit (name : String) (position : Nat) (bit : Bit)

namespace Session

/-- The content of a new buffer. -/
def makeBuffer (session : Session) : BufferSource → Except Failure Buffer
  | .zero width => return Buffer.zero width
  | .unknown width => return Buffer.unknown width
  | .number width value => return Buffer.ofNat width value
  | .integer width value => return Buffer.ofInt width value
  | .vector name => do
      let vector ← session.vector name
      Buffer.ofVector vector
  | .resized name width signExtend => do
      let buffer ← session.buffer name
      return buffer.resized width signExtend

/-- Note the bits that an update reads from a memory. -/
def noteReads (session : Session) : Update String → Session
  | .operate (.partSelect source lsb msb) =>
      match session.vector source with
      | .ok vector =>
          match vector.markRead lsb msb with
          | .ok marked => session.store source marked
          | .error _ => session
      | .error _ => session
  | _ => session

/-- Update the vector of a name. -/
def update (session : Session) (name : String) (change : Update String) :
    Session × Outcome Reply :=
  let resolved := do
    let _ ← session.vector name
    change.traverse session.vector
  match resolved with
  | .error failure => (session, .quiet (.error failure))
  | .ok change' =>
      let session := session.noteReads change
      match session.vector name with
      | .error failure => (session, .quiet (.error failure))
      | .ok target =>
          let outcome := target.update change'
          let session := match outcome.result with
            | .ok (updated, _) => session.store name updated
            | .error _ => session
          (session, outcome.map fun answer => answer.2)

/-- Finish a command without log: a new session and an answer, or a failure. -/
def settle (session : Session) (result : Except Failure (Session × Reply)) :
    Session × Outcome Reply :=
  match result with
  | .ok (changed, reply) => (changed, .quiet (.ok reply))
  | .error failure => (session, .quiet (.error failure))

/-- Bind a name to what a text denotes, if it denotes something. -/
def placeRead (session : Session) (name : String) (outcome : Outcome (LogicVector × Reply)) :
    Session × Outcome Reply :=
  let session := match outcome.result with
    | .ok (vector, _) => session.place name vector
    | .error _ => session
  (session, outcome.map fun answer => answer.2)

/-- The log of reading a literal. -/
def literalLog {answer : Type} : Except Failure answer → List Event
  | .error (.literal error) => error.log
  | _ => []

/-- Carry out a command. -/
def apply (session : Session) : Command → Session × Outcome Reply
  | .create name width kind allocate signed? twoState? =>
      session.settle do
        let vector ← LogicVector.create width kind allocate
        let vector := match signed? with
          | some signed => vector.setSigned signed
          | none => vector
        let vector := match twoState? with
          | some twoState => vector.setTwoState twoState
          | none => vector
        return (session.place name vector, .done)
  | .literal name text =>
      let result := LogicVector.ofLiteral text
      session.placeRead name
        { result := result.map fun answer => (answer.1, .radix answer.2)
          log := literalLog result }
  | .quoted name text =>
      let result := LogicVector.ofQuoted text
      session.placeRead name
        { result := result.map fun vector => (vector, .done)
          log := literalLog result }
  | .readRecord name text =>
      session.placeRead name
        ((LogicVector.readRecord text).map fun answer => (answer.1, .rest answer.2))
  | .share name source =>
      session.settle do
        let handle ← session.handle source
        return (session.share name handle, .done)
  | .clone name source =>
      session.settle do
        let vector ← session.vector source
        match vector.deepClone? with
        | some clone => return (session.place name clone, .flag true)
        | none => return (session, .flag false)
  | .resize name width =>
      session.settle do
        let vector ← session.vector name
        let resized ← vector.resize width
        return (session.place name resized, .done)
  | .update name change => session.update name change
  | .commit name buffer =>
      match session.buffer buffer with
      | .ok value => session.update name (.commit value)
      | .error failure => (session, .quiet (.error failure))
  | .makeBuffer name source =>
      session.settle do
        let buffer ← session.makeBuffer source
        return (session.keep name buffer, .done)
  | .signBuffer name signed =>
      session.settle do
        let buffer ← session.buffer name
        return (session.keep name (buffer.setSigned signed), .done)
  | .setBufferBit name position bit =>
      session.settle do
        let buffer ← session.buffer name
        let changed ← buffer.setBitInside position bit
        return (session.keep name changed, .done)

/-- The session after a run of commands. -/
def run (session : Session) (commands : List Command) : Session :=
  commands.foldl (fun session command => (session.apply command).1) session

@[simp] theorem run_nil (session : Session) : session.run [] = session :=
  rfl

@[simp] theorem run_cons (session : Session) (command : Command) (commands : List Command) :
    session.run (command :: commands) = (session.apply command).1.run commands :=
  rfl

theorem run_append (session : Session) (first second : List Command) :
    session.run (first ++ second) = (session.run first).run second := by
  simp [run]

end Session
end FourState
