import FourState.LogicVector.Basic
import FourState.Buffer.Basic
import FourState.Event
import FourState.Session.Bindings

/-!
# Sessions

A session holds named vectors and named buffers.  Vectors can share words: the
words live in numbered blocks, and a handle holds the header of a vector and
the number of its block.  Reading a name gives the vector as it is now; storing
a vector under its name shows the new words to every handle of the block.
-/

namespace FourState

/-- A vector whose words are named by the number of their block. -/
structure Handle extends Header where
  /-- The number of the block. -/
  storage : Storage Nat
  deriving DecidableEq

/-- Named vectors and buffers, and the blocks that hold the words. -/
structure Session where
  /-- The vectors. -/
  vectors : Bindings Handle
  /-- The buffers. -/
  buffers : Bindings Buffer
  /-- The words, by block number. -/
  blocks : Array Block

namespace Session

/-- A session without names. -/
def empty : Session where
  vectors := Bindings.empty
  buffers := Bindings.empty
  blocks := #[]

/-- The words of a block. -/
def block (session : Session) (number : Nat) : Block :=
  session.blocks.getD number #[]

/-- The vector that a handle stands for. -/
def load (session : Session) (handle : Handle) : LogicVector where
  toHeader := handle.toHeader
  storage := handle.storage.map session.block

/-- The handle of a name. -/
def handle (session : Session) (name : String) : Except Failure Handle :=
  match session.vectors.get? name with
  | some handle => .ok handle
  | none => .error .unbound

/-- The vector of a name. -/
def vector (session : Session) (name : String) : Except Failure LogicVector := do
  let handle ← session.handle name
  return session.load handle

/-- The buffer of a name. -/
def buffer (session : Session) (name : String) : Except Failure Buffer :=
  match session.buffers.get? name with
  | some buffer => .ok buffer
  | none => .error .unbound

/-- Bind a name to a vector whose words get a block of their own. -/
def place (session : Session) (name : String) (vector : LogicVector) : Session :=
  let storage := vector.storage.map fun _ => session.blocks.size
  { session with
    vectors := session.vectors.bind name { toHeader := vector.toHeader, storage }
    blocks :=
      match vector.storage.content? with
      | some block => session.blocks.push block
      | none => session.blocks }

/-- Give a bound vector a new header, and its block new words. -/
def store (session : Session) (name : String) (vector : LogicVector) : Session :=
  match session.vectors.get? name with
  | none => session
  | some handle =>
      { session with
        vectors := session.vectors.bind name { handle with toHeader := vector.toHeader }
        blocks :=
          match handle.storage.content?, vector.storage.content? with
          | some number, some block => session.blocks.setIfInBounds number block
          | _, _ => session.blocks }

/-- Bind a name to a vector without words of its own that sees the words of another. -/
def share (session : Session) (name : String) (handle : Handle) : Session :=
  { session with
    vectors := session.vectors.bind name { handle with storage := handle.storage.borrow } }

/-- Bind a name to a buffer. -/
def keep (session : Session) (name : String) (buffer : Buffer) : Session :=
  { session with buffers := session.buffers.bind name buffer }

end Session
end FourState
