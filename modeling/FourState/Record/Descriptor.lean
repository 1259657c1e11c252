import FourState.LogicVector.Basic

/-!
# Record descriptors

The second token of a record is a byte that packs what is known of the vector:
kind, word format, ownership of words and the two flags.  The top bit is free.
-/

namespace FourState

/-- What a record says of a vector besides its width. -/
structure Descriptor where
  /-- The kind of the vector. -/
  kind : Kind
  /-- The word format. -/
  format : WordFormat
  /-- The record holds words. -/
  ownsStorage : Bool
  /-- The vector is signed. -/
  signed : Bool
  /-- The vector is two-state. -/
  twoState : Bool
  deriving DecidableEq

namespace Descriptor

/-- The descriptor of a vector; only owned words are written. -/
def ofVector (vector : LogicVector) : Descriptor where
  kind := vector.kind
  format := vector.format
  ownsStorage := vector.storage.isOwned
  signed := vector.signed
  twoState := vector.twoState

/-- The byte: two bits of kind, two of format, and a bit for each flag. -/
def encode (descriptor : Descriptor) : Nat :=
  descriptor.kind.code + 4 * descriptor.format.code + 16 * descriptor.ownsStorage.toNat +
    32 * descriptor.signed.toNat + 64 * descriptor.twoState.toNat

/-- The descriptor in a byte; the top bit and unknown formats are refused. -/
def decode? (byte : Nat) : Option Descriptor :=
  if byte.testBit 7 then none
  else
    (WordFormat.ofCode? (byte / 4 % 4)).map fun format =>
      { kind := Kind.ofCode byte
        format
        ownsStorage := byte.testBit 4
        signed := byte.testBit 5
        twoState := byte.testBit 6 }

/-- The number of word tokens that follow a header with this descriptor: one for every
live plane of every word position, if the record holds words. -/
def tokenCount (descriptor : Descriptor) (width : Nat) : Nat :=
  if descriptor.ownsStorage then wordCount width * descriptor.kind.planeCount else 0

/-- A descriptor is read back from its byte. -/
@[simp] theorem decode?_encode (descriptor : Descriptor) :
    decode? descriptor.encode = some descriptor := by
  rcases descriptor with ⟨kind, format, ownsStorage, signed, twoState⟩
  cases kind <;> cases format <;> cases ownsStorage <;> cases signed <;> cases twoState <;> rfl

theorem encode_lt (descriptor : Descriptor) : descriptor.encode < 128 := by
  rcases descriptor with ⟨kind, format, ownsStorage, signed, twoState⟩
  cases kind <;> cases format <;> cases ownsStorage <;> cases signed <;> cases twoState <;> decide

end Descriptor
end FourState
