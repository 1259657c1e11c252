import FourState.Proofs.RangeFilling

/-!
# Built buffers

Buffers are built from constants, numbers and copies of vectors, and by changing other built
buffers.  Each of them is canonical, so it is determined by its width, its signedness and the
bits below its width.  What a movement does is then told position by position, for every
offset, amount and range.  A range is filled word by word, and the rounds come to an end.
-/

namespace FourState
namespace Buffer

/-! ## Buffers that can be built -/

/-- The buffer is built from constants, numbers and copies of vectors without a value bit past
the width, by setting bits inside the width and by movements. -/
inductive Built : Buffer → Prop
  | zero (width : Nat) : Built (zero width)
  | unknown (width : Nat) : Built (unknown width)
  | ofVector
      {vector : LogicVector}
      {block : Block}
      {buffer : Buffer}
      (stored : vector.block = .ok block)
      (sized : block.size = wordCount vector.width)
      (ends : ∀ position, vector.width ≤ position → block.value position = Bit.zero)
      (reads : Buffer.ofVector vector = .ok buffer) :
      Built buffer
  | ofNat (width value : Nat) : Built (ofNat width value)
  | ofInt (width : Nat) (value : Int) : Built (ofInt width value)
  | setSigned {buffer : Buffer} (built : Built buffer) (signed : Bool) :
      Built (buffer.setSigned signed)
  | setBit
      {buffer : Buffer}
      (built : Built buffer)
      {position : Nat}
      (inside : position < buffer.width)
      (bit : Bit) :
      Built (buffer.setBit position bit)
  | resized {buffer : Buffer} (built : Built buffer) (width : Nat) (signExtend : Bool) :
      Built (buffer.resized width signExtend)
  | fill {buffer : Buffer} (built : Built buffer) (first stop : Nat) (filler : Bit) :
      Built (buffer.fill first stop filler)
  | insert
      {buffer source : Buffer}
      (built : Built buffer)
      (sourceBuilt : Built source)
      (offset : Nat) :
      Built (buffer.insert offset source)
  | shiftLeft {buffer : Buffer} (built : Built buffer) (amount : Nat) :
      Built (buffer.shiftLeft amount)
  | shiftRight {buffer : Buffer} (built : Built buffer) (amount : Nat) :
      Built (buffer.shiftRight amount)

/-- Every built buffer is canonical. -/
theorem Built.canonical {buffer : Buffer} (built : buffer.Built) : buffer.Canonical := by
  induction built with
  | zero width => exact canonical_zero width
  | unknown width => exact canonical_unknown width
  | ofVector stored sized ends reads => exact LogicVector.canonical_ofVector stored sized ends reads
  | ofNat width value => exact canonical_ofNat width value
  | ofInt width value => exact canonical_ofNat width _
  | setSigned _ signed inductionHypothesis => exact canonical_setSigned inductionHypothesis signed
  | setBit _ inside bit inductionHypothesis =>
      exact canonical_setBit inductionHypothesis inside bit
  | resized _ width signExtend _ => exact canonical_resized _ width signExtend
  | fill _ first stop filler inductionHypothesis =>
      exact canonical_fill inductionHypothesis first stop filler
  | insert _ _ offset inductionHypothesis _ =>
      exact canonical_insert inductionHypothesis offset _
  | shiftLeft _ amount _ => exact canonical_shiftLeft _ amount
  | shiftRight _ amount inductionHypothesis =>
      exact canonical_shiftRight inductionHypothesis amount

/-- Canonical buffers of one shape are equal exactly if they agree below the width. -/
theorem Canonical.beq_iff
    {first second : Buffer}
    (canonical : first.Canonical)
    (otherCanonical : second.Canonical)
    (sameWidth : first.width = second.width)
    (sameSigned : first.signed = second.signed) :
    (first == second) = true ↔
      ∀ position, position < first.width → first.bit position = second.bit position := by
  rw [beq_iff_eq]
  constructor
  · rintro rfl position _
    rfl
  · intro sameBits
    refine canonical.ext otherCanonical sameWidth sameSigned fun position => ?_
    by_cases inside : position < first.width
    · exact sameBits position inside
    · rw [bit_of_width_le _ (Nat.not_lt.1 inside), bit_of_width_le _ (by omega)]

/-! ## Movements -/

/-- A canonical buffer of a given shape with given bits. -/
structure HasBits
    (buffer : Buffer)
    (width : Nat)
    (signed : Bool)
    (bitAt : Nat → Bit) : Prop where
  canonical : buffer.Canonical
  width_eq : buffer.width = width
  signed_eq : buffer.signed = signed
  bit_eq : ∀ position, position < width → buffer.bit position = bitAt position

/-- The buffer is determined by its bits, and its movements are told position by position. -/
structure MovesBits (buffer : Buffer) : Prop where
  canonical : buffer.Canonical
  beq_iff : ∀ other : Buffer, other.Built → buffer.width = other.width →
    buffer.signed = other.signed →
    ((buffer == other) = true ↔
      ∀ position, position < buffer.width → buffer.bit position = other.bit position)
  shiftLeft : ∀ amount, (buffer.shiftLeft amount).HasBits buffer.width buffer.signed
    fun position => if amount ≤ position then buffer.bit (position - amount) else Bit.zero
  shiftRight : ∀ amount, (buffer.shiftRight amount).HasBits buffer.width buffer.signed
    fun position =>
      if position + amount < buffer.width then buffer.bit (position + amount) else Bit.zero
  /-- The planes of the source are put on top of those of the buffer. -/
  insert : ∀ offset (source : Buffer), source.Built →
    (buffer.insert offset source).HasBits buffer.width buffer.signed fun position =>
      if offset ≤ position then (buffer.bit position).overlay (source.bit (position - offset))
      else buffer.bit position
  /-- Filling comes to an end, and its rounds give the filled buffer. -/
  fillsFrom_iff : ∀ first stop filler result,
    FillsFrom (min stop buffer.width) filler buffer first result ↔
      result = buffer.fill first stop filler
  fill : ∀ first stop filler,
    (buffer.fill first stop filler).HasBits buffer.width buffer.signed fun position =>
      if first ≤ position ∧ position < min stop buffer.width then filler
      else buffer.bit position
  resized : ∀ width signExtend,
    (buffer.resized width signExtend).HasBits width buffer.signed fun position =>
      if position < min width buffer.width then buffer.bit position
      else if signExtend = true ∧ 0 < buffer.width then buffer.bit (buffer.width - 1)
      else Bit.zero

/-- Every built buffer, of any width, is determined by its bits, and shifting, inserting,
filling and resizing it move them as they should. -/
theorem Built.movesBits {buffer : Buffer} (built : buffer.Built) : buffer.MovesBits where
  canonical := built.canonical
  beq_iff other otherBuilt sameWidth sameSigned :=
    built.canonical.beq_iff otherBuilt.canonical sameWidth sameSigned
  shiftLeft amount := by
    refine ⟨canonical_shiftLeft _ _, width_shiftLeft _ _, signed_insert _ _ _, ?_⟩
    intro position inside
    rw [bit_shiftLeft built.canonical]
    simp only [inside, and_true]
  shiftRight amount := by
    refine ⟨canonical_shiftRight built.canonical _, rfl, rfl, ?_⟩
    intro position inside
    rw [bit_shiftRight built.canonical]
    split
    · rfl
    · exact bit_of_width_le _ (by omega)
  insert offset source sourceBuilt := by
    refine ⟨canonical_insert built.canonical _ _, width_insert _ _ _, signed_insert _ _ _, ?_⟩
    intro position inside
    exact bit_insert_overlay built.canonical sourceBuilt.canonical offset inside
  fillsFrom_iff first stop filler result := built.canonical.fillsFrom_iff first stop filler result
  fill first stop filler :=
    ⟨canonical_fill built.canonical _ _ _, rfl, rfl,
      fun position _ => bit_fill built.canonical first stop filler position⟩
  resized width signExtend := by
    refine ⟨canonical_resized _ _ _, width_resized _ _ _, signed_resized _ _ _, ?_⟩
    intro position inside
    have cut : position < min width buffer.width ↔ position < buffer.width := by omega
    rw [bit_resized built.canonical, if_pos inside]
    simp only [cut]
    by_cases kept : position < buffer.width
    · rw [if_pos kept, if_pos kept]
    · rw [if_neg kept, if_neg kept]
      by_cases notEmpty : 0 < buffer.width
      · simp only [notEmpty, and_true]
        rfl
      · -- An empty buffer has no bit to repeat, and is extended by zeros either way.
        have noBit : buffer.msb = Bit.zero := bit_of_width_le _ (by omega)
        simp only [notEmpty, and_false, noBit, ite_self, if_false]

/-- Thirty-four bits with an `x` below the word boundary and a one at the top. -/
def crossing : Buffer :=
  ((zero 34).setBit 30 Bit.x).setBit 33 Bit.one

theorem movesBits_crossing :
    crossing.Built ∧ crossing.MovesBits ∧
      (crossing.shiftLeft 3).bit 33 = Bit.x ∧ (crossing.shiftRight 3).bit 30 = Bit.one ∧
      (crossing.insert 3 crossing).bit 33 = Bit.z ∧
      FillsFrom 34 Bit.z crossing 20 (crossing.fill 20 90 Bit.z) ∧
      (crossing.resized 70 true).bit 69 = Bit.one := by
  have built : crossing.Built := ((Built.zero 34).setBit (by decide) Bit.x).setBit (by decide) _
  have moves := Built.movesBits built
  have isX : crossing.bit 30 = Bit.x := by decide +kernel
  have isOne : crossing.bit 33 = Bit.one := by decide +kernel
  have inside : 33 < crossing.width := by decide
  refine ⟨built, moves, ?_, ?_, ?_, (moves.fillsFrom_iff 20 90 Bit.z _).2 rfl, ?_⟩
  · exact ((moves.shiftLeft 3).bit_eq 33 inside).trans isX
  · exact ((moves.shiftRight 3).bit_eq 30 (by decide)).trans isOne
  · refine ((moves.insert 3 crossing built).bit_eq 33 inside).trans ?_
    change (crossing.bit 33).overlay (crossing.bit 30) = Bit.z
    rw [isOne, isX]
    rfl
  · exact ((moves.resized 70 true).bit_eq 69 (by decide)).trans isOne

end Buffer
end FourState
