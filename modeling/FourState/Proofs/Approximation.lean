import FourState.Proofs.Assigning
import FourState.Proofs.Completion
import FourState.Proofs.Folding
import FourState.Proofs.Moving

/-!
# The information order

One value approximates another if the other has every known bit of the first;
what is unknown in the first may be anything in the second.  Reading vectors
into buffers and moving the bits of buffers respect this order.  A buffer that
is wholly known approximates only itself.
-/

namespace FourState

/-! ## Bits -/

namespace Bit

/-- The second bit is the first one, unless that is unknown. -/
def Approximates (first second : Bit) : Prop :=
  first.isKnown = true → second = first

theorem approximates_refl (bit : Bit) : bit.Approximates bit :=
  fun _ => rfl

theorem x_approximates (bit : Bit) : x.Approximates bit := by
  intro known
  contradiction

/-- The exact answer over fewer completions knows at least as much. -/
theorem Decides.approximates
    {completion : Type}
    {first second : Bit}
    {possible fewer : completion → Prop}
    {answer : completion → Bool}
    (decides : first.Decides possible answer)
    (otherDecides : second.Decides fewer answer)
    (included : ∀ bits, fewer bits → possible bits) :
    first.Approximates second := by
  intro known
  obtain ⟨value, rfl⟩ : ∃ value, first = ofBool value := by
    cases first with
    | zero => exact ⟨false, rfl⟩
    | one => exact ⟨true, rfl⟩
    | x | z => contradiction
  apply (otherDecides.known_iff value).2
  intro bits isPossible
  exact (decides.known_iff value).1 rfl bits (included bits isPossible)

end Bit

/-! ## Buffers -/

/-- Word sequences of one length with the same bits are equal. -/
theorem Words.ext_bit
    {first second : Array Word}
    (sameSize : first.size = second.size)
    (sameBits : ∀ position, bit first position = bit second position) :
    first = second := by
  apply Array.ext sameSize
  intro index inFirst inSecond
  apply BitVec.eq_of_getLsbD_eq
  intro offset inWord
  rw [← word_of_lt _ inFirst, ← word_of_lt _ inSecond, getLsbD_word _ _ inWord,
    getLsbD_word _ _ inWord]
  exact sameBits _

namespace Buffer

/-- A canonical buffer is determined by its width, its signedness and its bits. -/
theorem Canonical.ext
    {first second : Buffer}
    (canonical : first.Canonical)
    (otherCanonical : second.Canonical)
    (sameWidth : first.width = second.width)
    (sameSigned : first.signed = second.signed)
    (sameBits : ∀ position, first.bit position = second.bit position) :
    first = second := by
  have sameLow : first.low = second.low := by
    apply Words.ext_bit
    · rw [canonical.size_low, otherCanonical.size_low, sameWidth]
    · intro position
      rw [canonical.low_eq, otherCanonical.low_eq, sameBits]
  have sameHigh : first.high = second.high := by
    apply Words.ext_bit
    · rw [canonical.size_high, otherCanonical.size_high, sameWidth]
    · intro position
      rw [canonical.high_eq, otherCanonical.high_eq, sameBits]
  cases first
  cases second
  simp_all

/-- Two canonical buffers of one shape, the second of which has every known bit
of the first. -/
structure Approximates (first second : Buffer) : Prop where
  canonical : first.Canonical
  otherCanonical : second.Canonical
  width_eq : second.width = first.width
  signed_eq : second.signed = first.signed
  bit : ∀ position, (first.bit position).Approximates (second.bit position)

/-- A buffer without unknown bits approximates only itself. -/
theorem Approximates.eq_of_known
    {first second : Buffer}
    (approximates : first.Approximates second)
    (known : first.hasUnknown = false) :
    second = first := by
  apply approximates.otherCanonical.ext approximates.canonical approximates.width_eq
    approximates.signed_eq
  intro position
  apply approximates.bit position
  rw [← Bool.not_eq_false, Bit.isKnown_eq_false_iff, ← approximates.canonical.high_eq,
    high_of_known known]
  exact Bool.false_ne_true

theorem approximates_refl {buffer : Buffer} (canonical : buffer.Canonical) :
    buffer.Approximates buffer :=
  ⟨canonical, canonical, rfl, rfl, fun _ => Bit.approximates_refl _⟩

/-! ## Moved buffers -/

theorem signed_resized (buffer : Buffer) (width : Nat) (signExtend : Bool) :
    (buffer.resized width signExtend).signed = buffer.signed := by
  unfold resized
  cases signExtend <;> rfl

theorem signed_insert (buffer : Buffer) (offset : Nat) (source : Buffer) :
    (buffer.insert offset source).signed = buffer.signed := by
  unfold insert
  split <;> rfl

theorem Approximates.msb
    {first second : Buffer}
    (approximates : first.Approximates second) :
    first.msb.Approximates second.msb := by
  rw [Buffer.msb, Buffer.msb, approximates.width_eq]
  exact approximates.bit _

theorem Approximates.resized
    {first second : Buffer}
    (approximates : first.Approximates second)
    (width : Nat)
    (signExtend : Bool) :
    (first.resized width signExtend).Approximates (second.resized width signExtend) where
  canonical := canonical_resized _ _ _
  otherCanonical := canonical_resized _ _ _
  width_eq := by rw [width_resized, width_resized]
  signed_eq := by rw [signed_resized, signed_resized, approximates.signed_eq]
  bit := by
    intro position
    rw [bit_resized approximates.canonical, bit_resized approximates.otherCanonical,
      approximates.width_eq]
    split
    · split
      · exact approximates.bit position
      · split
        · exact approximates.msb
        · exact Bit.approximates_refl _
    · exact Bit.approximates_refl _

theorem Approximates.fill
    {first second : Buffer}
    (approximates : first.Approximates second)
    (start stop : Nat)
    {filler other : Bit}
    (fillers : filler.Approximates other) :
    (first.fill start stop filler).Approximates (second.fill start stop other) where
  canonical := canonical_fill approximates.canonical _ _ _
  otherCanonical := canonical_fill approximates.otherCanonical _ _ _
  width_eq := approximates.width_eq
  signed_eq := approximates.signed_eq
  bit := by
    intro position
    rw [bit_fill approximates.canonical, bit_fill approximates.otherCanonical,
      approximates.width_eq]
    split
    · exact fillers
    · exact approximates.bit position

theorem Approximates.shift
    {first second : Buffer}
    (approximates : first.Approximates second)
    (shift : Shift)
    (amount : Nat) :
    (shift.apply first amount).Approximates (shift.apply second amount) := by
  have moved : (first.shiftRight amount).Approximates (second.shiftRight amount) := by
    refine ⟨canonical_shiftRight approximates.canonical _,
      canonical_shiftRight approximates.otherCanonical _, approximates.width_eq,
      approximates.signed_eq, ?_⟩
    intro position
    rw [bit_shiftRight approximates.canonical, bit_shiftRight approximates.otherCanonical]
    exact approximates.bit _
  cases shift with
  | left =>
      refine ⟨canonical_shiftLeft _ _, canonical_shiftLeft _ _, ?_, ?_, ?_⟩
      · simpa [Shift.apply] using approximates.width_eq
      · simpa [Shift.apply, shiftLeft, signed_insert, setSigned] using approximates.signed_eq
      · intro position
        simp only [Shift.apply, bit_shiftLeft approximates.canonical,
          bit_shiftLeft approximates.otherCanonical, approximates.width_eq]
        split
        · exact approximates.bit _
        · exact Bit.approximates_refl _
  | right => exact moved
  | arithmetic =>
      simp only [Shift.apply, approximates.width_eq]
      exact moved.fill _ _ approximates.msb

/-- Inserting a source into buffers that are clear from the offset on. -/
theorem Approximates.insert
    {first second source otherSource : Buffer}
    (approximates : first.Approximates second)
    (sources : source.Approximates otherSource)
    {offset : Nat}
    (clear : ∀ position, offset ≤ position → first.bit position = Bit.zero)
    (otherClear : ∀ position, offset ≤ position → second.bit position = Bit.zero) :
    (first.insert offset source).Approximates (second.insert offset otherSource) where
  canonical := canonical_insert approximates.canonical _ _
  otherCanonical := canonical_insert approximates.otherCanonical _ _
  width_eq := by rw [width_insert, width_insert, approximates.width_eq]
  signed_eq := by rw [signed_insert, signed_insert, approximates.signed_eq]
  bit := by
    intro position
    rw [bit_insert approximates.canonical sources.canonical clear,
      bit_insert approximates.otherCanonical sources.otherCanonical otherClear,
      approximates.width_eq]
    split
    · exact approximates.bit position
    · split
      · exact sources.bit _
      · exact Bit.approximates_refl _

end Buffer

/-! ## Vectors -/

namespace LogicVector

/-- Two readable vectors of one width and signedness, the second of which has
every known bit of the first. -/
structure Approximates (first second : LogicVector) : Prop where
  readable : first.Readable
  otherReadable : second.Readable
  width_eq : second.width = first.width
  signed_eq : second.signed = first.signed
  bit? : ∀ position bit, bit.isKnown = true → first.bit? position = some bit →
    second.bit? position = some bit

theorem Readable.approximates_refl
    {vector : LogicVector}
    (readable : vector.Readable) :
    vector.Approximates vector :=
  ⟨readable, readable, rfl, rfl, fun _ _ _ shows => shows⟩

namespace Approximates

variable {first second : LogicVector}

theorem ofVector
    (approximates : first.Approximates second)
    {value otherValue : Buffer}
    (reads : Buffer.ofVector first = .ok value)
    (otherReads : Buffer.ofVector second = .ok otherValue) :
    value.Approximates otherValue := by
  obtain ⟨canonical, sameWidth, sameSigned⟩ := approximates.readable.canonical_ofVector reads
  obtain ⟨otherCanonical, otherWidth, otherSigned⟩ :=
    approximates.otherReadable.canonical_ofVector otherReads
  have widths : otherValue.width = value.width := by
    rw [otherWidth, sameWidth, approximates.width_eq]
  refine ⟨canonical, otherCanonical, widths, ?_, ?_⟩
  · rw [otherSigned, sameSigned, approximates.signed_eq]
  · intro position known
    by_cases inside : position < value.width
    · have shows := bit?_of_ofVector reads inside
      have showsOther := bit?_of_ofVector otherReads (by rwa [widths])
      have same := approximates.bit? position _ known shows
      exact Option.some.inj (showsOther.symm.trans same)
    · have outside : value.width ≤ position := Nat.not_lt.1 inside
      rw [Buffer.bit_of_width_le _ outside, Buffer.bit_of_width_le _ (by rwa [widths])]

theorem operand
    (approximates : first.Approximates second)
    {width : Nat}
    {signExtend : Bool}
    {value otherValue : Buffer}
    (reads : first.operand width signExtend = .ok value)
    (otherReads : second.operand width signExtend = .ok otherValue) :
    value.Approximates otherValue := by
  obtain ⟨whole, readsWhole, reads⟩ := bind_eq_ok_iff.1 reads
  obtain ⟨otherWhole, otherReadsWhole, otherReads⟩ := bind_eq_ok_iff.1 otherReads
  cases reads
  cases otherReads
  exact (approximates.ofVector readsWhole otherReadsWhole).resized width signExtend

/-- What completes the bits of the second vector completes those of the first. -/
theorem admits
    (approximates : first.Approximates second)
    {bits : Nat → Bool}
    (admits : second.Admits bits) :
    first.Admits bits := by
  intro position bit shows
  cases known : bit.isKnown with
  | true => exact admits position bit (approximates.bit? position bit known shows)
  | false =>
      cases bit with
      | zero | one => contradiction
      | x | z => trivial

end Approximates
end LogicVector
end FourState
