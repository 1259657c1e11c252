import FourState.LogicVector.Display
import FourState.Operator.Division
import FourState.Operator.Reduction
import FourState.Proofs.Folding
import FourState.Proofs.Guarded.Moving
import FourState.Proofs.Number

/-!
# Guarded readings

Orderings, reductions and integers that are read off buffers, and the text that a
vector is shown with, with each machine step guarded.  A reduction looks at the
words one by one and masks the last of them to the width.
-/

namespace FourState
namespace Guarded

/-! ## Orderings -/

/-- Compare the values of two buffers, their signs first. -/
def order (left right : Buffer) (signed : Bool) : Guarded Ordering :=
  if signed then do
    let leftSign ← msb left
    let rightSign ← msb right
    match leftSign, rightSign with
    | Bit.one, Bit.zero => return .lt
    | Bit.zero, Bit.one => return .gt
    | _, _ => return Words.order left.low.toList right.low.toList
  else return Words.order left.low.toList right.low.toList

theorem order_eq_ok
    {left right : Buffer}
    (notEmpty : 0 < left.width)
    (otherNotEmpty : 0 < right.width)
    (signed : Bool) :
    order left right signed = .ok (left.order right signed) := by
  unfold order Buffer.order
  cases signed with
  | false => rfl
  | true =>
      simp only [if_true]
      rw [bind_of_ok (msb_eq_ok notEmpty), bind_of_ok (msb_eq_ok otherNotEmpty)]
      cases left.msb <;> cases right.msb <;> rfl

/-! ## Reductions -/

/-- What the words so far have shown. -/
structure Seen where
  /-- A known zero. -/
  anyZero : Bool
  /-- A known one. -/
  anyOne : Bool
  /-- An odd number of set bits in the low plane. -/
  oddOnes : Bool

/-- Look at one word; the last one is masked to the width. -/
def lookAt (buffer : Buffer) (seen : Seen) (index : Nat) : Guarded Seen := do
  let low := (buffer.word index).1
  let high := (buffer.word index).2
  let next ← add 64 index 1
  let zeros ←
    if next = buffer.low.size then do
      let valid ← topMask buffer.width
      pure (~~~low &&& ~~~high &&& valid)
    else pure (~~~low &&& ~~~high)
  return {
    anyZero := seen.anyZero || decide (zeros ≠ 0)
    anyOne := seen.anyOne || decide (low &&& ~~~high ≠ 0)
    oddOnes := seen.oddOnes ^^ (BitWord.countOnes low % 2 == 1) }

/-- Fold every bit of a value into one. -/
def reduce (reduction : Reduction) (buffer : Buffer) : Guarded Bit := do
  let seen ← (List.range' 0 buffer.low.size).foldlM (lookAt buffer) ⟨false, false, false⟩
  let conjunction :=
    if seen.anyZero then Bit.zero else if buffer.hasUnknown then Bit.x else Bit.one
  let disjunction :=
    if seen.anyOne then Bit.one else if buffer.hasUnknown then Bit.x else Bit.zero
  let parity := if buffer.hasUnknown then Bit.x else Bit.ofBool seen.oddOnes
  return match reduction with
    | .fold .and => conjunction
    | .fold .nand => conjunction.invert
    | .fold .or => disjunction
    | .fold .nor => disjunction.invert
    | .fold .xor => parity
    | .fold .nxor => parity.invert
    | .not => buffer.negation

section Reductions

variable {buffer : Buffer}

theorem lookAt_eq_ok
    (limits : buffer.InLimits)
    {index : Nat}
    (inBounds : index < buffer.low.size)
    (seen : Seen) :
    lookAt buffer seen index = .ok {
      anyZero := seen.anyZero || decide (buffer.knownZeros index ≠ 0)
      anyOne := seen.anyOne || decide ((buffer.word index).1 &&& ~~~(buffer.word index).2 ≠ 0)
      oddOnes := seen.oddOnes ^^ (BitWord.countOnes (buffer.word index).1 % 2 == 1) } := by
  have widthLe : buffer.width ≤ 65536 := limits.width_le
  have sized := limits.canonical.size_low
  unfold wordCount wordsFor at sized
  rw [lookAt, bind_of_ok (add_eq_ok (lt_modulus (by decide) (by omega)))]
  unfold Buffer.knownZeros Mask.inside
  split
  · rename_i isLast
    have sameMask : (buffer.width - 1) % 32 + 1 = buffer.width - 32 * index := by omega
    rw [bind_of_ok (topMask_eq_ok limits.width_pos), Mask.top, sameMask]
    rfl
  · rw [Mask.low_of_size_le (by omega), BitVec.and_allOnes]
    rfl

/-- A known one shows in the words of both planes. -/
theorem anyOne_eq_any (limits : buffer.InLimits) :
    buffer.anyOne = (List.range buffer.low.size).any fun index =>
      decide ((buffer.word index).1 &&& ~~~(buffer.word index).2 ≠ 0) := by
  have sameSize : (buffer.low.zip buffer.high).size = buffer.low.size := by
    rw [Array.size_zip, limits.canonical.size_low, limits.canonical.size_high, Nat.min_self]
  rw [Bool.eq_iff_iff, Buffer.anyOne, Array.any_eq_true, List.any_eq_true]
  constructor
  · rintro ⟨index, inZip, isOne⟩
    rw [Buffer.getElem_zip_planes] at isOne
    exact ⟨index, List.mem_range.2 (by omega), isOne⟩
  · rintro ⟨index, inRange, isOne⟩
    have inWords := List.mem_range.1 inRange
    refine ⟨index, by omega, ?_⟩
    rwa [Buffer.getElem_zip_planes]

/-- The parity of the low plane is that of its words. -/
theorem oddOnes_eq_foldl (buffer : Buffer) :
    buffer.oddOnes = (List.range buffer.low.size).foldl (fun odd index =>
      odd ^^ (BitWord.countOnes (buffer.word index).1 % 2 == 1)) false := by
  rw [Buffer.oddOnes, ← Array.foldl_toList, Words.toList_eq_map_word, List.foldl_map]
  rfl

/-- The words of a canonical buffer show what is to be known of it. -/
theorem foldlM_lookAt
    (limits : buffer.InLimits) :
    (List.range' 0 buffer.low.size).foldlM (lookAt buffer) ⟨false, false, false⟩ =
      .ok ⟨buffer.anyZero, buffer.anyOne, buffer.oddOnes⟩ := by
  let after (count : Nat) : Seen := {
    anyZero := (List.range count).any fun index => decide (buffer.knownZeros index ≠ 0)
    anyOne := (List.range count).any fun index =>
      decide ((buffer.word index).1 &&& ~~~(buffer.word index).2 ≠ 0)
    oddOnes := (List.range count).foldl (fun odd index =>
      odd ^^ (BitWord.countOnes (buffer.word index).1 % 2 == 1)) false }
  have each : ∀ index, 0 ≤ index → index < 0 + buffer.low.size →
      lookAt buffer (after index) index = .ok (after (index + 1)) := by
    intro index _ below
    rw [lookAt_eq_ok limits (by omega)]
    simp only [after, List.range_succ, List.any_append, List.foldl_append, List.any_cons,
      List.any_nil, Bool.or_false, List.foldl_cons, List.foldl_nil]
  have looks : (List.range' 0 buffer.low.size).foldlM (lookAt buffer) ⟨false, false, false⟩ =
      .ok (after (0 + buffer.low.size)) :=
    foldlM_range'_eq_ok after each
  rw [looks, anyOne_eq_any limits, oddOnes_eq_foldl]
  simp only [after, Nat.zero_add]
  rfl

theorem reduce_eq_ok
    (limits : buffer.InLimits)
    (reduction : Reduction) :
    reduce reduction buffer = .ok (reduction.apply buffer) := by
  rw [reduce, bind_of_ok (foldlM_lookAt limits)]
  cases reduction with
  | fold function => cases function <;> rfl
  | not => rfl

end Reductions

/-! ## Integers -/

/-- The lowest `width` bits of a natural number. -/
def ofNat (width value : Nat) : Guarded Buffer :=
  maskTop { Buffer.zero width with low := Words.ofNat (wordCount width) value }

/-- The lowest `width` bits of an integer in two's complement. -/
def ofInt (width : Nat) (value : Int) : Guarded Buffer :=
  ofNat width (value % modulus width).toNat

/-- The two's complement value of the low plane. -/
def toInt (buffer : Buffer) : Guarded Int :=
  if 0 < buffer.width then do
    let sign ← msb buffer
    return if sign = Bit.one then buffer.toNat - modulus buffer.width else buffer.toNat
  else return buffer.toNat

/-- One of the two results of dividing buffers, at a width. -/
def divide (division : Division) (width : Nat) (signed : Bool) (left right : Buffer) :
    Guarded Buffer :=
  if signed then do
    let dividend ← toInt left
    let divisor ← toInt right
    require (divisor ≠ 0) MachineFault.division
    ofInt width (division.ofInts dividend divisor)
  else do
    require (right.toNat ≠ 0) MachineFault.division
    ofNat width (division.ofNats left.toNat right.toNat)

section Integers

variable {buffer : Buffer} {width : Nat}

theorem ofNat_eq_ok (notEmpty : 0 < width) (value : Nat) :
    ofNat width value = .ok (Buffer.ofNat width value) :=
  maskTop_eq_ok notEmpty (by simp [Buffer.zero]) (by simp [Buffer.zero])

theorem toInt_eq_ok (buffer : Buffer) : toInt buffer = .ok buffer.toInt := by
  unfold toInt Buffer.toInt
  split
  · rename_i notEmpty
    rw [bind_of_ok (msb_eq_ok notEmpty)]
    simp only [notEmpty, true_and]
    rfl
  · rename_i isEmpty
    rw [if_neg fun holds => isEmpty holds.1]
    rfl

/-- The number of a canonical buffer fits its width. -/
theorem toNat_lt_of_canonical (canonical : buffer.Canonical) :
    buffer.toNat < modulus buffer.width := by
  rw [modulus_eq_two_pow]
  apply Nat.lt_pow_two_of_testBit
  intro position outside
  rw [Buffer.toNat, Words.testBit_value, Array.toArray_toList,
    canonical.low_outside position outside]

theorem toNat_ne_zero (notZero : buffer.isNotZero = true) : buffer.toNat ≠ 0 := by
  obtain ⟨position, set⟩ := (Words.anyBit_eq_true_iff _).1 notZero
  intro isZero
  have clear : buffer.toNat.testBit position = false := by rw [isZero, Nat.zero_testBit]
  rw [Buffer.toNat, Words.testBit_value, Array.toArray_toList, set] at clear
  contradiction

/-- A buffer that is not zero does not stand for zero with a sign either. -/
theorem toInt_ne_zero
    (canonical : buffer.Canonical)
    (notZero : buffer.isNotZero = true) :
    buffer.toInt ≠ 0 := by
  have fits := toNat_lt_of_canonical canonical
  have number := toNat_ne_zero notZero
  unfold Buffer.toInt
  split <;> omega

theorem divide_eq_ok
    {left right : Buffer}
    (notEmpty : 0 < width)
    (canonical : right.Canonical)
    (notZero : right.isNotZero = true)
    (division : Division)
    (signed : Bool) :
    divide division width signed left right =
      .ok (if signed then Buffer.ofInt width (division.ofInts left.toInt right.toInt)
        else Buffer.ofNat width (division.ofNats left.toNat right.toNat)) := by
  cases signed with
  | false =>
      simp only [divide, Bool.false_eq_true, if_false]
      rw [require_bind_of_true (toNat_ne_zero notZero)]
      exact ofNat_eq_ok notEmpty _
  | true =>
      simp only [divide, if_true]
      rw [bind_of_ok (toInt_eq_ok left), bind_of_ok (toInt_eq_ok right),
        require_bind_of_true (toInt_ne_zero canonical notZero)]
      exact ofNat_eq_ok notEmpty _

end Integers

/-! ## Texts -/

/-- The letter of one value bit. -/
def letter (block : Block) (width index : Nat) : Guarded Char := do
  require (index < width) (MachineFault.condition (Fault.bitOutOfRange index))
  let slice ← get block (index / 32)
  let low ← bit (slice.get Plane.valueLow) (index % 32)
  let high ← bit (slice.get Plane.valueHigh) (index % 32)
  return (Bit.ofPlanes low high).toChar

/-- The display text of a vector. -/
def display (vector : LogicVector) : Guarded (List Char) :=
  let start := Numeral.decimal vector.width ++ ['\x27', 'b']
  match vector.storage.content? with
  | none => return start
  | some block => do
      let letters ← (List.range vector.width).reverse.mapM (letter block vector.width)
      return start ++ letters

theorem mapM_eq_ok
    {first second : Type}
    {step : first → Guarded second}
    {result : first → second}
    {entries : List first}
    (each : ∀ entry ∈ entries, step entry = .ok (result entry)) :
    entries.mapM step = .ok (entries.map result) := by
  induction entries with
  | nil => rfl
  | cons entry entries inductionHypothesis =>
      rw [List.mapM_cons, bind_of_ok (each entry List.mem_cons_self),
        bind_of_ok (inductionHypothesis fun other isMember =>
          each other (List.mem_cons_of_mem _ isMember))]
      rfl

theorem display_eq_ok
    {vector : LogicVector}
    {clipped : Plane → Prop}
    (wellFormed : vector.WellFormed clipped) :
    display vector = .ok vector.display := by
  unfold display LogicVector.display LogicVector.digits
  split
  · rename_i absent
    rw [absent]
    exact congrArg Except.ok (by simp)
  · rename_i block stored
    have sized := (wellFormed.block_fits block ((vector.block_eq_ok_iff block).2 stored)).size_eq
    have each : ∀ index ∈ (List.range vector.width).reverse,
        letter block vector.width index = .ok (block.value index).toChar := by
      intro index isMember
      have inside : index < vector.width := by simpa using isMember
      have inBlock : index / 32 < block.size := sized ▸ div_lt_wordCount inside
      have inWord := Nat.mod_lt index (by decide : 0 < 32)
      rw [letter, require_bind_of_true inside, bind_of_ok (get_eq_ok inBlock),
        bind_of_ok (bit_eq_ok _ inWord), bind_of_ok (bit_eq_ok _ inWord)]
      simp only [Block.value, Block.bit, Slice.bit, block.slice_of_lt inBlock]
      rfl
    rw [bind_of_ok (mapM_eq_ok each), stored]
    exact congrArg Except.ok (by simp)

end Guarded
end FourState
