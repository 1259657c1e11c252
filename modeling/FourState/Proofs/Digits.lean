import FourState.Proofs.Token
import FourState.Text.Literal
import Mathlib.Algebra.Group.Nat.Defs

/-!
# Digits

A value is written digit by digit, each for a group of bits, and zero digits in
front are dropped.  If the bits of each group are all known, all `x` or all
`z`, reading the digits gives every group back; only the positions of dropped
digits are up to the first digit that is left.
-/

namespace FourState

namespace DigitRadix

theorem bits_pos (radix : DigitRadix) : 0 < radix.bits := by
  cases radix <;> decide

theorem bits_le (radix : DigitRadix) : radix.bits ≤ 4 := by
  cases radix <;> decide

end DigitRadix

/-! ## Groups of bits -/

namespace Bit

/-- The bits are all known, all `x`, or all `z`. -/
def Uniform (bits : List Bit) : Prop :=
  (∀ bit ∈ bits, bit.isKnown = true) ∨ (∀ bit ∈ bits, bit = x) ∨ ∀ bit ∈ bits, bit = z

/-- Only known bits are followed by zeros. -/
theorem extension_eq_zero_iff (bit : Bit) : bit.extension = zero ↔ bit.isKnown = true := by
  cases bit <;> decide

theorem groupLetter?_eq_none_iff (bits : List Bit) :
    groupLetter? bits = none ↔ ∀ bit ∈ bits, bit.isKnown = true := by
  unfold groupLetter?
  constructor
  · intro noLetter
    by_cases known : bits.all isKnown = true
    · exact List.all_eq_true.1 known
    · rw [if_neg known] at noLetter
      split at noLetter
      · contradiction
      · split at noLetter
        · contradiction
        · split at noLetter <;> contradiction
  · intro known
    rw [if_pos (List.all_eq_true.2 known)]

/-- Bits that are all unknown in the same way are written as their letter. -/
theorem groupLetter?_of_all_eq
    {bits : List Bit}
    {bit : Bit}
    (notEmpty : bits ≠ [])
    (unknown : bit.isKnown = false)
    (same : ∀ other ∈ bits, other = bit) :
    groupLetter? bits = some bit.toChar := by
  obtain ⟨count, rfl⟩ : ∃ count, bits = List.replicate count bit :=
    ⟨bits.length, List.eq_replicate_of_mem same⟩
  have positive : count ≠ 0 := by
    rintro rfl
    exact notEmpty rfl
  cases bit with
  | zero | one => contradiction
  | x | z => simp [groupLetter?, isKnown, toChar, positive]

/-- A group of known bits is less than its number of values. -/
theorem groupValue_lt (bits : List Bit) : groupValue bits < 2 ^ bits.length := by
  induction bits with
  | nil => exact Nat.zero_lt_one
  | cons bit bits inductionHypothesis =>
      rw [groupValue, List.length_cons, Nat.pow_succ]
      split <;> omega

/-- The number of a group has its known ones. -/
theorem testBit_groupValue (bits : List Bit) (index : Nat) :
    (groupValue bits).testBit index = decide (bits[index]? = some one) := by
  induction bits generalizing index with
  | nil => simp [groupValue]
  | cons bit bits inductionHypothesis =>
      cases index with
      | zero => by_cases isOne : bit = one <;> simp [groupValue, isOne]
      | succ index =>
          have shifted : ((if bit = one then 1 else 0) + 2 * groupValue bits) / 2 =
              groupValue bits := by
            split <;> omega
          rw [groupValue, Nat.testBit_succ, shifted, inductionHypothesis, List.getElem?_cons_succ]

/-- A group has the number zero exactly when it has no known one. -/
theorem groupValue_eq_zero_iff (bits : List Bit) :
    groupValue bits = 0 ↔ ∀ bit ∈ bits, bit ≠ one := by
  induction bits with
  | nil => simp [groupValue]
  | cons bit bits inductionHypothesis =>
      rw [List.forall_mem_cons, ← inductionHypothesis, groupValue]
      split
      · rename_i isOne
        simp [isOne]
      · rename_i notOne
        have doubled : 0 + 2 * groupValue bits = 0 ↔ groupValue bits = 0 := by omega
        simp only [doubled, notOne, ne_eq, not_false_eq_true, true_and]

/-- The digit of known bits is that of their number. -/
theorem groupDigit_of_known
    {bits : List Bit}
    (known : ∀ bit ∈ bits, bit.isKnown = true) :
    groupDigit bits = Nat.digitChar (groupValue bits) := by
  rw [groupDigit, (groupLetter?_eq_none_iff bits).2 known]
  rfl

/-- The digit of bits that are all unknown in the same way is their letter. -/
theorem groupDigit_of_all_eq
    {bits : List Bit}
    {bit : Bit}
    (notEmpty : bits ≠ [])
    (unknown : bit.isKnown = false)
    (same : ∀ other ∈ bits, other = bit) :
    groupDigit bits = bit.toChar := by
  rw [groupDigit, groupLetter?_of_all_eq notEmpty unknown same]
  rfl

end Bit

/-! ## Single digits -/

/-- A number below sixteen is written as a digit that stands for no unknown bit,
is neither a blank nor an underscore, and is `0` for zero only. -/
theorem digitChar_facts {value : Nat} (small : value < 16) :
    Literal.unknownDigit? value.digitChar = none ∧ Text.isBlank value.digitChar = false ∧
      value.digitChar ≠ '_' ∧ (value.digitChar = '0' ↔ value = 0) := by
  revert value
  decide

namespace Bit

variable {bits : List Bit} {count : Nat}

theorem groupValue_lt_modulus (short : bits.length ≤ count) :
    groupValue bits < modulus count := by
  rw [modulus, Nat.one_shiftLeft]
  exact Nat.lt_of_lt_of_le (groupValue_lt bits) (Nat.pow_le_pow_right Nat.zero_lt_two short)

theorem modulus_le_sixteen (small : count ≤ 4) : modulus count ≤ 16 := by
  rw [modulus, Nat.one_shiftLeft]
  exact Nat.pow_le_pow_right Nat.zero_lt_two small

theorem groupValue_lt_sixteen (short : bits.length ≤ 4) : groupValue bits < 16 :=
  groupValue_lt_modulus short

/-- The digit of a uniform group is read as bits that begin with the group. -/
theorem exists_digitBits?_groupDigit
    (notEmpty : bits ≠ [])
    (short : bits.length ≤ count)
    (small : count ≤ 4)
    (uniform : Uniform bits) :
    ∃ read, Literal.digitBits? count (groupDigit bits) = some read ∧ read.length = count ∧
      bits <+: read := by
  have letter {bit : Bit} (unknown : bit.isKnown = false) (same : ∀ other ∈ bits, other = bit) :
      ∃ read, Literal.digitBits? count (groupDigit bits) = some read ∧ read.length = count ∧
        bits <+: read := by
    refine ⟨List.replicate count bit, ?_, List.length_replicate, ?_⟩
    · rw [groupDigit_of_all_eq notEmpty unknown same, Literal.digitBits?]
      cases bit with
      | zero | one => contradiction
      | x | z => rfl
    · rw [List.eq_replicate_of_mem same, List.prefix_iff_eq_take, List.take_replicate]
      simp [short]
  obtain known | allX | allZ := uniform
  · have isSmall := groupValue_lt_sixteen (Nat.le_trans short small)
    have reads := Numeral.digit?_digitChar (modulus_le_sixteen small)
      (groupValue_lt_modulus short)
    refine ⟨(List.range count).map fun index => Bit.ofBool ((groupValue bits).testBit index),
      ?_, by simp, ?_⟩
    · rw [groupDigit_of_known known, Literal.digitBits?, (digitChar_facts isSmall).1]
      simp only [reads, Option.map_some]
    · rw [List.prefix_iff_eq_take]
      apply List.ext_getElem
      · simp [short]
      · intro index inBits inRead
        have shown : bits[index]? = some bits[index] := List.getElem?_eq_getElem inBits
        have isKnown := known _ (List.getElem_mem inBits)
        rw [List.getElem_take, List.getElem_map, List.getElem_range, testBit_groupValue, shown]
        cases bit : bits[index] with
        | zero | one => rfl
        | x | z =>
            rw [bit] at isKnown
            contradiction
  · exact letter rfl allX
  · exact letter rfl allZ

/-- The digit of a uniform group is `0` exactly when all its bits are known zeros. -/
theorem groupDigit_eq_zero_iff
    (notEmpty : bits ≠ [])
    (short : bits.length ≤ 4)
    (uniform : Uniform bits) :
    groupDigit bits = '0' ↔ ∀ bit ∈ bits, bit = zero := by
  have letter {bit : Bit} (unknown : bit.isKnown = false) (same : ∀ other ∈ bits, other = bit) :
      groupDigit bits = '0' ↔ ∀ bit ∈ bits, bit = zero := by
    rw [groupDigit_of_all_eq notEmpty unknown same]
    obtain ⟨first, isFirst⟩ := List.exists_mem_of_ne_nil bits notEmpty
    constructor
    · intro isZero
      cases bit <;> contradiction
    · intro zeros
      rw [← same first isFirst, zeros first isFirst]
      rfl
  obtain known | allX | allZ := uniform
  · rw [groupDigit_of_known known, (digitChar_facts (groupValue_lt_sixteen short)).2.2.2,
      groupValue_eq_zero_iff]
    refine forall₂_congr fun bit isMember => ?_
    have isKnown := known bit isMember
    cases bit <;> first | contradiction | decide
  · exact letter rfl allX
  · exact letter rfl allZ

/-- What an unknown digit extends: the digit of known bits is no unknown one. -/
theorem unknownDigit?_groupDigit
    {first : Bit}
    (isFirst : first ∈ bits)
    (short : bits.length ≤ 4)
    (uniform : Uniform bits) :
    Literal.unknownDigit? (groupDigit bits) =
      if first.isKnown = true then none else some first := by
  have notEmpty : bits ≠ [] := List.ne_nil_of_mem isFirst
  have letter {bit : Bit} (unknown : bit.isKnown = false) (same : ∀ other ∈ bits, other = bit) :
      Literal.unknownDigit? (groupDigit bits) =
        if first.isKnown = true then none else some first := by
    rw [groupDigit_of_all_eq notEmpty unknown same, same first isFirst]
    cases bit with
    | zero | one => contradiction
    | x | z => rfl
  obtain known | allX | allZ := uniform
  · rw [groupDigit_of_known known, if_pos (known first isFirst),
      (digitChar_facts (groupValue_lt_sixteen short)).1]
  · exact letter rfl allX
  · exact letter rfl allZ

/-- A digit is neither a blank nor an underscore. -/
theorem groupDigit_plain (short : bits.length ≤ 4) :
    Text.isBlank (groupDigit bits) = false ∧ groupDigit bits ≠ '_' := by
  unfold groupDigit
  cases letter : groupLetter? bits with
  | none =>
      have facts := digitChar_facts (groupValue_lt_sixteen short)
      exact ⟨facts.2.1, facts.2.2.1⟩
  | some char =>
      rw [Option.getD_some]
      unfold groupLetter? at letter
      split at letter
      · contradiction
      · split at letter
        · cases letter
          decide
        · split at letter
          · cases letter
            decide
          · split at letter <;> cases letter <;> decide

end Bit

/-! ## Leading zeros -/

/-- Dropping leading zeros leaves the digits from some index down.  All above are
zeros, and the first one left is not, unless it is the last digit. -/
theorem exists_stripZeros_eq (digitAt : Nat → Char) (highest : Nat) :
    ∃ top, top ≤ highest ∧
      stripZeros ((List.range (highest + 1)).reverse.map digitAt) =
        (List.range (top + 1)).reverse.map digitAt ∧
      (∀ index, top < index → index ≤ highest → digitAt index = '0') ∧
      (top = 0 ∨ digitAt top ≠ '0') := by
  induction highest with
  | zero =>
      refine ⟨0, Nat.le_refl 0, rfl, ?_, Or.inl rfl⟩
      intro index above notAbove
      omega
  | succ highest inductionHypothesis =>
      have split : (List.range (highest + 2)).reverse.map digitAt =
          digitAt (highest + 1) :: digitAt highest :: (List.range highest).reverse.map digitAt := by
        simp [List.range_succ]
      have rest : (List.range (highest + 1)).reverse.map digitAt =
          digitAt highest :: (List.range highest).reverse.map digitAt := by
        simp [List.range_succ]
      by_cases isZero : digitAt (highest + 1) = '0'
      · obtain ⟨top, below, strips, zeros, notZero⟩ := inductionHypothesis
        refine ⟨top, Nat.le_succ_of_le below, ?_, ?_, notZero⟩
        · rw [split, stripZeros, if_pos isZero, ← rest, strips]
        · intro index above notAbove
          by_cases isHighest : index = highest + 1
          · rw [isHighest, isZero]
          · exact zeros index above (by omega)
      · refine ⟨highest + 1, Nat.le_refl _, ?_, ?_, Or.inr isZero⟩
        · rw [split, stripZeros, if_neg isZero]
        · intro index above notAbove
          omega

/-! ## Runs of digits -/

/-- In a row of lists of one length, an entry is found by list and offset. -/
theorem getElem?_flatten_of_length
    {item : Type}
    {count : Nat}
    (lists : List (List item))
    (sameLength : ∀ list ∈ lists, list.length = count)
    (positive : 0 < count)
    (position : Nat) :
    lists.flatten[position]? =
      lists[position / count]?.bind fun list => list[position % count]? := by
  induction lists generalizing position with
  | nil => rfl
  | cons list lists inductionHypothesis =>
      have isLength := sameLength list (by simp)
      rw [List.flatten_cons]
      by_cases inFirst : position < count
      · rw [List.getElem?_append_left (by rwa [isLength]), Nat.div_eq_of_lt inFirst,
          Nat.mod_eq_of_lt inFirst]
        rfl
      · have notBefore : count ≤ position := Nat.not_lt.1 inFirst
        have next : position / count = (position - count) / count + 1 := by
          rw [Nat.div_eq_sub_div positive notBefore]
        rw [List.getElem?_append_right (by rwa [isLength]), isLength,
          inductionHypothesis fun other isMember => sameLength other (by simp [isMember]),
          next, List.getElem?_cons_succ, ← Nat.mod_eq_sub_mod notBefore]

namespace Literal

/-- The bits of a digit that is known to be good. -/
def goodBits (count : Nat) (digit : Char) : List Bit :=
  (digitBits? count digit).getD []

/-- Digits that are all good are read one by one. -/
theorem mapM_readDigit
    {count : Nat}
    {digits : List Char}
    (all : List Char)
    (good : ∀ digit ∈ digits, ∃ read, digitBits? count digit = some read) :
    digits.mapM (readDigit count all) = .ok (digits.map (goodBits count)) := by
  induction digits with
  | nil => rfl
  | cons digit digits inductionHypothesis =>
      obtain ⟨read, reads⟩ := good digit (by simp)
      rw [List.mapM_cons, inductionHypothesis fun other isMember => good other
        (by simp [isMember]), readDigit, reads, List.map_cons, goodBits, reads]
      rfl

/-- The value of good digits: the least significant digit gives the lowest bits,
and the extension fills up. -/
theorem ofDigits_eq
    (width : Nat)
    {radix : DigitRadix}
    {digits : List Char}
    (good : ∀ digit ∈ digits, ∃ read, digitBits? radix.bits digit = some read) :
    ofDigits width radix digits = .ok (Buffer.ofBits width fun position =>
      (digits.reverse.map (goodBits radix.bits)).flatten[position]?.getD (extension digits)) := by
  have reads := mapM_readDigit digits fun digit isMember =>
    good digit (List.mem_reverse.1 isMember)
  rw [ofDigits, digitsBits, reads]
  change Except.ok _ = _
  congr 2
  funext position
  rw [Array.getD_eq_getD_getElem?, List.getElem?_toArray]

end Literal

end FourState
