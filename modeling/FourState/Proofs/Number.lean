import FourState.Proofs.Moving
import FourState.Words.Arithmetic
import Mathlib.Data.Nat.ModEq
import Mathlib.Tactic.Ring

/-!
# Numbers of word sequences

A word sequence is a number in a base of two to the 32.  Addition and
multiplication of sequences always succeed, because no carry outgrows a word
and so no intermediate result outgrows 64 bits, and they give the sum and the
product modulo the values that the words tell apart.
-/

namespace FourState

/-! ## Moduli -/

theorem modulus_eq_two_pow (width : Nat) : modulus width = 2 ^ width :=
  Nat.one_shiftLeft width

theorem modulus_add (width added : Nat) :
    modulus (width + added) = modulus width * modulus added := by
  simp only [modulus_eq_two_pow, Nat.pow_add]

/-- The values of a width divide those of a wider one evenly. -/
theorem modulus_dvd {narrow wide : Nat} (narrower : narrow ≤ wide) :
    modulus narrow ∣ modulus wide := by
  obtain ⟨added, rfl⟩ := Nat.exists_eq_add_of_le narrower
  exact ⟨modulus added, modulus_add narrow added⟩

/-- One more word on top of a number of words. -/
theorem modulus_words_succ (count : Nat) :
    modulus (32 * (count + 1)) = modulus 32 * modulus (32 * count) := by
  rw [show 32 * (count + 1) = 32 + 32 * count by omega, modulus_add]

theorem toNat_lt_modulus (word : Word) : word.toNat < modulus 32 :=
  word.isLt

namespace Words

/-! ## Values -/

theorem value_replicate_zero (count : Nat) : value (List.replicate count 0) = 0 := by
  induction count with
  | zero => rfl
  | succ count inductionHypothesis =>
      rw [List.replicate_succ, value, inductionHypothesis]
      rfl

/-- The binary digits of a sequence's number are its bits. -/
theorem testBit_value (words : List Word) (position : Nat) :
    (value words).testBit position = bit words.toArray position := by
  induction words generalizing position with
  | nil => simp [value, bit_of_size_le]
  | cons first rest inductionHypothesis =>
      rw [value, Nat.add_comm, modulus_eq_two_pow, Nat.testBit_two_pow_mul_add _ first.isLt,
        bit_cons, inductionHypothesis]
      rfl

/-- A lowest word with a carry into the rest makes up the number it was cut from. -/
theorem value_cons_modEq
    {lowest rest target count : Nat}
    {words : List Word}
    (restValue : value words ≡ rest + lowest / modulus 32 [MOD modulus (32 * count)])
    (total : lowest + modulus 32 * rest = target) :
    value (BitVec.ofNat 32 lowest :: words) ≡ target [MOD modulus (32 * (count + 1))] := by
  rw [modulus_words_succ, value, BitVec.toNat_ofNat, ← modulus_eq_two_pow]
  calc lowest % modulus 32 + modulus 32 * value words
      ≡ lowest % modulus 32 + modulus 32 * (rest + lowest / modulus 32)
        [MOD modulus 32 * modulus (32 * count)] := (restValue.mul_left' _).add_left _
    _ = lowest % modulus 32 + modulus 32 * (lowest / modulus 32) + modulus 32 * rest := by ring
    _ = target := by rw [Nat.mod_add_div, total]

/-! ## Sums and products -/

/-- The carry of a sum is at most one, so adding two words never overflows. -/
theorem add_modEq
    {lefts rights : List Word}
    {carry : Nat}
    (sameLength : lefts.length = rights.length)
    (carryFits : carry ≤ 1) :
    ∃ sum, add lefts rights carry = .ok sum ∧ sum.length = lefts.length ∧
      value sum ≡ value lefts + value rights + carry [MOD modulus (32 * lefts.length)] := by
  induction lefts generalizing rights carry with
  | nil => exact ⟨[], by cases rights <;> rfl, rfl, Nat.modEq_one⟩
  | cons left lefts inductionHypothesis =>
      cases rights with
      | nil => contradiction
      | cons right rights =>
          have leftFits := toNat_lt_modulus left
          have rightFits := toNat_lt_modulus right
          have base : modulus 32 = 4294967296 := rfl
          have limit : modulus 64 = 18446744073709551616 := rfl
          have carried : (left.toNat + right.toNat + carry) / modulus 32 ≤ 1 :=
            Nat.le_of_lt_succ (Nat.div_lt_of_lt_mul (by omega))
          obtain ⟨rest, addsRest, restLength, restValue⟩ :=
            inductionHypothesis (Nat.succ.inj sameLength) carried
          refine ⟨BitVec.ofNat 32 (left.toNat + right.toNat + carry) :: rest, ?_, ?_, ?_⟩
          · rw [add, Checked.add_eq_ok (by omega)]
            change (Checked.add (left.toNat + right.toNat) carry >>= _) = _
            rw [Checked.add_eq_ok (by omega)]
            change (add lefts rights _ >>= _) = _
            rw [addsRest]
            rfl
          · rw [List.length_cons, List.length_cons, restLength]
          · refine value_cons_modEq restValue ?_
            simp only [value]
            ring

/-- A word times a word, added to a word and a carry that is a word, fits two words. -/
theorem multiply_accumulate_lt
    {factor word sum carry : Nat}
    (factorFits : factor < modulus 32)
    (wordFits : word < modulus 32)
    (sumFits : sum < modulus 32)
    (carryFits : carry < modulus 32) :
    sum + factor * word + carry < modulus 64 := by
  have base : modulus 32 = 4294967296 := rfl
  have limit : modulus 64 = 18446744073709551616 := rfl
  have product : factor * word ≤ (modulus 32 - 1) * (modulus 32 - 1) :=
    Nat.mul_le_mul (by omega) (by omega)
  rw [base] at product
  omega

/-- The carry of a row stays a word, so no accumulated product overflows. -/
theorem addMultiple_modEq
    (factor : Word)
    {sums words : List Word}
    {carry : Nat}
    (longEnough : sums.length ≤ words.length)
    (carryFits : carry < modulus 32) :
    ∃ result, addMultiple factor sums words carry = .ok result ∧
      result.length = sums.length ∧
      value result ≡ value sums + factor.toNat * value words + carry
        [MOD modulus (32 * sums.length)] := by
  induction sums generalizing words carry with
  | nil => exact ⟨[], by cases words <;> rfl, rfl, Nat.modEq_one⟩
  | cons sum sums inductionHypothesis =>
      cases words with
      | nil => simp at longEnough
      | cons word words =>
          have fits := multiply_accumulate_lt (toNat_lt_modulus factor) (toNat_lt_modulus word)
            (toNat_lt_modulus sum) carryFits
          have carried : (sum.toNat + factor.toNat * word.toNat + carry) / modulus 32 <
              modulus 32 := Nat.div_lt_of_lt_mul fits
          obtain ⟨rest, addsRest, restLength, restValue⟩ :=
            inductionHypothesis (Nat.le_of_succ_le_succ longEnough) carried
          refine ⟨BitVec.ofNat 32 (sum.toNat + factor.toNat * word.toNat + carry) :: rest,
            ?_, ?_, ?_⟩
          · rw [addMultiple, Checked.mul_eq_ok (by omega)]
            change (Checked.add sum.toNat (factor.toNat * word.toNat) >>= _) = _
            rw [Checked.add_eq_ok (by omega)]
            change (Checked.add (sum.toNat + factor.toNat * word.toNat) carry >>= _) = _
            rw [Checked.add_eq_ok fits]
            change (addMultiple factor sums words _ >>= _) = _
            rw [addsRest]
            rfl
          · rw [List.length_cons, List.length_cons, restLength]
          · refine value_cons_modEq restValue ?_
            simp only [value]
            ring

/-- Each row finishes the lowest word of the sum; the rest is a product of its own. -/
theorem addProduct_modEq
    (factors words sums : List Word)
    (sameLength : factors.length = sums.length)
    (longEnough : sums.length ≤ words.length) :
    ∃ result, addProduct factors words sums = .ok result ∧ result.length = sums.length ∧
      value result ≡ value sums + value factors * value words
        [MOD modulus (32 * sums.length)] := by
  induction factors generalizing sums with
  | nil =>
      rw [List.length_eq_zero_iff.1 sameLength.symm]
      exact ⟨[], rfl, rfl, Nat.modEq_one⟩
  | cons factor factors inductionHypothesis =>
      obtain ⟨row, addsRow, rowLength, rowValue⟩ :=
        addMultiple_modEq factor longEnough (modulus_pos 32)
      cases row with
      | nil =>
          rw [← rowLength] at sameLength
          contradiction
      | cons finished remaining =>
          have remainingLength : remaining.length + 1 = sums.length := rowLength
          have sumsLength : factors.length = remaining.length := by
            rw [← remainingLength] at sameLength
            exact Nat.succ.inj sameLength
          obtain ⟨rest, addsRest, restLength, restValue⟩ :=
            inductionHypothesis remaining sumsLength (by omega)
          refine ⟨finished :: rest, ?_, ?_, ?_⟩
          · rw [addProduct, addsRow]
            change (addProduct factors words remaining >>= _) = _
            rw [addsRest]
            rfl
          · rw [List.length_cons, restLength, remainingLength]
          · rw [← remainingLength, modulus_words_succ] at rowValue ⊢
            simp only [value] at rowValue ⊢
            calc finished.toNat + modulus 32 * value rest
                ≡ finished.toNat + modulus 32 *
                    (value remaining + value factors * value words)
                  [MOD modulus 32 * modulus (32 * remaining.length)] :=
                (restValue.mul_left' _).add_left _
              _ = finished.toNat + modulus 32 * value remaining +
                    modulus 32 * (value factors * value words) := by ring
              _ ≡ value sums + factor.toNat * value words + 0 +
                    modulus 32 * (value factors * value words)
                  [MOD modulus 32 * modulus (32 * remaining.length)] := rowValue.add_right _
              _ = value sums + (factor.toNat + modulus 32 * value factors) * value words := by
                ring

theorem multiply_modEq
    {lefts rights : List Word}
    (sameLength : lefts.length = rights.length) :
    ∃ product, multiply lefts rights = .ok product ∧ product.length = lefts.length ∧
      value product ≡ value lefts * value rights [MOD modulus (32 * lefts.length)] := by
  obtain ⟨product, multiplies, productLength, productValue⟩ :=
    addProduct_modEq lefts rights (List.replicate lefts.length 0) (by simp) (by simp [sameLength])
  rw [List.length_replicate] at productLength productValue
  rw [value_replicate_zero, Nat.zero_add] at productValue
  exact ⟨product, multiplies, productLength, productValue⟩

end Words
end FourState
