import FourState.Operator.Division
import FourState.Operator.Reduction
import FourState.Proofs.Folding
import FourState.Proofs.Guarded.Moving
import FourState.Proofs.Integer

/-!
# Guarded arithmetic

Sums, products, comparisons, reductions and integer readings of buffers, with each
machine step guarded.  A product is accumulated in an array of double words: what a
row adds to an entry, the entry itself and a carry reach the largest double word in
the worst case, and never pass it.
-/

namespace FourState

namespace Checked

theorem add_eq_ok_iff {left right total : Nat} :
    add left right = .ok total ↔ left + right < modulus 64 ∧ total = left + right := by
  constructor
  · intro adds
    obtain ⟨_, checks, adds⟩ := bind_eq_ok_iff.1 adds
    cases adds
    exact ⟨require_eq_ok_iff.1 checks, rfl⟩
  · rintro ⟨fits, rfl⟩
    exact add_eq_ok fits

theorem mul_eq_ok_iff {left right product : Nat} :
    mul left right = .ok product ↔ left * right < modulus 64 ∧ product = left * right := by
  constructor
  · intro multiplies
    obtain ⟨_, checks, multiplies⟩ := bind_eq_ok_iff.1 multiplies
    cases multiplies
    exact ⟨require_eq_ok_iff.1 checks, rfl⟩
  · rintro ⟨fits, rfl⟩
    exact mul_eq_ok fits

end Checked

namespace Guarded

/-! ## Sums -/

/-- The sum of two buffers and a carry. -/
def sum (left right : Buffer) (carry : Bool) : Guarded Buffer := do
  let words ← (Words.add left.low.toList right.low.toList carry.toNat : Except Fault (List Word))
  maskTop { Buffer.zero left.width with low := words.toArray }

/-- Every bit of the low plane inverted. -/
def complement (buffer : Buffer) : Guarded Buffer :=
  maskTop { buffer with low := buffer.low.map fun word => ~~~word }

theorem complement_eq_ok
    {buffer : Buffer}
    (limits : buffer.InLimits) :
    complement buffer = .ok buffer.complement :=
  maskTop_eq_ok limits.width_pos (by simpa using limits.canonical.size_low)
    limits.canonical.size_high

theorem sum_agrees
    {left right : Buffer}
    (limits : left.InLimits)
    (otherLimits : right.InLimits)
    (sameWidth : right.width = left.width)
    (carry : Bool) :
    Agrees Buffer.InLimits (sum left right carry) (left.add right carry) := by
  have sameLength : left.low.toList.length = right.low.toList.length := by
    simp [limits.canonical.size_low, otherLimits.canonical.size_low, sameWidth]
  obtain ⟨words, adds, wordsLength, -⟩ :=
    Words.add_modEq sameLength (show carry.toNat ≤ 1 from Bool.toNat_le carry)
  have sized : words.toArray.size = wordCount left.width := by
    rw [List.size_toArray, wordsLength, Array.length_toList, limits.canonical.size_low]
  have highSized : (Buffer.zero left.width).high.size = wordCount left.width := by
    simp [Buffer.zero]
  refine ⟨Buffer.ofWords left.width words, ?_, ?_,
    ⟨Buffer.canonical_trim sized highSized, limits.width_pos, limits.width_le⟩⟩
  · rw [sum, bind_of_ok (liftM_eq_ok adds)]
    exact maskTop_eq_ok limits.width_pos sized highSized
  · rw [Buffer.add, adds]
    rfl

/-! ## Products -/

/-- Add the product of a word and the word of a column to an entry and a carry. -/
def multiplyColumn (factor : Word) (right : Buffer) (row : Nat) (state : Array Nat × Nat)
    (column : Nat) : Guarded (Array Nat × Nat) := do
  let (entries, carry) := state
  let position ← add 64 row column
  let entry ← get entries position
  let product ← mul 64 factor.toNat (right.word column).1.toNat
  let increased ← add 64 entry product
  let current ← add 64 increased carry
  let stored ← set entries position (current % modulus 32)
  return (stored, current / modulus 32)

/-- Add a multiple of the right number to the entries from a row on. -/
def multiplyRow (left right : Buffer) (entries : Array Nat) (row : Nat) : Guarded (Array Nat) :=
  if (left.word row).1 = 0 then return entries
  else do
    let columns ← sub left.low.size row
    let (finished, _) ← (List.range' 0 columns).foldlM
      (multiplyColumn (left.word row).1 right row) (entries, 0)
    return finished

/-- The product of two buffers, row by row. -/
def product (left right : Buffer) : Guarded Buffer := do
  let entries ← (List.range' 0 left.low.size).foldlM (multiplyRow left right)
    (Array.replicate left.low.size 0)
  maskTop { Buffer.zero left.width with low := entries.map (BitVec.ofNat 32) }

section Products

variable {left right : Buffer} {factor : Word}

theorem get_append
    {before : List Nat}
    {position : Nat}
    (place : before.length = position)
    (entry : Nat)
    (after : List Nat) :
    get (before ++ entry :: after).toArray position = .ok entry := by
  subst place
  rw [get_eq_ok (by simp)]
  simp

theorem set_append
    {before : List Nat}
    {position : Nat}
    (place : before.length = position)
    (old new : Nat)
    (after : List Nat) :
    set (before ++ old :: after).toArray position new = .ok (before ++ new :: after).toArray := by
  subst place
  rw [set_eq_ok (by simp)]
  simp

theorem multiplyColumn_eq_ok
    {before : List Nat}
    {row column entry carry : Nat}
    (place : before.length = row + column)
    (small : row + column ≤ maxWidth)
    (fits : entry + factor.toNat * (right.word column).1.toNat + carry < modulus 64)
    (after : List Nat) :
    multiplyColumn factor right row ((before ++ entry :: after).toArray, carry) column =
      .ok ((before ++
          (entry + factor.toNat * (right.word column).1.toNat + carry) % modulus 32 ::
            after).toArray,
        (entry + factor.toNat * (right.word column).1.toNat + carry) / modulus 32) := by
  have positionLe : row + column ≤ 65536 := small
  rw [multiplyColumn, bind_of_ok (add_eq_ok (lt_modulus (by decide) (by omega))),
    bind_of_ok (get_append place entry after), bind_of_ok (mul_eq_ok (by omega)),
    bind_of_ok (add_eq_ok (by omega)), bind_of_ok (add_eq_ok fits),
    bind_of_ok (set_append place entry _ after)]
  rfl

/-- The columns of a row carry out the multiplication of lists of words. -/
theorem foldlM_multiplyColumn
    {sums : List Word}
    {before : List Nat}
    {row column carry : Nat}
    (place : before.length = row + column)
    (small : row + column + sums.length ≤ maxWidth)
    (enough : column + sums.length ≤ right.low.size)
    {result : List Word}
    (adds : Words.addMultiple factor sums (right.low.toList.drop column) carry = .ok result) :
    ∃ last, (List.range' column sums.length).foldlM (multiplyColumn factor right row)
        ((before ++ sums.map BitVec.toNat).toArray, carry) =
      .ok ((before ++ result.map BitVec.toNat).toArray, last) := by
  induction sums generalizing before column carry result with
  | nil =>
      simp only [Words.addMultiple] at adds
      cases adds
      exact ⟨carry, rfl⟩
  | cons sum sums inductionHypothesis =>
      rw [List.length_cons] at small enough
      have inWords : column < right.low.size := by omega
      rw [List.drop_eq_getElem_cons (by simpa using inWords)] at adds
      obtain ⟨product, multiplies, adds⟩ := bind_eq_ok_iff.1 adds
      obtain ⟨increased, increases, adds⟩ := bind_eq_ok_iff.1 adds
      obtain ⟨current, finishes, adds⟩ := bind_eq_ok_iff.1 adds
      obtain ⟨rest, addsRest, adds⟩ := bind_eq_ok_iff.1 adds
      cases adds
      obtain ⟨-, rfl⟩ := Checked.mul_eq_ok_iff.1 multiplies
      obtain ⟨-, rfl⟩ := Checked.add_eq_ok_iff.1 increases
      obtain ⟨fits, rfl⟩ := Checked.add_eq_ok_iff.1 finishes
      have isWord : (right.word column).1 = right.low.toList[column] := by
        simp [Buffer.word, Words.word_of_lt _ inWords]
      rw [← isWord] at fits addsRest ⊢
      rw [List.length_cons, List.range'_succ, List.foldlM_cons, List.map_cons,
        bind_of_ok (multiplyColumn_eq_ok place (by omega) fits _)]
      obtain ⟨last, finishesRow⟩ := @inductionHypothesis
        (before ++ [(sum.toNat + factor.toNat * (right.word column).1.toNat + carry) % modulus 32])
        (column + 1) _ (by simp [place, Nat.add_assoc]) (by omega) (by omega) _ addsRest
      refine ⟨last, ?_⟩
      rw [List.append_assoc, List.append_assoc] at finishesRow
      rw [List.map_cons, BitVec.toNat_ofNat, ← modulus_eq_two_pow]
      exact finishesRow

/-- A row with a zero factor leaves the entries. -/
theorem addMultiple_zero
    {sums words : List Word}
    (enough : sums.length ≤ words.length) :
    Words.addMultiple 0 sums words 0 = .ok sums := by
  induction sums generalizing words with
  | nil => cases words <;> rfl
  | cons sum sums inductionHypothesis =>
      cases words with
      | nil => simp at enough
      | cons word words =>
          have inWord := toNat_lt_modulus sum
          have fits : sum.toNat < modulus 64 := lt_modulus (by decide) inWord
          have noProduct : (0 : Word).toNat * word.toNat = 0 := Nat.zero_mul _
          have rest : Words.addMultiple 0 sums words (sum.toNat / modulus 32) = .ok sums := by
            rw [Nat.div_eq_of_lt inWord]
            exact inductionHypothesis (Nat.le_of_succ_le_succ enough)
          refine bind_eq_ok_iff.2 ⟨0, Checked.mul_eq_ok_iff.2 ⟨?_, noProduct.symm⟩,
            bind_eq_ok_iff.2 ⟨sum.toNat, Checked.add_eq_ok_iff.2 ⟨fits, rfl⟩,
              bind_eq_ok_iff.2 ⟨sum.toNat, Checked.add_eq_ok_iff.2 ⟨fits, rfl⟩,
                bind_eq_ok_iff.2 ⟨sums, rest, ?_⟩⟩⟩⟩
          · rw [noProduct]
            exact modulus_pos 64
          · rw [BitVec.ofNat_toNat, BitVec.setWidth_eq]
            rfl

theorem multiplyRow_eq_ok
    {sums : List Word}
    {before : List Nat}
    {row : Nat}
    (place : before.length = row)
    (sized : row + sums.length = left.low.size)
    (sameSize : right.low.size = left.low.size)
    (small : left.low.size ≤ maxWidth)
    {result : List Word}
    (adds : Words.addMultiple (left.word row).1 sums right.low.toList 0 = .ok result) :
    multiplyRow left right (before ++ sums.map BitVec.toNat).toArray row =
      .ok (before ++ result.map BitVec.toNat).toArray := by
  unfold multiplyRow
  split
  · rename_i isZero
    rw [isZero, addMultiple_zero (by simp; omega)] at adds
    cases adds
    rfl
  · rw [bind_of_ok (sub_eq_ok (by omega)), show left.low.size - row = sums.length by omega]
    obtain ⟨last, finishesRow⟩ := @foldlM_multiplyColumn _ _ sums before row 0 0 place
      (by omega) (by omega) _ adds
    rw [bind_of_ok finishesRow]
    rfl

/-- The rows carry out the multiplication of lists of words. -/
theorem foldlM_multiplyRow
    {factors sums : List Word}
    {before : List Nat}
    {row : Nat}
    (isRest : left.low.toList.drop row = factors)
    (place : before.length = row)
    (sameLength : sums.length = factors.length)
    (sameSize : right.low.size = left.low.size)
    (small : left.low.size ≤ maxWidth)
    {result : List Word}
    (multiplies : Words.addProduct factors right.low.toList sums = .ok result) :
    (List.range' row factors.length).foldlM (multiplyRow left right)
        (before ++ sums.map BitVec.toNat).toArray =
      .ok (before ++ result.map BitVec.toNat).toArray := by
  induction factors generalizing row before sums result with
  | nil =>
      cases multiplies
      rw [List.length_eq_zero_iff.1 sameLength]
      rfl
  | cons factor factors inductionHypothesis =>
      have remaining : left.low.size - row = factors.length + 1 := by
        simpa using congrArg List.length isRest
      have inWords : row < left.low.size := by omega
      rw [List.drop_eq_getElem_cons (by simpa using inWords)] at isRest
      obtain ⟨isFactor, isRest⟩ := List.cons.inj isRest
      have factorWord : (left.word row).1 = factor := by
        simpa [Buffer.word, Words.word_of_lt _ inWords] using isFactor
      rw [List.length_cons] at sameLength
      obtain ⟨added, addsRow, multiplies⟩ := bind_eq_ok_iff.1 multiplies
      obtain ⟨addedSame, addsAgain, addedLength, -⟩ :=
        Words.addMultiple_modEq factor (show sums.length ≤ right.low.toList.length by
          simp; omega) (modulus_pos 32)
      cases addsRow.symm.trans addsAgain
      rw [List.length_cons, List.range'_succ, List.foldlM_cons,
        bind_of_ok (multiplyRow_eq_ok place (by omega) sameSize small (factorWord ▸ addsRow))]
      cases added with
      | nil =>
          rw [← addedLength] at sameLength
          contradiction
      | cons finished rest =>
          obtain ⟨later, multipliesLater, multiplies⟩ := bind_eq_ok_iff.1 multiplies
          cases multiplies
          have restLength : rest.length = factors.length := by
            rw [← addedLength] at sameLength
            exact Nat.succ.inj sameLength
          have finishes := @inductionHypothesis rest (before ++ [finished.toNat]) (row + 1) isRest
            (by simp [place]) restLength _ multipliesLater
          rw [List.append_assoc, List.append_assoc] at finishes
          exact finishes

theorem product_agrees
    (limits : left.InLimits)
    (otherLimits : right.InLimits)
    (sameWidth : right.width = left.width) :
    Agrees Buffer.InLimits (product left right) (left.multiply right) := by
  have widthLe : left.width ≤ 65536 := limits.width_le
  have leftSized := limits.canonical.size_low
  have sameSize : right.low.size = left.low.size := by
    rw [leftSized, otherLimits.canonical.size_low, sameWidth]
  have small : left.low.size ≤ 65536 := by
    have := wordCount_lt left.width
    omega
  obtain ⟨words, multiplies, wordsLength, -⟩ :=
    Words.multiply_modEq (show left.low.toList.length = right.low.toList.length by simp [sameSize])
  have finishes := @foldlM_multiplyRow left right left.low.toList
    (List.replicate left.low.toList.length 0) [] 0 rfl rfl (by simp) sameSize small _ multiplies
  have cleared : ((List.replicate left.low.toList.length (0 : Word)).map BitVec.toNat).toArray =
      Array.replicate left.low.size 0 := by
    simp
  have restored : ((words.map BitVec.toNat).toArray.map (BitVec.ofNat 32)) = words.toArray := by
    simp [Function.comp_def]
  rw [List.nil_append, List.nil_append, cleared, Array.length_toList] at finishes
  have sized : words.toArray.size = wordCount left.width := by
    rw [List.size_toArray, wordsLength, Array.length_toList, leftSized]
  have highSized : (Buffer.zero left.width).high.size = wordCount left.width := by
    simp [Buffer.zero]
  refine ⟨Buffer.ofWords left.width words, ?_, ?_,
    ⟨Buffer.canonical_trim sized highSized, limits.width_pos, limits.width_le⟩⟩
  · rw [product, bind_of_ok finishes, restored]
    exact maskTop_eq_ok limits.width_pos sized highSized
  · rw [Buffer.multiply, multiplies]
    rfl

end Products

end Guarded
end FourState
