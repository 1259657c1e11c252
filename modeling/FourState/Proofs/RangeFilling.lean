import FourState.Proofs.Approximation

/-!
# Filling a range word by word

A range is filled in rounds.  Each of them fills what one word holds of the range, in both
planes, and goes on with the next word.  The rounds come to an end, because each leaves less of
the range, and they fill all of it.
-/

namespace FourState

/-! ## Masks of a range -/

namespace Mask

/-- The words that a range does not reach have an empty mask. -/
theorem span_eq_zero
    {first stop index : Nat}
    (outside : index < first / 32 ∨ stop ≤ 32 * index) :
    span first stop index = 0 := by
  refine BitVec.eq_of_getLsbD_eq fun offset inWord => ?_
  rw [getLsbD_span _ _ _ inWord]
  exact (decide_eq_false (by omega)).trans BitVec.getLsbD_zero.symm

/-- The bits of one word from a position up to a bound, as far as the word reaches. -/
theorem range_eq_span {position stop : Nat} (inside : position < stop) :
    range (position % 32) (min (stop - 1 - position / 32 * 32) 31) =
      span position (min stop ((position / 32 + 1) * 32)) (position / 32) := by
  refine BitVec.eq_of_getLsbD_eq fun offset inWord => ?_
  rw [getLsbD_span _ _ _ inWord]
  simp only [range, BitVec.getLsbD_and, BitVec.getLsbD_not, getLsbD_low, inWord, decide_true,
    Bool.true_and, true_and]
  rw [← decide_not, ← Bool.decide_and, decide_eq_decide]
  omega

end Mask

namespace Words

/-! ## Parts of a range -/

theorem fill_of_le
    (words : Array Word)
    {first stop : Nat}
    (ordered : stop ≤ first)
    (value : Bool) :
    fill words first stop value = words := by
  apply ext_bit (by simp)
  intro position
  by_cases inBounds : position < 32 * words.size
  · rw [bit_fill _ _ _ _ inBounds, if_neg (by omega)]
  · rw [bit_of_size_le _ (by simp; omega), bit_of_size_le _ (by omega)]

/-- A range is filled up to a position and then from it on. -/
theorem fill_fill
    (words : Array Word)
    {first between : Nat}
    (ordered : first ≤ between)
    (stop : Nat)
    (value : Bool) :
    fill (fill words first (min stop between) value) between stop value =
      fill words first stop value := by
  apply ext_bit (by simp)
  intro position
  by_cases inBounds : position < 32 * words.size
  · rw [bit_fill _ _ _ _ (by simpa using inBounds), bit_fill _ _ _ _ inBounds,
      bit_fill _ _ _ _ inBounds]
    split
    · rw [if_pos (by omega)]
    · split
      · rw [if_pos (by omega)]
      · rw [if_neg (by omega)]
  · rw [bit_of_size_le _ (by simp; omega), bit_of_size_le _ (by simp; omega)]

/-- Give the bits from a position up to a bound one value, as far as they lie in its word. -/
def fillWord (words : Array Word) (stop position : Nat) (value : Bool) : Array Word :=
  let mask := Mask.range (position % 32) (min (stop - 1 - position / 32 * 32) 31)
  words.modify (position / 32) fun word => if value then word ||| mask else word &&& ~~~mask

@[simp] theorem size_fillWord (words : Array Word) (stop position : Nat) (value : Bool) :
    (fillWord words stop position value).size = words.size := by
  simp [fillWord]

/-- A round fills what its word holds of the range. -/
theorem fillWord_eq_fill
    (words : Array Word)
    {position stop : Nat}
    (before : position < stop)
    (value : Bool) :
    fillWord words stop position value =
      fill words position (min stop ((position / 32 + 1) * 32)) value := by
  simp only [fillWord, Mask.range_eq_span before]
  apply Array.ext (by simp)
  intro index inFilled inWords
  simp only [fill, Array.getElem_modify, Array.getElem_mapIdx]
  split
  · rename_i isChosen
    subst isChosen
    rfl
  · rename_i isOther
    have noBit : Mask.span position (min stop ((position / 32 + 1) * 32)) index = 0 :=
      Mask.span_eq_zero (by omega)
    simp only [noBit]
    cases value with
    | false => exact BitVec.and_allOnes.symm
    | true => exact BitVec.or_zero.symm

end Words

namespace Buffer

/-! ## Rounds of filling -/

/-- Give the bits from a position up to a bound one value, as far as they lie in its word. -/
def fillWord (buffer : Buffer) (stop position : Nat) (filler : Bit) : Buffer :=
  { buffer with
    low := Words.fillWord buffer.low stop position filler.low
    high := Words.fillWord buffer.high stop position filler.high }

/-- Filling from a position up to a bound ends with a buffer.  Every round needs the word of its
position in both planes, and goes on with the next word. -/
inductive FillsFrom (stop : Nat) (filler : Bit) : Buffer → Nat → Buffer → Prop
  | done
      {buffer : Buffer}
      {position : Nat}
      (past : stop ≤ position) :
      FillsFrom stop filler buffer position buffer
  | next
      {buffer result : Buffer}
      {position : Nat}
      (before : position < stop)
      (inLow : position / 32 < buffer.low.size)
      (inHigh : position / 32 < buffer.high.size)
      (rest : FillsFrom stop filler (buffer.fillWord stop position filler)
        ((position / 32 + 1) * 32) result) :
      FillsFrom stop filler buffer position result

section Rounds

variable {buffer result : Buffer} {stop position : Nat} {filler : Bit}

/-- Filling that ends has filled the range in both planes. -/
theorem FillsFrom.eq_fill (fills : FillsFrom stop filler buffer position result) :
    result = { buffer with
      low := Words.fill buffer.low position stop filler.low
      high := Words.fill buffer.high position stop filler.high } := by
  induction fills with
  | done past => rw [Words.fill_of_le _ past, Words.fill_of_le _ past]
  | next before inLow inHigh rest inductionHypothesis =>
      rw [inductionHypothesis]
      simp only [fillWord, Words.fillWord_eq_fill _ before]
      rw [Words.fill_fill _ (by omega), Words.fill_fill _ (by omega)]

/-- Filling up to a bound inside the words comes to an end, because every round leaves less of
the range. -/
theorem exists_fillsFrom
    (lowSized : stop ≤ 32 * buffer.low.size)
    (highSized : stop ≤ 32 * buffer.high.size)
    (position : Nat)
    (filler : Bit) :
    ∃ result, FillsFrom stop filler buffer position result := by
  -- The induction is on what is left of the range; a round goes at least to the next position.
  induction remaining : stop - position using Nat.strongRecOn generalizing buffer position with
  | ind _ inductionHypothesis =>
      by_cases before : position < stop
      · have lowFits : stop ≤ 32 * (buffer.fillWord stop position filler).low.size := by
          simpa [fillWord] using lowSized
        have highFits : stop ≤ 32 * (buffer.fillWord stop position filler).high.size := by
          simpa [fillWord] using highSized
        obtain ⟨result, rest⟩ := inductionHypothesis (stop - (position / 32 + 1) * 32) (by omega)
          lowFits highFits ((position / 32 + 1) * 32) rfl
        exact ⟨result, .next before (by omega) (by omega) rest⟩
      · exact ⟨buffer, .done (Nat.not_lt.1 before)⟩

/-- Filling a range of a canonical buffer ends, with the range filled as far as it lies inside
the width. -/
theorem Canonical.fillsFrom_iff
    (canonical : buffer.Canonical)
    (first stop : Nat)
    (filler : Bit)
    (result : Buffer) :
    FillsFrom (min stop buffer.width) filler buffer first result ↔
      result = buffer.fill first stop filler := by
  have inWords := le_wordCount buffer.width
  have lowFits : min stop buffer.width ≤ 32 * buffer.low.size := by
    rw [canonical.size_low]
    omega
  have highFits : min stop buffer.width ≤ 32 * buffer.high.size := by
    rw [canonical.size_high]
    omega
  obtain ⟨filled, fills⟩ := exists_fillsFrom lowFits highFits first filler
  constructor
  · exact FillsFrom.eq_fill
  · rintro rfl
    rwa [fills.eq_fill] at fills

end Rounds
end Buffer
end FourState
