import FourState.Operator.Reduction
import FourState.Proofs.Counting
import FourState.Proofs.Evaluation

/-!
# Folded buffers

The tests and folds that run over all words of a buffer, as statements about
its bits: whether one is unknown, a known zero or a known one, and the parity of
the ones.
-/

namespace FourState

/-! ## Exclusive or -/

/-- The exclusive or of the Booleans at the positions below a width. -/
def exclusiveOr (bits : Nat → Bool) : Nat → Bool
  | 0 => false
  | width + 1 => exclusiveOr bits width ^^ bits width

theorem exclusiveOr_congr
    {first second : Nat → Bool}
    {width : Nat}
    (same : ∀ position, position < width → first position = second position) :
    exclusiveOr first width = exclusiveOr second width := by
  induction width with
  | zero => rfl
  | succ width inductionHypothesis =>
      rw [exclusiveOr, exclusiveOr, same width (Nat.lt_succ_self width),
        inductionHypothesis fun position inside => same position (Nat.lt_succ_of_lt inside)]

/-- Inverting one Boolean inverts the exclusive or. -/
theorem exclusiveOr_flip
    (bits : Nat → Bool)
    {width chosen : Nat}
    (inside : chosen < width) :
    exclusiveOr (fun position => if position = chosen then !bits chosen else bits position) width =
      !exclusiveOr bits width := by
  induction width with
  | zero => contradiction
  | succ width inductionHypothesis =>
      rw [exclusiveOr, exclusiveOr]
      by_cases isLast : width = chosen
      · subst isLast
        have below : exclusiveOr
            (fun position => if position = width then !bits width else bits position) width =
              exclusiveOr bits width := by
          apply exclusiveOr_congr
          intro position isBelow
          rw [if_neg (Nat.ne_of_lt isBelow)]
        rw [below, if_pos rfl, Bool.xor_not]
      · have isBelow : chosen < width := by omega
        rw [inductionHypothesis isBelow, if_neg isLast, Bool.not_xor]

/-- A sum is odd if exactly one of the summands is. -/
theorem odd_add (first second : Nat) :
    ((first + second) % 2 == 1) = ((first % 2 == 1) ^^ (second % 2 == 1)) := by
  rw [Nat.add_mod]
  obtain firstCase | firstCase := Nat.mod_two_eq_zero_or_one first <;>
    obtain secondCase | secondCase := Nat.mod_two_eq_zero_or_one second <;>
    rw [firstCase, secondCase] <;>
    rfl

/-- The exclusive or says whether the number of set Booleans is odd. -/
theorem exclusiveOr_eq_countP (bits : Nat → Bool) (width : Nat) :
    exclusiveOr bits width = ((List.range width).countP bits % 2 == 1) := by
  induction width with
  | zero => rfl
  | succ width inductionHypothesis =>
      rw [exclusiveOr, inductionHypothesis, List.range_succ, List.countP_append,
        List.countP_singleton, odd_add]
      cases bits width <;> rfl

/-- Clear Booleans above a width add nothing to the exclusive or. -/
theorem exclusiveOr_of_clear
    {bits : Nat → Bool}
    {width wider : Nat}
    (le : width ≤ wider)
    (clear : ∀ position, width ≤ position → bits position = false) :
    exclusiveOr bits wider = exclusiveOr bits width := by
  rw [exclusiveOr_eq_countP, exclusiveOr_eq_countP,
    (countP_range_eq_iff le bits).2 fun position above _ => clear position above]

/-- Adding up the parities of words is the exclusive or of all their bits. -/
theorem foldl_countOnes (words : Nat → Word) (bits : Nat → Bool)
    (agree : ∀ index offset, offset < 32 →
      bits (32 * index + offset) = (words index).getLsbD offset)
    (count : Nat) :
    (List.range count).foldl
        (fun odd index => odd ^^ (BitWord.countOnes (words index) % 2 == 1)) false =
      exclusiveOr bits (32 * count) := by
  rw [exclusiveOr_eq_countP]
  induction count with
  | zero => rfl
  | succ count inductionHypothesis =>
      have inLast : (List.range 32).countP (fun offset => bits (32 * count + offset)) =
          BitWord.countOnes (words count) := by
        apply List.countP_congr
        intro offset inWord
        rw [agree count offset (List.mem_range.1 inWord)]
      rw [List.range_succ, List.foldl_append, List.foldl_cons, List.foldl_nil,
        inductionHypothesis, Nat.mul_succ, List.range_add, List.countP_append, List.countP_map]
      simp only [Function.comp_def, inLast, odd_add]

theorem Words.toList_eq_map_word (words : Array Word) :
    words.toList = (List.range words.size).map (word words) := by
  apply List.ext_getElem (by simp)
  intro index inList inRange
  rw [Array.length_toList] at inList
  simp [word_of_lt _ inList]

namespace Buffer

/-! ## Tests of buffers -/

/-- A canonical buffer has an unknown bit exactly when its high plane is not zero. -/
theorem hasUnknown_eq_true_iff
    {buffer : Buffer}
    (canonical : buffer.Canonical) :
    buffer.hasUnknown = true ↔
      ∃ position, position < buffer.width ∧ (buffer.bit position).high = true := by
  rw [hasUnknown, Words.anyBit_eq_true_iff]
  constructor
  · rintro ⟨position, set⟩
    refine ⟨position, ?_, by rwa [← canonical.high_eq]⟩
    apply Classical.byContradiction
    intro outside
    rw [canonical.high_outside position (Nat.not_lt.1 outside)] at set
    contradiction
  · rintro ⟨position, -, unknown⟩
    exact ⟨position, by rwa [canonical.high_eq]⟩

/-- The high plane of a known buffer is clear. -/
theorem high_of_known
    {buffer : Buffer}
    (known : buffer.hasUnknown = false)
    (position : Nat) :
    Words.bit buffer.high position = false := by
  rw [Bool.eq_false_iff]
  intro set
  rw [hasUnknown, (Words.anyBit_eq_true_iff _).2 ⟨position, set⟩] at known
  contradiction

/-- The words of known zeros show every bit that is a known zero. -/
theorem anyZero_eq_true_iff
    {buffer : Buffer}
    (canonical : buffer.Canonical) :
    buffer.anyZero = true ↔
      ∃ position, position < buffer.width ∧ buffer.bit position = Bit.zero := by
  have found_iff : ∀ position, buffer.bit? position = some Bit.zero ↔
      position < buffer.width ∧ buffer.bit position = Bit.zero := by
    intro position
    unfold bit?
    split <;> simp [*]
  simp only [anyZero, List.any_eq_true, List.mem_range, decide_eq_true_eq, BitWord.ne_zero_iff,
    ← found_iff]
  constructor
  · rintro ⟨index, -, offset, inWord, set⟩
    rw [getLsbD_knownZeros _ _ inWord, decide_eq_true_eq] at set
    exact ⟨_, set⟩
  · rintro ⟨position, found⟩
    have inside := ((found_iff position).1 found).1
    have inWord : position % 32 < 32 := Nat.mod_lt _ (by decide)
    have joined : 32 * (position / 32) + position % 32 = position := Nat.div_add_mod position 32
    refine ⟨position / 32, ?_, position % 32, inWord, ?_⟩
    · rw [canonical.size_low]
      exact div_lt_wordCount inside
    · rw [getLsbD_knownZeros _ _ inWord, joined, found]
      rfl

theorem getElem_zip_planes
    (buffer : Buffer)
    {index : Nat}
    (inZip : index < (buffer.low.zip buffer.high).size) :
    (buffer.low.zip buffer.high)[index] = buffer.word index := by
  have inPlanes := inZip
  rw [Array.size_zip, Nat.lt_min] at inPlanes
  rw [Array.getElem_zip, word, Words.word_of_lt _ inPlanes.1, Words.word_of_lt _ inPlanes.2]

/-- A bit is a known one exactly where the low plane is set and the high one is not. -/
theorem anyOne_eq_true_iff
    {buffer : Buffer}
    (canonical : buffer.Canonical) :
    buffer.anyOne = true ↔
      ∃ position, position < buffer.width ∧ buffer.bit position = Bit.one := by
  have found_iff : ∀ index offset, offset < 32 →
      (((buffer.word index).1 &&& ~~~(buffer.word index).2).getLsbD offset = true ↔
        buffer.bit (32 * index + offset) = Bit.one) := by
    intro index offset inWord
    rw [← Bit.ofPlanes_low_high (buffer.bit _), Bit.ofPlanes_eq_one_iff, ← canonical.low_eq,
      ← canonical.high_eq]
    simp only [word, BitVec.getLsbD_and, BitVec.getLsbD_not, Words.getLsbD_word _ _ inWord,
      inWord, decide_true, Bool.true_and, Bool.and_eq_true, Bool.not_eq_true']
  rw [anyOne, Array.any_eq_true]
  constructor
  · rintro ⟨index, inZip, differs⟩
    rw [getElem_zip_planes _ inZip, decide_eq_true_eq] at differs
    obtain ⟨offset, inWord, set⟩ := BitWord.ne_zero_iff.1 differs
    have found := (found_iff index offset inWord).1 set
    refine ⟨_, ?_, found⟩
    apply Classical.byContradiction
    intro outside
    rw [bit_of_width_le _ (Nat.not_lt.1 outside)] at found
    contradiction
  · rintro ⟨position, inside, found⟩
    have inWord : position % 32 < 32 := Nat.mod_lt _ (by decide)
    have joined : 32 * (position / 32) + position % 32 = position := Nat.div_add_mod position 32
    have inZip : position / 32 < (buffer.low.zip buffer.high).size := by
      rw [Array.size_zip, canonical.size_low, canonical.size_high, Nat.min_self]
      exact div_lt_wordCount inside
    refine ⟨position / 32, inZip, ?_⟩
    rw [getElem_zip_planes _ inZip, decide_eq_true_eq]
    exact BitWord.ne_zero_iff.2 ⟨_, inWord, (found_iff _ _ inWord).2 (by rwa [joined])⟩

/-- The parity over the words of the low plane is the parity over its bits. -/
theorem oddOnes_eq_exclusiveOr
    {buffer : Buffer}
    (canonical : buffer.Canonical) :
    buffer.oddOnes = exclusiveOr (fun position => (buffer.bit position).low) buffer.width := by
  rw [oddOnes, ← Array.foldl_toList, Words.toList_eq_map_word, List.foldl_map, canonical.size_low,
    foldl_countOnes (Words.word buffer.low) fun position => (buffer.bit position).low]
  · apply exclusiveOr_of_clear (le_wordCount _)
    intro position outside
    rw [bit_of_width_le _ outside]
    rfl
  · intro index offset inWord
    rw [Words.getLsbD_word _ _ inWord, canonical.low_eq]

end Buffer
end FourState
