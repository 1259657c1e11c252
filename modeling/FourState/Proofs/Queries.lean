import FourState.Proofs.Copying
import FourState.Proofs.Display
import FourState.Proofs.StickyCoverage

/-!
# Word-level queries

The queries of a vector look at whole words: they ask whether a word is zero, and count the
bits that are set in it.  The display text and the toggle texts go through the positions one
by one.  Both views agree on a vector none of whose planes has a bit past the width, because
then the last word shows no more than the positions do.
-/

namespace FourState

/-! ## Words that are not zero -/

/-- Some slice has a word that is not zero exactly if some position has a set bit in it. -/
theorem Block.any_ne_zero_iff
    (block : Block)
    (wordOf : Slice 32 → Word)
    (clear : wordOf Slice.empty = 0) :
    block.any (fun slice => decide (wordOf slice ≠ 0)) = true ↔
      ∃ position, (wordOf (block.slice (position / 32))).getLsbD (position % 32) = true := by
  rw [Array.any_eq_true]
  constructor
  · rintro ⟨index, inBounds, nonzero⟩
    obtain ⟨offset, inWord, set⟩ := BitWord.ne_zero_iff.1 (of_decide_eq_true nonzero)
    have sameWord : (32 * index + offset) / 32 = index := by omega
    have sameOffset : (32 * index + offset) % 32 = offset := by omega
    refine ⟨32 * index + offset, ?_⟩
    rwa [sameWord, sameOffset, block.slice_of_lt inBounds]
  · rintro ⟨position, set⟩
    have nonzero := BitWord.ne_zero_iff.2 ⟨_, Nat.mod_lt position (by decide), set⟩
    by_cases inBounds : position / 32 < block.size
    · rw [block.slice_of_lt inBounds] at nonzero
      exact ⟨position / 32, inBounds, decide_eq_true nonzero⟩
    · rw [block.slice_of_size_le (Nat.not_lt.1 inBounds)] at nonzero
      exact absurd clear nonzero

namespace Bit

/-- The high plane shows the unknown bits. -/
theorem ofPlanes_true_iff (low high : Bool) :
    ofPlanes low high = x ∨ ofPlanes low high = z ↔ high = true := by
  cases low <;> cases high <;> simp [ofPlanes]

/-- The letter of an unknown bit is no decimal digit. -/
theorem toChar_notMem_decimal
    {bit : Bit}
    (unknown : bit.isKnown = false)
    (number : Nat) :
    bit.toChar ∉ Numeral.decimal number := by
  have differs : ∀ digit < 10, bit.toChar ≠ Nat.digitChar digit := by
    cases bit with
    | zero | one => contradiction
    | x | z => decide
  intro isMember
  obtain ⟨digit, small, isDigit⟩ := Numeral.exists_digit_of_mem (by decide) isMember
  exact differs digit small isDigit

end Bit

namespace LogicVector

variable {vector : LogicVector}

/-! ## Letters of the display text -/

/-- The letters of a vector are those of its bits. -/
theorem toChar_mem_digits_iff (bit : Bit) :
    bit.toChar ∈ vector.digits ↔ ∃ position, vector.bit? position = some bit := by
  rw [← List.mem_reverse, List.mem_iff_getElem?]
  simp only [getElem?_reverse_digits, Option.map_eq_some_iff, Bit.toChar_injective.eq_iff,
    exists_eq_right]

/-- The letter of an unknown bit stands in the display text exactly if some bit is the
unknown one. -/
theorem toChar_mem_display_iff
    {bit : Bit}
    (unknown : bit.isKnown = false) :
    bit.toChar ∈ vector.display ↔ ∃ position, vector.bit? position = some bit := by
  have noQuote : bit.toChar ≠ '\x27' := by cases bit <;> decide
  have noRadix : bit.toChar ≠ 'b' := by cases bit <;> decide
  rw [← toChar_mem_digits_iff, display, List.mem_append, List.mem_cons, List.mem_cons]
  simp only [bit.toChar_notMem_decimal unknown, noQuote, noRadix, false_or]

/-! ## Queries of the value -/

theorem WellFormed.bit_eq_ok_iff
    {clipped : Plane → Prop}
    (wellFormed : vector.WellFormed clipped)
    (position : Nat)
    (bit : Bit) :
    vector.bit position = .ok bit ↔ vector.bit? position = some bit :=
  ⟨bit?_of_bit, bit_of_bit? wellFormed⟩

/-- The high words are not all zero exactly if some bit is `x` or `z`. -/
theorem Readable.exists_isUnknown (readable : vector.Readable) :
    ∃ answer, vector.isUnknown = .ok answer ∧
      (answer = true ↔
        ∃ position, vector.bit? position = some Bit.x ∨ vector.bit? position = some Bit.z) := by
  obtain ⟨block, stored⟩ := exists_block readable.isAllocated
  have fits := readable.wellFormed.block_fits block stored
  have queries : vector.isUnknown =
      .ok (block.any fun slice => decide (slice.get Plane.valueHigh ≠ 0)) := by
    rw [isUnknown, stored]
    rfl
  refine ⟨_, queries, ?_⟩
  rw [Block.any_ne_zero_iff block (·.get Plane.valueHigh) (Slice.get_empty _)]
  refine exists_congr fun position => ?_
  rw [bit?_eq_some_iff stored, bit?_eq_some_iff stored, ← and_or_left, Block.value,
    Bit.ofPlanes_true_iff]
  exact (and_iff_right_of_imp fun set =>
    (fits.cell_fits position Plane.valueHigh set).2 rfl).symm

/-- The low words have a bit that the high words have not exactly if some bit is a known one. -/
theorem Readable.exists_isNotZero (readable : vector.Readable) :
    ∃ answer, vector.isNotZero = .ok answer ∧
      (answer = true ↔ ∃ position, vector.bit? position = some Bit.one) := by
  obtain ⟨block, stored⟩ := exists_block readable.isAllocated
  have fits := readable.wellFormed.block_fits block stored
  have queries : vector.isNotZero = .ok (block.any fun slice =>
      decide (slice.get Plane.valueLow &&& ~~~slice.get Plane.valueHigh ≠ 0)) := by
    rw [isNotZero, stored]
    rfl
  refine ⟨_, queries, ?_⟩
  rw [Block.any_ne_zero_iff block
    (fun slice => slice.get Plane.valueLow &&& ~~~slice.get Plane.valueHigh) (by simp)]
  refine exists_congr fun position => ?_
  rw [bit?_eq_some_iff stored, Block.value, Bit.ofPlanes_eq_one_iff, BitVec.getLsbD_and,
    BitVec.getLsbD_not, decide_eq_true (Nat.mod_lt position (by decide)), Bool.true_and,
    Bool.and_eq_true, Bool.not_eq_true']
  exact (and_iff_right_of_imp fun shows =>
    (fits.cell_fits position Plane.valueLow shows.1).2 rfl).symm

/-! ## Queries of the coverage -/

theorem EndsAtWidth.lt_width
    (ends : vector.EndsAtWidth)
    {position : Nat}
    {plane : Plane}
    (set : vector.cell position plane = true) :
    position < vector.width := by
  apply Classical.byContradiction
  intro outside
  rw [ends position (Nat.not_lt.1 outside)] at set
  contradiction

/-- The words of the set plane are not all zero exactly if some of its bits reads as set; a
kind without such a plane has no set bit. -/
theorem Readable.exists_isSet
    (readable : vector.Readable)
    (ends : vector.EndsAtWidth) :
    ∃ answer, vector.isSet = .ok answer ∧
      (answer = true ↔ ∃ plane, vector.kind.setPlane? = some plane ∧
        ∃ position, vector.planeBit plane position = .ok true) := by
  obtain ⟨block, stored⟩ := exists_block readable.isAllocated
  cases chosen : vector.kind.setPlane? with
  | none =>
      refine ⟨false, ?_, by simp⟩
      rw [isSet, chosen]
      rfl
  | some plane =>
      have queries : vector.isSet =
          .ok (block.any fun slice => decide (slice.get plane ≠ 0)) := by
        rw [isSet, chosen]
        simp only [stored]
        rfl
      refine ⟨_, queries, ?_⟩
      rw [Block.any_ne_zero_iff block (·.get plane) (Slice.get_empty _)]
      simp only [Option.some.injEq, exists_eq_left', readable.wellFormed.planeBit_eq_ok_true_iff]
      refine exists_congr fun position => ?_
      change block.cell position plane = true ↔ _
      rw [← cell_eq_block_cell stored]
      exact (and_iff_right_of_imp ends.lt_width).symm

/-- A count and a text of a plane that agree with its bits. -/
structure ShowsPlane
    (vector : LogicVector)
    (plane : Plane)
    (count : Nat)
    (digits : List Char) : Prop where
  /-- The text has as many ones as are counted. -/
  count_eq : digits.count '1' = count
  length_eq : digits.length = vector.width
  /-- Counted from the right end, the digits are the bits of the plane. -/
  digit_eq : ∀ position, position < vector.width → ∃ set,
    vector.planeBit plane position = .ok set ∧
    digits.reverse[position]? = some (if set then '1' else '0')

/-- A plane that ends at the width is counted and written alike. -/
theorem Readable.showsPlane
    (readable : vector.Readable)
    (ends : vector.EndsAtWidth)
    {block : Block}
    (stored : vector.block = .ok block)
    {plane : Plane}
    (live : plane.val < vector.kind.planeCount) :
    vector.ShowsPlane plane (block.countPlane plane)
      ((List.range vector.width).reverse.map fun index =>
        if block.bit plane index then '1' else '0') where
  count_eq := by
    have size := (readable.wellFormed.block_fits block stored).size_eq
    have clear : ∀ position, vector.width ≤ position → position < 32 * wordCount vector.width →
        block.bit plane position = false := by
      intro position outside _
      have unset : vector.cell position plane = false := congrFun (ends position outside) plane
      rwa [cell_eq_block_cell stored] at unset
    have isOne (set : Bool) : ((if set then '1' else '0') == '1') = set := by
      cases set <;> rfl
    rw [(Block.countPlane_eq_iff size plane).2 clear, List.count_eq_countP, List.countP_map,
      List.countP_reverse]
    simp only [Function.comp_def, isOne]
  length_eq := by simp
  digit_eq position inside := by
    have size := (readable.wellFormed.block_fits block stored).size_eq
    refine ⟨_, planeBit_eq_ok stored size live inside, ?_⟩
    rw [← List.map_reverse, List.reverse_reverse, List.getElem?_map,
      List.getElem?_range inside]
    rfl

/-- What the word-level queries of a vector answer, told by its bits. -/
structure AnswersByBits (vector : LogicVector) : Prop where
  isUnknown : ∃ answer, vector.isUnknown = .ok answer ∧
    (answer = true ↔ ∃ position, position < vector.width ∧
      (vector.bit position = .ok Bit.x ∨ vector.bit position = .ok Bit.z)) ∧
    (answer = true ↔ 'x' ∈ vector.display ∨ 'z' ∈ vector.display)
  isNotZero : ∃ answer, vector.isNotZero = .ok answer ∧
    (answer = true ↔ ∃ position, position < vector.width ∧ vector.bit position = .ok Bit.one)
  isSet : ∃ answer, vector.isSet = .ok answer ∧
    (answer = true ↔ ∃ plane, vector.kind.setPlane? = some plane ∧
      ∃ position, position < vector.width ∧ vector.planeBit plane position = .ok true)
  /-- The toggles of signals and memories are counted and written alike. -/
  toggles : vector.kind = Kind.signal ∨ vector.kind = Kind.memory → ∃ rises falls risen fallen,
    vector.toggleCount = .ok (rises, falls) ∧
    vector.toggleDigits Plane.toggle01 = .ok risen ∧
    vector.toggleDigits Plane.toggle10 = .ok fallen ∧
    vector.ShowsPlane Plane.toggle01 rises risen ∧
    vector.ShowsPlane Plane.toggle10 falls fallen
  noToggles : vector.kind = Kind.plain ∨ vector.kind = Kind.expression →
    vector.toggleCount = .ok (0, 0) ∧
    vector.toggleDigits Plane.toggle01 = .ok (List.replicate vector.width '0') ∧
    vector.toggleDigits Plane.toggle10 = .ok (List.replicate vector.width '0')

/-- The queries of a readable vector whose planes end at its width are told by its bits. -/
theorem Readable.answersByBits
    (readable : vector.Readable)
    (ends : vector.EndsAtWidth) :
    vector.AnswersByBits where
  isUnknown := by
    obtain ⟨answer, queries, shows⟩ := readable.exists_isUnknown
    refine ⟨answer, queries, shows.trans ?_, shows.trans ?_⟩
    · simp only [readable.wellFormed.bit_eq_ok_iff]
      refine exists_congr fun position => (and_iff_right_of_imp ?_).symm
      rintro (isX | isZ)
      · exact lt_width_of_bit? isX
      · exact lt_width_of_bit? isZ
    · rw [exists_or]
      exact or_congr (toChar_mem_display_iff rfl).symm (toChar_mem_display_iff rfl).symm
  isNotZero := by
    obtain ⟨answer, queries, shows⟩ := readable.exists_isNotZero
    refine ⟨answer, queries, shows.trans ?_⟩
    simp only [readable.wellFormed.bit_eq_ok_iff]
    exact exists_congr fun position => (and_iff_right_of_imp lt_width_of_bit?).symm
  isSet := by
    obtain ⟨answer, queries, shows⟩ := readable.exists_isSet ends
    refine ⟨answer, queries, shows.trans ?_⟩
    simp only [readable.wellFormed.planeBit_eq_ok_true_iff, and_self_left]
  toggles hasToggles := by
    obtain ⟨block, stored⟩ := exists_block readable.isAllocated
    have live : vector.kind.hasToggles = true ∧ 3 < vector.kind.planeCount := by
      rcases hasToggles with isKind | isKind <;> rw [isKind] <;> decide
    have counts : vector.toggleCount =
        .ok (block.countPlane Plane.toggle01, block.countPlane Plane.toggle10) := by
      rw [toggleCount, if_pos live.1, countPlanes_eq_sum stored, countPlanes_eq_sum stored]
      simp only [List.map_cons, List.map_nil, List.sum_cons, List.sum_nil, Nat.add_zero]
      rfl
    have writes (plane : Plane) : vector.toggleDigits plane =
        .ok ((List.range vector.width).reverse.map fun index =>
          if block.bit plane index then '1' else '0') := by
      rw [toggleDigits, if_pos live.1, stored]
      rfl
    exact ⟨_, _, _, _, counts, writes _, writes _,
      readable.showsPlane ends stored (Nat.lt_of_succ_lt live.2),
      readable.showsPlane ends stored live.2⟩
  noToggles hasNone := by
    have dead : vector.kind.hasToggles = false := by
      rcases hasNone with isKind | isKind <;> rw [isKind] <;> rfl
    simp only [toggleCount, toggleDigits, dead]
    exact ⟨rfl, rfl, rfl⟩

end LogicVector
end FourState
