import FourState.Proofs.LiteralForm

/-!
# Rendered literals

A vector that is written in binary, octal or hexadecimal is read back from the
text, with its width and signedness, if the bits of each digit are all known,
all `x` or all `z`.  Its bits come back as well unless an unknown digit follows
dropped zeros only: it is then taken to extend to the top.
-/

namespace FourState

/-! ## The digits of a buffer -/

namespace Buffer

variable {value : Buffer} {radix : DigitRadix}

/-- The bits that the digit with an index stands for. -/
def digitGroup (value : Buffer) (radix : DigitRadix) (index : Nat) : List Bit :=
  value.group (index * radix.bits) radix.bits

theorem getElem?_digitGroup (value : Buffer) (radix : DigitRadix) (index offset : Nat) :
    (value.digitGroup radix index)[offset]? =
      if offset < radix.bits ∧ index * radix.bits + offset < value.width then
        some (value.bit (index * radix.bits + offset))
      else none := by
  have inGroup : offset < min radix.bits (value.width - index * radix.bits) ↔
      offset < radix.bits ∧ index * radix.bits + offset < value.width := by omega
  by_cases inside : offset < radix.bits ∧ index * radix.bits + offset < value.width
  · rw [if_pos inside, digitGroup, group, List.getElem?_map,
      List.getElem?_range (inGroup.2 inside)]
    rfl
  · rw [if_neg inside, List.getElem?_eq_none_iff, digitGroup, group, List.length_map,
      List.length_range]
    exact Nat.not_lt.1 fun below => inside (inGroup.1 below)

theorem length_digitGroup_le (value : Buffer) (radix : DigitRadix) (index : Nat) :
    (value.digitGroup radix index).length ≤ radix.bits := by
  rw [digitGroup, group, List.length_map, List.length_range]
  exact Nat.min_le_left _ _

/-- Every bit of the value belongs to the digit whose index its position gives. -/
theorem getElem?_digitGroup_div
    (radix : DigitRadix)
    {position : Nat}
    (inside : position < value.width) :
    (value.digitGroup radix (position / radix.bits))[position % radix.bits]? =
      some (value.bit position) := by
  have joined := Nat.div_add_mod' position radix.bits
  rw [getElem?_digitGroup, joined, if_pos ⟨Nat.mod_lt _ radix.bits_pos, inside⟩]

theorem mem_digitGroup_iff (index : Nat) (bit : Bit) :
    bit ∈ value.digitGroup radix index ↔
      ∃ position, position < value.width ∧ position / radix.bits = index ∧
        value.bit position = bit := by
  constructor
  · intro isMember
    obtain ⟨offset, shown⟩ := List.mem_iff_getElem?.1 isMember
    rw [getElem?_digitGroup] at shown
    split at shown
    · rename_i inside
      cases shown
      refine ⟨_, inside.2, ?_, rfl⟩
      rw [Nat.add_comm, Nat.add_mul_div_right _ _ radix.bits_pos, Nat.div_eq_of_lt inside.1,
        Nat.zero_add]
    · contradiction
  · rintro ⟨position, inside, rfl, rfl⟩
    exact List.mem_of_getElem? (getElem?_digitGroup_div radix inside)

/-- The digits that are written, from the highest one that is not a dropped zero. -/
theorem exists_renderDigits_eq
    (positive : 0 < value.width)
    (uniform : ∀ index, Bit.Uniform (value.digitGroup radix index)) :
    ∃ top, top * radix.bits < value.width ∧
      value.renderDigits radix =
        (List.range (top + 1)).reverse.map (fun index =>
          Bit.groupDigit (value.digitGroup radix index)) ∧
      (∀ position, position < value.width → top < position / radix.bits →
        value.bit position = Bit.zero) ∧
      (top = 0 ∨ ∃ position, position < value.width ∧ position / radix.bits = top ∧
        value.bit position ≠ Bit.zero) := by
  have bitsPositive := radix.bits_pos
  have digitCount : wordsFor radix.bits value.width = (value.width - 1) / radix.bits + 1 := by
    have shifted : value.width + radix.bits - 1 = value.width - 1 + radix.bits := by omega
    rw [wordsFor, shifted, Nat.add_div_right _ bitsPositive]
  -- A digit below the width is a zero digit exactly when its bits are zeros.
  have zeroDigit (index : Nat) (inside : index * radix.bits < value.width) :
      Bit.groupDigit (value.digitGroup radix index) = '0' ↔
        ∀ bit ∈ value.digitGroup radix index, bit = Bit.zero := by
    apply Bit.groupDigit_eq_zero_iff _ _ (uniform index)
    · have isFirst : value.bit (index * radix.bits) ∈ value.digitGroup radix index :=
        (mem_digitGroup_iff _ _).2 ⟨_, inside, Nat.mul_div_cancel _ bitsPositive, rfl⟩
      exact List.ne_nil_of_mem isFirst
    · exact Nat.le_trans (length_digitGroup_le value radix index) radix.bits_le
  obtain ⟨top, below, strips, zeros, notZero⟩ := exists_stripZeros_eq
    (fun index => Bit.groupDigit (value.digitGroup radix index)) ((value.width - 1) / radix.bits)
  have topInside : top * radix.bits < value.width := by
    have := Nat.mul_le_of_le_div _ _ _ below
    omega
  refine ⟨top, topInside, ?_, ?_, ?_⟩
  · rw [renderDigits, digitCount, ← strips]
    rfl
  · intro position inside above
    have indexInside : position / radix.bits * radix.bits < value.width :=
      Nat.lt_of_le_of_lt (Nat.div_mul_le_self _ _) inside
    have notAbove : position / radix.bits ≤ (value.width - 1) / radix.bits :=
      Nat.div_le_div_right (Nat.le_sub_one_of_lt inside)
    exact (zeroDigit _ indexInside).1 (zeros _ above notAbove) _
      ((mem_digitGroup_iff _ _).2 ⟨position, inside, rfl, rfl⟩)
  · obtain isLowest | differs := notZero
    · exact Or.inl isLowest
    · right
      rw [ne_eq, zeroDigit top topInside] at differs
      obtain ⟨bit, isMember, notZeroBit⟩ : ∃ bit ∈ value.digitGroup radix top, bit ≠ Bit.zero := by
        simpa using differs
      obtain ⟨position, inside, isTop, rfl⟩ := (mem_digitGroup_iff _ _).1 isMember
      exact ⟨position, inside, isTop, notZeroBit⟩

/-! ## Reading the digits -/

/-- A digit below the width is read as bits that begin with its group. -/
theorem exists_digitBits?_digitGroup
    (uniform : ∀ index, Bit.Uniform (value.digitGroup radix index))
    {index : Nat}
    (inside : index * radix.bits < value.width) :
    ∃ read, Literal.digitBits? radix.bits (Bit.groupDigit (value.digitGroup radix index)) =
        some read ∧ read.length = radix.bits ∧ value.digitGroup radix index <+: read := by
  have isFirst : value.bit (index * radix.bits) ∈ value.digitGroup radix index :=
    (mem_digitGroup_iff _ _).2 ⟨_, inside, Nat.mul_div_cancel _ radix.bits_pos, rfl⟩
  exact Bit.exists_digitBits?_groupDigit (List.ne_nil_of_mem isFirst)
    (length_digitGroup_le value radix index) radix.bits_le (uniform index)

/-- Above its first digit a text stands for the extension of that digit. -/
theorem extension_digitGroups
    (uniform : ∀ index, Bit.Uniform (value.digitGroup radix index))
    {top : Nat}
    (inside : top * radix.bits < value.width) :
    Literal.extension ((List.range (top + 1)).reverse.map fun index =>
        Bit.groupDigit (value.digitGroup radix index)) =
      (value.bit (top * radix.bits)).extension := by
  have isFirst : value.bit (top * radix.bits) ∈ value.digitGroup radix top :=
    (mem_digitGroup_iff _ _).2 ⟨_, inside, Nat.mul_div_cancel _ radix.bits_pos, rfl⟩
  have short := Nat.le_trans (length_digitGroup_le value radix top) radix.bits_le
  rw [List.range_succ, List.reverse_append, List.reverse_singleton, List.map_append,
    List.map_singleton, Literal.extension, List.singleton_append, List.head?_cons,
    Option.bind_some, Bit.unknownDigit?_groupDigit isFirst short (uniform top)]
  cases value.bit (top * radix.bits) <;> rfl

/-- The digits of a value are read back as its bits, and above them as the
extension of the first digit. -/
theorem exists_ofDigits_eq
    (uniform : ∀ index, Bit.Uniform (value.digitGroup radix index))
    {top : Nat}
    (topInside : top * radix.bits < value.width) :
    ∃ read,
      Literal.ofDigits value.width radix ((List.range (top + 1)).reverse.map fun index =>
        Bit.groupDigit (value.digitGroup radix index)) = .ok read ∧
      read.width = value.width ∧ read.Canonical ∧
      ∀ position, position < value.width → read.bit position =
        if position / radix.bits ≤ top then value.bit position
        else (value.bit (top * radix.bits)).extension := by
  have readsBack (index : Nat) (below : index ≤ top) :=
    exists_digitBits?_digitGroup uniform
      (Nat.lt_of_le_of_lt (Nat.mul_le_mul_right radix.bits below) topInside)
  have continues := extension_digitGroups uniform topInside
  generalize listed : ((List.range (top + 1)).reverse.map fun index =>
    Bit.groupDigit (value.digitGroup radix index)) = digits at continues ⊢
  have good : ∀ digit ∈ digits, ∃ read, Literal.digitBits? radix.bits digit = some read := by
    intro digit isMember
    rw [← listed, List.mem_map] at isMember
    obtain ⟨index, inRange, rfl⟩ := isMember
    rw [List.mem_reverse, List.mem_range, Nat.lt_succ_iff] at inRange
    obtain ⟨read, reads, -⟩ := readsBack index inRange
    exact ⟨read, reads⟩
  have sameLength : ∀ list ∈ digits.reverse.map (Literal.goodBits radix.bits),
      list.length = radix.bits := by
    rw [← listed, ← List.map_reverse, List.reverse_reverse, List.map_map]
    intro list isMember
    obtain ⟨index, inRange, rfl⟩ := List.mem_map.1 isMember
    rw [List.mem_range, Nat.lt_succ_iff] at inRange
    obtain ⟨read, reads, isLength, -⟩ := readsBack index inRange
    rw [Function.comp_apply, Literal.goodBits, reads]
    exact isLength
  refine ⟨_, Literal.ofDigits_eq value.width good, Buffer.width_ofBits _ _,
    canonical_ofBits _ _, ?_⟩
  intro position inWidth
  rw [bit_ofBits, if_pos inWidth, getElem?_flatten_of_length _ sameLength radix.bits_pos, continues,
    ← listed, ← List.map_reverse, List.reverse_reverse, List.map_map, List.getElem?_map]
  by_cases below : position / radix.bits ≤ top
  · obtain ⟨_, reads, -, rest, rfl⟩ := readsBack _ below
    have shown := getElem?_digitGroup_div radix inWidth
    have inGroup := (List.getElem?_eq_some_iff.1 shown).1
    rw [if_pos below, List.getElem?_range (Nat.lt_succ_of_le below), Option.map_some,
      Option.bind_some, Function.comp_apply, Literal.goodBits, reads, Option.getD_some,
      List.getElem?_append_left inGroup, shown]
    rfl
  · have above : (List.range (top + 1)).length ≤ position / radix.bits := by
      rw [List.length_range]
      exact Nat.not_le.1 below
    rw [if_neg below, List.getElem?_eq_none above]
    rfl

/-- A digit with an unknown bit is the topmost one of the width, or a higher one
is not zero. -/
def LeadsPlainly (value : Buffer) (radix : DigitRadix) : Prop :=
  ∀ position, position < value.width → (value.bit position).isKnown = false →
    value.width ≤ (position / radix.bits + 1) * radix.bits ∨
      ∃ higher, higher < value.width ∧ position / radix.bits < higher / radix.bits ∧
        value.bit higher ≠ Bit.zero

/-- What is read is the value exactly when no unknown digit comes to lead by
dropped zeros. -/
theorem extended_eq_iff_leadsPlainly
    (uniform : ∀ index, Bit.Uniform (value.digitGroup radix index))
    {top : Nat}
    (topInside : top * radix.bits < value.width)
    (zeros : ∀ position, position < value.width → top < position / radix.bits →
      value.bit position = Bit.zero)
    (notZero : top = 0 ∨ ∃ position, position < value.width ∧ position / radix.bits = top ∧
      value.bit position ≠ Bit.zero) :
    (∀ position, position < value.width →
      (if position / radix.bits ≤ top then value.bit position
        else (value.bit (top * radix.bits)).extension) = value.bit position) ↔
      value.LeadsPlainly radix := by
  have bitsPositive := radix.bits_pos
  have topIndex : top * radix.bits / radix.bits = top := Nat.mul_div_cancel _ bitsPositive
  -- The bits of the first digit are known if its lowest one is.
  have alike {position : Nat} (inside : position < value.width)
      (isTop : position / radix.bits = top)
      (known : (value.bit (top * radix.bits)).isKnown = true) :
      (value.bit position).isKnown = true := by
    have isFirst := (mem_digitGroup_iff top _).2 ⟨_, topInside, topIndex, rfl⟩
    have isMember := (mem_digitGroup_iff top _).2 ⟨_, inside, isTop, rfl⟩
    obtain allKnown | allX | allZ := uniform top
    · exact allKnown _ isMember
    · rw [allX _ isFirst] at known
      contradiction
    · rw [allZ _ isFirst] at known
      contradiction
  constructor
  · intro same position inside unknown
    obtain above | isTop | below := Nat.lt_trichotomy top (position / radix.bits)
    · rw [zeros position inside above] at unknown
      contradiction
    · -- An unknown first digit leaves no position above it.
      left
      apply Nat.le_of_not_lt
      intro room
      rw [← isTop] at room
      have nextIndex : (top + 1) * radix.bits / radix.bits = top + 1 :=
        Nat.mul_div_cancel _ bitsPositive
      have next := same _ room
      rw [nextIndex, if_neg (Nat.not_succ_le_self top),
        zeros _ room (by rw [nextIndex]; exact Nat.lt_succ_self top),
        Bit.extension_eq_zero_iff] at next
      rw [alike inside isTop.symm next] at unknown
      contradiction
    · right
      obtain isLowest | ⟨higher, higherInside, isTop, differs⟩ := notZero
      · rw [isLowest] at below
        contradiction
      · exact ⟨higher, higherInside, by rwa [isTop], differs⟩
  · intro leads position inside
    by_cases below : position / radix.bits ≤ top
    · rw [if_pos below]
    · have above : top < position / radix.bits := Nat.not_le.1 below
      rw [if_neg below, zeros position inside above]
      cases known : (value.bit (top * radix.bits)).isKnown with
      | true => exact (Bit.extension_eq_zero_iff _).2 known
      | false =>
          obtain isTopmost | ⟨higher, higherInside, isHigher, differs⟩ :=
            leads _ topInside known
          · rw [topIndex] at isTopmost
            have reached := Nat.le_trans (Nat.mul_le_mul_right radix.bits above)
              (Nat.div_mul_le_self position radix.bits)
            exact absurd (Nat.lt_of_lt_of_le inside isTopmost) (Nat.not_lt.2 reached)
          · rw [topIndex] at isHigher
            exact absurd (zeros higher higherInside isHigher) differs

section

variable
  (positive : 0 < value.width)
  (uniform : ∀ index, Bit.Uniform (value.digitGroup radix index))

include positive uniform

/-- There are digits, and none of them is a blank or an underscore. -/
theorem renderDigits_plain :
    value.renderDigits radix ≠ [] ∧
      ∀ char ∈ value.renderDigits radix, Text.isBlank char = false ∧ char ≠ '_' := by
  obtain ⟨top, -, renders, -⟩ := value.exists_renderDigits_eq positive uniform
  rw [renders]
  refine ⟨by simp, ?_⟩
  intro char isMember
  obtain ⟨index, -, rfl⟩ := List.mem_map.1 isMember
  exact Bit.groupDigit_plain
    (Nat.le_trans (value.length_digitGroup_le radix index) radix.bits_le)

/-- The written digits are read back as the value exactly when no unknown digit comes to
lead by dropped zeros. -/
theorem exists_ofDigits_renderDigits :
    ∃ read, Literal.ofDigits value.width radix (value.renderDigits radix) = .ok read ∧
      read.width = value.width ∧ read.Canonical ∧
      ((∀ position, position < value.width → read.bit position = value.bit position) ↔
        value.LeadsPlainly radix) := by
  obtain ⟨top, topInside, renders, zeros, notZero⟩ :=
    value.exists_renderDigits_eq positive uniform
  obtain ⟨read, reads, sameWidth, canonical, bits⟩ := value.exists_ofDigits_eq uniform topInside
  rw [← renders] at reads
  refine ⟨read, reads, sameWidth, canonical, ?_⟩
  rw [← value.extended_eq_iff_leadsPlainly uniform topInside zeros notZero]
  exact forall₂_congr fun position inside => by rw [bits position inside]

end

end Buffer

/-! ## Reading the text -/

namespace Literal

theorem radixLetter_letter (radix : DigitRadix) : RadixLetter radix.letter (.digits radix) := by
  cases radix <;> constructor

/-- The text of a sized literal. -/
def sizedText (width : Nat) (signed : Bool) (radix : DigitRadix) (digits : List Char) :
    List Char :=
  Numeral.decimal width ++ '\x27' :: (if signed then ['s'] else []) ++ radix.letter :: digits

/-- The text of a sized literal says what it was made of. -/
theorem says_sizedText
    {width : Nat}
    (inLimits : width ≤ maxWidth)
    (signed : Bool)
    {radix : DigitRadix}
    {digits : List Char}
    (notEmpty : digits ≠ [])
    (plain : ∀ char ∈ digits, Text.isBlank char = false ∧ char ≠ '_') :
    Says (sizedText width signed radix digits) width signed (.digits radix) digits := by
  have signMark : SignMark (if signed then ['s'] else []) signed := by
    cases signed <;> constructor
  have parts : sizedText width signed radix digits = Numeral.decimal width ++ '\x27' ::
      ((if signed then ['s'] else []) ++ radix.letter :: digits) := by
    rw [sizedText, List.append_assoc, List.cons_append]
  rw [parts]
  exact says_of_parts inLimits signMark (radixLetter_letter radix) notEmpty plain

/-- A sized literal is read as what its digits stand for. -/
theorem read_sizedText
    {width : Nat}
    (inLimits : 0 < width ∧ width ≤ maxWidth)
    (signed : Bool)
    {radix : DigitRadix}
    {digits : List Char}
    (notEmpty : digits ≠ [])
    (plain : ∀ char ∈ digits, Text.isBlank char = false ∧ char ≠ '_')
    {value : Buffer}
    (reads : ofDigits width radix digits = .ok value) :
    read (sizedText width signed radix digits) =
      .ok { radix := .digits radix, signed, value } := by
  rw [read_of_form (says_sizedText inLimits.2 signed notEmpty plain) inLimits, ofRadix, reads]
  rfl

/-- The vector of a literal has the width, the signedness and the bits it says. -/
theorem exists_toVector_eq
    (literal : Literal)
    (inLimits : 0 < literal.value.width ∧ literal.value.width ≤ maxWidth)
    (canonical : literal.value.Canonical) :
    ∃ vector, literal.toVector = .ok vector ∧ vector.width = literal.value.width ∧
      vector.signed = literal.signed ∧
      ∀ position, position < literal.value.width →
        vector.bit position = .ok (literal.value.bit position) := by
  obtain ⟨vector, converts, isPlain, shows⟩ := exists_plainVector literal inLimits canonical
  exact ⟨vector, converts, isPlain.width_eq, congrArg Header.signed isPlain.header_eq,
    fun position inside =>
      LogicVector.bit_of_bit? isPlain.readable.wellFormed (shows position inside)⟩

end Literal

/-! ## Written and read vectors -/

namespace LogicVector

/-- Two bits that one digit stands for are both known, or both `x`, or both `z`. -/
def UniformDigits (vector : LogicVector) (radix : DigitRadix) : Prop :=
  ∀ first second firstBit secondBit, first / radix.bits = second / radix.bits →
    vector.bit first = .ok firstBit → vector.bit second = .ok secondBit →
    (firstBit.isKnown = true ∧ secondBit.isKnown = true) ∨ firstBit = secondBit

/-- An unknown bit is in the topmost digit of the width, or a bit of a higher digit
is no known zero: no unknown digit comes to lead because zeros are dropped. -/
def LeadsPlainly (vector : LogicVector) (radix : DigitRadix) : Prop :=
  ∀ position bit, vector.bit position = .ok bit → bit.isKnown = false →
    vector.width ≤ (position / radix.bits + 1) * radix.bits ∨
      ∃ higher higherBit, position / radix.bits < higher / radix.bits ∧
        vector.bit higher = .ok higherBit ∧ higherBit ≠ Bit.zero

section

variable {vector : LogicVector} {value : Buffer} {radix : DigitRadix}

/-- The digits of a value are uniform if those of its vector are. -/
theorem UniformDigits.digitGroup
    (uniform : radix = .binary ∨ vector.UniformDigits radix)
    (wide : value.width = vector.width)
    (shows : ∀ position, position < vector.width → vector.bit position = .ok (value.bit position))
    (index : Nat) :
    Bit.Uniform (value.digitGroup radix index) := by
  have pairs : ∀ first ∈ value.digitGroup radix index, ∀ second ∈ value.digitGroup radix index,
      (first.isKnown = true ∧ second.isKnown = true) ∨ first = second := by
    intro first isFirst second isSecond
    obtain ⟨firstPosition, firstInside, firstIndex, rfl⟩ :=
      (Buffer.mem_digitGroup_iff _ _).1 isFirst
    obtain ⟨secondPosition, secondInside, secondIndex, rfl⟩ :=
      (Buffer.mem_digitGroup_iff _ _).1 isSecond
    obtain rfl | uniform := uniform
    · have same : firstPosition = secondPosition := by
        simpa [DigitRadix.bits] using firstIndex.trans secondIndex.symm
      exact Or.inr (by rw [same])
    · exact uniform _ _ _ _ (firstIndex.trans secondIndex.symm)
        (shows _ (by rwa [← wide])) (shows _ (by rwa [← wide]))
  cases bits : value.digitGroup radix index with
  | nil => exact Or.inl (by simp)
  | cons first rest =>
      rw [bits] at pairs
      have isFirst : first ∈ first :: rest := List.mem_cons_self ..
      cases known : first.isKnown with
      | true =>
          left
          intro other isOther
          obtain ⟨-, otherKnown⟩ | same := pairs first isFirst other isOther
          · exact otherKnown
          · rw [← same, known]
      | false =>
          have alike : ∀ other ∈ first :: rest, other = first := by
            intro other isOther
            obtain ⟨firstKnown, -⟩ | same := pairs first isFirst other isOther
            · rw [known] at firstKnown
              contradiction
            · exact same.symm
          cases first with
          | zero | one => contradiction
          | x => exact Or.inr (Or.inl alike)
          | z => exact Or.inr (Or.inr alike)

/-- What is said of the bits of a vector is said of its value. -/
theorem leadsPlainly_iff
    (wide : value.width = vector.width)
    (shows : ∀ position, position < vector.width →
      vector.bit position = .ok (value.bit position)) :
    value.LeadsPlainly radix ↔ vector.LeadsPlainly radix := by
  have inside {position : Nat} {bit : Bit} (reads : vector.bit position = .ok bit) :
      position < value.width ∧ value.bit position = bit := by
    have isInside : position < vector.width := by
      obtain ⟨⟨⟩, isInside, -⟩ := bind_eq_ok_iff.1 reads
      exact require_eq_ok_iff.1 isInside
    rw [shows position isInside] at reads
    cases reads
    exact ⟨by rwa [wide], rfl⟩
  constructor
  · intro leads position bit reads unknown
    obtain ⟨isInside, rfl⟩ := inside reads
    obtain isTopmost | ⟨higher, higherInside, isHigher, differs⟩ := leads position isInside unknown
    · exact Or.inl (by rwa [← wide])
    · exact Or.inr ⟨higher, _, isHigher, shows higher (by rwa [← wide]), differs⟩
  · intro leads position isInside unknown
    obtain isTopmost | ⟨higher, higherBit, isHigher, reads, differs⟩ :=
      leads position _ (shows position (by rwa [← wide])) unknown
    · exact Or.inl (by rwa [wide])
    · obtain ⟨higherInside, rfl⟩ := inside reads
      exact Or.inr ⟨higher, higherInside, isHigher, differs⟩

end

/-- A vector written in binary, octal or hexadecimal, with digits that each stand
for known bits, for `x` or for `z` only, is read back from the text as a literal
of that radix, with its width and signedness.  It is read back with its bits
exactly when no unknown digit comes to lead because zeros in front are dropped. -/
theorem ofLiteral_render
    {vector : LogicVector}
    (readable : vector.Readable)
    {radix : DigitRadix}
    (uniform : radix = .binary ∨ vector.UniformDigits radix) :
    ∃ text read,
      vector.render (.digits radix) = .ok text ∧
      ofLiteral text = .ok (read, .digits radix) ∧
      read.width = vector.width ∧ read.signed = vector.signed ∧
      ((∀ position, position < vector.width → read.bit position = vector.bit position) ↔
        vector.LeadsPlainly radix) := by
  obtain ⟨block, stored⟩ := exists_block readable.isAllocated
  obtain ⟨value, ofVector, -, wide, signed, shownBits⟩ :=
    readable.wellFormed.ofVector (fun _ => id) stored
  have shows : ∀ position, position < vector.width →
      vector.bit position = .ok (value.bit position) := by
    intro position inside
    rw [shownBits]
    exact bit_eq_ok readable.wellFormed stored inside
  have inLimits : 0 < value.width ∧ value.width ≤ maxWidth := by
    rw [wide]
    exact ⟨readable.wellFormed.width_pos, readable.wellFormed.width_le⟩
  have groups := UniformDigits.digitGroup uniform wide shows
  obtain ⟨notEmpty, plain⟩ := Buffer.renderDigits_plain inLimits.1 groups
  obtain ⟨digitValue, reads, digitWide, canonical, sameBits⟩ :=
    Buffer.exists_ofDigits_renderDigits inLimits.1 groups
  have renderVector : vector.render (.digits radix) = .ok
      (Literal.sizedText value.width value.signed radix (value.renderDigits radix)) := by
    rw [render, ofVector, wide, signed]
    rfl
  have readsText := Literal.read_sizedText inLimits value.signed notEmpty plain reads
  obtain ⟨read, converts, readWide, readSigned, readBits⟩ :=
    Literal.exists_toVector_eq ⟨.digits radix, value.signed, digitValue⟩
      (by rw [digitWide]; exact inLimits) canonical
  refine ⟨_, read, renderVector, ?_, readWide.trans (digitWide.trans wide),
    readSigned.trans signed, ?_⟩
  · exact bind_eq_ok_iff.2 ⟨_, liftM_literalError_eq_ok_iff.2 readsText,
      bind_eq_ok_iff.2 ⟨read, liftM_fault_eq_ok_iff.2 converts, rfl⟩⟩
  · rw [← leadsPlainly_iff wide shows, ← sameBits, wide]
    refine forall₂_congr fun position inside => ?_
    rw [readBits position (by rwa [digitWide, wide]), shows position inside, Except.ok.injEq]

/-- Nine unknown bits are written as three hexadecimal digits, the topmost one for
a single bit, and read back. -/
theorem ofLiteral_render_nineUnknown :
    ∃ vector text read,
      create 9 .signal true = .ok vector ∧
      vector.render (.digits .hexadecimal) = .ok text ∧
      ofLiteral text = .ok (read, .digits .hexadecimal) ∧
      ∀ position, position < 9 → read.bit position = .ok Bit.x := by
  obtain ⟨vector, creates⟩ : ∃ vector, create 9 .signal true = .ok vector := ⟨_, rfl⟩
  have readable := create_readable creates
  have wide : vector.width = 9 := by
    cases creates
    rfl
  have allUnknown : ∀ position, position < 9 → vector.bit position = .ok Bit.x := by
    intro position inside
    apply bit_of_bit? readable.wellFormed
    cases creates
    revert position
    decide +kernel
  have isUnknown {position : Nat} {bit : Bit} (reads : vector.bit position = .ok bit) :
      position < 9 ∧ bit = Bit.x := by
    have inside : position < 9 := by
      obtain ⟨⟨⟩, inside, -⟩ := bind_eq_ok_iff.1 reads
      rw [require_eq_ok_iff, wide] at inside
      exact inside
    rw [allUnknown position inside] at reads
    cases reads
    exact ⟨inside, rfl⟩
  have uniform : vector.UniformDigits .hexadecimal := by
    intro first second firstBit secondBit _ firstReads secondReads
    exact Or.inr ((isUnknown firstReads).2.trans (isUnknown secondReads).2.symm)
  have leads : vector.LeadsPlainly .hexadecimal := by
    intro position bit reads _
    obtain ⟨inside, -⟩ := isUnknown reads
    rw [wide]
    by_cases below : position < 8
    · refine Or.inr ⟨8, Bit.x, ?_, allUnknown 8 (by decide), by decide⟩
      change position / 4 < 8 / 4
      omega
    · left
      change 9 ≤ (position / 4 + 1) * 4
      omega
  obtain ⟨text, read, renders, reads, -, -, sameBits⟩ := ofLiteral_render readable (Or.inr uniform)
  refine ⟨vector, text, read, creates, renders, reads, ?_⟩
  intro position inside
  rw [sameBits.2 leads position (by rwa [wide]), allUnknown position inside]

/-- A four-bit value with an `x` behind two zeros. -/
def hiddenUnknown : LogicVector where
  width := 4
  kind := .plain
  format := .bits32
  signed := false
  twoState := false
  storage := .owned #[Slice.ofValue 1 2]

/-- The zeros in front of the `x` are dropped, and the `x` is taken to extend: the
vector of `4'b00x1` is written as `4'bx1`, which is read as `4'bxxx1`. -/
theorem ofLiteral_render_hiddenUnknown :
    ofLiteral ['4', '\x27', 'b', '0', '0', 'x', '1'] = .ok (hiddenUnknown, .digits .binary) ∧
    hiddenUnknown.render (.digits .binary) = .ok ['4', '\x27', 'b', 'x', '1'] ∧
    ∃ read, ofLiteral ['4', '\x27', 'b', 'x', '1'] = .ok (read, .digits .binary) ∧
      hiddenUnknown.bit 3 = .ok Bit.zero ∧ read.bit 3 = .ok Bit.x := by
  have renders : (hiddenUnknown.render (.digits .binary)).toOption =
      some ['4', '\x27', 'b', 'x', '1'] := by
    decide +kernel
  refine ⟨rfl, ?_, _, rfl, rfl, rfl⟩
  cases written : hiddenUnknown.render (.digits .binary) with
  | error fault =>
      rw [written] at renders
      contradiction
  | ok text =>
      rw [written] at renders
      cases renders
      rfl

end LogicVector

end FourState
