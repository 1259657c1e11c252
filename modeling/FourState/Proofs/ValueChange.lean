import FourState.Proofs.Gate
import Mathlib.Data.List.Forall2

/-!
# The meaning of a value change

A value change is a text of letters, of which there must be at least one.  Counted from
its right end, each letter stands for the bit of its place; above the leftmost letter an
unknown one goes on and a known one is followed by zeros.  A range of a vector takes
these bits over as far as it reaches, and nothing else of the vector changes.
-/

namespace FourState

namespace ValueChange

/-- A letter of a value change and the bit that it stands for. -/
inductive Letter : Char → Bit → Prop
  | zero : Letter '0' .zero
  | one : Letter '1' .one
  | lowerX : Letter 'x' .x
  | upperX : Letter 'X' .x
  | lowerZ : Letter 'z' .z
  | upperZ : Letter 'Z' .z

/-- A text that can be read as a value change. -/
structure IsChange (text : List Char) : Prop where
  notEmpty : text ≠ []
  letters : ∀ char ∈ text, char ∈ ['0', '1', 'x', 'X', 'z', 'Z']

instance (text : List Char) : Decidable (IsChange text) :=
  decidable_of_iff (text ≠ [] ∧
      (text.all fun char => decide (char ∈ ['0', '1', 'x', 'X', 'z', 'Z'])) = true) <| by
    simp only [List.all_eq_true, decide_eq_true_eq]
    exact ⟨fun both => ⟨both.1, both.2⟩, fun change => ⟨change.notEmpty, change.letters⟩⟩

/-- The bit that a text gives at a distance from its right end: that of the letter there,
or what the leftmost letter is extended by. -/
inductive Gives (text : List Char) (distance : Nat) : Bit → Prop
  | letter {char : Char} {bit : Bit} (there : text.reverse[distance]? = some char)
      (means : Letter char bit) : Gives text distance bit
  | unknown {char : Char} {bit : Bit} (past : text.length ≤ distance)
      (leftmost : text.head? = some char) (means : Letter char bit)
      (isUnknown : bit = .x ∨ bit = .z) : Gives text distance bit
  | known {char : Char} {bit : Bit} (past : text.length ≤ distance)
      (leftmost : text.head? = some char) (means : Letter char bit)
      (isKnown : bit = .zero ∨ bit = .one) : Gives text distance .zero

variable {text : List Char} {bits : List Bit} {char : Char} {bit : Bit} {distance : Nat}

theorem ofChar?_eq_some_iff : Bit.ofChar? char = some bit ↔ Letter char bit := by
  constructor
  · intro reads
    unfold Bit.ofChar? at reads
    split at reads <;> cases reads <;> constructor
  · intro means
    cases means <;> rfl

/-- The letters are those that stand for a bit. -/
theorem exists_letter_iff :
    (∃ bit, Letter char bit) ↔ char ∈ ['0', '1', 'x', 'X', 'z', 'Z'] := by
  constructor
  · rintro ⟨bit, means⟩
    cases means <;> decide
  · intro isLetter
    simp only [List.mem_cons, List.not_mem_nil, or_false] at isLetter
    obtain rfl | rfl | rfl | rfl | rfl | rfl := isLetter
    · exact ⟨_, .zero⟩
    · exact ⟨_, .one⟩
    · exact ⟨_, .lowerX⟩
    · exact ⟨_, .upperX⟩
    · exact ⟨_, .lowerZ⟩
    · exact ⟨_, .upperZ⟩

/-! ## Reading -/

/-- All letters of a text are read, one by one. -/
theorem mapM_ofChar?_eq_some_iff :
    text.mapM Bit.ofChar? = some bits ↔ List.Forall₂ Letter text bits := by
  induction text generalizing bits with
  | nil => simp [eq_comm]
  | cons char text inductionHypothesis =>
      rw [List.mapM_cons, List.forall₂_cons_left_iff]
      simp only [Option.bind_eq_bind, Option.pure_def, Option.bind_eq_some_iff,
        ofChar?_eq_some_iff, inductionHypothesis, Option.some.injEq]
      constructor
      · rintro ⟨bit, means, rest, reads, rfl⟩
        exact ⟨bit, rest, means, reads, rfl⟩
      · rintro ⟨bit, rest, means, reads, rfl⟩
        exact ⟨bit, means, rest, reads, rfl⟩

/-- Characters that are letters all stand for bits. -/
theorem exists_letters (letters : ∀ char ∈ text, char ∈ ['0', '1', 'x', 'X', 'z', 'Z']) :
    ∃ bits, List.Forall₂ Letter text bits := by
  induction text with
  | nil => exact ⟨[], .nil⟩
  | cons char text inductionHypothesis =>
      obtain ⟨isLetter, areLetters⟩ := List.forall_mem_cons.1 letters
      obtain ⟨bit, means⟩ := exists_letter_iff.2 isLetter
      obtain ⟨bits, mean⟩ := inductionHypothesis areLetters
      exact ⟨bit :: bits, .cons means mean⟩

theorem isChange_of_letters
    (notEmpty : text ≠ [])
    (mean : List.Forall₂ Letter text bits) :
    IsChange text := by
  refine ⟨notEmpty, ?_⟩
  clear notEmpty
  induction mean with
  | nil => exact nofun
  | cons means _ inductionHypothesis =>
      exact List.forall_mem_cons.2 ⟨exists_letter_iff.1 ⟨_, means⟩, inductionHypothesis⟩

/-- A change is read as the bits of its letters. -/
theorem read_of_letters
    (notEmpty : text ≠ [])
    (mean : List.Forall₂ Letter text bits) :
    read text = .ok bits := by
  unfold read
  rw [mapM_ofChar?_eq_some_iff.2 mean]
  cases mean with
  | nil => exact absurd rfl notEmpty
  | cons => rfl

/-- Any other text is malformed. -/
theorem exists_read_error (notChange : ¬IsChange text) :
    ∃ defect, read text = .error (.malformed defect) := by
  unfold read
  cases reads : text.mapM Bit.ofChar? with
  | none => exact ⟨_, rfl⟩
  | some bits =>
      have mean := mapM_ofChar?_eq_some_iff.1 reads
      cases mean with
      | nil => exact ⟨_, rfl⟩
      | cons means mean =>
          exact absurd (isChange_of_letters (List.cons_ne_nil _ _) (.cons means mean)) notChange

/-! ## The bits of a change -/

/-- Within the letters, bits are counted from the right end. -/
theorem getElem?_reverse_eq_bitAt (there : distance < bits.length) :
    bits.reverse[distance]? = some (bitAt bits.toArray distance) := by
  have fromLeft : bits.length - 1 - distance < bits.toArray.size := by
    rw [List.size_toArray]
    omega
  rw [List.getElem?_reverse there, bitAt, List.size_toArray, if_pos there, Array.getD,
    dif_pos fromLeft]
  exact List.getElem?_eq_getElem fromLeft

/-- Past the letters, the leftmost bit is extended. -/
theorem bitAt_of_length_le (past : bits.length ≤ distance) :
    bitAt bits.toArray distance = (bits.headD Bit.zero).extension := by
  rw [bitAt, List.size_toArray, if_neg (Nat.not_lt.2 past)]
  cases bits <;> rfl

/-- The bit read at a distance from the right end is the one that the text gives. -/
theorem gives_bitAt
    (notEmpty : text ≠ [])
    (mean : List.Forall₂ Letter text bits)
    (distance : Nat) :
    Gives text distance (bitAt bits.toArray distance) := by
  have sameLength := mean.length_eq
  by_cases there : distance < text.length
  · have inBits : distance < bits.length := sameLength ▸ there
    have inReversed : distance < text.reverse.length := by rwa [List.length_reverse]
    have inBitsReversed : distance < bits.reverse.length := by rwa [List.length_reverse]
    have means := (List.rel_reverse mean).get inReversed inBitsReversed
    have isBit := getElem?_reverse_eq_bitAt inBits
    rw [List.getElem?_eq_getElem inBitsReversed, Option.some.injEq] at isBit
    rw [← isBit]
    exact .letter (List.getElem?_eq_getElem inReversed) means
  · have past := Nat.not_lt.1 there
    rw [bitAt_of_length_le (sameLength ▸ past)]
    cases mean with
    | nil => exact absurd rfl notEmpty
    | @cons _ bit _ _ means _ =>
        rw [List.headD_cons]
        cases bit with
        | zero => exact .known past rfl means (.inl rfl)
        | one => exact .known past rfl means (.inr rfl)
        | x => exact .unknown past rfl means (.inl rfl)
        | z => exact .unknown past rfl means (.inr rfl)

theorem Letter.unique
    {other : Bit}
    (means : Letter char bit)
    (meansOther : Letter char other) :
    bit = other :=
  Option.some.inj ((ofChar?_eq_some_iff.2 means).symm.trans (ofChar?_eq_some_iff.2 meansOther))

/-- A text gives one bit at each distance. -/
theorem Gives.unique
    {other : Bit}
    (gives : Gives text distance bit)
    (givesOther : Gives text distance other) :
    bit = other := by
  have inText {char : Char} (there : text.reverse[distance]? = some char) :
      distance < text.length := by
    obtain ⟨inReversed, -⟩ := List.getElem?_eq_some_iff.1 there
    rwa [List.length_reverse] at inReversed
  cases gives with
  | letter there means =>
      cases givesOther with
      | letter thereOther meansOther =>
          cases there.symm.trans thereOther
          exact means.unique meansOther
      | unknown past | known past => exact absurd (inText there) (Nat.not_lt.2 past)
  | unknown past leftmost means isUnknown =>
      cases givesOther with
      | letter there => exact absurd (inText there) (Nat.not_lt.2 past)
      | unknown _ leftmostOther meansOther =>
          cases leftmost.symm.trans leftmostOther
          exact means.unique meansOther
      | known _ leftmostOther meansOther isKnown =>
          cases leftmost.symm.trans leftmostOther
          cases means.unique meansOther
          obtain rfl | rfl := isUnknown <;> simp at isKnown
  | known past leftmost means isKnown =>
      cases givesOther with
      | letter there => exact absurd (inText there) (Nat.not_lt.2 past)
      | unknown _ leftmostOther meansOther isUnknown =>
          cases leftmost.symm.trans leftmostOther
          cases means.unique meansOther
          obtain rfl | rfl := isUnknown <;> simp at isKnown
      | known => rfl

/-- Letters in front of a change do not move its bits. -/
theorem bitAt_append
    {surplus : List Bit}
    (there : distance < bits.length) :
    bitAt (surplus ++ bits).toArray distance = bitAt bits.toArray distance := by
  have inBoth : distance < (surplus ++ bits).length := by
    rw [List.length_append]
    omega
  rw [← Option.some.injEq, ← getElem?_reverse_eq_bitAt inBoth, ← getElem?_reverse_eq_bitAt there,
    List.reverse_append, List.getElem?_append_left (by rwa [List.length_reverse])]

end ValueChange

namespace LogicVector

variable {vector : LogicVector} {text : List Char} {lsb msb : Nat}

/-- A change is assigned through the gate from any buffer that has its bits in the range. -/
theorem applyChange_eq_assign
    {bits : List Bit}
    {value : Buffer}
    (readable : vector.Readable)
    (inRange : lsb ≤ msb ∧ msb < vector.width)
    (reads : ValueChange.read text = .ok bits)
    (canonical : value.Canonical)
    (wide : value.width = vector.width)
    (sameBits : ∀ position, lsb ≤ position → position ≤ msb →
      value.bit position = ValueChange.bitAt bits.toArray (position - lsb)) :
    vector.applyChange text msb lsb = liftM (vector.assign value.low value.high lsb msb) := by
  have sameGate := assign_congr readable inRange
    (Buffer.canonical_ofBits vector.width fun position =>
      ValueChange.bitAt bits.toArray (position - lsb)) canonical rfl wide (by
      intro position above below
      rw [Buffer.bit_ofBits, if_pos (by omega), sameBits position above below])
  rw [← sameGate, applyChange, require_bind_of_true inRange, reads]
  rfl

/-- A text that is no change is malformed, whatever the vector is. -/
theorem applyChange_malformed
    (inRange : lsb ≤ msb ∧ msb < vector.width)
    (notChange : ¬ValueChange.IsChange text) :
    ∃ defect,
      vector.applyChange text msb lsb = .error (.literal (.malformed defect)) := by
  obtain ⟨defect, reads⟩ := ValueChange.exists_read_error notChange
  refine ⟨defect, ?_⟩
  rw [applyChange, require_bind_of_true inRange, reads]
  rfl

/-- A change succeeds on a range of a readable vector.  Each bit of the range becomes the
one that the text gives, as the vector keeps it; every plane of the others stays. -/
theorem exists_applyChange
    (readable : vector.Readable)
    (inRange : lsb ≤ msb ∧ msb < vector.width)
    (change : ValueChange.IsChange text) :
    ∃ updated changed, vector.applyChange text msb lsb = .ok (updated, changed) ∧
      updated.toHeader = vector.toHeader ∧
      (∀ position, lsb ≤ position → position ≤ msb →
        ∃ bit, ValueChange.Gives text (position - lsb) bit ∧
          updated.bit? position = some (if vector.twoState then bit.collapse else bit)) ∧
      ∀ position, ¬(lsb ≤ position ∧ position ≤ msb) →
        updated.cell position = vector.cell position := by
  obtain ⟨bits, mean⟩ := ValueChange.exists_letters change.letters
  have reads := ValueChange.read_of_letters change.notEmpty mean
  obtain ⟨block, stored⟩ := exists_block readable.isAllocated
  have sized := (readable.wellFormed.block_fits block stored).size_eq
  have canonical := Buffer.canonical_ofBits vector.width fun position =>
    ValueChange.bitAt bits.toArray (position - lsb)
  have lastInWords := div_lt_wordCount inRange.2
  obtain ⟨changed, assigns⟩ := assign_succeeds stored inRange (canonical.has_word inRange.2)
    (by rwa [sized])
  have applies := (applyChange_eq_assign readable inRange reads canonical rfl (by
    intro position _ below
    rw [Buffer.bit_ofBits, if_pos (by omega)])).trans (liftM_fault_eq_ok_iff.2 assigns)
  obtain ⟨-, same⟩ := applyChange_eq_accept reads applies
  refine ⟨_, changed, applies, rfl, ?_, ?_⟩
  · intro position above below
    have inside : position < vector.width := by omega
    have inWords := le_wordCount vector.width
    refine ⟨_, ValueChange.gives_bitAt change.notEmpty mean _, ?_⟩
    rw [same, bit?_accept stored _ inside (by omega), if_pos ⟨above, below⟩]
    rfl
  · intro position outside
    rw [same]
    exact vector.cell_accept_of_not_covers outside

/-- Letters in front of a change that reaches the end of the range make no difference. -/
theorem applyChange_append
    {surplus : List Char}
    (readable : vector.Readable)
    (inRange : lsb ≤ msb ∧ msb < vector.width)
    (change : ValueChange.IsChange (surplus ++ text))
    (reaches : msb - lsb < text.length) :
    vector.applyChange (surplus ++ text) msb lsb = vector.applyChange text msb lsb := by
  have letters := List.forall_mem_append.1 change.letters
  obtain ⟨surplusBits, surplusMean⟩ := ValueChange.exists_letters letters.1
  obtain ⟨bits, mean⟩ := ValueChange.exists_letters letters.2
  have sameLength := mean.length_eq
  have notEmpty : text ≠ [] := List.ne_nil_of_length_pos (by omega)
  have readsAll := ValueChange.read_of_letters change.notEmpty (List.rel_append surplusMean mean)
  have reads := ValueChange.read_of_letters notEmpty mean
  have canonical := Buffer.canonical_ofBits vector.width fun position =>
    ValueChange.bitAt bits.toArray (position - lsb)
  have sameBits (position : Nat) (below : position ≤ msb) :
      (Buffer.ofBits vector.width fun position =>
        ValueChange.bitAt bits.toArray (position - lsb)).bit position =
          ValueChange.bitAt bits.toArray (position - lsb) := by
    rw [Buffer.bit_ofBits, if_pos (by omega)]
  rw [applyChange_eq_assign readable inRange reads canonical rfl
    fun position _ below => sameBits position below]
  apply applyChange_eq_assign readable inRange readsAll canonical rfl
  intro position _ below
  rw [sameBits position below, ValueChange.bitAt_append (by omega)]

end LogicVector
end FourState
