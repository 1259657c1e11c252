import FourState.Proofs.Arithmetic
import FourState.Proofs.Extension
import FourState.Proofs.Moving

/-!
# Joined and repeated vectors

A concatenation puts its left operand right above its right one, and a replication
puts copies of its item one above the other.  Each copy is added to a buffer that is
clear from its position on, so it shows there bit by bit, whatever word boundaries it
crosses; what leaves the width is dropped.  Copies are added only while the buffer is
not full, so their number is bounded however large the count is.
-/

namespace FourState

/-- The place inside one of many copies of the same width, from the copies below it. -/
theorem mod_eq_sub_of_lt
    {position copies width : Nat}
    (above : copies * width ≤ position)
    (inCopy : position < copies * width + width) :
    position % width = position - copies * width := by
  rw [Nat.mod_eq_sub_mul_div, Nat.mul_comm]
  congr 2
  exact Nat.div_eq_of_lt_le above (by rwa [Nat.succ_mul])

namespace Buffer

/-- The buffer consists of a number of copies of an item, as far as it reaches. -/
structure Repeats (buffer item : Buffer) (copies : Nat) : Prop where
  canonical : buffer.Canonical
  bit_eq : ∀ position, position < buffer.width → buffer.bit position =
    if position < copies * item.width then item.bit (position % item.width) else Bit.zero

variable {buffer item lower upper : Buffer}

theorem repeats_zero (width : Nat) (item : Buffer) : (zero width).Repeats item 0 where
  canonical := canonical_zero width
  bit_eq position _ := by
    rw [bit_zero, Nat.zero_mul, if_neg (Nat.not_lt_zero position)]

/-- A buffer that is full of copies has room for no more. -/
theorem Repeats.of_full
    {copies : Nat}
    (repeats : buffer.Repeats item copies)
    (full : buffer.width ≤ copies * item.width)
    (more : Nat) :
    buffer.Repeats item (copies + more) where
  canonical := repeats.canonical
  bit_eq position inside := by
    have covered : position < copies * item.width := Nat.lt_of_lt_of_le inside full
    have coveredByMore : position < (copies + more) * item.width :=
      Nat.lt_of_lt_of_le covered (Nat.mul_le_mul_right _ (Nat.le_add_right _ _))
    rw [repeats.bit_eq position inside, if_pos covered, if_pos coveredByMore]

/-- One more copy is inserted right above the copies that are there. -/
theorem Repeats.insert
    {copies : Nat}
    (repeats : buffer.Repeats item copies)
    (itemCanonical : item.Canonical)
    (notEmpty : 0 < item.width) :
    (buffer.insert (copies * item.width) item).Repeats item (copies + 1) := by
  have clear : ∀ position, copies * item.width ≤ position → buffer.bit position = Bit.zero := by
    intro position above
    by_cases inside : position < buffer.width
    · rw [repeats.bit_eq position inside, if_neg (Nat.not_lt.2 above)]
    · exact bit_of_width_le _ (Nat.not_lt.1 inside)
  refine ⟨canonical_insert repeats.canonical _ _, ?_⟩
  intro position inside
  rw [width_insert] at inside
  have stop : (copies + 1) * item.width = copies * item.width + item.width := Nat.succ_mul _ _
  rw [bit_insert repeats.canonical itemCanonical clear, stop]
  by_cases below : position < copies * item.width
  · rw [if_pos below, if_pos (by omega), repeats.bit_eq position inside, if_pos below]
  · rw [if_neg below, if_pos inside]
    by_cases inCopy : position < copies * item.width + item.width
    · rw [if_pos inCopy, mod_eq_sub_of_lt (Nat.not_lt.1 below) inCopy]
    · rw [if_neg inCopy, bit_of_width_le _ (by omega)]

/-- Two buffers inserted one above the other. -/
theorem bit_insert_insert
    (lowerCanonical : lower.Canonical)
    (upperCanonical : upper.Canonical)
    (width : Nat)
    {position : Nat}
    (inside : position < width) :
    (((zero width).insert 0 lower).insert lower.width upper).bit position =
      if position < lower.width then lower.bit position
      else upper.bit (position - lower.width) := by
  have clear : ∀ position, 0 ≤ position → (zero width).bit position = Bit.zero :=
    fun position _ => bit_zero width position
  have shows (position : Nat) : ((zero width).insert 0 lower).bit position =
      if position < width then lower.bit position else Bit.zero := by
    rw [bit_insert (canonical_zero width) lowerCanonical clear, if_neg (Nat.not_lt_zero _)]
    rfl
  have clearAbove : ∀ position, lower.width ≤ position →
      ((zero width).insert 0 lower).bit position = Bit.zero := by
    intro position above
    rw [shows, bit_of_width_le _ above, ite_self]
  rw [bit_insert (canonical_insert (canonical_zero width) _ _) upperCanonical clearAbove, shows,
    width_insert, width_zero, if_pos inside, if_pos inside]

end Buffer

namespace Operator

/-- A replication that counts the copies it adds. -/
def replicateCounted (item : Buffer) : Nat → Nat → Buffer → Except Fault (Buffer × Nat)
  | 0, _, result => return (result, 0)
  | copies + 1, position, result =>
      if position < result.width then do
        let next ← Checked.add position item.width
        let (final, rounds) ← replicateCounted item copies next (result.insert position item)
        return (final, rounds + 1)
      else return (result, 0)

variable {item result final : Buffer} {copies made position rounds : Nat}

/-- Counting the copies changes nothing else about a replication. -/
theorem map_replicateCounted (item : Buffer) (copies position : Nat) (result : Buffer) :
    (replicateCounted item copies position result).map Prod.fst =
      replicate item copies position result := by
  induction copies generalizing position result with
  | zero => rfl
  | succ copies inductionHypothesis =>
      rw [replicateCounted, replicate]
      split
      · cases Checked.add position item.width with
        | error fault => rfl
        | ok next =>
            change (replicateCounted item copies next _ >>= _).map _ = replicate item copies next _
            rw [← inductionHypothesis]
            cases replicateCounted item copies next (result.insert position item) <;> rfl
      · rfl

theorem replicate_of_counted
    (counts : replicateCounted item copies position result = .ok (final, rounds)) :
    replicate item copies position result = .ok final := by
  rw [← map_replicateCounted, counts]
  rfl

/-- A replication that starts behind the end of its buffer adds no copy. -/
theorem replicateCounted_of_full
    (full : result.width ≤ position)
    (copies : Nat) :
    replicateCounted item copies position result = .ok (result, 0) := by
  cases copies with
  | zero => rfl
  | succ copies =>
      rw [replicateCounted, if_neg (Nat.not_lt.2 full)]
      rfl

/-- While there is room, a copy is added and the replication goes on behind it. -/
theorem replicateCounted_of_room
    (hasRoom : position < result.width)
    (fits : position + item.width < modulus 64)
    (goesOn : replicateCounted item copies (position + item.width)
      (result.insert position item) = .ok (final, rounds)) :
    replicateCounted item (copies + 1) position result = .ok (final, rounds + 1) := by
  rw [replicateCounted, if_pos hasRoom, Checked.add_eq_ok fits]
  change (replicateCounted item copies (position + item.width) _ >>= _) = _
  rw [goesOn]
  rfl

/-- From a buffer of some copies on, a replication ends with all of them.  The last round
still finds room, so the copies that the rounds before it add do not fill the buffer. -/
theorem exists_replicateCounted
    (itemCanonical : item.Canonical)
    (notEmpty : 0 < item.width)
    (itemLe : item.width ≤ maxWidth)
    (resultLe : result.width ≤ maxWidth)
    (repeats : result.Repeats item made)
    (copies : Nat) :
    ∃ final rounds,
      replicateCounted item copies (made * item.width) result = .ok (final, rounds) ∧
      final.width = result.width ∧ final.Repeats item (made + copies) ∧
      (made * item.width < result.width →
        (made + rounds) * item.width < result.width + item.width) := by
  induction copies generalizing made result with
  | zero => exact ⟨result, 0, rfl, rfl, repeats, fun hasRoom => Nat.lt_add_right _ hasRoom⟩
  | succ copies inductionHypothesis =>
      by_cases full : result.width ≤ made * item.width
      · exact ⟨result, 0, replicateCounted_of_full full _, rfl, repeats.of_full full _, by omega⟩
      · have hasRoom := Nat.not_le.1 full
        have fits : made * item.width + item.width < modulus 64 := by
          have limit : maxWidth + maxWidth < modulus 64 := by decide
          omega
        obtain ⟨final, rounds, goesOn, sameWidth, repeatsFinal, bounded⟩ :=
          inductionHypothesis (by rwa [Buffer.width_insert])
            (repeats.insert itemCanonical notEmpty)
        rw [Nat.add_assoc, Nat.add_comm 1] at repeatsFinal
        rw [Buffer.width_insert] at sameWidth bounded
        refine ⟨final, rounds + 1, ?_, sameWidth, repeatsFinal, fun _ => ?_⟩
        · exact replicateCounted_of_room hasRoom fits (by rwa [Nat.succ_mul] at goesOn)
        · by_cases room : (made + 1) * item.width < result.width
          · rw [Nat.add_comm rounds 1, ← Nat.add_assoc]
            exact bounded room
          · -- The buffer is full after this round, so it is the last one.
            have last : replicateCounted item copies ((made + 1) * item.width)
                (result.insert (made * item.width) item) =
                  .ok (result.insert (made * item.width) item, 0) :=
              replicateCounted_of_full (by rwa [Buffer.width_insert, ← Nat.not_lt]) copies
            cases last.symm.trans goesOn
            rw [Nat.zero_add, Nat.succ_mul]
            exact Nat.add_lt_add_right hasRoom _

/-- No more copies are added than fill the buffer. -/
theorem rounds_le_wordsFor
    (notEmpty : 0 < item.width)
    (bounded : rounds * item.width < result.width + item.width) :
    rounds ≤ wordsFor item.width result.width := by
  rw [wordsFor, Nat.le_div_iff_mul_le notEmpty]
  omega

variable {width : Nat} {left right count value : LogicVector}

/-- A concatenation is computed with the bits of the right operand, those of the left
one above them, and zeros. -/
theorem exists_concat
    (leftReadable : left.Readable)
    (rightReadable : right.Readable)
    (width : Nat) :
    ∃ joined, concat width left right = .ok joined ∧ joined.Canonical ∧
      ∀ position, position < width → some (joined.bit position) =
        if position < right.width then right.bit? position
        else if position < right.width + left.width then left.bit? (position - right.width)
        else some Bit.zero := by
  obtain ⟨lower, readsLower, lowerCanonical, lowerWidth, -⟩ := rightReadable.ofVector
  obtain ⟨upper, readsUpper, upperCanonical, upperWidth, -⟩ := leftReadable.ofVector
  have joins : concat width left right =
      .ok (((Buffer.zero width).insert 0 lower).insert lower.width upper) := by
    rw [concat, readsLower, readsUpper]
    rfl
  refine ⟨_, joins,
    Buffer.canonical_insert (Buffer.canonical_insert (Buffer.canonical_zero width) _ _) _ _, ?_⟩
  intro position inside
  rw [Buffer.bit_insert_insert lowerCanonical upperCanonical width inside, ← lowerWidth,
    ← upperWidth]
  split
  · rename_i inLower
    exact (LogicVector.bit?_of_ofVector readsLower inLower).symm
  · rename_i above
    split
    · rename_i inUpper
      exact (LogicVector.bit?_of_ofVector readsUpper (by omega)).symm
    · rename_i past
      rw [Buffer.bit_of_width_le _ (by omega)]

/-- A replication with a known count is computed in a bounded number of rounds, with
the bits of the value one copy above the other, and zeros. -/
theorem exists_expand
    (known : count.IsKnown)
    (countReadable : count.Readable)
    (readable : value.Readable)
    (notEmpty : 0 < width)
    (widthLe : width ≤ maxWidth) :
    ∃ copies item final rounds,
      Buffer.ofVector count = .ok copies ∧ Buffer.ofVector value = .ok item ∧
      replicateCounted item copies.toCount 0 (Buffer.zero width) = .ok (final, rounds) ∧
      rounds ≤ wordsFor value.width width ∧
      expand width count value = .ok final ∧ final.Canonical ∧
      ∀ position, position < width → some (final.bit position) =
        if position < count.pattern.toNat * value.width then value.bit? (position % value.width)
        else some Bit.zero := by
  obtain ⟨copies, readsCount, holds⟩ := countReadable.holds_ofVector known
  obtain ⟨item, reads, canonical, itemWidth, -⟩ := readable.ofVector
  have itemPos : 0 < item.width := itemWidth ▸ readable.wellFormed.width_pos
  have itemLe : item.width ≤ maxWidth := itemWidth ▸ readable.wellFormed.width_le
  obtain ⟨final, rounds, counts, sameWidth, repeats, bounded⟩ :=
    exists_replicateCounted canonical itemPos itemLe (by rwa [Buffer.width_zero])
      (Buffer.repeats_zero width item) copies.toCount
  rw [Nat.zero_mul] at counts
  rw [Nat.zero_add] at repeats
  rw [Nat.zero_mul, Nat.zero_add] at bounded
  rw [Buffer.width_zero] at sameWidth
  have computes : expand width count value = .ok final := by
    rw [expand, readsCount]
    change (if copies.hasUnknown then _ else _) = _
    rw [holds.hasUnknown_eq, if_neg Bool.false_ne_true, reads]
    exact replicate_of_counted counts
  refine ⟨copies, item, final, rounds, readsCount, reads, counts,
    itemWidth ▸ rounds_le_wordsFor itemPos (bounded notEmpty), computes, repeats.canonical, ?_⟩
  intro position inside
  -- Counts past the largest one that is told apart overfill the target just as well.
  have sameCover : position < copies.toCount * item.width ↔
      position < count.pattern.toNat * item.width := by
    rw [Buffer.toCount, holds.toNat_eq]
    by_cases small : count.pattern.toNat ≤ Buffer.maxCount
    · rw [Nat.min_eq_left small]
    · have limit : maxWidth ≤ Buffer.maxCount := by decide
      rw [Nat.min_eq_right (by omega)]
      have manyCover := Nat.le_mul_of_pos_right Buffer.maxCount itemPos
      have allCover := Nat.le_mul_of_pos_right count.pattern.toNat itemPos
      omega
  rw [repeats.bit_eq position (by rwa [sameWidth]), ← itemWidth]
  by_cases covered : position < count.pattern.toNat * item.width
  · rw [if_pos (sameCover.2 covered), if_pos covered]
    exact (LogicVector.bit?_of_ofVector reads (Nat.mod_lt _ itemPos)).symm
  · rw [if_neg (mt sameCover.1 covered), if_neg covered]

end Operator

namespace LogicVector

/-- The bits of vectors that stand one above the other, the first one lowest, and zeros
above them. -/
def stacked : List LogicVector → Nat → Option Bit
  | [], _ => some Bit.zero
  | part :: parts, position =>
      if position < part.width then part.bit? position
      else stacked parts (position - part.width)

section

variable {part : LogicVector} {position : Nat}

theorem stacked_of_lt (inPart : position < part.width) (parts : List LogicVector) :
    stacked (part :: parts) position = part.bit? position :=
  if_pos inPart

theorem stacked_of_le (above : part.width ≤ position) (parts : List LogicVector) :
    stacked (part :: parts) position = stacked parts (position - part.width) :=
  if_neg (Nat.not_lt.2 above)

/-- What two vectors that stand one above the other show, from absolute positions. -/
theorem stacked_pair (lower upper : LogicVector) (position : Nat) :
    stacked [lower, upper] position =
      if position < lower.width then lower.bit? position
      else if position < lower.width + upper.width then upper.bit? (position - lower.width)
      else some Bit.zero := by
  by_cases inLower : position < lower.width
  · rw [if_pos inLower, stacked_of_lt inLower]
  · rw [if_neg inLower, stacked_of_le (Nat.not_lt.1 inLower), stacked, stacked]
    simp only [Nat.sub_lt_iff_lt_add' (Nat.not_lt.1 inLower)]

/-- A stack on a stack is one stack. -/
theorem stacked_append (lower upper : List LogicVector) (position : Nat) :
    stacked (lower ++ upper) position =
      if position < (lower.map fun part => part.width).sum then stacked lower position
      else stacked upper (position - (lower.map fun part => part.width).sum) := by
  induction lower generalizing position with
  | nil => rfl
  | cons first lower inductionHypothesis =>
      rw [List.cons_append, List.map_cons, List.sum_cons]
      by_cases inFirst : position < first.width
      · rw [stacked_of_lt inFirst, if_pos (by omega), stacked_of_lt inFirst]
      · have above := Nat.not_lt.1 inFirst
        rw [stacked_of_le above, stacked_of_le above, inductionHypothesis, Nat.sub_sub]
        simp only [Nat.sub_lt_iff_lt_add' above]

/-- Vectors that show the same bits are stacked alike. -/
theorem stacked_congr
    {other : LogicVector}
    (sameWidth : part.width = other.width)
    (sameBits : ∀ position, part.bit? position = other.bit? position)
    (lower upper : List LogicVector)
    (position : Nat) :
    stacked (lower ++ part :: upper) position = stacked (lower ++ other :: upper) position := by
  induction lower generalizing position with
  | nil => rw [List.nil_append, List.nil_append, stacked, stacked, sameWidth, sameBits]
  | cons first lower inductionHypothesis =>
      rw [List.cons_append, List.cons_append, stacked, stacked, inductionHypothesis]

end

variable {target left right count value : LogicVector}

/-- A concatenation succeeds on any four-state target and leaves the bits of its
operands one above the other. -/
theorem operate_concat
    (readable : target.Readable)
    (fourState : target.twoState = false)
    (leftReadable : left.Readable)
    (rightReadable : right.Readable) :
    ∃ updated changed, (target.operate (.concat left right)).result = .ok (updated, changed) ∧
      updated.toHeader = target.toHeader ∧
      ∀ position, position < target.width → updated.bit? position =
        if position < right.width then right.bit? position
        else if position < right.width + left.width then left.bit? (position - right.width)
        else some Bit.zero := by
  obtain ⟨joined, joins, canonical, sameBits⟩ :=
    Operator.exists_concat leftReadable rightReadable target.width
  have computes : (Operation.concat left right).compute target = .ok joined :=
    liftM_fault_eq_ok_iff.2 joins
  obtain ⟨updated, changed, operates, sameHeader, shows⟩ :=
    operate_whole readable fourState rfl computes canonical
  refine ⟨updated, changed, operates, sameHeader, ?_⟩
  intro position inside
  rw [shows position inside, sameBits position inside]

/-- A replication succeeds on any four-state target.  An unknown bit of the count
leaves `x` everywhere; otherwise copies of the value are left one above the other. -/
theorem operate_expand
    (readable : target.Readable)
    (fourState : target.twoState = false)
    (countReadable : count.Readable)
    (valueReadable : value.Readable) :
    ∃ updated changed, (target.operate (.expand count value)).result = .ok (updated, changed) ∧
      updated.toHeader = target.toHeader ∧
      (¬count.IsKnown → ∀ position, position < target.width →
        updated.bit? position = some Bit.x) ∧
      (count.IsKnown → ∀ position, position < target.width → updated.bit? position =
        if position < count.pattern.toNat * value.width then value.bit? (position % value.width)
        else some Bit.zero) := by
  by_cases known : count.IsKnown
  · obtain ⟨-, -, final, -, -, -, -, -, expands, canonical, sameBits⟩ :=
      Operator.exists_expand known countReadable valueReadable readable.wellFormed.width_pos
        readable.wellFormed.width_le
    have computes : (Operation.expand count value).compute target = .ok final :=
      liftM_fault_eq_ok_iff.2 expands
    obtain ⟨updated, changed, operates, sameHeader, shows⟩ :=
      operate_whole readable fourState rfl computes canonical
    refine ⟨updated, changed, operates, sameHeader, fun unknown => absurd known unknown, ?_⟩
    intro _ position inside
    rw [shows position inside, sameBits position inside]
  · obtain ⟨copies, readsCount, -⟩ := countReadable.ofVector
    have unknown : copies.hasUnknown = true := by
      rw [hasUnknown_ofVector_iff countReadable readsCount]
      rwa [countReadable.isKnown_iff, not_not] at known
    have expands : Operator.expand target.width count value =
        .ok (Buffer.unknown target.width) := by
      rw [Operator.expand, readsCount]
      exact if_pos unknown
    have computes : (Operation.expand count value).compute target =
        .ok (Buffer.unknown target.width) := liftM_fault_eq_ok_iff.2 expands
    obtain ⟨updated, changed, operates, sameHeader, shows⟩ :=
      operate_whole readable fourState rfl computes (Buffer.canonical_unknown _)
    refine ⟨updated, changed, operates, sameHeader, ?_, fun isKnown => absurd isKnown known⟩
    intro _ position inside
    rw [shows position inside, Buffer.bit_unknown, if_pos inside]

end LogicVector
end FourState
