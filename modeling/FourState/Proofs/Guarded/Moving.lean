import FourState.Operator.Operand
import FourState.Proofs.Approximation
import FourState.Proofs.Guarded.Step
import FourState.Proofs.RangeFilling

/-!
# Guarded moving of bits

Buffers are read, extended, filled, inserted and shifted word by word, in the
order in which the machine touches the words of both planes.  For canonical
buffers of a width that a vector can have, no step fails, and the result is the
buffer that the operators work with.
-/

namespace FourState

/-- A canonical buffer of a width that a vector can have. -/
structure Buffer.InLimits (buffer : Buffer) : Prop where
  canonical : buffer.Canonical
  width_pos : 0 < buffer.width
  width_le : buffer.width ≤ maxWidth

namespace Buffer

section Limits

variable {buffer : Buffer} {width : Nat}

theorem inLimits_zero (notEmpty : 0 < width) (small : width ≤ maxWidth) : (zero width).InLimits :=
  ⟨canonical_zero width, notEmpty, small⟩

theorem inLimits_resized
    (buffer : Buffer)
    (notEmpty : 0 < width)
    (small : width ≤ maxWidth)
    (signExtend : Bool) :
    (buffer.resized width signExtend).InLimits :=
  ⟨canonical_resized _ _ _, by simpa using notEmpty, by simpa using small⟩

theorem inLimits_unknown
    (notEmpty : 0 < width)
    (small : width ≤ maxWidth) :
    (unknown width).InLimits :=
  ⟨canonical_unknown width, notEmpty, small⟩

theorem InLimits.insert
    (limits : buffer.InLimits)
    (offset : Nat)
    (source : Buffer) :
    (buffer.insert offset source).InLimits :=
  ⟨canonical_insert limits.canonical offset source, by simpa using limits.width_pos,
    by simpa using limits.width_le⟩

theorem InLimits.shiftRight
    (limits : buffer.InLimits)
    (amount : Nat) :
    (buffer.shiftRight amount).InLimits :=
  ⟨canonical_shiftRight limits.canonical amount, limits.width_pos, limits.width_le⟩

end Limits

end Buffer

namespace Words

/-! ## Single words -/

/-- Masking the last word trims a sequence that fits the width. -/
theorem modify_last_eq_trim
    {words : Array Word}
    {width : Nat}
    (notEmpty : 0 < width)
    (sized : words.size = wordCount width) :
    words.modify (words.size - 1) (· &&& Mask.top width) = trim words width := by
  unfold wordCount wordsFor at sized
  unfold trim
  by_cases whole : width % 32 = 0
  · have allBits : (Mask.top width : Word) = BitVec.allOnes 32 := Mask.low_of_size_le (by omega)
    have pastEnd : ¬width / 32 < words.size := by omega
    apply Array.ext (by simp)
    intro index inModified inTrimmed
    have inWords : index < words.size := by simpa using inModified
    simp only [Array.getElem_modify, allBits, BitVec.and_allOnes, ite_self]
    rw [if_neg (by omega)]
  · have isLast : words.size - 1 = width / 32 := by omega
    have sameMask : (width - 1) % 32 + 1 = width % 32 := by omega
    rw [isLast, Mask.top, sameMask]

end Words

namespace Guarded

/-! ## Reading and masking -/

/-- Clear the bits of the last words past the width. -/
def maskTop (buffer : Buffer) : Guarded Buffer :=
  if buffer.width = 0 then return buffer
  else do
    let mask ← topMask buffer.width
    return { buffer with
      low := buffer.low.modify (buffer.low.size - 1) (· &&& mask)
      high := buffer.high.modify (buffer.high.size - 1) (· &&& mask) }

/-- All bits `x`. -/
def unknown (width : Nat) : Guarded Buffer :=
  maskTop { Buffer.zero width with
    high := Array.replicate (wordCount width) (BitVec.allOnes 32) }

/-- The bit at a position, a known zero past the width. -/
def bitAt (buffer : Buffer) (position : Nat) : Guarded Bit :=
  if buffer.width ≤ position then return Bit.zero
  else do
    let low ← bit (buffer.word (position / 32)).1 (position % 32)
    let high ← bit (buffer.word (position / 32)).2 (position % 32)
    return Bit.ofPlanes low high

/-- The most significant bit. -/
def msb (buffer : Buffer) : Guarded Bit := do
  let last ← sub buffer.width 1
  bitAt buffer last

/-- Set one bit. -/
def setBit (buffer : Buffer) (position : Nat) (bit : Bit) : Guarded Buffer := do
  assert (position < buffer.width)
  let lowWord ← get buffer.low (position / 32)
  let lowSet ← withBit lowWord (position % 32) bit.low
  let low ← set buffer.low (position / 32) lowSet
  let highWord ← get buffer.high (position / 32)
  let highSet ← withBit highWord (position % 32) bit.high
  let high ← set buffer.high (position / 32) highSet
  return { buffer with low, high }

theorem maskTop_eq_ok
    {buffer : Buffer}
    (notEmpty : 0 < buffer.width)
    (lowSized : buffer.low.size = wordCount buffer.width)
    (highSized : buffer.high.size = wordCount buffer.width) :
    maskTop buffer = .ok buffer.trim := by
  rw [maskTop, if_neg (by omega), bind_of_ok (topMask_eq_ok notEmpty),
    Words.modify_last_eq_trim notEmpty lowSized, Words.modify_last_eq_trim notEmpty highSized]
  rfl

theorem unknown_eq_ok {width : Nat} (notEmpty : 0 < width) :
    unknown width = .ok (Buffer.unknown width) :=
  maskTop_eq_ok notEmpty (by simp [Buffer.zero]) (by simp [Buffer.zero])

theorem bitAt_eq_ok (buffer : Buffer) (position : Nat) :
    bitAt buffer position = .ok (buffer.bit position) := by
  have inWord := Nat.mod_lt position (by decide : 0 < 32)
  unfold bitAt
  split
  · rename_i outside
    rw [buffer.bit_of_width_le outside]
    rfl
  · rename_i inside
    rw [bind_of_ok (bit_eq_ok _ inWord), bind_of_ok (bit_eq_ok _ inWord),
      buffer.bit_of_lt (by omega)]
    rfl

theorem msb_eq_ok {buffer : Buffer} (notEmpty : 0 < buffer.width) :
    msb buffer = .ok buffer.msb := by
  rw [msb, bind_of_ok (sub_eq_ok notEmpty)]
  exact bitAt_eq_ok _ _

theorem setIfInBounds_eq_modify
    (words : Array Word)
    {index : Nat}
    (inBounds : index < words.size)
    (change : Word → Word) :
    words.setIfInBounds index (change words[index]) = words.modify index change := by
  apply Array.ext (by simp)
  intro other inSet inModified
  rw [Array.getElem_setIfInBounds (by simpa using inSet), Array.getElem_modify]
  split
  · rename_i isIndex
    subst isIndex
    rfl
  · rfl

theorem setBit_eq_ok
    {buffer : Buffer}
    (canonical : buffer.Canonical)
    {position : Nat}
    (inside : position < buffer.width)
    (bit : Bit) :
    setBit buffer position bit = .ok (buffer.setBit position bit) := by
  have inWord := Nat.mod_lt position (by decide : 0 < 32)
  obtain ⟨inLow, inHigh⟩ := canonical.has_word inside
  rw [setBit, bind_of_ok (assert_eq_ok inside), bind_of_ok (get_eq_ok inLow),
    bind_of_ok (withBit_eq_ok _ inWord _), bind_of_ok (set_eq_ok inLow _),
    bind_of_ok (get_eq_ok inHigh), bind_of_ok (withBit_eq_ok _ inWord _),
    bind_of_ok (set_eq_ok inHigh _), setIfInBounds_eq_modify buffer.low inLow
      (BitWord.withBit · (position % 32) bit.low),
    setIfInBounds_eq_modify buffer.high inHigh (BitWord.withBit · (position % 32) bit.high)]
  rfl

/-! ## Filling and extending -/

/-- Fill the bits from a position up to a bound, as far as they lie in its word. -/
def fillWord (stop : Nat) (filler : Bit) (buffer : Buffer) (position : Nat) : Guarded Buffer := do
  let index := position / 32
  let start ← mul 64 index 32
  let last ← sub stop 1
  let lastOffset ← sub last start
  let mask ← rangeMask (position % 32) (min lastOffset 31)
  let lowWord ← get buffer.low index
  let low ← set buffer.low index (if filler.low then lowWord ||| mask else lowWord &&& ~~~mask)
  let highWord ← get buffer.high index
  let high ← set buffer.high index
    (if filler.high then highWord ||| mask else highWord &&& ~~~mask)
  return { buffer with low, high }

/-- Fill the bits from a position up to a bound, word by word. -/
def fillFrom (stop : Nat) (filler : Bit) (buffer : Buffer) (position : Nat) : Guarded Buffer :=
  if position < stop then do
    let filled ← fillWord stop filler buffer position
    require ((position / 32 + 1) * 32 < modulus 64) (MachineFault.condition Fault.overflow)
    fillFrom stop filler filled ((position / 32 + 1) * 32)
  else return buffer
termination_by stop - position

/-- Give the positions from `first` up to, but not including, `stop` one bit. -/
def fill (buffer : Buffer) (first stop : Nat) (filler : Bit) : Guarded Buffer :=
  fillFrom (min stop buffer.width) filler buffer first

/-- Cut or extend to a width. -/
def resized (buffer : Buffer) (width : Nat) (signExtend : Bool) : Guarded Buffer := do
  let fitted : Buffer :=
    { width
      signed := buffer.signed
      low := Words.fit buffer.low (wordCount width)
      high := Words.fit buffer.high (wordCount width) }
  let extended ←
    if buffer.width < width ∧ signExtend = true ∧ 0 < buffer.width then do
      let filler ← msb buffer
      fill fitted buffer.width width filler
    else pure fitted
  maskTop extended

section Filling

variable {buffer : Buffer} {stop position : Nat}

theorem fillWord_eq_ok
    (lowSized : position / 32 < buffer.low.size)
    (highSized : position / 32 < buffer.high.size)
    (inside : position < stop)
    (small : stop ≤ maxWidth)
    (filler : Bit) :
    fillWord stop filler buffer position = .ok (buffer.fillWord stop position filler) := by
  have stopLe : stop ≤ 65536 := small
  rw [fillWord, bind_of_ok (mul_eq_ok (lt_modulus (by decide) (by omega))),
    bind_of_ok (sub_eq_ok (by omega)), bind_of_ok (sub_eq_ok (by omega)),
    bind_of_ok (rangeMask_eq_ok (by omega) (by omega)), bind_of_ok (get_eq_ok lowSized),
    bind_of_ok (set_eq_ok lowSized _), bind_of_ok (get_eq_ok highSized),
    bind_of_ok (set_eq_ok highSized _),
    setIfInBounds_eq_modify buffer.low lowSized fun word => if filler.low then _ else _,
    setIfInBounds_eq_modify buffer.high highSized fun word => if filler.high then _ else _]
  rfl

/-- The guarded rounds are those of filling, and no step of them fails. -/
theorem fillFrom_eq_ok_of_fillsFrom
    {result : Buffer}
    {filler : Bit}
    (fills : Buffer.FillsFrom stop filler buffer position result)
    (small : stop ≤ maxWidth) :
    fillFrom stop filler buffer position = .ok result := by
  have stopLe : stop ≤ 65536 := small
  induction fills with
  | done past =>
      rw [fillFrom, if_neg (Nat.not_lt.2 past)]
      rfl
  | next before inLow inHigh _ inductionHypothesis =>
      rw [fillFrom, if_pos before, bind_of_ok (fillWord_eq_ok inLow inHigh before small filler),
        require_bind_of_true (lt_modulus (by decide) (by omega)), inductionHypothesis]

theorem fillFrom_eq_ok
    (lowSized : stop ≤ 32 * buffer.low.size)
    (highSized : stop ≤ 32 * buffer.high.size)
    (small : stop ≤ maxWidth)
    (filler : Bit) :
    fillFrom stop filler buffer position = .ok { buffer with
      low := Words.fill buffer.low position stop filler.low
      high := Words.fill buffer.high position stop filler.high } := by
  obtain ⟨result, fills⟩ := Buffer.exists_fillsFrom lowSized highSized position filler
  rw [fillFrom_eq_ok_of_fillsFrom fills small, fills.eq_fill]

theorem fill_eq_ok
    (lowSized : buffer.low.size = wordCount buffer.width)
    (highSized : buffer.high.size = wordCount buffer.width)
    (small : buffer.width ≤ maxWidth)
    (first stop : Nat)
    (filler : Bit) :
    fill buffer first stop filler = .ok (buffer.fill first stop filler) := by
  have inWords := le_wordCount buffer.width
  exact fillFrom_eq_ok (by omega) (by omega) (by omega) filler

end Filling

theorem resized_eq_ok
    {buffer : Buffer}
    (notEmpty : 0 < buffer.width)
    {width : Nat}
    (widthPos : 0 < width)
    (small : width ≤ maxWidth)
    (signExtend : Bool) :
    resized buffer width signExtend = .ok (buffer.resized width signExtend) := by
  unfold resized Buffer.resized
  dsimp only
  cases signExtend with
  | false =>
      simp only [Bool.false_eq_true, false_and, and_false, if_false, pure_bind]
      exact maskTop_eq_ok widthPos (by simp) (by simp)
  | true =>
      simp only [if_true, true_and]
      by_cases wider : buffer.width < width
      · rw [if_pos ⟨wider, notEmpty⟩, bind_of_ok (msb_eq_ok notEmpty),
          bind_of_ok (fill_eq_ok (by simp) (by simp) small _ _ _)]
        exact maskTop_eq_ok widthPos (by simp [Buffer.fill]) (by simp [Buffer.fill])
      · rw [if_neg fun holds => wider holds.1]
        unfold Buffer.fill
        rw [pure_bind, Words.fill_of_le _ (by omega), Words.fill_of_le _ (by omega)]
        exact maskTop_eq_ok widthPos (by simp) (by simp)

/-! ## Inserting -/

/-- Add bits to a word. -/
def mark (words : Array Word) (index : Nat) (added : Word) : Guarded (Array Word) := do
  let word ← get words index
  set words index (word ||| added)

/-- Add a word of both planes, moved up inside the word it falls into. -/
def insertLower (bitOffset index : Nat) (buffer : Buffer) (word : Word × Word) :
    Guarded Buffer :=
  if index < buffer.low.size then do
    let lowAdded ← shiftLeft word.1 bitOffset
    let low ← mark buffer.low index lowAdded
    let highAdded ← shiftLeft word.2 bitOffset
    let high ← mark buffer.high index highAdded
    return { buffer with low, high }
  else return buffer

/-- Add what is left of a word of both planes to the next word. -/
def insertUpper (bitOffset index : Nat) (buffer : Buffer) (word : Word × Word) :
    Guarded Buffer :=
  if bitOffset ≠ 0 then do
    let next ← add 64 index 1
    if next < buffer.low.size then
      let amount ← sub 32 bitOffset
      let lowAdded ← shiftRight word.1 amount
      let low ← mark buffer.low next lowAdded
      let highAdded ← shiftRight word.2 amount
      let high ← mark buffer.high next highAdded
      return { buffer with low, high }
    else return buffer
  else return buffer

/-- Add one word of both planes of `source` to a buffer. -/
def insertWord (offset : Nat) (source buffer : Buffer) (number : Nat) : Guarded Buffer := do
  let index ← add 64 (offset / 32) number
  let lower ← insertLower (offset % 32) index buffer (source.word number)
  insertUpper (offset % 32) index lower (source.word number)

/-- Add the set bits of `source` from a position on, word by word. -/
def insert (buffer : Buffer) (offset : Nat) (source : Buffer) : Guarded Buffer :=
  if buffer.width ≤ offset then return buffer
  else do
    let inserted ← (List.range' 0 source.low.size).foldlM (insertWord offset source) buffer
    maskTop inserted

section Inserting

variable {buffer : Buffer} {bitOffset index : Nat}

theorem mark_eq_ok
    {words : Array Word}
    (inBounds : index < words.size)
    (added : Word) :
    mark words index added = .ok (words.modify index (· ||| added)) := by
  rw [mark, bind_of_ok (get_eq_ok inBounds), set_eq_ok inBounds,
    setIfInBounds_eq_modify words inBounds (· ||| added)]

theorem modify_of_size_le
    {words : Array Word}
    (outside : words.size ≤ index)
    (change : Word → Word) :
    words.modify index change = words := by
  apply Array.ext (by simp)
  intro other inModified inWords
  rw [Array.getElem_modify, if_neg (by omega)]

theorem insertLower_eq_ok
    (sameSize : buffer.high.size = buffer.low.size)
    (inWord : bitOffset < 32)
    (word : Word × Word) :
    insertLower bitOffset index buffer word = .ok { buffer with
      low := buffer.low.modify index (· ||| word.1 <<< bitOffset)
      high := buffer.high.modify index (· ||| word.2 <<< bitOffset) } := by
  unfold insertLower
  split
  · rename_i inBounds
    rw [bind_of_ok (shiftLeft_eq_ok _ inWord), bind_of_ok (mark_eq_ok inBounds _),
      bind_of_ok (shiftLeft_eq_ok _ inWord), bind_of_ok (mark_eq_ok (by omega) _)]
    rfl
  · rename_i outside
    rw [modify_of_size_le (by omega), modify_of_size_le (by omega)]
    rfl

theorem insertUpper_eq_ok
    (sameSize : buffer.high.size = buffer.low.size)
    (inWord : bitOffset < 32)
    (small : index ≤ maxWidth)
    (word : Word × Word) :
    insertUpper bitOffset index buffer word =
      .ok (if bitOffset = 0 then buffer else { buffer with
        low := buffer.low.modify (index + 1) (· ||| word.1 >>> (32 - bitOffset))
        high := buffer.high.modify (index + 1) (· ||| word.2 >>> (32 - bitOffset)) }) := by
  have indexLe : index ≤ 65536 := small
  unfold insertUpper
  by_cases aligned : bitOffset = 0
  · rw [if_neg (by omega), if_pos aligned]
    rfl
  · rw [if_pos aligned, if_neg aligned, bind_of_ok (add_eq_ok (lt_modulus (by decide) (by omega)))]
    split
    · rename_i inBounds
      rw [bind_of_ok (sub_eq_ok (by omega)), bind_of_ok (shiftRight_eq_ok _ (by omega)),
        bind_of_ok (mark_eq_ok inBounds _), bind_of_ok (shiftRight_eq_ok _ (by omega)),
        bind_of_ok (mark_eq_ok (by omega) _)]
      rfl
    · rename_i outside
      rw [modify_of_size_le (by omega), modify_of_size_le (by omega)]
      rfl

/-- One word of an insertion goes where `Words.deposit` puts it. -/
theorem insertWord_eq_ok
    (sameSize : buffer.high.size = buffer.low.size)
    {offset number : Nat}
    (small : offset / 32 + number ≤ maxWidth)
    (source : Buffer) :
    insertWord offset source buffer number = .ok { buffer with
      low := Words.deposit buffer.low (offset + 32 * number) [(source.word number).1]
      high := Words.deposit buffer.high (offset + 32 * number) [(source.word number).2] } := by
  have numberLe : offset / 32 + number ≤ 65536 := small
  have inWord := Nat.mod_lt offset (by decide : 0 < 32)
  have sameIndex : (offset + 32 * number) / 32 = offset / 32 + number := by omega
  have sameOffset : (offset + 32 * number) % 32 = offset % 32 := by omega
  rw [insertWord, bind_of_ok (add_eq_ok (lt_modulus (by decide) (by omega))),
    bind_of_ok (insertLower_eq_ok sameSize inWord _),
    insertUpper_eq_ok (by simpa using sameSize) inWord small]
  simp only [Words.deposit, sameIndex, sameOffset]
  split <;> rfl

theorem deposit_append
    (words : Array Word)
    (offset : Nat)
    (first second : List Word) :
    Words.deposit words offset (first ++ second) =
      Words.deposit (Words.deposit words offset first) (offset + 32 * first.length) second := by
  induction first generalizing words offset with
  | nil => rfl
  | cons word rest inductionHypothesis =>
      rw [List.cons_append, Words.deposit, inductionHypothesis, Words.deposit, List.length_cons]
      congr 1
      omega

theorem deposit_take_succ
    (words : Array Word)
    (offset : Nat)
    {source : Array Word}
    {number : Nat}
    (inBounds : number < source.size) :
    Words.deposit words offset (source.toList.take (number + 1)) =
      Words.deposit (Words.deposit words offset (source.toList.take number))
        (offset + 32 * number) [Words.word source number] := by
  have takesAll : (source.toList.take number).length = number := by simp; omega
  rw [List.take_add_one, deposit_append, takesAll, Words.word_of_lt _ inBounds]
  simp [inBounds]

/-- The words of an insertion go one by one where all of them go. -/
theorem foldlM_insertWord
    (sameSize : buffer.high.size = buffer.low.size)
    {source : Buffer}
    (sourceSameSize : source.high.size = source.low.size)
    {offset : Nat}
    (small : offset / 32 + source.low.size ≤ maxWidth) :
    (List.range' 0 source.low.size).foldlM (insertWord offset source) buffer =
      .ok { buffer with
        low := Words.deposit buffer.low offset source.low.toList
        high := Words.deposit buffer.high offset source.high.toList } := by
  let after (number : Nat) : Buffer := { buffer with
    low := Words.deposit buffer.low offset (source.low.toList.take number)
    high := Words.deposit buffer.high offset (source.high.toList.take number) }
  have each : ∀ number, 0 ≤ number → number < 0 + source.low.size →
      insertWord offset source (after number) number = .ok (after (number + 1)) := by
    intro number _ below
    rw [insertWord_eq_ok (by simpa [after] using sameSize)
      (show offset / 32 + number ≤ maxWidth by omega)]
    simp only [after, deposit_take_succ _ _ (show number < source.low.size by omega),
      deposit_take_succ _ _ (show number < source.high.size by omega)]
    rfl
  have finished : after (0 + source.low.size) = { buffer with
      low := Words.deposit buffer.low offset source.low.toList
      high := Words.deposit buffer.high offset source.high.toList } := by
    simp only [after, Nat.zero_add]
    rw [List.take_of_length_le (by simp), List.take_of_length_le (by simp [sourceSameSize])]
  rw [← finished]
  exact foldlM_range'_eq_ok after each

theorem insert_eq_ok
    (limits : buffer.InLimits)
    {source : Buffer}
    (sourceLimits : source.InLimits)
    (offset : Nat) :
    insert buffer offset source = .ok (buffer.insert offset source) := by
  have widthLe : buffer.width ≤ 65536 := limits.width_le
  have sourceLe : source.width ≤ 65536 := sourceLimits.width_le
  have sourceWords := wordCount_lt source.width
  have sourceSized := sourceLimits.canonical.size_low
  have sourceSameSize : source.high.size = source.low.size := by
    rw [sourceSized, sourceLimits.canonical.size_high]
  have sameSize : buffer.high.size = buffer.low.size := by
    rw [limits.canonical.size_low, limits.canonical.size_high]
  unfold insert Buffer.insert
  by_cases outside : buffer.width ≤ offset
  · rw [if_pos outside, if_neg (by omega)]
    rfl
  · rw [if_neg outside, if_pos (by omega), bind_of_ok (foldlM_insertWord sameSize sourceSameSize
      (show offset / 32 + source.low.size ≤ 65536 by omega))]
    exact maskTop_eq_ok limits.width_pos (by simpa using limits.canonical.size_low)
      (by simpa using limits.canonical.size_high)

end Inserting

/-! ## Shifting -/

/-- The value whose low and high words are computed one by one. -/
def tabulate (width : Nat) (wordAt : Nat → Guarded (Word × Word)) : Guarded Buffer := do
  let words ← Array.ofFnM fun index : Fin (wordCount width) => wordAt index
  maskTop {
    width
    signed := false
    low := words.map fun word => word.1
    high := words.map fun word => word.2 }

/-- Move every bit up by `amount`. -/
def shiftedLeft (buffer : Buffer) (amount : Nat) : Guarded Buffer :=
  let result := (Buffer.zero buffer.width).setSigned buffer.signed
  if amount < buffer.width then insert result amount buffer else return result

/-- The words that a shift to the right puts at an index. -/
def shiftedWord (buffer : Buffer) (amount index : Nat) : Guarded (Word × Word) := do
  let here ← add 64 index (amount / 32)
  let next ← add 64 here 1
  let low ← shiftRight (buffer.word here).1 (amount % 32)
  let high ← shiftRight (buffer.word here).2 (amount % 32)
  if amount % 32 ≠ 0 then
    let rest ← sub 32 (amount % 32)
    let nextLow ← shiftLeft (buffer.word next).1 rest
    let nextHigh ← shiftLeft (buffer.word next).2 rest
    return (low ||| nextLow, high ||| nextHigh)
  else return (low, high)

/-- Move every bit down by `amount`. -/
def shiftedRight (buffer : Buffer) (amount : Nat) : Guarded Buffer :=
  if buffer.width ≤ amount then
    return (Buffer.zero buffer.width).setSigned buffer.signed
  else do
    let result ← tabulate buffer.width (shiftedWord buffer amount)
    return result.setSigned buffer.signed

theorem tabulate_eq_ok
    {width : Nat}
    (notEmpty : 0 < width)
    {wordAt : Nat → Guarded (Word × Word)}
    {word : Nat → Word × Word}
    (each : ∀ index, index < wordCount width → wordAt index = .ok (word index)) :
    tabulate width wordAt = .ok (Buffer.tabulate width word) := by
  rw [tabulate, bind_of_ok (ofFnM_eq_ok each), maskTop_eq_ok notEmpty (by simp) (by simp),
    Array.map_ofFn, Array.map_ofFn]
  rfl

section Shifting

variable {buffer : Buffer}

theorem shiftedLeft_eq_ok
    (limits : buffer.InLimits)
    (amount : Nat) :
    shiftedLeft buffer amount = .ok (buffer.shiftLeft amount) := by
  have resultLimits : ((Buffer.zero buffer.width).setSigned buffer.signed).InLimits :=
    ⟨Buffer.canonical_setSigned (Buffer.canonical_zero _) _, limits.width_pos, limits.width_le⟩
  unfold shiftedLeft Buffer.shiftLeft
  split
  · exact insert_eq_ok resultLimits limits amount
  · rename_i outside
    have keeps : ¬amount < ((Buffer.zero buffer.width).setSigned buffer.signed).width := outside
    rw [Buffer.insert, if_neg keeps]
    rfl

theorem shiftedWord_eq_ok
    {amount index : Nat}
    (small : index + amount / 32 ≤ maxWidth) :
    shiftedWord buffer amount index =
      .ok (BitWord.window (Words.word buffer.low) (32 * index + amount),
        BitWord.window (Words.word buffer.high) (32 * index + amount)) := by
  have indexLe : index + amount / 32 ≤ 65536 := small
  have sameWord : (32 * index + amount) / 32 = index + amount / 32 := by omega
  have sameOffset : (32 * index + amount) % 32 = amount % 32 := by omega
  rw [shiftedWord, bind_of_ok (add_eq_ok (lt_modulus (by decide) (by omega))),
    bind_of_ok (add_eq_ok (lt_modulus (by decide) (by omega))),
    bind_of_ok (shiftRight_eq_ok _ (Nat.mod_lt _ (by decide))),
    bind_of_ok (shiftRight_eq_ok _ (Nat.mod_lt _ (by decide)))]
  unfold BitWord.window
  rw [sameWord, sameOffset]
  by_cases aligned : amount % 32 = 0
  · rw [if_neg (by omega), if_pos aligned, if_pos aligned, aligned]
    simp only [BitVec.ushiftRight_zero]
    rfl
  · rw [if_pos aligned, if_neg aligned, if_neg aligned, bind_of_ok (sub_eq_ok (by omega)),
      bind_of_ok (shiftLeft_eq_ok _ (by omega)), bind_of_ok (shiftLeft_eq_ok _ (by omega))]
    rfl

theorem shiftedRight_eq_ok
    (limits : buffer.InLimits)
    (amount : Nat) :
    shiftedRight buffer amount = .ok (buffer.shiftRight amount) := by
  have widthLe : buffer.width ≤ 65536 := limits.width_le
  unfold shiftedRight
  split
  · rename_i outside
    refine congrArg Except.ok (Buffer.Canonical.ext
      (Buffer.canonical_setSigned (Buffer.canonical_zero _) _)
      (Buffer.canonical_shiftRight limits.canonical amount) rfl rfl fun position => ?_)
    rw [Buffer.bit_shiftRight limits.canonical, buffer.bit_of_width_le (by omega)]
    exact Buffer.bit_zero _ _
  · rename_i inside
    have each : ∀ index, index < wordCount buffer.width →
        shiftedWord buffer amount index =
          .ok (BitWord.window (Words.word buffer.low) (32 * index + amount),
            BitWord.window (Words.word buffer.high) (32 * index + amount)) := by
      intro index inBounds
      have indexLt := wordCount_lt buffer.width
      exact shiftedWord_eq_ok (show index + amount / 32 ≤ 65536 by omega)
    rw [bind_of_ok (tabulate_eq_ok limits.width_pos each)]
    unfold Buffer.shiftRight Words.shiftRight
    rw [limits.canonical.size_low, limits.canonical.size_high]
    rfl

end Shifting

end Guarded
end FourState
