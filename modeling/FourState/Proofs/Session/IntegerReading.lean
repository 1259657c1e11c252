import FourState.Proofs.IntegerReading
import FourState.Proofs.Session.Arithmetic

/-!
# Machine integers in a session

In every session that commands lead to, the integer readings of an allocated vector agree
with one integer, and a number that is assigned to it is cut to its width.  A machine word
is assigned as its number up to 64 bits; a negative one loses its sign in a wider vector.
-/

namespace FourState
namespace Session

variable {clipped : Plane → Prop}

/-- What the integer readings of a name tell, and what assigning a natural number does to it. -/
structure ConvertsIntegers (session : Session) (target : session.AllocatedName) : Prop where
  /-- A known vector is read as its two's complement value if it is signed, and as its
  unsigned one if it is not. -/
  reads : target.vector.IsKnown →
    target.vector.ReadsInteger (target.vector.integer target.vector.signed)
  assigns : ∀ number : Nat, ∃ updated,
    session.Leaves (.update target.name (.setNat number)) target.name updated ∧
    updated.toHeader = target.vector.toHeader ∧ updated.Holds number
  /-- A known vector that is assigned what it is read as shows the same bits. -/
  restores : target.vector.IsKnown → ∀ number, target.vector.toNat = .ok number →
    (session.apply (.update target.name (.setNat number))).2.result = .ok (.flag false) ∧
    ∃ updated,
      session.Leaves (.update target.name (.setNat number)) target.name updated ∧
      ∀ position, updated.bit? position = target.vector.bit? position

/-- A number that a vector takes is given to its name, with the answer of the vector. -/
theorem Sound.leaves_setNat
    {session : Session}
    (sound : session.Sound clipped)
    (target : session.AllocatedName)
    {updated : LogicVector}
    {number : Nat}
    {changed : Bool}
    (sets : target.vector.setNat number = .ok (updated, changed)) :
    (session.apply (.update target.name (.setNat number))).2.result = .ok (.flag changed) ∧
      session.Leaves (.update target.name (.setNat number)) target.name updated := by
  have resolves : (Update.setNat number).traverse session.vector = .ok (.setNat number) := rfl
  have updates : (target.vector.update (.setNat number)).result = .ok (updated, .flag changed) :=
    Outcome.ofFlagged_of_ok sets
  obtain ⟨-, succeeds, -, -⟩ := sound.exists_noteRead_of_update target.reads resolves updates
  exact ⟨succeeds, sound.leaves_update target.reads resolves (fun _ _ _ => nofun) updates⟩

/-- In every session that commands lead to, an allocated vector of any kind and width converts
integers in this way. -/
theorem convertsIntegers_run_empty
    (commands : List Command)
    (target : (Session.empty.run commands).AllocatedName) :
    (Session.empty.run commands).ConvertsIntegers target where
  reads known := target.readable.readsInteger known
  assigns number := by
    obtain ⟨updated, changed, sets, sameHeader, -, holds⟩ :=
      LogicVector.exists_setNat target.readable number
    exact ⟨updated, ((sound_run_empty commands).leaves_setNat target sets).2, sameHeader, holds⟩
  restores known number readsNumber := by
    rw [LogicVector.toNat_eq target.readable known] at readsNumber
    cases readsNumber
    obtain ⟨updated, sets, sameBits⟩ := LogicVector.setNat_toNat target.readable known
    obtain ⟨answers, leaves⟩ := (sound_run_empty commands).leaves_setNat target sets
    exact ⟨answers, updated, leaves, sameBits⟩

/-- A negative number one bit wider than a word. -/
def belowWords : List Command :=
  [.literal "v" ['3', '3', '\x27', 's', 'h', '1', '0', '0', '0', '0', '0', '0', '0', '5']]

theorem convertsIntegers_run_empty_belowWords :
    ∃ target : (Session.empty.run belowWords).AllocatedName, ∃ low high number,
      target.name = "v" ∧ target.vector.IsKnown ∧
      target.vector.integer target.vector.signed = -4294967291 ∧
      target.vector.low32 = .ok low ∧ low.toInt ≡ -4294967291 [ZMOD 2 ^ 32] ∧
      target.vector.low64 = .ok high ∧ (high.toNat : Int) = -4294967291 % 2 ^ 64 ∧
      target.vector.toNat = .ok number ∧
      ((Session.empty.run belowWords).apply (.update "v" (.setNat number))).2.result =
        .ok (.flag false) := by
  obtain ⟨target, isTarget, known, isNegative⟩ :
      ∃ target : (Session.empty.run belowWords).AllocatedName,
        target.name = "v" ∧ target.vector.IsKnown ∧
        target.vector.integer target.vector.signed = -4294967291 :=
    ⟨⟨"v", _, rfl, rfl⟩, rfl, by decide +kernel, by decide +kernel⟩
  have converts := convertsIntegers_run_empty belowWords target
  have readsNumber := converts.reads known
  rw [isNegative] at readsNumber
  obtain ⟨low, readsLow, lowAgrees⟩ := readsNumber.low32
  obtain ⟨high, readsHigh, highAgrees⟩ := readsNumber.low64
  obtain ⟨number, readsNat, -⟩ := readsNumber.toNat
  have answers := (converts.restores known number readsNat).1
  rw [isTarget] at answers
  exact ⟨target, low, high, number, isTarget, known, isNegative, readsLow, lowAgrees, readsHigh,
    highAgrees, readsNat, answers⟩

/-! ## Machine words -/

/-- In every session that commands lead to, a two's complement word is assigned to an allocated
vector of any kind and width by way of 64 bits.  The vector holds the number of the word exactly
if it is at most 64 bits wide or the number is not negative. -/
theorem assignsWord_run_empty
    (commands : List Command)
    (target : (Session.empty.run commands).AllocatedName)
    (number : Word) :
    ∃ updated,
      (Session.empty.run commands).Leaves (.update target.name (.setWord number)) target.name
        updated ∧
      updated.toHeader = target.vector.toHeader ∧
      updated.Holds (number.signExtend 64).toNat ∧
      (32 ≤ target.vector.width → updated.low32 = .ok number) ∧
      (target.vector.width ≤ 64 ∨ 0 ≤ number.toInt → updated.ShowsWord number) ∧
      (updated.Holds number.toInt → target.vector.width ≤ 64 ∨ 0 ≤ number.toInt) := by
  obtain ⟨updated, changed, sets, shows⟩ := LogicVector.exists_setWord target.readable number
  refine ⟨updated, ?_, shows⟩
  exact (sound_run_empty commands).leaves_update target.reads rfl (fun _ _ _ => nofun)
    (Outcome.ofFlagged_of_ok sets)

/-- A signed vector that is just as wide as the way of a word, and shows an `x` in each bit. -/
def sixtyFourUnknown : List Command := [.create "s" 64 .signal true (some true) none]

theorem assignsWord_run_empty_sixtyFourUnknown :
    ∃ updated text,
      (Session.empty.run sixtyFourUnknown).Leaves (.update "s" (.setWord (-3))) "s" updated ∧
      updated.Holds (-3) ∧ updated.low32 = .ok (-3) ∧
      updated.render .decimal = .ok text ∧ Numeral.IsDecimal (-3) text := by
  obtain ⟨target, isTarget, wide, signed⟩ :
      ∃ target : (Session.empty.run sixtyFourUnknown).AllocatedName,
        target.name = "s" ∧ target.vector.width = 64 ∧ target.vector.signed = true :=
    ⟨⟨"s", _, rfl, rfl⟩, rfl, rfl, rfl⟩
  obtain ⟨updated, leaves, sameHeader, -, readsBack, shows, -⟩ :=
    assignsWord_run_empty sixtyFourUnknown target (-3)
  rw [isTarget] at leaves
  have showsWord := shows (Or.inl wide.le)
  obtain ⟨text, renders, isDecimal⟩ := showsWord.decimal
    ((congrArg Header.signed sameHeader).trans signed)
    ((congrArg Header.width sameHeader).trans wide ▸ by decide)
  exact ⟨updated, text, leaves, showsWord.holds, readsBack (wide ▸ by decide), renders, isDecimal⟩

/-- A signed vector one bit wider than the way of a word. -/
def pastSixtyFour : List Command := [.create "v" 65 .plain true (some true) none]

/-- Minus one is not the number of this vector after it has been assigned. -/
theorem assignsWord_run_empty_losesSign :
    ∃ target updated,
      (Session.empty.run pastSixtyFour).vector "v" = .ok target ∧
      target.storage.isAllocated = true ∧ target.signed = true ∧ target.width = 65 ∧
      (-1 : Word).toInt = -1 ∧
      (Session.empty.run pastSixtyFour).Leaves (.update "v" (.setWord (-1))) "v" updated ∧
      updated.integer false = 18446744073709551615 ∧ ¬updated.Holds (-1) ∧
      (updated.render .decimal).toOption = some "18446744073709551615".toList := by
  refine ⟨_, _, rfl, rfl, rfl, rfl, by decide, ⟨⟨_, rfl⟩, rfl⟩, by decide +kernel, ?_,
    by decide +kernel⟩
  intro holds
  exact absurd holds.integer_eq (by decide +kernel)

end Session
end FourState
