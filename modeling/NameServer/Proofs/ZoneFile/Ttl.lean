import NameServer.Proofs.Text.Numerals
import NameServer.ZoneFile.Ttl

/-!
# Proofs.ZoneFile.Ttl — which texts name a lifetime

A lifetime is written in digits, with a letter behind them when they do not count seconds. It is the
exact product of the number and the unit, and it is refused when it is too long.

* `Ttl.Spells` — a text spells a number of seconds, however many those are;
* `Ttl.ofText_of_spells`, `Ttl.exists_spells` — what becomes of a text that does, and of another;
* `Ttl.ofText_le`, `Ttl.ofText_toString` — no lifetime is too long, and one is read as it is shown;
* `Ttl.inWords` — the same in words of 64 bits, where each step is refused that would not fit;
* `Ttl.ofText_exact` — texts with a lifetime spell it, and words of 64 bits are wide enough to tell.
-/

namespace NameServer
namespace Ttl

variable {text : String} {ttl : UInt32} {digits suffix : List Char} {seconds unit : Nat}

/-! ## Texts that spell a lifetime -/

/-- What may stand behind the digits of a lifetime, and the seconds that each of them counts for. -/
inductive Suffix : List Char → Nat → Prop
  | seconds : Suffix [] 1
  | hours {c : Char} : c = 'h' ∨ c = 'H' → Suffix [c] 3600
  | days {c : Char} : c = 'd' ∨ c = 'D' → Suffix [c] 86400

/-- The text is one or more decimal digits and a suffix, and `seconds` is the product of what they
stand for. -/
def Spells (text : String) (seconds : Nat) : Prop :=
  ∃ digits suffix unit, text.toList = digits ++ suffix ∧ digits ≠ [] ∧
    (∀ c ∈ digits, c.isDigit = true) ∧ Suffix suffix unit ∧
    Text.decimalValue digits * unit = seconds

theorem unit?_eq_some_iff {c : Char} : unit? c = some unit ↔ Suffix [c] unit := by
  constructor
  · intro h
    unfold unit? at h
    split at h
    · cases h
      exact .days (.inl rfl)
    · cases h
      exact .days (.inr rfl)
    · cases h
      exact .hours (.inl rfl)
    · cases h
      exact .hours (.inr rfl)
    · cases h
  · rintro (- | ⟨rfl | rfl⟩ | ⟨rfl | rfl⟩) <;> rfl

/-- No digit is a unit. -/
theorem unit?_of_isDigit {c : Char} (h : c.isDigit = true) : unit? c = none := by
  unfold unit?
  split <;> first | rfl | exact absurd h (by decide)

/-- Behind digits, a suffix is cut off whole. -/
theorem cutUnit_append (hdigits : ∀ c ∈ digits, c.isDigit = true) (hsuffix : Suffix suffix unit) :
    cutUnit (digits ++ suffix) = (digits, unit) := by
  -- Without a suffix the last character is a digit, with one it is the letter.
  cases suffix with
  | nil =>
      cases hsuffix
      have hnone : digits.getLast?.bind unit? = none := by
        cases hlast : digits.getLast? with
        | none => rfl
        | some c => exact unit?_of_isDigit (hdigits c (List.mem_of_getLast? hlast))
      rw [cutUnit, List.append_nil, hnone]
  | cons c rest =>
      have hrest : rest = [] := by cases hsuffix <;> rfl
      subst hrest
      rw [cutUnit, List.getLast?_concat, Option.bind_some, unit?_eq_some_iff.2 hsuffix,
        List.dropLast_concat]

/-- What is cut off is a suffix. -/
theorem exists_suffix (cs : List Char) :
    ∃ suffix, cs = (cutUnit cs).1 ++ suffix ∧ Suffix suffix (cutUnit cs).2 := by
  unfold cutUnit
  split
  · rename_i unit hunit
    rcases Option.bind_eq_some_iff.1 hunit with ⟨c, hlast, hc⟩
    exact ⟨[c], (List.dropLast_append_getLast? c hlast).symm, unit?_eq_some_iff.1 hc⟩
  · exact ⟨[], (List.append_nil cs).symm, .seconds⟩

theorem spells_iff : Spells text seconds ↔
    ∃ count, Text.decimal? (cutUnit text.toList).1 = some count ∧
      count * (cutUnit text.toList).2 = seconds := by
  constructor
  · rintro ⟨digits, suffix, unit, htext, hne, hdigits, hsuffix, hseconds⟩
    rw [htext, cutUnit_append hdigits hsuffix]
    exact ⟨_, Text.decimal?_eq_some_iff.2 ⟨hne, hdigits, rfl⟩, hseconds⟩
  · rintro ⟨count, hcount, hseconds⟩
    rcases Text.decimal?_eq_some_iff.1 hcount with ⟨hne, hdigits, rfl⟩
    rcases exists_suffix text.toList with ⟨suffix, htext, hsuffix⟩
    exact ⟨_, suffix, _, htext, hne, hdigits, hsuffix, hseconds⟩

/-! ## What becomes of a text -/

/-- A text that spells some seconds is a lifetime unless these are too many. -/
theorem ofText_of_spells (h : Spells text seconds) :
    ofText text =
      if seconds ≤ maxSeconds then .ok (UInt32.ofNat seconds) else .error (.largeTtl text) := by
  rcases spells_iff.1 h with ⟨count, hcount, rfl⟩
  simp only [Ttl.ofText, hcount]

/-- Every other text is no lifetime at all. -/
theorem exists_spells (h : ofText text ≠ .error (.badTtl text)) : ∃ seconds, Spells text seconds := by
  cases hcount : Text.decimal? (cutUnit text.toList).1 with
  | none => exact absurd (by simp only [Ttl.ofText, hcount]) h
  | some count => exact ⟨_, spells_iff.2 ⟨count, hcount, rfl⟩⟩

/-- As a word of 32 bits, a lifetime that is not too long is itself. -/
theorem toNat_ofNat (h : seconds ≤ maxSeconds) : (UInt32.ofNat seconds).toNat = seconds := by
  unfold maxSeconds at h
  rw [UInt32.toNat_ofNat', Nat.mod_eq_of_lt (by omega)]

theorem ofText_eq_ok_iff :
    ofText text = .ok ttl ↔ Spells text ttl.toNat ∧ ttl.toNat ≤ maxSeconds := by
  constructor
  · intro h
    have hnotBad : ofText text ≠ .error (.badTtl text) := by simp [h]
    rcases exists_spells hnotBad with ⟨seconds, hspells⟩
    rw [ofText_of_spells hspells] at h
    split at h
    · rename_i hle
      cases h
      rw [toNat_ofNat hle]
      exact ⟨hspells, hle⟩
    · cases h
  · rintro ⟨hspells, hle⟩
    rw [ofText_of_spells hspells, if_pos hle, UInt32.ofNat_toNat]

theorem ofText_eq_large_iff :
    ofText text = .error (.largeTtl text) ↔ ∃ seconds, Spells text seconds ∧ maxSeconds < seconds := by
  constructor
  · intro h
    have hnotBad : ofText text ≠ .error (.badTtl text) := by simp [h]
    rcases exists_spells hnotBad with ⟨seconds, hspells⟩
    rw [ofText_of_spells hspells] at h
    split at h
    · cases h
    · exact ⟨seconds, hspells, by omega⟩
  · rintro ⟨seconds, hspells, hlt⟩
    rw [ofText_of_spells hspells, if_neg (by omega)]

theorem ofText_le (h : ofText text = .ok ttl) : ttl.toNat ≤ maxSeconds :=
  (ofText_eq_ok_iff.1 h).2

/-- A lifetime that is not too long is read as it is shown. -/
theorem ofText_toString (h : ttl.toNat ≤ maxSeconds) : ofText (toString ttl) = .ok ttl := by
  have htext : (toString ttl).toList = Nat.toDigits 10 ttl.toNat := Text.toList_toString ttl.toNat
  rcases Text.decimal?_eq_some_iff.1 (Text.decimal?_toDigits ttl.toNat) with ⟨hne, hdigits, hvalue⟩
  refine ofText_eq_ok_iff.2 ⟨⟨_, [], 1, ?_, hne, hdigits, .seconds, ?_⟩, h⟩
  · rw [htext, List.append_nil]
  · rw [hvalue, Nat.mul_one]

/-! ## Words of 64 bits -/

/-- The word of a number that fits 64 bits. -/
def word? (n : Nat) : Option UInt64 :=
  if n < UInt64.size then some (UInt64.ofNat n) else none

/-- The product of two words, unless it would not fit. -/
def mul? (a b : UInt64) : Option UInt64 :=
  if a.toNat * b.toNat < UInt64.size then some (a * b) else none

/-- The sum of two words, unless it would not fit. -/
def add? (a b : UInt64) : Option UInt64 :=
  if a.toNat + b.toNat < UInt64.size then some (a + b) else none

/-- The word that digits spell behind others worth `value`, unless it would not fit. -/
def digitsWord? (value : UInt64) : List Char → Option UInt64
  | [] => some value
  | c :: cs => do
    let tens ← mul? value 10
    let next ← add? tens (UInt64.ofNat (c.toNat - '0'.toNat))
    digitsWord? next cs

/-- The lifetime that a text names, calculated in words: the digits one by one, the product with the
unit, and the bound, before the word is cut down to 32 bits. -/
def inWords (text : String) : Except EntryError UInt32 :=
  let (digits, unit) := cutUnit text.toList
  if digits.isEmpty || !digits.all Char.isDigit then .error (.badTtl text)
  else
    let seconds := (digitsWord? 0 digits).bind fun count => mul? count (UInt64.ofNat unit)
    match seconds.filter (· ≤ 0x7FFFFFFF) with
    | none => .error (.largeTtl text)
    | some seconds => .ok seconds.toUInt32

theorem mul?_eq (a b : UInt64) : mul? a b = word? (a.toNat * b.toNat) := by
  unfold mul? word?
  rw [UInt64.ofNat_mul, UInt64.ofNat_toNat, UInt64.ofNat_toNat]

theorem add?_eq (a b : UInt64) : add? a b = word? (a.toNat + b.toNat) := by
  unfold add? word?
  rw [UInt64.ofNat_add, UInt64.ofNat_toNat, UInt64.ofNat_toNat]

theorem word?_of_lt {n : Nat} (h : n < UInt64.size) : ∃ w, word? n = some w ∧ w.toNat = n :=
  ⟨UInt64.ofNat n, if_pos h, UInt64.toNat_ofNat_of_lt' h⟩

theorem word?_of_le {n : Nat} (h : UInt64.size ≤ n) : word? n = none :=
  if_neg (Nat.not_lt_of_le h)

theorem word?_toNat (w : UInt64) : word? w.toNat = some w := by
  rw [word?, if_pos w.toNat_lt_size, UInt64.ofNat_toNat]

/-- One more digit makes the word of the number with this digit, if there is one. -/
theorem push_eq {c : Char} (hc : c.isDigit = true) (value : UInt64) :
    ((mul? value 10).bind fun tens => add? tens (UInt64.ofNat (c.toNat - '0'.toNat))) =
      word? (10 * value.toNat + (c.toNat - '0'.toNat)) := by
  have hdigit : (UInt64.ofNat (c.toNat - '0'.toNat)).toNat = c.toNat - '0'.toNat := by
    have hsmall := Text.digit_lt hc
    exact UInt64.toNat_ofNat_of_lt' (Nat.lt_trans hsmall (by decide))
  have hten : (10 : UInt64).toNat = 10 := rfl
  rw [mul?_eq, hten, Nat.mul_comm]
  by_cases hfit : 10 * value.toNat < UInt64.size
  · rcases word?_of_lt hfit with ⟨tens, htens, hvalue⟩
    rw [htens, Option.bind_some, add?_eq, hvalue, hdigit]
  · rw [word?_of_le (by omega), word?_of_le (by omega), Option.bind_none]

/-- Once a number does not fit, no digits behind it make it fit again. -/
theorem digitsWord?_eq (hdigits : ∀ c ∈ digits, c.isDigit = true) (value : UInt64) :
    digitsWord? value digits =
      word? (10 ^ digits.length * value.toNat + Text.decimalValue digits) := by
  -- By induction on the digits, with the value of those in front as an accumulator.
  induction digits generalizing value with
  | nil => simp [digitsWord?, Text.decimalValue, word?_toNat]
  | cons c cs ih =>
      rw [List.forall_mem_cons] at hdigits
      have hpush : digitsWord? value (c :: cs) =
          ((mul? value 10).bind fun tens => add? tens (UInt64.ofNat (c.toNat - '0'.toNat))).bind
            fun next => digitsWord? next cs := (Option.bind_assoc _ _ _).symm
      rw [hpush, push_eq hdigits.1, Text.shift_decimalValue]
      by_cases hfit : 10 * value.toNat + (c.toNat - '0'.toNat) < UInt64.size
      · rcases word?_of_lt hfit with ⟨next, hnext, hvalue⟩
        rw [hnext, Option.bind_some, ih hdigits.2, hvalue]
      · -- The factor that later digits bring with them does not make it smaller.
        have hpow : 0 < 10 ^ cs.length := Nat.pow_pos (by decide)
        have hgrow := Nat.le_mul_of_pos_left (10 * value.toNat + (c.toNat - '0'.toNat)) hpow
        rw [word?_of_le (by omega), word?_of_le (by omega), Option.bind_none]

theorem Suffix.bounds (h : Suffix suffix unit) : 0 < unit ∧ unit < UInt64.size := by
  cases h <;> decide

/-- Where the product is not too long, neither it nor the number takes more than 64 bits. -/
theorem filter_mul?_eq (hunit : 0 < unit ∧ unit < UInt64.size) (count : Nat) :
    ((word? count).bind fun w => mul? w (UInt64.ofNat unit)).filter (· ≤ 0x7FFFFFFF) =
      if count * unit ≤ maxSeconds then some (UInt64.ofNat (count * unit)) else none := by
  have hgrow : count ≤ count * unit := Nat.le_mul_of_pos_right count hunit.1
  have hproduct : ((word? count).bind fun w => mul? w (UInt64.ofNat unit)) =
      word? (count * unit) := by
    by_cases hfit : count < UInt64.size
    · rcases word?_of_lt hfit with ⟨w, hw, hvalue⟩
      rw [hw, Option.bind_some, mul?_eq, hvalue, UInt64.toNat_ofNat_of_lt' hunit.2]
    · rw [word?_of_le (by omega), word?_of_le (by omega), Option.bind_none]
  have hmax : maxSeconds < UInt64.size := by decide
  rw [hproduct]
  -- A product that fits is compared as it is; one that does not fit is above the bound.
  by_cases hfit : count * unit < UInt64.size
  · have hbound : UInt64.ofNat (count * unit) ≤ 0x7FFFFFFF ↔ count * unit ≤ maxSeconds := by
      rw [UInt64.le_iff_toNat_le, UInt64.toNat_ofNat_of_lt' hfit]
      rfl
    rw [word?, if_pos hfit, Option.filter_some]
    simp only [hbound, decide_eq_true_eq]
  · rw [word?_of_le (by omega), if_neg (by omega), Option.filter_none]

/-- Words are wide enough: what does not fit one is no lifetime either. -/
theorem inWords_eq (text : String) : inWords text = ofText text := by
  rcases exists_suffix text.toList with ⟨suffix, -, hsuffix⟩
  unfold inWords ofText
  cases hcut : cutUnit text.toList with
  | mk digits unit =>
      rw [hcut] at hsuffix
      dsimp only
      -- The shape of the digits decides which error it is, before any of them is calculated with.
      cases hcount : Text.decimal? digits with
      | none =>
          have hshape : (digits.isEmpty || !digits.all Char.isDigit) = true := by
            by_contra hshape
            have hgood : digits ≠ [] ∧ ∀ c ∈ digits, c.isDigit = true := by simpa using hshape
            rw [Text.decimal?_eq_some_iff.2 ⟨hgood.1, hgood.2, rfl⟩] at hcount
            cases hcount
          rw [hshape]
          rfl
      | some count =>
          rcases Text.decimal?_eq_some_iff.1 hcount with ⟨hne, hdigits, hvalue⟩
          have hshape : (digits.isEmpty || !digits.all Char.isDigit) = false := by
            simpa using ⟨hne, hdigits⟩
          have hword : digitsWord? 0 digits = word? count := by
            rw [digitsWord?_eq hdigits, hvalue]
            simp
          rw [hshape, hword, filter_mul?_eq hsuffix.bounds]
          by_cases hle : count * unit ≤ maxSeconds
          · simp [hle]
          · simp [hle]

/-! ## The lifetimes of texts -/

/-- A text has a lifetime when it spells one of at most 2³¹ - 1 seconds; one that spells more is too
large, however much more; and words of 64 bits that are checked at each step come to the same. -/
theorem ofText_exact (text : String) :
    (∀ ttl, ofText text = .ok ttl ↔ Spells text ttl.toNat ∧ ttl.toNat ≤ 2 ^ 31 - 1) ∧
    (ofText text = .error (.largeTtl text) ↔ ∃ seconds, Spells text seconds ∧ 2 ^ 31 - 1 < seconds) ∧
    inWords text = ofText text :=
  ⟨fun _ => ofText_eq_ok_iff, ofText_eq_large_iff, inWords_eq text⟩

-- The most days that a lifetime has, behind zeros, and days whose seconds are 61184 modulo 2⁶⁴.
example : ofText "0000000000000000000000024855D" = .ok 2147472000 := by decide +kernel
example : inWords "213503982334602d" = .error (.largeTtl "213503982334602d") := by decide +kernel

end Ttl
end NameServer
