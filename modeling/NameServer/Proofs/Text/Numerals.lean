import Mathlib.Data.Nat.Digits.Defs
import NameServer.Address
import NameServer.Proofs.Name.Text
import NameServer.Proofs.Text.Fields

/-!
# Proofs.Text.Numerals — what numbers and addresses are read from

Numbers are shown by their decimal digits, without zeros in front. Every reader of numbers accepts
these, and so does the reader of addresses, which refuses zeros in front of an octet.

* `Text.decimalValue`, `Text.decimal?_eq_some_iff` — decimal numbers are read from digits, whatever
  zeros are in front, and each digit counts by its place;
* `Text.digitsFrom?_toDigits` — the value of the digits of a number is the number;
* `Text.word16?_toString`, `Text.word32?_toString` — so words are read as they are shown;
* `IPv4.ofText?_text` — and so are addresses;
* `Text.word_toString`, `IPv4.word_text` — both are fields of a line.
-/

namespace NameServer
namespace Text

variable {n bound : Nat}

/-! ## Digits -/

theorem digit?_digitChar (h : n < 10) : digit? n.digitChar = some n := by
  simp [digit?, Nat.isDigit_digitChar, h, Nat.toNat_digitChar_of_lt_ten h]

/-- Digits are read on where those in front of them end. -/
theorem digitsFrom?_append (value : Nat) (cs ds : List Char) :
    digitsFrom? value (cs ++ ds) = (digitsFrom? value cs).bind fun v => digitsFrom? v ds := by
  induction cs generalizing value with
  | nil => rfl
  | cons c cs ih =>
      simp only [List.cons_append, digitsFrom?]
      cases digit? c <;> simp [ih]

theorem digitsFrom?_toDigits (n : Nat) : digitsFrom? 0 (Nat.toDigits 10 n) = some n := by
  induction n using Nat.strongRecOn with
  | ind n ih =>
      by_cases h : n < 10
      · simp [Nat.toDigits_of_lt_base h, digitsFrom?, digit?_digitChar h]
      · -- The last digit is the remainder, and those in front of it are the digits of the quotient.
        have hsplit : Nat.toDigits 10 n = Nat.toDigits 10 (n / 10) ++ [(n % 10).digitChar] :=
          Nat.toDigits_of_base_le (by omega) (by omega)
        have hlast : digit? (n % 10).digitChar = some (n % 10) := digit?_digitChar (by omega)
        calc digitsFrom? 0 (Nat.toDigits 10 n)
            = (digitsFrom? 0 (Nat.toDigits 10 (n / 10))).bind fun v =>
                digitsFrom? v [(n % 10).digitChar] := by rw [hsplit, digitsFrom?_append]
          _ = digitsFrom? (n / 10) [(n % 10).digitChar] := by rw [ih (n / 10) (by omega)]; rfl
          _ = some (10 * (n / 10) + n % 10) := by simp [digitsFrom?, hlast]
          _ = some n := by rw [Nat.div_add_mod]

theorem isDigit_of_mem_toDigits {c : Char} (h : c ∈ Nat.toDigits 10 n) : c.isDigit = true :=
  Nat.isDigit_of_mem_toDigits (by decide) (by decide) h

theorem decimal?_toDigits (n : Nat) : decimal? (Nat.toDigits 10 n) = some n := by
  have hdigits := digitsFrom?_toDigits n
  cases hcs : Nat.toDigits 10 n with
  | nil => exact absurd hcs Nat.toDigits_ne_nil
  | cons c cs => rwa [hcs] at hdigits

/-- A digit is no plus sign, so nothing is taken off in front. -/
theorem unsigned?_toDigits (h : n < bound) : unsigned? bound (Nat.toDigits 10 n) = some n := by
  have hplus : ∀ cs, Nat.toDigits 10 n ≠ '+' :: cs := by
    intro cs hcs
    have hdigit : ('+').isDigit = true :=
      isDigit_of_mem_toDigits (n := n) (hcs ▸ List.mem_cons_self)
    exact absurd hdigit (by decide)
  unfold unsigned?
  split
  · rename_i rest hcs
    exact absurd hcs (hplus rest)
  · simp [decimal?_toDigits, h]

theorem toNat_of_isDigit {c : Char} (h : c.isDigit = true) : 48 ≤ c.toNat ∧ c.toNat ≤ 57 := by
  simpa [Char.isDigit, UInt32.le_iff_toNat_le] using h

theorem digit_lt {c : Char} (h : c.isDigit = true) : c.toNat - '0'.toNat < 10 := by
  have hrange := toNat_of_isDigit h
  have hzero : '0'.toNat = 48 := rfl
  omega

/-- The number that decimal digits spell: each counts by its place, the last one for units. -/
def decimalValue (cs : List Char) : Nat :=
  Nat.ofDigits 10 (cs.reverse.map fun c => c.toNat - '0'.toNat)

theorem decimalValue_cons (c : Char) (cs : List Char) :
    decimalValue (c :: cs) = 10 ^ cs.length * (c.toNat - '0'.toNat) + decimalValue cs := by
  simp [decimalValue, Nat.ofDigits_append, Nat.add_comm]

/-- Digits behind others make these count for more by a factor of ten each. -/
theorem shift_decimalValue (value : Nat) (c : Char) (cs : List Char) :
    10 ^ (c :: cs).length * value + decimalValue (c :: cs) =
      10 ^ cs.length * (10 * value + (c.toNat - '0'.toNat)) + decimalValue cs := by
  rw [decimalValue_cons, List.length_cons, Nat.pow_succ, Nat.mul_add, Nat.mul_assoc, Nat.add_assoc]

theorem digitsFrom?_eq_some_iff {value : Nat} {cs : List Char} : digitsFrom? value cs = some n ↔
    (∀ c ∈ cs, c.isDigit = true) ∧ 10 ^ cs.length * value + decimalValue cs = n := by
  induction cs generalizing value with
  | nil => simp [digitsFrom?, decimalValue]
  | cons c cs ih =>
      rw [digitsFrom?, List.forall_mem_cons, shift_decimalValue]
      by_cases hc : c.isDigit = true
      · simp [digit?, hc, ih]
      · simp [digit?, hc]

theorem decimal?_eq_some_iff {cs : List Char} : decimal? cs = some n ↔
    cs ≠ [] ∧ (∀ c ∈ cs, c.isDigit = true) ∧ decimalValue cs = n := by
  cases cs with
  | nil => simp [decimal?]
  | cons c cs =>
      rw [decimal?, digitsFrom?_eq_some_iff, Nat.mul_zero, Nat.zero_add]
      · simp
      · simp

/-! ## Words -/

theorem toList_toString (n : Nat) : (toString n).toList = Nat.toDigits 10 n := by
  simp [toString, Nat.repr]

theorem word16?_toString (w : UInt16) : word16? (toString w).toList = some w := by
  change word16? (toString w.toNat).toList = some w
  rw [toList_toString, word16?, unsigned?_toDigits w.toNat_lt]
  simp

theorem word32?_toString (w : UInt32) : word32? (toString w).toList = some w := by
  change word32? (toString w.toNat).toList = some w
  rw [toList_toString, word32?, unsigned?_toDigits w.toNat_lt]
  simp

/-! ## Fields -/

/-- No digit is white space. -/
theorem word_toString (n : Nat) : Word (toString n).toList := by
  rw [toList_toString]
  refine ⟨Nat.toDigits_ne_nil, ?_⟩
  intro c hc
  have hrange := toNat_of_isDigit (isDigit_of_mem_toDigits hc)
  simp only [isBlank]
  simp
  omega

/-- Words with a character between them that is not white space are a word. -/
theorem Word.append {c : Char} {front back : List Char} (hfront : Word front)
    (hc : isBlank c = false) (hback : Word back) : Word (front ++ c :: back) where
  ne := by simp
  solid := by
    intro d hd
    rcases List.mem_append.1 hd with hd | hd
    · exact hfront.solid d hd
    · rcases List.mem_cons.1 hd with rfl | hd
      · exact hc
      · exact hback.solid d hd

end Text

/-! ## Addresses -/

namespace IPv4

/-- The digits of a byte are not too many, and a zero in front stands alone. -/
theorem octet?_toString (b : UInt8) : octet? (toString b).toList = some b := by
  have hall : ∀ n < 256, octet? (Nat.toDigits 10 n) = some (UInt8.ofNat n) := by decide +kernel
  change octet? (toString b.toNat).toList = some b
  rw [Text.toList_toString, hall b.toNat b.toNat_lt, UInt8.ofNat_toNat]

theorem dot_not_mem_toString (b : UInt8) : '.' ∉ (toString b).toList := by
  intro h
  change '.' ∈ (toString b.toNat).toList at h
  rw [Text.toList_toString] at h
  exact absurd (Text.isDigit_of_mem_toDigits h) (by decide)

theorem toList_text (address : IPv4) : address.text.toList =
    (toString address.a).toList ++ '.' :: ((toString address.b).toList ++
      '.' :: ((toString address.c).toList ++ '.' :: (toString address.d).toList)) := by
  change (toString address.a ++ "." ++ toString address.b ++ "." ++ toString address.c ++ "." ++
    toString address.d).toList = _
  simp [String.toList_append]

/-- Digits have no dot among them, so the octets are the pieces between the dots. -/
theorem ofText?_text (address : IPv4) : ofText? address.text = some address := by
  have hpieces : Text.splitOn '.' address.text.toList =
      [(toString address.a).toList, (toString address.b).toList, (toString address.c).toList,
        (toString address.d).toList] := by
    rw [toList_text, Text.splitOn_append (dot_not_mem_toString _),
      Text.splitOn_append (dot_not_mem_toString _), Text.splitOn_append (dot_not_mem_toString _),
      Text.splitOn_of_not_mem (dot_not_mem_toString _)]
  simp [ofText?, ofChars?, hpieces, octet?_toString]

/-- An address is a field of a line. -/
theorem word_text (address : IPv4) : Text.Word address.text.toList := by
  have hdot : Text.isBlank '.' = false := rfl
  have hoctet : ∀ b : UInt8, Text.Word (toString b).toList := fun b => Text.word_toString b.toNat
  rw [toList_text]
  exact (hoctet _).append hdot ((hoctet _).append hdot ((hoctet _).append hdot (hoctet _)))

end IPv4
end NameServer
