/-!
# Text.Utf8 — text and its bytes

`Text.bytes` and `Text.ofBytes?` are inverse to each other; `Text.lossy` reads any bytes and puts
the replacement character in the place of what is not UTF-8.
-/

namespace NameServer
namespace Text

/-! ## Exact -/

/-- The UTF-8 bytes of a text. -/
def bytes (text : String) : List UInt8 :=
  text.toByteArray.data.toList

/-- The text with these UTF-8 bytes, if they are valid. -/
def ofBytes? (bs : List UInt8) : Option String :=
  String.fromUTF8? ⟨bs.toArray⟩

theorem length_bytes (text : String) : (bytes text).length = text.utf8ByteSize := by
  simp [bytes]

theorem ofBytes?_bytes (text : String) : ofBytes? (bytes text) = some text := by
  unfold ofBytes? bytes String.fromUTF8?
  exact dif_pos text.isValidUTF8

theorem bytes_of_ofBytes? {bs : List UInt8} {text : String} (h : ofBytes? bs = some text) :
    bytes text = bs := by
  unfold ofBytes? String.fromUTF8? at h
  split at h
  · cases h
    simp [bytes, String.fromUTF8]
  · cases h

/-! ## Byte by byte -/

/-- A character whose first bytes have been read: the value so far, how many bytes it still owes,
and the range the next of them has to be in. -/
structure Pending where
  value : Nat
  owed : Nat
  low : UInt8
  high : UInt8
  deriving DecidableEq, Repr

/-- What one more byte leads to. -/
inductive Reading
  | complete (c : Char)
  | pending (p : Pending)
  | refused
  deriving DecidableEq, Repr

/-- A byte at the start of a character. -/
def firstByte (b : UInt8) : Reading :=
  let n := b.toNat
  if n < 0x80 then .complete (Char.ofNat n)
  else if n < 0xC2 then .refused
  else if n < 0xE0 then .pending ⟨n - 0xC0, 1, 0x80, 0xBF⟩
  else if n = 0xE0 then .pending ⟨0, 2, 0xA0, 0xBF⟩
  else if n = 0xED then .pending ⟨0xD, 2, 0x80, 0x9F⟩
  else if n < 0xF0 then .pending ⟨n - 0xE0, 2, 0x80, 0xBF⟩
  else if n = 0xF0 then .pending ⟨0, 3, 0x90, 0xBF⟩
  else if n < 0xF4 then .pending ⟨n - 0xF0, 3, 0x80, 0xBF⟩
  else if n = 0xF4 then .pending ⟨4, 3, 0x80, 0x8F⟩
  else .refused

/-- A byte behind the first bytes of a character. -/
def Pending.next (p : Pending) (b : UInt8) : Reading :=
  if p.low ≤ b ∧ b ≤ p.high then
    let value := 64 * p.value + (b.toNat - 0x80)
    if p.owed ≤ 1 then .complete (Char.ofNat value)
    else .pending ⟨value, p.owed - 1, 0x80, 0xBF⟩
  else .refused

/-! ## Lossy -/

/-- The character that stands for bytes that are not UTF-8. -/
def replacement : Char := '\uFFFD'

/-- The characters that a reading at the start of a character yields, and what it leaves open. -/
def Reading.result : Reading → List Char × Option Pending
  | complete c => ([c], none)
  | pending p => ([], some p)
  | refused => ([replacement], none)

/-- One more byte. A byte that cannot continue the character ends it as a replacement and starts
anew. -/
def nextByte : Option Pending → UInt8 → List Char × Option Pending
  | none, b => (firstByte b).result
  | some p, b =>
    match p.next b with
    | .refused =>
      let (out, open?) := (firstByte b).result
      (replacement :: out, open?)
    | reading => reading.result

/-- The characters of the bytes that follow an unfinished character. -/
def lossyFrom : Option Pending → List UInt8 → List Char
  | none, [] => []
  | some _, [] => [replacement]
  | p, b :: bs =>
    let (out, open?) := nextByte p b
    out ++ lossyFrom open? bs

/-- The text of any bytes, with one replacement character for each longest run that starts a
character and cannot be continued. -/
def lossy (bs : List UInt8) : String :=
  String.ofList (lossyFrom none bs)

/-! ## Flaws -/

/-- What is wrong with bytes that are not UTF-8. -/
structure Flaw where
  /-- The number of bytes in front of the first character that is not complete. -/
  index : Nat
  /-- The number of bytes that start this character and cannot be continued; none if the bytes end
  inside of it. -/
  length? : Option Nat
  deriving DecidableEq, Repr

/-- The wording of a flaw. -/
def Flaw.message (flaw : Flaw) : String :=
  match flaw.length? with
  | some length => s!"invalid utf-8 sequence of {length} bytes from index {flaw.index}"
  | none => s!"incomplete utf-8 byte sequence from index {flaw.index}"

/-- The first flaw of bytes behind `index` bytes of whole characters and `seen` bytes of a pending
one. -/
def flawFrom (index seen : Nat) : Option Pending → List UInt8 → Flaw
  | _, [] => ⟨index, none⟩
  | open?, b :: bs =>
    match (match open? with
      | none => firstByte b
      | some p => p.next b) with
    | .complete _ => flawFrom (index + seen + 1) 0 none bs
    | .pending p => flawFrom index (seen + 1) (some p) bs
    | .refused => ⟨index, some (max seen 1)⟩

/-- The text with these UTF-8 bytes, or what is wrong with them. -/
def decode (bs : List UInt8) : Except Flaw String :=
  match ofBytes? bs with
  | some text => .ok text
  | none => .error (flawFrom 0 0 none bs)

end Text
end NameServer
