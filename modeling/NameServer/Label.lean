import NameServer.Text.Utf8
import NameServer.Wire.Error

/-!
# Label — one component of a domain name

A label is a text of 1 to 63 bytes without a dot. Labels keep their spelling; two labels are the
same for the name server when they differ at most in the case of ASCII letters, which is when their
folded bytes are equal.
-/

namespace NameServer

/-- The largest size of a label, in bytes. -/
def maxLabelSize : Nat := 63

/-- A component of a domain name. -/
structure Label where
  text : String
  size_pos : 0 < text.utf8ByteSize
  size_le : text.utf8ByteSize ≤ maxLabelSize
  noDot : '.' ∉ text.toList
  deriving DecidableEq

/-- The lower-case form of an ASCII capital letter; every other byte is itself. -/
def foldByte (b : UInt8) : UInt8 :=
  if 0x41 ≤ b ∧ b ≤ 0x5A then b + 0x20 else b

namespace Label

/-- The bytes of the label. -/
def bytes (label : Label) : List UInt8 :=
  Text.bytes label.text

/-- The number of bytes of the label. -/
def size (label : Label) : Nat :=
  label.text.utf8ByteSize

theorem length_bytes (label : Label) : label.bytes.length = label.size :=
  Text.length_bytes label.text

@[ext] theorem ext {a b : Label} (h : a.text = b.text) : a = b := by
  cases a; cases b; cases h; rfl

/-! ## Reading -/

/-- The label with this text. A text that is empty, too long or dotted is refused, in this order. -/
def ofText (text : String) : Except WireError Label :=
  if pos : 0 < text.utf8ByteSize then
    if le : text.utf8ByteSize ≤ maxLabelSize then
      if dot : '.' ∈ text.toList then .error (.dottedLabel text)
      else .ok ⟨text, pos, le, dot⟩
    else .error (.longLabel text.utf8ByteSize)
  else .error .emptyLabel

/-- The label with these bytes, which have to be UTF-8. -/
def ofBytes (bs : List UInt8) : Except WireError Label :=
  match Text.ofBytes? bs with
  | some text => ofText text
  | none => .error .labelNotText

theorem text_of_ofText {text : String} {label : Label} (h : ofText text = .ok label) :
    label.text = text := by
  unfold ofText at h
  split at h
  · split at h
    · split at h <;> cases h
      rfl
    · cases h
  · cases h

theorem ofText_text (label : Label) : ofText label.text = .ok label := by
  simp [ofText, label.size_pos, label.size_le, label.noDot]

theorem bytes_of_ofBytes {bs : List UInt8} {label : Label} (h : ofBytes bs = .ok label) :
    label.bytes = bs := by
  unfold ofBytes at h
  split at h
  · rename_i text heq
    rw [bytes, text_of_ofText h, Text.bytes_of_ofBytes? heq]
  · cases h

theorem ofBytes_bytes (label : Label) : ofBytes label.bytes = .ok label := by
  simp [ofBytes, bytes, Text.ofBytes?_bytes, ofText_text]

theorem size_of_ofBytes {bs : List UInt8} {label : Label} (h : ofBytes bs = .ok label) :
    label.size = bs.length := by
  rw [← label.length_bytes, bytes_of_ofBytes h]

/-! ## Sameness -/

/-- The bytes of the label without ASCII case. -/
def folded (label : Label) : List UInt8 :=
  label.bytes.map foldByte

/-- Whether two labels differ at most in ASCII case. -/
def SameAs (a b : Label) : Prop :=
  a.folded = b.folded

instance (a b : Label) : Decidable (a.SameAs b) :=
  inferInstanceAs (Decidable (a.folded = b.folded))

theorem SameAs.size_eq {a b : Label} (h : a.SameAs b) : a.size = b.size := by
  have := congrArg List.length h
  simpa [folded, length_bytes] using this

end Label
end NameServer
