import NameServer.Wire.Error

/-!
# Wire.Octets — packets and big-endian words

A packet is read at any offset, so it is an array; what is written grows at its end, so it is a
list. Words have their high byte first. The main facts say that reading a written word gives the
word back.
-/

namespace NameServer

/-- The bytes of one datagram, or of a part of one. -/
abbrev Packet := Array UInt8

namespace Octets

/-! ## Writing -/

/-- The two bytes of a word, high byte first. -/
def ofWord16 (w : UInt16) : List UInt8 :=
  [UInt8.ofNat (w.toNat / 0x100), UInt8.ofNat w.toNat]

/-- The four bytes of a word, high byte first. -/
def ofWord32 (w : UInt32) : List UInt8 :=
  [UInt8.ofNat (w.toNat / 0x1000000), UInt8.ofNat (w.toNat / 0x10000),
    UInt8.ofNat (w.toNat / 0x100), UInt8.ofNat w.toNat]

@[simp] theorem length_ofWord16 (w : UInt16) : (ofWord16 w).length = 2 := rfl

@[simp] theorem length_ofWord32 (w : UInt32) : (ofWord32 w).length = 4 := rfl

/-! ## Reading -/

/-- The word with these two bytes. -/
def toWord16 (hi lo : UInt8) : UInt16 :=
  UInt16.ofNat (hi.toNat * 0x100 + lo.toNat)

/-- The word with these four bytes. -/
def toWord32 (b₃ b₂ b₁ b₀ : UInt8) : UInt32 :=
  UInt32.ofNat (b₃.toNat * 0x1000000 + b₂.toNat * 0x10000 + b₁.toNat * 0x100 + b₀.toNat)

theorem toWord16_ofNat (w : UInt16) :
    toWord16 (UInt8.ofNat (w.toNat / 0x100)) (UInt8.ofNat w.toNat) = w := by
  have h := w.toNat_lt
  apply UInt16.toNat_inj.1
  simp only [toWord16, UInt16.toNat_ofNat', UInt8.toNat_ofNat']
  omega

theorem toWord32_ofNat (w : UInt32) :
    toWord32 (UInt8.ofNat (w.toNat / 0x1000000)) (UInt8.ofNat (w.toNat / 0x10000))
      (UInt8.ofNat (w.toNat / 0x100)) (UInt8.ofNat w.toNat) = w := by
  have h := w.toNat_lt
  apply UInt32.toNat_inj.1
  simp only [toWord32, UInt32.toNat_ofNat', UInt8.toNat_ofNat']
  omega

end Octets

namespace Packet

/-- The `count` bytes from `pos` on, if the packet holds them all. -/
def slice? (packet : Packet) (pos count : Nat) : Option (List UInt8) :=
  if pos + count ≤ packet.size then some (packet.extract pos (pos + count)).toList else none

/-- The 16-bit word at `pos`. -/
def word16? (packet : Packet) (pos : Nat) : Option UInt16 := do
  let hi ← packet[pos]?
  let lo ← packet[pos + 1]?
  return Octets.toWord16 hi lo

/-- The 32-bit word at `pos`. -/
def word32? (packet : Packet) (pos : Nat) : Option UInt32 := do
  let b₃ ← packet[pos]?
  let b₂ ← packet[pos + 1]?
  let b₁ ← packet[pos + 2]?
  let b₀ ← packet[pos + 3]?
  return Octets.toWord32 b₃ b₂ b₁ b₀

/-- The 16-bit field at `pos` of a message. -/
def field16 (packet : Packet) (pos : Nat) : Except WireError UInt16 :=
  match packet.word16? pos with
  | some w => .ok w
  | none => .error (.word16RunsOut pos)

/-- The 32-bit field at `pos` of a message. -/
def field32 (packet : Packet) (pos : Nat) : Except WireError UInt32 :=
  match packet.word32? pos with
  | some w => .ok w
  | none => .error (.word32RunsOut pos)

end Packet
end NameServer
