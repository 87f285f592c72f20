import NameServer.Wire.Octets

/-!
# Proofs.Wire.Packet — bytes that stand in a packet

What is written is a list and what is read is an array with an offset. This file links the two by
one relation:

* `Packet.HoldsAt packet pos bs` — the bytes `bs` stand in `packet` from `pos` on;
* `Packet.holdsAt_append` splits written bytes at the places where a reader stops;
* the remaining lemmas say that every field reads as what was written there.
-/

namespace NameServer

namespace Packet

variable {packet : Packet} {pos : Nat} {bs xs ys : List UInt8} {b : UInt8}

/-- The bytes `bs` stand in the packet from `pos` on. -/
def HoldsAt (packet : Packet) (pos : Nat) (bs : List UInt8) : Prop :=
  bs <+: packet.toList.drop pos

theorem holdsAt_toArray (bs : List UInt8) : HoldsAt bs.toArray 0 bs := by
  simp [HoldsAt]

theorem holdsAt_append :
    packet.HoldsAt pos (xs ++ ys) ↔
      packet.HoldsAt pos xs ∧ packet.HoldsAt (pos + xs.length) ys := by
  unfold HoldsAt
  rw [← List.drop_drop]
  constructor
  · rintro ⟨rest, hrest⟩
    refine ⟨⟨ys ++ rest, by simpa using hrest⟩, ⟨rest, ?_⟩⟩
    rw [← hrest, List.append_assoc, List.drop_left]
  · rintro ⟨⟨tail, htail⟩, ⟨rest, hrest⟩⟩
    refine ⟨rest, ?_⟩
    rw [← htail, List.drop_left] at hrest
    rw [List.append_assoc, hrest, htail]

theorem HoldsAt.left (h : packet.HoldsAt pos (xs ++ ys)) : packet.HoldsAt pos xs :=
  (holdsAt_append.1 h).1

theorem HoldsAt.right (h : packet.HoldsAt pos (xs ++ ys)) :
    packet.HoldsAt (pos + xs.length) ys :=
  (holdsAt_append.1 h).2

theorem holdsAt_cons :
    packet.HoldsAt pos (b :: bs) ↔ packet[pos]? = some b ∧ packet.HoldsAt (pos + 1) bs := by
  -- A first byte is split off like any other stretch in front.
  have hsplit : packet.HoldsAt pos ([b] ++ bs) ↔
      packet.HoldsAt pos [b] ∧ packet.HoldsAt (pos + 1) bs := holdsAt_append
  have hhead : packet.HoldsAt pos [b] ↔ packet[pos]? = some b := by
    unfold HoldsAt
    rw [← Array.getElem?_toList, ← List.head?_drop]
    cases packet.toList.drop pos with
    | nil => simp
    | cons c cs => simp [eq_comm]
  simpa [hhead] using hsplit

theorem HoldsAt.getElem? (h : packet.HoldsAt pos (b :: bs)) : packet[pos]? = some b :=
  (holdsAt_cons.1 h).1

theorem HoldsAt.tail (h : packet.HoldsAt pos (b :: bs)) : packet.HoldsAt (pos + 1) bs :=
  (holdsAt_cons.1 h).2

/-- Bytes that stand in a packet end within it. -/
theorem HoldsAt.end_le (h : packet.HoldsAt pos bs) (hpos : pos ≤ packet.size) :
    pos + bs.length ≤ packet.size := by
  have hlen := h.length_le
  simp only [List.length_drop, Array.length_toList] at hlen
  omega

theorem HoldsAt.pos_le (h : packet.HoldsAt pos bs) (hne : bs ≠ []) : pos ≤ packet.size := by
  cases bs with
  | nil => exact absurd rfl hne
  | cons b bs =>
      have hget := h.getElem?
      have := (Array.getElem?_eq_some_iff.1 hget).1
      omega

/-- What stands in a packet still stands there when the packet grows at its end. -/
theorem HoldsAt.append (h : packet.HoldsAt pos bs) (more : Packet) :
    HoldsAt (packet ++ more) pos bs := by
  unfold HoldsAt at *
  rw [Array.toList_append, List.drop_append]
  exact h.trans (List.prefix_append _ _)

/-! ## Fields read as they were written -/

/-- A slice that is there has the bytes that stand there. -/
theorem holdsAt_of_slice? {count : Nat} (h : packet.slice? pos count = some bs) :
    packet.HoldsAt pos bs ∧ bs.length = count ∧ pos + count ≤ packet.size := by
  unfold Packet.slice? at h
  split at h
  · rename_i hle
    cases h
    refine ⟨?_, by simp; omega, hle⟩
    unfold HoldsAt
    simp only [Array.toList_extract, List.extract_eq_take_drop]
    exact List.take_prefix _ _
  · cases h

theorem HoldsAt.slice? (h : packet.HoldsAt pos bs) (hpos : pos ≤ packet.size) :
    packet.slice? pos bs.length = some bs := by
  unfold Packet.slice?
  rw [if_pos (h.end_le hpos)]
  rcases h with ⟨rest, hrest⟩
  have hextract : (packet.extract pos (pos + bs.length)).toList =
      (packet.toList.drop pos).take bs.length := by
    simp [Array.toList_extract, List.extract_eq_take_drop]
  rw [hextract, ← hrest, List.take_left]

theorem HoldsAt.field16 {w : UInt16} (h : packet.HoldsAt pos (Octets.ofWord16 w)) :
    packet.field16 pos = .ok w := by
  have hhi := h.getElem?
  have hlo := h.tail.getElem?
  have hword : packet.word16? pos = some w := by
    simp only [Packet.word16?, hhi, hlo, Option.bind_eq_bind, Option.bind_some, Option.pure_def,
      Octets.toWord16_ofNat]
  simp only [Packet.field16, hword]

theorem HoldsAt.field32 {w : UInt32} (h : packet.HoldsAt pos (Octets.ofWord32 w)) :
    packet.field32 pos = .ok w := by
  have h₃ := h.getElem?
  have h₂ := h.tail.getElem?
  have h₁ := h.tail.tail.getElem?
  have h₀ := h.tail.tail.tail.getElem?
  have hword : packet.word32? pos = some w := by
    simp only [Packet.word32?, h₃, h₂, h₁, h₀, Option.bind_eq_bind, Option.bind_some,
      Option.pure_def, Octets.toWord32_ofNat]
  simp only [Packet.field32, hword]

/-! ## Packets that grow -/

section Growth

variable {count : Nat}

theorem getElem?_append {b : UInt8} (h : packet[pos]? = some b) (more : Packet) :
    (packet ++ more)[pos]? = some b := by
  rw [Array.getElem?_append_left (Array.getElem?_eq_some_iff.1 h).1, h]

theorem slice?_append {bs : List UInt8} (h : packet.slice? pos count = some bs) (more : Packet) :
    slice? (packet ++ more) pos count = some bs := by
  rcases holdsAt_of_slice? h with ⟨hbytes, rfl, hle⟩
  refine (hbytes.append more).slice? ?_
  rw [Array.size_append]
  omega

/-- A word lies within the packet and stays what it is. -/
theorem word16?_append {w : UInt16} (h : packet.word16? pos = some w) :
    pos + 2 ≤ packet.size ∧ ∀ more, word16? (packet ++ more) pos = some w := by
  simp only [word16?, Option.bind_eq_bind, Option.bind_eq_some_iff] at h ⊢
  rcases h with ⟨hi, hhi, lo, hlo, hw⟩
  have hlt := (Array.getElem?_eq_some_iff.1 hlo).1
  exact ⟨by omega, fun more => ⟨hi, getElem?_append hhi more, lo, getElem?_append hlo more, hw⟩⟩

theorem word32?_append {w : UInt32} (h : packet.word32? pos = some w) :
    pos + 4 ≤ packet.size ∧ ∀ more, word32? (packet ++ more) pos = some w := by
  simp only [word32?, Option.bind_eq_bind, Option.bind_eq_some_iff] at h ⊢
  rcases h with ⟨b₃, h₃, b₂, h₂, b₁, h₁, b₀, h₀, hw⟩
  have hlt := (Array.getElem?_eq_some_iff.1 h₀).1
  exact ⟨by omega, fun more => ⟨b₃, getElem?_append h₃ more, b₂, getElem?_append h₂ more,
    b₁, getElem?_append h₁ more, b₀, getElem?_append h₀ more, hw⟩⟩

theorem word16?_of_field {w : UInt16} (h : packet.field16 pos = .ok w) :
    packet.word16? pos = some w := by
  unfold field16 at h
  split at h
  · cases h
    assumption
  · cases h

theorem word32?_of_field {w : UInt32} (h : packet.field32 pos = .ok w) :
    packet.word32? pos = some w := by
  unfold field32 at h
  split at h
  · cases h
    assumption
  · cases h

end Growth

end Packet

end NameServer
