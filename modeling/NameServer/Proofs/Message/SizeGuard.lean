import Mathlib.Algebra.Order.Ring.Nat
import Mathlib.Tactic.Ring
import NameServer.Proofs.Compression.Draft
import NameServer.Proofs.Message.Datagram

/-!
# Proofs.Message.SizeGuard — long messages are not tried in vain

A message that runs past the reach of pointers is given up before it is compressed. It could not
have fitted a datagram: however often its names are cut, the labels of the longest one stand
somewhere in the bytes, and beside each name there are bytes that no pointer stands for.

* `Compressor.Covers table written` — the suffixes that are known are no longer than what was
  written;
* `Compressor.Covers.places` — placing a name keeps this, and the name is no longer than that;
* `Slot.name_le_laid` — so no name is longer than the bytes that slots are laid out to;
* `Message.size_le_of_fits` — what fits a datagram ends within the reach of pointers;
* `Message.size_guard_sound` — the additional section is left out, and the records are, only if the
  message does not fit with them.
-/

namespace NameServer

open Name (literalSize)
open Slot (layAll totalSize gaps)

/-! ## What is known was written -/

namespace Compressor

/-- The suffixes that are known take no more than `written` bytes each. -/
def Covers (table : Compressor) (written : Nat) : Prop :=
  ∀ labels, table.Knows (labels.map Label.folded) → literalSize labels ≤ written

variable {table after : Compressor} {written offset pointer : Nat}
variable {front rest : List Label} {name placed : Name}

theorem covers_empty : Covers empty 0 := by
  rintro labels ⟨entry, hmem, -⟩
  cases hmem

theorem Covers.rest_le (h : table.Covers written) (hknown : table.find? ⟨rest⟩ = some pointer) :
    literalSize rest ≤ written :=
  h rest ⟨_, knows_of_find? hknown, rfl⟩

/-- Writing the front of a name out covers the suffixes that begin in it, if its rest is covered. -/
theorem Covers.recordAll (h : table.Covers written) (hrest : literalSize rest ≤ written) :
    (table.recordAll offset front rest).Covers (written + literalSize front) := by
  rintro labels ⟨entry, hmem, hkey⟩
  rcases mem_recordAll hmem with hold | ⟨before, back, rfl, -, rfl⟩
  · exact Nat.le_add_right_of_le (h labels ⟨entry, hold, hkey⟩)
  · calc
      literalSize labels = literalSize (back ++ rest) := (Name.literalSize_congr hkey).symm
      _ = literalSize back + literalSize rest := Name.literalSize_append back rest
      _ ≤ written + literalSize (before ++ back) := by
        simp only [Name.literalSize_append]
        omega

/-- A name is no longer than what was written before it and what is written of it. -/
theorem Covers.places (h : table.Covers written)
    (hplaces : Places table offset name placed after) (hform : name.isCompressed = false) :
    literalSize name.labels ≤ written + literalSize placed.literal ∧
      after.Covers (written + literalSize placed.literal) := by
  cases hplaces with
  | whole hfresh =>
      rw [Name.literal_eq_labels hform]
      exact ⟨Nat.le_add_left _ _, h.recordAll (Nat.zero_le _)⟩
  | @shared front rest pointer hlabels hfresh hne hknown =>
      have hrest := h.rest_le hknown
      rw [literal_shared hlabels, hlabels, Name.literalSize_append]
      exact ⟨by omega, h.recordAll hrest⟩

end Compressor

/-! ## Slots -/

namespace Slot

variable {slots laid : List Slot} {layout after : Layout} {written : Nat}

/-- Laying slots out leaves their gaps, and of each name at least its end. -/
theorem gaps_le_laid (h : layAll slots layout = .ok (laid, after)) :
    gaps slots + (names slots).length ≤ totalSize laid := by
  induction slots generalizing layout laid with
  | nil => exact Nat.zero_le _
  | cons slot slots ih =>
      cases slot with
      | gap count =>
          rcases exists_of_bind h with ⟨⟨rest, last⟩, hrest, heq⟩
          cases heq
          have hle := ih hrest
          simp only [gaps, names, totalSize_gap]
          omega
      | name n =>
          rcases exists_of_bind h with ⟨⟨placed, next⟩, -, h⟩
          rcases exists_of_bind h with ⟨⟨rest, last⟩, hrest, heq⟩
          cases heq
          have hle := ih hrest
          have hpos := placed.size_pos
          simp only [gaps, names, totalSize_name, List.length_cons]
          omega

/-- The bytes that are laid out have room for the gaps, an end of each name, and the labels of any
one of the names that were not written before. -/
theorem name_le_laid (h : layAll slots layout = .ok (laid, after))
    (hcovers : layout.table.Covers written) (hform : ∀ n ∈ names slots, n.isCompressed = false) :
    ∀ n ∈ names slots,
      literalSize n.labels + gaps slots + (names slots).length ≤ written + totalSize laid := by
  induction slots generalizing layout laid written with
  | nil => exact fun n hmem => absurd hmem List.not_mem_nil
  | cons slot slots ih =>
      cases slot with
      | gap count =>
          rcases exists_of_bind h with ⟨⟨rest, last⟩, hrest, heq⟩
          cases heq
          intro n hmem
          have hle := ih hrest hcovers hform n hmem
          simp only [gaps, names, totalSize_gap]
          omega
      | name m =>
          rcases exists_of_bind h with ⟨⟨placed, next⟩, hplace, h⟩
          rcases exists_of_bind h with ⟨⟨rest, last⟩, hrest, heq⟩
          cases heq
          have hplaces := (Layout.placeName_places hplace).2.1
          rcases hcovers.places hplaces (hform m List.mem_cons_self) with ⟨hfirst, hnext⟩
          have hsize : literalSize placed.literal + 1 ≤ placed.size := by
            unfold Name.size
            split <;> omega
          have hgaps := gaps_le_laid hrest
          have hmore := ih hrest hnext fun n hmem => hform n (List.mem_cons_of_mem m hmem)
          simp only [gaps, names, totalSize_name, List.length_cons]
          -- The first name is paid for by what is written of it, the others by the slots behind it.
          intro n hmem
          rcases List.mem_cons.1 hmem with rfl | hmem
          · omega
          · have hle := hmore n hmem
            omega

theorem totalSize_le {bound : Nat} (h : ∀ n ∈ names slots, n.size ≤ bound) :
    totalSize slots ≤ gaps slots + (names slots).length * bound := by
  induction slots with
  | nil => exact Nat.zero_le _
  | cons slot slots ih =>
      cases slot with
      | gap count =>
          have hle := ih h
          simp only [gaps, names, totalSize_gap]
          omega
      | name n =>
          have hfirst := h n List.mem_cons_self
          have hle := ih fun m hmem => h m (List.mem_cons_of_mem n hmem)
          simp only [gaps, names, totalSize_name, List.length_cons, Nat.succ_mul]
          omega

end Slot

/-! ## Messages -/

namespace Message

variable {message placed : Message}

/-- The compressed message fits a datagram. -/
def Fits (message : Message) : Prop :=
  ∃ placed, message.compress = .ok placed ∧ placed.size ≤ maxDatagram

/-- If there are few names they may be long, and if there are many they are short. -/
theorem names_times_length {count length : Nat} (h : length + 6 * count ≤ 502) :
    count * length ≤ 10501 := by
  have hsquare : 24 * (count * length) ≤ 502 ^ 2 := calc
    24 * (count * length) = 4 * length * (6 * count) := by ring
    _ ≤ (length + 6 * count) ^ 2 := four_mul_le_sq_add length (6 * count)
    _ ≤ 502 ^ 2 := Nat.pow_le_pow_left h 2
  omega

/-- A message that fits a datagram ends within the reach of pointers. -/
theorem size_le_of_fits (hform : ∀ n ∈ message.names, n.isCompressed = false)
    (h : message.Fits) : message.size ≤ maxPointer := by
  rcases h with ⟨placed, hplaced, hfits⟩
  rcases (laidAs_of_compress hplaced).1 with ⟨after, hlaid⟩
  rw [← names_slots] at hform
  have hlaidSize : totalSize placed.slots ≤ 500 := by
    rw [size_eq_totalSize] at hfits
    unfold maxDatagram headerSize at hfits
    omega
  have hspace := Slot.gaps_le_laid hlaid
  have hgaps := message.names_le_gaps
  rw [← names_slots] at hgaps
  -- What the gaps and the ends of names leave of 500 bytes bounds the labels of every name.
  let room := 500 - gaps message.slots - (Slot.names message.slots).length
  have hname : ∀ n ∈ Slot.names message.slots, n.size ≤ room + 1 := by
    intro n hmem
    have hle := Slot.name_le_laid hlaid Compressor.covers_empty hform n hmem
    rw [Name.size_eq_wireSize (hform n hmem)]
    unfold Name.wireSize
    omega
  have htotal := Slot.totalSize_le hname
  have hproduct : (Slot.names message.slots).length * (room + 1) ≤ 10501 :=
    names_times_length (by omega)
  calc
    message.size = headerSize + totalSize message.slots := message.size_eq_totalSize
    _ ≤ headerSize + (500 + 10501) := by omega
    _ ≤ maxPointer := by decide

theorem fitted?_of_fits (hform : ∀ n ∈ message.names, n.isCompressed = false)
    (h : message.compress = .ok placed) (hfits : placed.size ≤ maxDatagram) :
    message.fitted? = .ok (some placed.wire) := by
  have hreach := size_le_of_fits hform ⟨placed, h, hfits⟩
  unfold fitted?
  simp only [if_neg (Nat.not_lt.2 hreach), h, ok_bind, if_neg (Nat.not_lt.2 hfits)]
  rfl

theorem fitted?_of_not_fits (hform : ∀ n ∈ message.names, n.isCompressed = false)
    (h : ¬message.Fits) : message.fitted? = .ok none := by
  unfold fitted?
  by_cases hfar : maxPointer < message.size
  · rw [if_pos hfar]
  · rcases compress_total (Nat.le_of_not_lt hfar) hform with ⟨placed, hplaced⟩
    have hlarge : maxDatagram < placed.size := by
      by_contra hsmall
      exact h ⟨placed, hplaced, Nat.le_of_not_lt hsmall⟩
    simp only [if_neg hfar, hplaced, ok_bind, if_pos hlarge]
    rfl

/-- What is sent for a message: the message if it fits, else the message without its additional
section if that fits, else the question alone, marked as truncated. -/
inductive Sends (message : Message) : Message → Prop
  | whole : message.Fits → Sends message message
  | shortened : ¬message.Fits → message.withoutAdditional.Fits →
      Sends message message.withoutAdditional
  | alone : ¬message.Fits → ¬message.withoutAdditional.Fits → Sends message message.truncated

theorem datagram_sends (hform : ∀ n ∈ message.names, n.isCompressed = false) :
    ∃ sent placed, message.Sends sent ∧ sent.compress = .ok placed ∧
      message.datagram = .ok placed.wire := by
  have hless : ∀ n ∈ message.withoutAdditional.names, n.isCompressed = false :=
    fun n hmem => hform n (message.names_withoutAdditional_subset hmem)
  have hquestion : message.question.name.isCompressed = false := hform _ List.mem_cons_self
  unfold datagram
  by_cases hwhole : message.Fits
  · rcases hwhole with ⟨placed, hplaced, hsize⟩
    refine ⟨message, placed, .whole ⟨placed, hplaced, hsize⟩, hplaced, ?_⟩
    simp only [fitted?_of_fits hform hplaced hsize, ok_bind]
    rfl
  · rw [fitted?_of_not_fits hform hwhole]
    by_cases hshort : message.withoutAdditional.Fits
    · rcases hshort with ⟨placed, hplaced, hsize⟩
      refine ⟨message.withoutAdditional, placed, .shortened hwhole ⟨placed, hplaced, hsize⟩,
        hplaced, ?_⟩
      simp only [fitted?_of_fits hless hplaced hsize, ok_bind]
      rfl
    · have hsize := size_truncated_le hquestion
      have halone : ∀ n ∈ message.truncated.names, n.isCompressed = false := by
        simpa only [names_truncated, List.forall_mem_singleton] using hquestion
      rcases compress_total (by unfold maxPointer; omega) halone with ⟨placed, hplaced⟩
      refine ⟨message.truncated, placed, .alone hwhole hshort, hplaced, ?_⟩
      simp only [fitted?_of_not_fits hless hshort, hplaced, ok_bind]
      rfl

/-- Giving up long messages loses nothing: what fits a datagram is within the reach of pointers, and
what is within it can be compressed. So the whole message is sent if it fits, the additional section
is left out only if it does not, and the message is marked as truncated only if it does not fit
without that section either. -/
theorem size_guard_sound (hform : ∀ n ∈ message.names, n.isCompressed = false) :
    (message.Fits → message.size ≤ maxPointer) ∧
      (message.size ≤ maxPointer → ∃ placed, message.compress = .ok placed) ∧
      ∃ sent placed, message.Sends sent ∧ sent.compress = .ok placed ∧ placed.LaidAs sent ∧
        message.datagram = .ok placed.wire := by
  refine ⟨size_le_of_fits hform, fun hsize => compress_total hsize hform, ?_⟩
  rcases datagram_sends hform with ⟨sent, placed, hsends, hplaced, hdatagram⟩
  exact ⟨sent, placed, hsends, hplaced, (laidAs_of_compress hplaced).2, hdatagram⟩

theorem size_guard_sound_sampleReply :
    (∀ n ∈ sampleReply.names, n.isCompressed = false) ∧ sampleReply.size ≤ maxPointer ∧
      ∃ sent placed, sampleReply.Sends sent ∧ sent.compress = .ok placed ∧ placed.LaidAs sent ∧
        sampleReply.datagram = .ok placed.wire := by
  have hform : ∀ n ∈ sampleReply.names, n.isCompressed = false := by decide
  exact ⟨hform, by decide, (size_guard_sound hform).2.2⟩

end Message

end NameServer
