import Mathlib.Data.List.Forall2
import NameServer.Compression
import NameServer.Proofs.Wire.Packet

/-!
# Proofs.Name.Spelling — what a packet spells from an offset

Reading a name stops after `maxHops` pointers, so the reader says nothing about longer ways. This
file separates the two:

* `Name.Spelled packet pos labels hops next` — from `pos` on the packet spells `labels`, through
  `hops` pointers that each lead backward, and what stands at `pos` ends in front of `next`;
* `Name.read_of_spelled` — a spelled name is read exactly when it takes at most `maxHops` pointers,
  and `Name.read_eq_ok_iff` — nothing else is read;
* `Name.spelled_wire` — the bytes of a name without a pointer spell its labels.
-/

namespace NameServer

namespace Label

theorem toNat_size (label : Label) : (UInt8.ofNat label.size).toNat = label.size := by
  have hle : label.size ≤ maxLabelSize := label.size_le
  unfold maxLabelSize at hle
  simp only [UInt8.toNat_ofNat']
  omega

/-- Labels that have the same folded bytes together have them one by one. -/
theorem map_folded_eq {xs ys : List Label} :
    xs.map folded = ys.map folded ↔ List.Forall₂ SameAs xs ys := by
  rw [← List.forall₂_eq_eq_eq, List.forall₂_map_left_iff, List.forall₂_map_right_iff]
  exact Iff.rfl

end Label

namespace Name

/-- The room that labels take does not depend on their case. -/
theorem literalSize_congr {xs ys : List Label}
    (h : xs.map Label.folded = ys.map Label.folded) : literalSize xs = literalSize ys := by
  have hsame := Label.map_folded_eq.1 h
  clear h
  induction hsame with
  | nil => rfl
  | cons hfirst _ ih => simp only [literalSize, hfirst.size_eq, ih]

/-- Nor on their order. -/
theorem literalSize_reverse (labels : List Label) :
    literalSize labels.reverse = literalSize labels := by
  induction labels with
  | nil => rfl
  | cons label labels ih =>
      rw [List.reverse_cons, literalSize_append, ih]
      simp only [literalSize]
      omega

variable {packet : Packet} {start pos hops next : Nat} {labels : List Label}

/-! ## Spelled names -/

/-- From `pos` on the packet spells `labels`. On the way `hops` pointers are followed, each to an
offset in front of it; the bytes at `pos` that belong to the name end in front of `next`. -/
inductive Spelled (packet : Packet) : Nat → List Label → Nat → Nat → Prop where
  | stop {pos : Nat} :
      packet[pos]? = some 0 → Spelled packet pos [] 0 (pos + 1)
  | label {pos hops next : Nat} {label : Label} {labels : List Label} :
      packet.HoldsAt pos (labelWire label) →
        Spelled packet (pos + 1 + label.size) labels hops next →
          Spelled packet pos (label :: labels) hops next
  | jump {pos target hops next : Nat} {labels : List Label} :
      packet.HoldsAt pos (pointerWire target) → target ≤ maxPointer → target < pos →
        Spelled packet target labels hops next →
          Spelled packet pos labels (hops + 1) (pos + 2)

/-- Labels that stand in front of a spelled name are spelled with it. -/
theorem Spelled.labels_append {front : List Label}
    (hfront : packet.HoldsAt pos (front.flatMap labelWire))
    (h : Spelled packet (pos + literalSize front) labels hops next) :
    Spelled packet pos (front ++ labels) hops next := by
  induction front generalizing pos with
  | nil => simpa [literalSize] using h
  | cons label front ih =>
      rw [List.flatMap_cons] at hfront
      have hrest := hfront.right
      have hlen : (labelWire label).length = 1 + label.size := by
        simp [labelWire, Label.length_bytes, Nat.add_comm]
      rw [hlen, ← Nat.add_assoc] at hrest
      refine Spelled.label hfront.left (ih hrest ?_)
      have hpos : pos + 1 + label.size + literalSize front =
          pos + literalSize (label :: front) := by
        simp only [literalSize]
        omega
      rw [hpos]
      exact h

/-- What a packet spells it spells on when it grows at its end. -/
theorem Spelled.append (h : Spelled packet pos labels hops next) (more : Packet) :
    Spelled (packet ++ more) pos labels hops next := by
  induction h with
  | @stop pos hstop =>
      have hlt : pos < packet.size := (Array.getElem?_eq_some_iff.1 hstop).1
      refine Spelled.stop ?_
      rw [Array.getElem?_append_left hlt]
      exact hstop
  | label hlabel _ ih => exact Spelled.label (hlabel.append more) ih
  | jump hpointer hle hlt _ ih => exact Spelled.jump (hpointer.append more) hle hlt ih

/-- A spelled name takes some bytes, all of them in the packet. -/
theorem Spelled.bounds (h : Spelled packet pos labels hops next) :
    pos < next ∧ next ≤ packet.size := by
  induction h with
  | stop hstop =>
      have hlt := (Array.getElem?_eq_some_iff.1 hstop).1
      omega
  | label _ _ ih => omega
  | jump hpointer _ _ _ _ =>
      have hlow := hpointer.tail.getElem?
      have hlt := (Array.getElem?_eq_some_iff.1 hlow).1
      omega

/-! ## One step of reading -/

variable {followed : Nat} {read : Read} {resume? : Option Nat}

theorem readFrom_stop (h : packet[pos]? = some 0) :
    readFrom packet start pos followed read resume? =
      .ok (⟨read.1, .plain, read.2, trivial⟩, resume?.getD (pos + 1)) := by
  rw [readFrom]
  split
  · rename_i hnone
    rw [h] at hnone
    cases hnone
  · rename_i byte hbyte
    rw [h] at hbyte
    cases hbyte
    rfl

theorem readFrom_label {label : Label} (h : packet.HoldsAt pos (labelWire label))
    (fits : wireSize read.1 + (label.size + 1) ≤ maxNameSize) :
    readFrom packet start pos followed read resume? =
      readFrom packet start (pos + 1 + label.size) followed (read.push label fits) resume? := by
  have hget : packet[pos]? = some (UInt8.ofNat label.size) := h.getElem?
  have hpos : pos < packet.size := (Array.getElem?_eq_some_iff.1 hget).1
  have hslice : packet.slice? (pos + 1) label.size = some label.bytes := by
    rw [← label.length_bytes]
    exact Packet.HoldsAt.slice? h.tail hpos
  -- The bound on bytes leaves room for fewer labels than the bound on labels does.
  have hcount : read.1.length ≠ maxLabels := by
    have htwo := two_mul_length_le read.1
    have hone := label.size_pos
    unfold wireSize maxNameSize at fits
    unfold maxLabels Label.size at *
    omega
  have hbound : 0 < label.size ∧ label.size ≤ maxLabelSize := ⟨label.size_pos, label.size_le⟩
  unfold maxLabelSize at hbound
  rw [readFrom]
  split
  · rename_i hnone
    rw [hget] at hnone
    cases hnone
  · rename_i byte hbyte
    rw [hget] at hbyte
    cases hbyte
    simp only [Label.toNat_size]
    rw [if_neg (by omega), if_pos (by omega)]
    split
    · rename_i hnone
      rw [hslice] at hnone
      cases hnone
    · rename_i bs hbs
      rw [hslice] at hbs
      cases hbs
      rw [if_neg hcount, dif_pos (by rw [label.length_bytes]; exact fits)]
      split
      · rename_i e herror
        rw [Label.ofBytes_bytes] at herror
        cases herror
      · rename_i other hother
        rw [Label.ofBytes_bytes] at hother
        cases hother
        rfl

theorem readFrom_jump {target : Nat} (h : packet.HoldsAt pos (pointerWire target))
    (hle : target ≤ maxPointer) (hlt : target < pos) :
    readFrom packet start pos followed read resume? =
      if followed < maxHops then
        readFrom packet start target (followed + 1) read (resume?.or (some (pos + 2)))
      else .error .manyPointers := by
  have hget : packet[pos]? = some (UInt8.ofNat (0xC0 + target / 0x100)) := h.getElem?
  have hlow : packet[pos + 1]? = some (UInt8.ofNat target) := h.tail.getElem?
  unfold maxPointer at hle
  -- A target within reach leaves the two highest bits of the first byte to the marking.
  have hhi : (UInt8.ofNat (0xC0 + target / 0x100)).toNat = 0xC0 + target / 0x100 := by
    simp only [UInt8.toNat_ofNat']
    omega
  have htarget : (0xC0 + target / 0x100 - 0xC0) * 0x100 + (UInt8.ofNat target).toNat = target := by
    simp only [UInt8.toNat_ofNat']
    omega
  rw [readFrom]
  split
  · rename_i hnone
    rw [hget] at hnone
    cases hnone
  · rename_i byte hbyte
    rw [hget] at hbyte
    cases hbyte
    simp only [hhi, hlow, htarget]
    rw [if_neg (by omega), if_neg (by omega), if_pos (by omega), if_neg (by omega)]

/-! ## Reading a spelled name -/

/-- Reading goes on through a spelled name as long as its pointers are not too many. -/
theorem readFrom_of_spelled (h : Spelled packet pos labels hops next) :
    ∀ (followed : Nat) (read : Read) (resume? : Option Nat)
      (fits : wireSize (read.1 ++ labels) ≤ maxNameSize), followed ≤ maxHops →
      readFrom packet start pos followed read resume? =
        if followed + hops ≤ maxHops then
          .ok (⟨read.1 ++ labels, .plain, fits, trivial⟩, resume?.getD next)
        else .error .manyPointers := by
  -- The labels read so far and the offset to resume at change along the way, so both are general.
  induction h with
  | stop hstop =>
      intro followed read resume? fits hfollowed
      rw [readFrom_stop hstop, if_pos (by omega)]
      simp
  | @label pos hops next label labels hlabel _ ih =>
      intro followed read resume? fits hfollowed
      have happend : (read.1 ++ [label]) ++ labels = read.1 ++ label :: labels := by simp
      have hpush : wireSize read.1 + (label.size + 1) ≤ maxNameSize := by
        have hsize := literalSize_append read.1 (label :: labels)
        unfold wireSize at fits ⊢
        simp only [literalSize] at hsize
        omega
      rw [readFrom_label hlabel hpush,
        ih followed (read.push label hpush) resume? (by rw [Read.push, happend]; exact fits)
          hfollowed]
      simp only [Read.push, happend]
  | @jump pos target hops next labels hpointer hle hlt _ ih =>
      intro followed read resume? fits hfollowed
      rw [readFrom_jump hpointer hle hlt]
      -- With no pointer left the reader stops here, whatever the rest of the name needs.
      by_cases hroom : followed < maxHops
      · rw [if_pos hroom, ih (followed + 1) read _ fits hroom]
        have hcomm : followed + 1 + hops = followed + (hops + 1) := by omega
        rw [hcomm]
        cases resume? <;> rfl
      · rw [if_neg hroom, if_neg (by omega)]

/-- A spelled name is read when it takes at most `maxHops` pointers, and is refused otherwise. -/
theorem read_of_spelled (h : Spelled packet pos labels hops next)
    (fits : wireSize labels ≤ maxNameSize) :
    Name.read packet pos =
      if hops ≤ maxHops then .ok (⟨labels, .plain, fits, trivial⟩, next)
      else .error .manyPointers := by
  have hread :
      readFrom packet pos pos 0 ⟨[], wireSize_nil_le⟩ none =
        if 0 + hops ≤ maxHops then .ok (⟨[] ++ labels, .plain, fits, trivial⟩, next)
        else .error .manyPointers :=
    readFrom_of_spelled h 0 ⟨[], wireSize_nil_le⟩ none fits (Nat.zero_le _)
  simpa [Name.read] using hread

/-! ## Names without a pointer -/

section Uncompressed

variable {name : Name}

theorem isCompressed_of_form (h : name.form = .plain) : name.isCompressed = false := by
  simp [isCompressed, h]

theorem literal_eq_labels (hform : name.isCompressed = false) : name.literal = name.labels := by
  unfold isCompressed at hform
  unfold literal compressedCount
  cases hcase : name.form with
  | plain => simp
  | resolved nodes => simp
  | compressed pointer suffix => simp [hcase] at hform

theorem wire_eq_labels (hform : name.isCompressed = false) :
    name.wire = name.labels.flatMap labelWire ++ [0] := by
  unfold wire
  rw [literal_eq_labels hform]
  unfold isCompressed at hform
  unfold Form.endWire
  cases hcase : name.form with
  | plain => rfl
  | resolved nodes => rfl
  | compressed pointer suffix => simp [hcase] at hform

theorem size_eq_wireSize (hform : name.isCompressed = false) :
    name.size = wireSize name.labels := by
  simp [size, wireSize, literal_eq_labels hform, hform]

/-- The bytes of a name without a pointer spell its labels. -/
theorem spelled_wire (hform : name.isCompressed = false) (h : packet.HoldsAt pos name.wire) :
    Spelled packet pos name.labels 0 (pos + name.size) := by
  rw [wire_eq_labels hform] at h
  have hend := h.right.getElem?
  rw [length_flatMap_labelWire] at hend
  have hall := Spelled.labels_append h.left (Spelled.stop hend)
  rw [List.append_nil] at hall
  rw [size_eq_wireSize hform]
  exact hall

/-- A name without a pointer is read as its labels. -/
theorem read_wire (hform : name.isCompressed = false) (h : packet.HoldsAt pos name.wire) :
    Name.read packet pos = .ok (name.toPlain, pos + name.size) := by
  rw [read_of_spelled (spelled_wire hform h) name.size_le, if_pos (Nat.zero_le _)]
  rfl

end Uncompressed

/-! ## What reading yields -/

/-- Names that are read are plain. -/
theorem readFrom_form {result : Name × Nat}
    (h : readFrom packet start pos followed read resume? = .ok result) :
    result.1.form = .plain := by
  fun_induction readFrom packet start pos followed read resume? with
  | case2 => cases h; rfl
  | case6 _ _ _ _ _ _ _ _ _ _ _ _ _ _ _ _ ih => exact ih h
  | _ => simp_all

/-- The two bytes of a pointer, as they are split when it is read. -/
theorem pointerWire_of_split {byte low : UInt8} {target : Nat} (hbyte : 0xC0 ≤ byte.toNat)
    (htarget : (byte.toNat - 0xC0) * 0x100 + low.toNat = target) :
    pointerWire target = [byte, low] ∧ target ≤ maxPointer := by
  have hhigh := byte.toNat_lt
  have hlow := low.toNat_lt
  subst htarget
  have hdiv : 0xC0 + ((byte.toNat - 0xC0) * 0x100 + low.toNat) / 0x100 = byte.toNat := by omega
  constructor
  · have hmod : UInt8.ofNat ((byte.toNat - 0xC0) * 0x100 + low.toNat) = low := by
      apply UInt8.toNat_inj.1
      simp only [UInt8.toNat_ofNat']
      omega
    unfold pointerWire
    rw [hdiv, hmod, UInt8.ofNat_toNat]
  · unfold maxPointer
    omega

/-- What is read was spelled, through no more pointers than a reader follows. -/
theorem spelled_of_readFrom {name : Name} {last : Nat} (hfollowed : followed ≤ maxHops)
    (h : readFrom packet start pos followed read resume? = .ok (name, last)) :
    ∃ labels hops next, name.labels = read.1 ++ labels ∧ Spelled packet pos labels hops next ∧
      followed + hops ≤ maxHops ∧ last = resume?.getD next := by
  -- The induction follows the reader; only three of its ways end without an error.
  fun_induction readFrom packet start pos followed read resume? with
  | case2 pos followed read resume? byte hbyte size hzero =>
      cases h
      have hbyteZero : byte = 0 := UInt8.toNat_inj.1 hzero
      have hstop : packet[pos]? = some 0 := by
        rw [hbyte, hbyteZero]
      exact ⟨[], 0, pos + 1, (List.append_nil _).symm, Spelled.stop hstop, hfollowed, rfl⟩
  | case6 pos followed read resume? byte hbyte size hzero hsmall bs hslice hcount hfits label
      hlabel hlt ih =>
      rcases ih hfollowed h with ⟨labels, hops, next, hname, hspelled, hhops, hlast⟩
      rcases Packet.holdsAt_of_slice? hslice with ⟨hbytes, hlength, -⟩
      have hsize : label.size = size := (Label.size_of_ofBytes hlabel).trans hlength
      have hwire : packet.HoldsAt pos (labelWire label) := by
        refine Packet.holdsAt_cons.2 ⟨?_, ?_⟩
        · rw [hbyte, hsize, UInt8.ofNat_toNat]
        · rw [Label.bytes_of_ofBytes hlabel]
          exact hbytes
      rw [← hsize] at hspelled
      refine ⟨label :: labels, hops, next, ?_, Spelled.label hwire hspelled, hhops, hlast⟩
      rw [hname, Read.push, List.append_assoc]
      rfl
  | case10 pos followed read resume? byte hbyte size hzero hlarge hmark low hlow target hback
      hroom ih =>
      rcases ih hroom h with ⟨labels, hops, next, hname, hspelled, hhops, hlast⟩
      rcases pointerWire_of_split hmark rfl with ⟨hwire, hreach⟩
      have hpointer : packet.HoldsAt pos (pointerWire target) := by
        rw [hwire]
        exact Packet.holdsAt_cons.2 ⟨hbyte, Packet.holdsAt_cons.2 ⟨hlow, List.nil_prefix⟩⟩
      refine ⟨labels, hops + 1, pos + 2, hname,
        Spelled.jump hpointer hreach (Nat.lt_of_not_le hback) hspelled, by omega, ?_⟩
      rw [hlast]
      cases resume? <;> rfl
  | _ => cases h

/-- A name is read exactly where it is spelled through no more pointers than a reader follows. -/
theorem read_eq_ok_iff {name : Name} :
    Name.read packet pos = .ok (name, next) ↔
      name.form = .plain ∧ ∃ hops, hops ≤ maxHops ∧ Spelled packet pos name.labels hops next := by
  constructor
  · intro h
    rcases spelled_of_readFrom (Nat.zero_le _) h with
      ⟨labels, hops, last, hname, hspelled, hhops, rfl⟩
    rw [List.nil_append] at hname
    subst hname
    exact ⟨readFrom_form h, hops, by omega, hspelled⟩
  · rintro ⟨hform, hops, hhops, hspelled⟩
    rw [read_of_spelled hspelled name.size_le, if_pos hhops]
    exact congrArg (fun n => Except.ok (n, next)) (Name.ext rfl hform.symm)

/-- A name that is read is plain, and so written in no more bytes than a name may have. -/
theorem read_sound {name : Name} (h : Name.read packet pos = .ok (name, next)) :
    name.form = .plain ∧ name.size ≤ maxNameSize := by
  have hform : name.form = .plain := readFrom_form h
  refine ⟨hform, ?_⟩
  rw [size_eq_wireSize (isCompressed_of_form hform)]
  exact name.size_le

end Name

end NameServer
