import NameServer.Message.Datagram
import NameServer.Proofs.Message.Compressed

/-!
# Proofs.Message.Datagram — what is sent can be read

A reader gives up after `maxHops` pointers, but a datagram is too small for a chain of that length:
a name that makes chains longer takes four bytes, and there are at least five other bytes for each
name of a record.

* `Slot.Tracked.pointers_bounded` — long chains cost bytes, over a whole message;
* `Message.pointers_le_of_datagram` — in a datagram no name takes more than 56 pointers;
* `Message.datagram_decodes` — a message is always sent in a datagram that is read back.
-/

namespace NameServer

open Slot (layAll NamesAt)

/-! ## Counting -/

namespace Slot

/-- The bytes of slots that hold no name. -/
def gaps : List Slot → Nat
  | [] => 0
  | .gap count :: slots => count + gaps slots
  | .name _ :: slots => gaps slots

@[simp] theorem gaps_append (xs ys : List Slot) : gaps (xs ++ ys) = gaps xs + gaps ys := by
  induction xs with
  | nil => simp [gaps]
  | cons slot xs ih => cases slot <;> simp [gaps, ih, Nat.add_assoc]

/-- Chains of pointers grow with the names of a message, and each time they cost four bytes. -/
theorem Tracked.pointers_bounded {packet : Packet} {trail : Trail} {pos depth : Nat}
    {slots laid : List Slot} (h : Tracked packet trail pos slots laid)
    (hwithin : trail.Within depth) :
    ∃ deepest, deepest ≤ depth + (names slots).length ∧
      4 * deepest + gaps slots ≤ 4 * depth + totalSize laid ∧ depth ≤ deepest ∧
        ∀ hops ∈ trail.pointers (names slots), hops ≤ deepest + 1 := by
  induction h generalizing depth with
  | nil =>
      exact ⟨depth, Nat.le_refl _, Nat.le_refl _, Nat.le_refl _, by simp [names, Trail.pointers]⟩
  | gap _ ih =>
      rcases ih hwithin with ⟨deepest, hnames, hsize, hdepth, hall⟩
      refine ⟨deepest, hnames, ?_, hdepth, hall⟩
      simp only [gaps, totalSize_gap]
      omega
  | @name trail pos n placed table after slots laid htracks hplaces _ _ _ ih =>
      -- This name pays for the step from `depth` to `deeper`, the names behind it for the others.
      rcases htracks.within_push hplaces hwithin with ⟨deeper, hle, hone, hfour, hpush⟩
      rcases ih hpush with ⟨deepest, hnames, hsize, hdepth, hall⟩
      have hhops : trail.hops n.folded ≤ depth + 1 := Trail.hops_le hwithin
      refine ⟨deepest, ?_, ?_, Nat.le_trans hle hdepth, ?_⟩
      · simp only [names, List.length_cons]
        omega
      · simp only [gaps, totalSize_name]
        omega
      · simp only [names, Trail.pointers, List.forall_mem_cons]
        exact ⟨by omega, hall⟩

end Slot

theorem Record.names_le_gaps (record : Record) :
    5 * record.names.length ≤ Slot.gaps record.slots := by
  rcases record with ⟨name, rdata, ttl⟩
  cases rdata <;>
    simp only [names, Rdata.references, Rdata.targets, slots, Rdata.slots, Slot.gaps, fixedSize,
      List.length_cons, List.length_nil] <;>
    omega

theorem Record.names_flatMap_le_gaps (records : List Record) :
    5 * (records.flatMap names).length ≤ Slot.gaps (records.flatMap slots) := by
  induction records with
  | nil => exact Nat.le_refl _
  | cons record records ih =>
      have hfirst := record.names_le_gaps
      simp only [List.flatMap_cons, List.length_append, Slot.gaps_append]
      omega

theorem Record.length_le_totalSize (records : List Record) :
    records.length ≤ totalSize records := by
  induction records with
  | nil => exact Nat.le_refl _
  | cons record records ih =>
      have hpos := record.name.size_pos
      simp only [List.length_cons, totalSize, size]
      omega

theorem Record.size_le_totalSize {record : Record} {records : List Record}
    (h : record ∈ records) : record.size ≤ totalSize records := by
  induction records with
  | nil => cases h
  | cons first records ih =>
      simp only [totalSize]
      rcases List.mem_cons.1 h with rfl | hmem
      · exact Nat.le_add_right _ _
      · exact Nat.le_add_left_of_le (ih hmem)

namespace Message

variable {message placed : Message}

/-- Beside each name of a message but that of the question there are five other bytes. -/
theorem names_le_gaps (message : Message) :
    5 * message.names.length ≤ Slot.gaps message.slots + 1 := by
  have hrecords := Record.names_flatMap_le_gaps message.records
  simp only [names, slots, Question.slots, List.length_cons, Slot.gaps_append, Slot.gaps]
  omega

/-- A datagram has no room for a name that takes more than 56 pointers. -/
theorem pointers_le_of_datagram (hform : ∀ n ∈ message.names, n.isCompressed = false)
    (h : message.compress = .ok placed) (hsize : placed.size ≤ maxDatagram) :
    ∀ hops ∈ message.pointers, hops ≤ 56 := by
  have hnone : Trail.Within [] 0 := by
    intro key count hbehind
    cases hbehind
  rcases (tracked_compress hform h).pointers_bounded hnone with
    ⟨deepest, hcount, hbytes, -, hall⟩
  have hgaps := message.names_le_gaps
  rw [names_slots] at hcount hall
  rw [size_eq_totalSize] at hsize
  unfold maxDatagram headerSize at hsize
  -- Of the 500 bytes behind the header each step takes four and nearly each name five more.
  intro hops hmem
  have hle := hall hops hmem
  omega

/-! ## Datagrams -/

/-- The sizes in a datagram fit the fields that declare them. -/
theorem countable_of_datagram (hsize : placed.size ≤ maxDatagram) :
    placed.Countable ∧ ∀ record ∈ placed.records, record.rdata.size ≤ maxRdataSize := by
  -- Each record and each payload takes part of the 512 bytes, and the fields count up to 65535.
  have htotal : Record.totalSize placed.records ≤ 512 := by
    unfold Message.size maxDatagram at hsize
    omega
  have hlength := Record.length_le_totalSize placed.records
  have hrecords : placed.records.length =
      placed.answer.length + placed.authority.length + placed.additional.length := by
    simp [records, Nat.add_assoc]
  refine ⟨⟨by omega, by omega, by omega⟩, ?_⟩
  intro record hmem
  have hle := Record.size_le_totalSize hmem
  unfold Record.size at hle
  unfold maxRdataSize
  omega

/-- The bytes fit a datagram and a reader gets the message out of them, with the sizes of its
sections. -/
structure SentAs (message : Message) (bytes : List UInt8) : Prop where
  length_le : bytes.length ≤ maxDatagram
  read : ∃ got, Message.read bytes.toArray = .ok got ∧ message.Conveys got
  header : ∃ counts, Header.read bytes.toArray = .ok (message.header, counts) ∧
    message.Tally counts

/-- A compressed message that fits a datagram is read as what it was made of. -/
theorem sentAs_of_compress (hm : message.Writable) (h : message.compress = .ok placed)
    (hsize : placed.size ≤ maxDatagram) : message.SentAs placed.wire := by
  have hlaidAs := (laidAs_of_compress h).2
  rcases countable_of_datagram hsize with ⟨hcount, hpayload⟩
  refine ⟨by rwa [length_wire], ?_, ?_⟩
  · refine (read_compressed hm h hcount hpayload).1 fun hops hmem => ?_
    have hle := pointers_le_of_datagram hm.names h hsize hops hmem
    unfold maxHops
    omega
  · have hheader := readHeader_wire (Packet.holdsAt_toArray placed.wire)
    rw [hlaidAs.header] at hheader
    exact ⟨_, hheader, hlaidAs.tally hcount⟩

/-- A message that is tried either does not fit or is ready to be sent. -/
theorem fitted?_total (hm : message.Writable) :
    message.fitted? = .ok none ∨ ∃ bytes, message.fitted? = .ok (some bytes) ∧
      message.SentAs bytes := by
  by_cases hfar : maxPointer < message.size
  · left
    unfold fitted?
    rw [if_pos hfar]
  · rcases compress_total (Nat.le_of_not_lt hfar) hm.names with ⟨placed, hplaced⟩
    by_cases hlarge : maxDatagram < placed.size
    · left
      unfold fitted?
      simp only [if_neg hfar, hplaced, ok_bind, if_pos hlarge]
      rfl
    · right
      refine ⟨placed.wire, ?_, sentAs_of_compress hm hplaced (Nat.le_of_not_lt hlarge)⟩
      unfold fitted?
      simp only [if_neg hfar, hplaced, ok_bind, if_neg hlarge]
      rfl

/-- Leaving records out brings no name in. -/
theorem names_withoutAdditional_subset (message : Message) :
    message.withoutAdditional.names ⊆ message.names := by
  intro n hmem
  simp only [withoutAdditional, names, records, List.append_nil, List.mem_cons,
    List.flatMap_append, List.mem_append] at hmem ⊢
  exact hmem.imp id Or.inl

theorem writable_withoutAdditional (hm : message.Writable) :
    message.withoutAdditional.Writable where
  names := fun n hmem => hm.names n (message.names_withoutAdditional_subset hmem)
  ttl := by
    intro record hmem
    refine hm.ttl record ?_
    simp only [withoutAdditional, records, List.append_nil, List.mem_append] at hmem ⊢
    exact Or.inl hmem

theorem names_truncated (message : Message) :
    message.truncated.names = [message.question.name] := rfl

theorem writable_truncated (hm : message.Writable) : message.truncated.Writable where
  names := by
    intro n hmem
    rw [names_truncated, List.mem_singleton] at hmem
    rw [hmem]
    exact hm.names _ List.mem_cons_self
  ttl := fun _ hmem => absurd hmem List.not_mem_nil

/-- A header of 12 bytes, a name of 255 at most, and the type and class of the question. -/
theorem size_truncated_le (hform : message.question.name.isCompressed = false) :
    message.truncated.size ≤ 271 := by
  have hname := message.question.name.size_le
  rw [← Name.size_eq_wireSize hform] at hname
  unfold maxNameSize at hname
  simp only [Message.size, truncated, Question.size, records, Record.totalSize, List.append_nil,
    headerSize]
  omega

/-- The question alone always fits. -/
theorem truncated_total (hm : message.Writable) :
    ∃ placed, message.truncated.compress = .ok placed ∧
      message.truncated.SentAs placed.wire := by
  have hw := writable_truncated hm
  have hsize := size_truncated_le (hm.names _ List.mem_cons_self)
  have hreach : message.truncated.size ≤ maxPointer := by
    unfold maxPointer
    omega
  rcases compress_total hreach hw.names with ⟨placed, hplaced⟩
  have hle := size_compress_le hplaced hw.names
  refine ⟨placed, hplaced, sentAs_of_compress hw hplaced ?_⟩
  unfold maxDatagram
  omega

/-- Whatever its records, something is sent for a message, and a reader gets the message out of it,
the message without its additional section, or the question marked as truncated. -/
theorem datagram_decodes (hm : message.Writable) :
    ∃ bytes, message.datagram = .ok bytes ∧
      ∃ sent ∈ [message, message.withoutAdditional, message.truncated], sent.SentAs bytes := by
  unfold datagram
  rcases fitted?_total hm with hnone | ⟨bytes, hsome, hsent⟩
  · rcases fitted?_total (writable_withoutAdditional hm) with hnone' | ⟨bytes, hsome, hsent⟩
    · rcases truncated_total hm with ⟨placed, hplaced, hsent⟩
      refine ⟨placed.wire, ?_, message.truncated, by simp, hsent⟩
      simp only [hnone, hnone', hplaced, ok_bind]
      rfl
    · refine ⟨bytes, ?_, message.withoutAdditional, by simp, hsent⟩
      simp only [hnone, hsome, ok_bind]
      rfl
  · refine ⟨bytes, ?_, message, by simp, hsent⟩
    simp only [hsome, ok_bind]
    rfl

theorem datagram_decodes_sampleReply :
    sampleReply.Writable ∧ ∃ bytes, sampleReply.datagram = .ok bytes ∧
      ∃ sent ∈ [sampleReply, sampleReply.withoutAdditional, sampleReply.truncated],
        sent.SentAs bytes :=
  ⟨encodable_sampleReply.toWritable, datagram_decodes encodable_sampleReply.toWritable⟩

end Message

end NameServer
