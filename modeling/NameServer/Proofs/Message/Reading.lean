import NameServer.Proofs.Message.Slots
import NameServer.Proofs.Outcome

/-!
# Proofs.Message.Reading — messages are read as their names are

Everything in a message but its names reads as it was written. So whether written bytes are read,
and as what, follows from how the names in them are read:

* `Name.ReadsAt` — a written name is read like this, up to what a `view` of names shows;
* `Message.read_wire` — a written message is read exactly when its names are, and its records are
  the same as far as the view shows.
-/

namespace NameServer

open Slot (NamesAt namesAt_append namesAt_gap namesAt_name)

variable {α : Type} {packet : Packet} {e : WireError} {good : Nat → Prop} {view : Name → α}
variable {pos : Nat}

/-! ## Names -/

/-- The written name `n` is read at `pos` exactly when `good pos`; then the view of it is kept and
its bytes are the ones that are used up. -/
def Name.ReadsAt (packet : Packet) (e : WireError) (good : Nat → Prop) (view : Name → α)
    (pos : Nat) (n : Name) : Prop :=
  Yields e (good pos) (fun out => view out.1 = view n ∧ out.2 = pos + n.size)
    (Name.read packet pos)

/-! ## Payloads -/

namespace Rdata

/-- The strings of a text are read as its bytes. -/
theorem readStrings_flatMap {strings : List (List UInt8)}
    (hsize : ∀ string ∈ strings, string.length ≤ maxStringSize)
    (h : packet.HoldsAt pos (strings.flatMap stringWire)) :
    readStrings packet (pos + (strings.flatMap stringWire).length) pos =
      .ok (strings.flatten, pos + (strings.flatMap stringWire).length) := by
  induction strings generalizing pos with
  | nil =>
      rw [readStrings, dif_neg (by simp)]
      rfl
  | cons string strings ih =>
      rw [List.flatMap_cons] at h
      have hlen : (stringWire string).length = 1 + string.length := by
        simp [stringWire, Nat.add_comm]
      have hle : string.length ≤ 255 := hsize string List.mem_cons_self
      have hnat : (UInt8.ofNat string.length).toNat = string.length := by
        simp only [UInt8.toNat_ofNat']
        omega
      have hget : packet[pos]? = some (UInt8.ofNat string.length) := h.left.getElem?
      have hpos : pos < packet.size := (Array.getElem?_eq_some_iff.1 hget).1
      have hslice : packet.slice? (pos + 1) string.length = some string :=
        Packet.HoldsAt.slice? h.left.tail hpos
      have hrest := h.right
      have hnext : pos + (stringWire string).length = pos + 1 + string.length := by
        rw [hlen, Nat.add_assoc]
      rw [hnext] at hrest
      have htail := ih (fun other hmem => hsize other (List.mem_cons_of_mem string hmem)) hrest
      have htotal : pos + ((string :: strings).flatMap stringWire).length =
          pos + 1 + string.length + (strings.flatMap stringWire).length := by
        rw [List.flatMap_cons, List.length_append, ← hnext, Nat.add_assoc]
      rw [htotal, readStrings, dif_pos (by omega)]
      simp only [hget, hnat, hslice, htail]
      rfl

theorem readStrings_textWire {text : String} (h : packet.HoldsAt pos (textWire text)) :
    readStrings packet (pos + (textWire text).length) pos =
      .ok (Text.bytes text, pos + (textWire text).length) := by
  unfold textWire at h ⊢
  split at h
  · rename_i hnil
    -- An empty text is one empty string.
    have hone :
        readStrings packet (pos + ([[]].flatMap stringWire).length) pos =
          .ok ([[]].flatten, pos + ([[]].flatMap stringWire).length) :=
      readStrings_flatMap (by simp) (by simpa using h)
    simpa [hnil] using hone
  · have hall := readStrings_flatMap (fun string => length_le_of_mem_strings) h
    rwa [flatten_strings] at hall

/-- The fixed fields of an SOA payload are read as they stand behind its names. -/
theorem field32_soa {s : Soa Name} (h : packet.HoldsAt pos (soa s).wire) :
    let fixed := pos + s.mname.size + s.rname.size
    packet.field32 fixed = .ok s.serial ∧ packet.field32 (fixed + 4) = .ok s.refresh ∧
      packet.field32 (fixed + 8) = .ok s.retry ∧ packet.field32 (fixed + 12) = .ok s.expire ∧
        packet.field32 (fixed + 16) = .ok s.minimum := by
  have hfixed := h.right
  simp only [List.length_append, Name.length_wire, ← Nat.add_assoc] at hfixed
  exact ⟨hfixed.left.field32, hfixed.right.left.field32, hfixed.right.right.left.field32,
    hfixed.right.right.right.left.field32, hfixed.right.right.right.right.left.field32⟩

/-- An SOA payload is read exactly when its two names are. -/
theorem readSoa_wire {s : Soa Name} (h : packet.HoldsAt pos (soa s).wire)
    (hnames : NamesAt (Name.ReadsAt packet e good view) pos (soa s).slots) :
    Yields e (NamesAt (fun pos _ => good pos) pos (soa s).slots)
      (fun out => (soa out.1).map view = (soa s).map view ∧ out.2 = pos + (soa s).size)
      (readSoa packet pos) := by
  rcases hnames with ⟨hmname, hrname, -⟩
  rcases field32_soa h with ⟨hserial, hrefresh, hretry, hexpire, hminimum⟩
  unfold readSoa
  refine (hmname.bind ?_).imp Iff.rfl fun _ hpost => hpost
  rintro ⟨mname, next⟩ ⟨hm, rfl⟩
  refine hrname.bind ?_
  rintro ⟨rname, next⟩ ⟨hr, rfl⟩
  simp only [hserial, hrefresh, hretry, hexpire, hminimum]
  refine Yields.ok ⟨?_, ?_⟩
  · simp only [map, hm, hr]
  · simp only [size]
    omega

/-- A payload is read exactly when its names are. -/
theorem readKind_wire {rdata : Rdata Name} {ttl : UInt32} (h : packet.HoldsAt pos rdata.wire)
    (hnames : NamesAt (Name.ReadsAt packet e good view) pos rdata.slots)
    (httl : rdata.kind ≠ .soa → ttl = rdata.ttl) :
    Yields e (NamesAt (fun pos _ => good pos) pos rdata.slots)
      (fun out => out.1.map view = rdata.map view ∧ out.2 = pos + rdata.size)
      (readKind rdata.kind ttl packet pos (pos + rdata.size)) := by
  have hpos : pos ≤ packet.size := h.pos_le rdata.wire_ne_nil
  cases rdata with
  | a rttl address =>
      have hslice : packet.slice? pos 4 = some address.octets := Packet.HoldsAt.slice? h hpos
      cases httl (by simp [kind])
      simp only [readKind, kind, hslice, IPv4.octets]
      exact Yields.ok ⟨rfl, rfl⟩
  | ns rttl server =>
      cases httl (by simp [kind])
      refine hnames.1.bind ?_
      rintro ⟨name, next⟩ ⟨hn, rfl⟩
      exact Yields.ok ⟨by simp only [map, hn, ttl], rfl⟩
  | cname rttl target =>
      cases httl (by simp [kind])
      refine hnames.1.bind ?_
      rintro ⟨name, next⟩ ⟨hn, rfl⟩
      exact Yields.ok ⟨by simp only [map, hn, ttl], rfl⟩
  | mx rttl preference exchange =>
      cases httl (by simp [kind])
      have hpreference : packet.field16 pos = .ok preference := h.left.field16
      simp only [readKind, kind, hpreference]
      refine hnames.1.bind ?_
      rintro ⟨name, next⟩ ⟨hn, rfl⟩
      exact Yields.ok ⟨by simp only [map, hn, ttl], by simp only [size]; omega⟩
  | soa s =>
      refine ((readSoa_wire h hnames).bind ?_).imp (iff_of_eq (and_true _)) fun _ hpost => hpost
      rintro ⟨start, next⟩ hpost
      exact Yields.ok hpost
  | txt rttl text =>
      cases httl (by simp [kind])
      have hstrings := readStrings_textWire h
      have hsize : (textWire text).length = (txt rttl text).size := length_textWire text
      rw [hsize] at hstrings
      have htext : Text.ofBytes? (Text.bytes text) = some text := Text.ofBytes?_bytes text
      simp only [readKind, kind, hstrings, bind, Except.bind, htext]
      exact Yields.ok ⟨rfl, rfl⟩

/-- A payload that fills the bytes declared for it is read exactly when its names are. -/
theorem read_wire {rdata : Rdata Name} {ttl : UInt32} (h : packet.HoldsAt pos rdata.wire)
    (hnames : NamesAt (Name.ReadsAt packet e good view) pos rdata.slots)
    (httl : rdata.kind ≠ .soa → ttl = rdata.ttl) :
    Yields e (NamesAt (fun pos _ => good pos) pos rdata.slots)
      (fun out => out.map view = rdata.map view)
      (Rdata.read rdata.type ttl packet pos rdata.size) := by
  have hend : pos + rdata.size ≤ packet.size := by
    have hle := h.end_le (h.pos_le rdata.wire_ne_nil)
    rwa [length_wire] at hle
  have hkind : rdata.type.kind? = some rdata.kind := RecordType.kind?_type rdata.kind
  unfold Rdata.read
  rw [if_neg (by omega)]
  simp only [hkind]
  refine ((readKind_wire h hnames httl).bind ?_).imp (iff_of_eq (and_true _)) fun _ hpost => hpost
  rintro ⟨out, next⟩ ⟨hview, rfl⟩
  rw [if_pos rfl]
  exact Yields.ok hview

end Rdata

/-! ## Questions -/

theorem Question.read_wire {question : Question} (h : packet.HoldsAt pos question.wire)
    (hname : Name.ReadsAt packet e good view pos question.name) :
    Yields e (good pos)
      (fun out => view out.1.name = view question.name ∧ out.1.type = question.type ∧
        out.2 = pos + question.size)
      (Question.read packet pos) := by
  have htype := h.left.right.field16
  have hclass := h.right.field16
  simp only [List.length_append, Name.length_wire, Octets.length_ofWord16, ← Nat.add_assoc]
    at htype hclass
  unfold Question.read
  refine (hname.bind ?_).imp (iff_of_eq (and_true _)) fun _ hpost => hpost
  rintro ⟨name, next⟩ ⟨hview, rfl⟩
  simp only [htype, hclass]
  exact Yields.ok ⟨hview, rfl, rfl⟩

/-! ## Records -/

namespace Record

/-- What a record shows when its names are seen through `view`. -/
def through (view : Name → α) (record : Record) : α × Rdata α × UInt32 :=
  (view record.name, record.rdata.map view, record.ttl)

/-- The TTL of a record is that of its payload; only an SOA has a TTL of its own besides. -/
def TtlAgrees (record : Record) : Prop :=
  record.rdata.kind ≠ .soa → record.ttl = record.rdata.ttl

instance (record : Record) : Decidable record.TtlAgrees :=
  inferInstanceAs (Decidable (record.rdata.kind ≠ .soa → record.ttl = record.rdata.ttl))

/-- The fixed fields of a record are read as they stand behind its owner. -/
theorem fields_wire {record : Record} (h : packet.HoldsAt pos record.wire) :
    let fixed := pos + record.name.size
    packet.field16 fixed = .ok record.type.code ∧
      packet.field16 (fixed + 2) = .ok RecordClass.internet.code ∧
        packet.field32 (fixed + 4) = .ok record.ttl ∧
          packet.field16 (fixed + 8) = .ok (UInt16.ofNat record.rdata.size) := by
  have htype := h.left.left.left.left.right.field16
  have hclass := h.left.left.left.right.field16
  have httl := h.left.left.right.field32
  have hlength := h.left.right.field16
  simp only [List.length_append, Name.length_wire, Octets.length_ofWord16, Octets.length_ofWord32,
    ← Nat.add_assoc] at htype hclass httl hlength
  exact ⟨htype, hclass, httl, hlength⟩

/-- A written record is read exactly when its names are. -/
theorem read_wire {record : Record} (h : packet.HoldsAt pos record.wire)
    (hnames : NamesAt (Name.ReadsAt packet e good view) pos record.slots)
    (httl : record.TtlAgrees) (hsize : record.rdata.size ≤ maxRdataSize) :
    Yields e (NamesAt (fun pos _ => good pos) pos record.slots)
      (fun out => out.1.through view = record.through view ∧ out.2 = pos + record.size)
      (Record.read packet pos) := by
  rcases hnames with ⟨hname, hrdata⟩
  rcases fields_wire h with ⟨htype, hclass, hfield, hlength⟩
  have hdeclared : (UInt16.ofNat record.rdata.size).toNat = record.rdata.size := by
    unfold maxRdataSize at hsize
    simp only [UInt16.toNat_ofNat']
    omega
  unfold Record.read
  refine (hname.bind ?_).imp Iff.rfl fun _ hpost => hpost
  rintro ⟨name, next⟩ ⟨hview, rfl⟩
  simp only [htype, hclass, hfield, hlength, hdeclared, ok_bind]
  rw [if_neg (not_not_intro rfl)]
  have hbody := Rdata.read_wire (holdsAt_rdata h) hrdata httl
  refine (hbody.bind ?_).imp (iff_of_eq (and_true _)) fun _ hpost => hpost
  intro rdata hrview
  refine Yields.ok ⟨?_, ?_⟩
  · simp only [through, hview, hrview]
  · simp only [size, Nat.add_assoc]

/-- Written records one behind the other are read exactly when all their names are. -/
theorem readMany_wire {records : List Record} (h : packet.HoldsAt pos (records.flatMap wire))
    (hnames : NamesAt (Name.ReadsAt packet e good view) pos (records.flatMap slots))
    (hrecords : ∀ record ∈ records, record.TtlAgrees ∧ record.rdata.size ≤ maxRdataSize) :
    Yields e (NamesAt (fun pos _ => good pos) pos (records.flatMap slots))
      (fun out => out.1.map (through view) = records.map (through view) ∧
        out.2 = pos + totalSize records)
      (readMany packet records.length pos) := by
  induction records generalizing pos with
  | nil => exact Yields.ok ⟨rfl, rfl⟩
  | cons record records ih =>
      rw [List.flatMap_cons] at h hnames
      rcases namesAt_append.1 hnames with ⟨hhead, htail⟩
      have hrest := h.right
      rw [totalSize_slots] at htail
      rw [length_wire] at hrest
      rcases hrecords record List.mem_cons_self with ⟨httl, hsize⟩
      have hmore := ih hrest htail fun other hmem =>
        hrecords other (List.mem_cons_of_mem record hmem)
      have hgood : NamesAt (fun pos _ => good pos) pos ((record :: records).flatMap slots) ↔
          NamesAt (fun pos _ => good pos) pos record.slots ∧
            NamesAt (fun pos _ => good pos) (pos + record.size) (records.flatMap slots) ∧
              True := by
        rw [List.flatMap_cons, namesAt_append, totalSize_slots, and_true]
      unfold readMany
      refine ((read_wire h.left hhead httl hsize).bind ?_).imp hgood.symm fun _ hpost => hpost
      rintro ⟨first, next⟩ ⟨hfirst, rfl⟩
      refine hmore.bind ?_
      rintro ⟨rest, next⟩ ⟨hrest, rfl⟩
      refine Yields.ok ⟨?_, ?_⟩
      · simp only [List.map_cons, hfirst, hrest]
      · simp only [totalSize, Nat.add_assoc]

end Record

/-! ## Headers -/

namespace Header

theorem bit_eq (weight : Nat) (b : Bool) : bit weight b = b.toNat * weight := by
  cases b <;> simp [bit]

theorem hasBit_eq {flags : UInt16} {weight : Nat} {b : Bool}
    (h : flags.toNat / weight % 2 = b.toNat) : hasBit flags weight = b := by
  unfold hasBit
  rw [h]
  cases b <;> rfl

/-- The word of flags as a number. -/
theorem toNat_flags (header : Header) :
    header.flags.toNat = header.response.toNat * 0x8000 + header.opcode.code * 0x800 +
      header.authoritative.toNat * 0x400 + header.truncated.toNat * 0x200 +
        header.recursionDesired.toNat * 0x100 + header.recursionAvailable.toNat * 0x80 +
          header.rcode.code := by
  have hopcode : header.opcode.code < 3 := by cases header.opcode <;> decide
  have hrcode := header.rcode.code_lt
  have h₁ := header.response.toNat_le
  have h₂ := header.authoritative.toNat_le
  have h₃ := header.truncated.toNat_le
  have h₄ := header.recursionDesired.toNat_le
  have h₅ := header.recursionAvailable.toNat_le
  simp only [flags, bit_eq, UInt16.toNat_ofNat']
  omega

/-- The word of flags gives the header back. -/
theorem ofFlags_flags (header : Header) : ofFlags header.id header.flags = .ok header := by
  have hflags := header.toNat_flags
  rcases header with ⟨id, response, opcode, authoritative, truncated, desired, available, rcode⟩
  have hopcode : opcode.code < 3 := by cases opcode <;> decide
  have hrcode : rcode.code < 16 := rcode.code_lt
  have h₁ := response.toNat_le
  have h₂ := authoritative.toNat_le
  have h₃ := truncated.toNat_le
  have h₄ := desired.toNat_le
  have h₅ := available.toNat_le
  dsimp only at hflags
  unfold ofFlags
  have hop : opcode.code = (Header.mk id response opcode authoritative truncated desired available
      rcode).flags.toNat / 0x800 % 16 := by omega
  have hrc : rcode.code = (Header.mk id response opcode authoritative truncated desired available
      rcode).flags.toNat % 16 := by omega
  rw [← hop, ← hrc]
  simp only [Opcode.ofCode?_code, ResponseCode.ofCode?_code]
  rw [hasBit_eq (b := response) (by omega), hasBit_eq (b := authoritative) (by omega),
    hasBit_eq (b := truncated) (by omega), hasBit_eq (b := desired) (by omega),
    hasBit_eq (b := available) (by omega)]

/-- A written header with one question is read back with its section sizes. -/
theorem read_wire {header : Header} {counts : SectionCounts}
    (h : packet.HoldsAt 0 (header.wire counts)) (hone : counts.question = 1) :
    Header.read packet = .ok (header, counts) := by
  have hsize : headerSize ≤ packet.size := by
    have hle := h.end_le (Nat.zero_le _)
    rwa [length_wire, Nat.zero_add] at hle
  have hid := h.left.field16
  have hflags := h.right.left.field16
  have hquestion := h.right.right.left.field16
  have hanswer := h.right.right.right.left.field16
  have hauthority := h.right.right.right.right.left.field16
  have hadditional := h.right.right.right.right.right.left.field16
  simp only [Octets.length_ofWord16, Nat.zero_add, Nat.reduceAdd]
    at hid hflags hquestion hanswer hauthority hadditional
  unfold Header.read
  rw [if_neg (by omega)]
  simp only [hid, hflags, hquestion, hanswer, hauthority, hadditional, bind, Except.bind, hone,
    ofFlags_flags]
  rcases counts with ⟨question, answer, authority, additional⟩
  cases hone
  rfl

end Header

/-! ## Messages -/

namespace Message

/-- What a message shows when its names are seen through `view`. -/
def through (view : Name → α) (message : Message) :
    Header × (α × RecordType) × List (α × Rdata α × UInt32) × List (α × Rdata α × UInt32) ×
      List (α × Rdata α × UInt32) :=
  (message.header, (view message.question.name, message.question.type),
    message.answer.map (Record.through view), message.authority.map (Record.through view),
    message.additional.map (Record.through view))

/-- The sections of a message can be counted by its header. -/
structure Countable (message : Message) : Prop where
  answer : message.answer.length ≤ 0xFFFF
  authority : message.authority.length ≤ 0xFFFF
  additional : message.additional.length ≤ 0xFFFF

/-- A message whose names stand for themselves and whose records have the TTL of their payload: one
that is built from parts, or one that was read. -/
structure Writable (message : Message) : Prop where
  names : ∀ n ∈ message.names, n.isCompressed = false
  ttl : ∀ record ∈ message.records, record.TtlAgrees

/-- A message all whose sizes fit the fields that declare them. -/
structure Encodable (message : Message) : Prop extends Writable message, Countable message where
  payload : ∀ record ∈ message.records, record.rdata.size ≤ maxRdataSize

/-- Section sizes that are those of a message, without a bound in between. -/
structure Tally (message : Message) (counts : SectionCounts) : Prop where
  question : counts.question = 1
  answer : counts.answer.toNat = message.answer.length
  authority : counts.authority.toNat = message.authority.length
  additional : counts.additional.toNat = message.additional.length

theorem toNat_sectionCount {records : List Record} (h : records.length ≤ 0xFFFF) :
    (sectionCount records).toNat = records.length := by
  unfold sectionCount
  simp only [UInt16.toNat_ofNat']
  omega

theorem tally_counts {message : Message} (h : message.Countable) :
    message.Tally message.counts where
  question := rfl
  answer := toNat_sectionCount h.answer
  authority := toNat_sectionCount h.authority
  additional := toNat_sectionCount h.additional

theorem readHeader_wire {message : Message} (h : packet.HoldsAt 0 message.wire) :
    Header.read packet = .ok (message.header, message.counts) :=
  Header.read_wire h.left.left rfl

/-- A written message is read to its end exactly when its names are. -/
theorem readTo_wire {message : Message} (h : packet.HoldsAt 0 message.wire)
    (hnames : NamesAt (Name.ReadsAt packet e good view) headerSize message.slots)
    (hrecords : ∀ record ∈ message.records,
      record.TtlAgrees ∧ record.rdata.size ≤ maxRdataSize) (hcount : message.Countable) :
    Yields e (NamesAt (fun pos _ => good pos) headerSize message.slots)
      (fun out => out.1.through view = message.through view ∧ out.2 = message.size)
      (readTo packet) := by
  have hbytes := holdsAt_records h
  unfold slots at hnames ⊢
  unfold records at hbytes hnames hrecords ⊢
  simp only [List.flatMap_append, namesAt_append, Slot.totalSize_append, Question.totalSize_slots,
    Record.totalSize_flatMap_slots, Packet.holdsAt_append, List.length_append,
    Record.length_flatMap_wire, ← Nat.add_assoc] at hbytes hnames ⊢
  rcases hnames with ⟨⟨hquestion, -⟩, ⟨hanswer, hauthority⟩, hadditional⟩
  rcases hbytes with ⟨⟨hanswer', hauthority'⟩, hadditional'⟩
  have hreadAnswer := Record.readMany_wire hanswer' hanswer fun record hmem =>
    hrecords record (by simp [hmem])
  have hreadAuthority := Record.readMany_wire hauthority' hauthority fun record hmem =>
    hrecords record (by simp [hmem])
  have hreadAdditional := Record.readMany_wire hadditional' hadditional fun record hmem =>
    hrecords record (by simp [hmem])
  unfold readTo
  simp only [readHeader_wire h, ok_bind, counts, toNat_sectionCount hcount.answer,
    toNat_sectionCount hcount.authority, toNat_sectionCount hcount.additional]
  have hgood : ∀ a b c d : Prop, a ∧ b ∧ c ∧ d ∧ True ↔ (a ∧ True) ∧ (b ∧ c) ∧ d := by
    intro a b c d
    simp only [and_true, and_assoc]
  -- The four parts are read in sequence, each from where the one before it ended.
  have hread := Question.read_wire (holdsAt_question h) hquestion
  refine (hread.bind ?_).imp (hgood _ _ _ _) fun _ hpost => hpost
  rintro ⟨question, pos⟩ ⟨hname, htype, rfl⟩
  change question.type = message.question.type at htype
  refine hreadAnswer.bind ?_
  rintro ⟨answer, pos⟩ ⟨ha, rfl⟩
  refine hreadAuthority.bind ?_
  rintro ⟨authority, pos⟩ ⟨hb, rfl⟩
  refine hreadAdditional.bind ?_
  rintro ⟨additional, pos⟩ ⟨hc, rfl⟩
  refine Yields.ok ⟨?_, ?_⟩
  · simp only [through, hname, htype, ha, hb, hc]
  · simp [size_eq_totalSize, slots, records, Nat.add_assoc]

/-- A written message is read exactly when its names are. -/
theorem read_wire {message : Message} (h : packet.HoldsAt 0 message.wire)
    (hnames : NamesAt (Name.ReadsAt packet e good view) headerSize message.slots)
    (hrecords : ∀ record ∈ message.records,
      record.TtlAgrees ∧ record.rdata.size ≤ maxRdataSize) (hcount : message.Countable) :
    Yields e (NamesAt (fun pos _ => good pos) headerSize message.slots)
      (fun got => got.through view = message.through view) (Message.read packet) := by
  have hread := readTo_wire h hnames hrecords hcount
  unfold Message.read
  refine (hread.bind ?_).imp (iff_of_eq (and_true _)) fun _ hpost => hpost
  rintro ⟨got, pos⟩ ⟨hthrough, -⟩
  exact Yields.ok hthrough

end Message

end NameServer
