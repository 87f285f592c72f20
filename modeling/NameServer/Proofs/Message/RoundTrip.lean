import NameServer.Proofs.Message.Reading
import NameServer.Proofs.Name.Spelling

/-!
# Proofs.Message.RoundTrip — messages without compression

A message whose names stand for themselves is written and read without loss:

* `Message.read_wire_toPlain` — it is read as itself, its names as plain ones;
* `Message.read_sound` — whatever is read from any bytes is such a message;
* `Message.wire_round_trip` — so writing what was read and reading it again changes nothing.

A text may come in strings of any length and is written in strings of full size, so the bytes of a
message that was read need not come back; the message does.
-/

namespace NameServer

open Slot (NamesAt)

variable {packet : Packet} {pos next : Nat}

/-! ## Plain messages -/

namespace Record

/-- The record with plain names. -/
def toPlain (record : Record) : Record :=
  ⟨record.name.toPlain, record.rdata.map Name.toPlain, record.ttl⟩

/-- All names of the record are plain. -/
def IsPlain (record : Record) : Prop :=
  ∀ n ∈ record.names, n.form = .plain

end Record

namespace Message

/-- The message with plain names. -/
def toPlain (message : Message) : Message where
  header := message.header
  question := ⟨message.question.name.toPlain, message.question.type⟩
  answer := message.answer.map Record.toPlain
  authority := message.authority.map Record.toPlain
  additional := message.additional.map Record.toPlain

end Message

/-! ## Messages that were read -/

namespace Rdata

/-- The strings of a text that is read take at least the bytes that it is written in. -/
theorem readStrings_size {limit : Nat} {bs : List UInt8}
    (h : readStrings packet limit pos = .ok (bs, next)) :
    pos + (bs.length + (bs.length + (maxStringSize - 1)) / maxStringSize) ≤ next := by
  unfold maxStringSize
  fun_induction readStrings packet limit pos generalizing bs next with
  | case1 => cases h
  | case2 => cases h
  | case3 pos hlt size hget string hslice ih =>
      rcases exists_of_bind h with ⟨⟨rest, last⟩, hrest, heq⟩
      cases heq
      have hlen : string.length = size.toNat := by
        unfold Packet.slice? at hslice
        split at hslice
        · cases hslice
          simp
          omega
        · cases hslice
      have hsize : size.toNat < 256 := size.toNat_lt
      have hmore := ih hrest
      -- Each string takes a byte for its length, and a string of full size holds 255 bytes.
      rw [List.length_append, hlen]
      omega
  | case4 =>
      cases h
      simp

/-- A payload that is read has plain names and the TTL of its record, and is written in few bytes or
in no more than it was read from. -/
theorem readKind_sound {kind : RecordKind} {ttl : UInt32} {limit : Nat} {rdata : Rdata Name}
    (h : readKind kind ttl packet pos limit = .ok (rdata, next)) :
    (∀ n ∈ rdata.references, n.form = .plain) ∧ (rdata.kind ≠ .soa → ttl = rdata.ttl) ∧
      rdata.size ≤ max 0x3FF (next - pos) := by
  have hmax : maxNameSize = 255 := rfl
  cases kind with
  | a =>
      simp only [readKind] at h
      split at h
      · cases h
        refine ⟨by simp [references, targets], fun _ => rfl, ?_⟩
        simp only [size]
        omega
      · cases h
  | ns =>
      rcases exists_of_bind h with ⟨⟨server, last⟩, hserver, heq⟩
      cases heq
      rcases Name.read_sound hserver with ⟨hform, hsize⟩
      refine ⟨by simp [references, targets, hform], fun _ => rfl, ?_⟩
      simp only [size]
      omega
  | cname =>
      rcases exists_of_bind h with ⟨⟨target, last⟩, htarget, heq⟩
      cases heq
      rcases Name.read_sound htarget with ⟨hform, hsize⟩
      refine ⟨by simp [references, targets, hform], fun _ => rfl, ?_⟩
      simp only [size]
      omega
  | mx =>
      rcases exists_of_bind h with ⟨preference, -, hmore⟩
      rcases exists_of_bind hmore with ⟨⟨exchange, last⟩, hexchange, heq⟩
      cases heq
      rcases Name.read_sound hexchange with ⟨hform, hsize⟩
      refine ⟨by simp [references, targets, hform], fun _ => rfl, ?_⟩
      simp only [size]
      omega
  | soa =>
      rcases exists_of_bind h with ⟨⟨start, last⟩, hstart, heq⟩
      cases heq
      rcases exists_of_bind hstart with ⟨⟨mname, pos₁⟩, hmname, hstart⟩
      rcases exists_of_bind hstart with ⟨⟨rname, pos₂⟩, hrname, hstart⟩
      rcases exists_of_bind hstart with ⟨serial, -, hstart⟩
      rcases exists_of_bind hstart with ⟨refresh, -, hstart⟩
      rcases exists_of_bind hstart with ⟨retry, -, hstart⟩
      rcases exists_of_bind hstart with ⟨expire, -, hstart⟩
      rcases exists_of_bind hstart with ⟨minimum, -, hstart⟩
      cases hstart
      rcases Name.read_sound hmname with ⟨hmform, hmsize⟩
      rcases Name.read_sound hrname with ⟨hrform, hrsize⟩
      refine ⟨by simp [references, hmform, hrform], by simp [Rdata.kind], ?_⟩
      simp only [size]
      omega
  | txt =>
      rcases exists_of_bind h with ⟨⟨bs, last⟩, hbs, hmore⟩
      dsimp only at hmore
      split at hmore
      · rename_i text htext
        cases hmore
        refine ⟨by simp [references, targets], fun _ => rfl, ?_⟩
        -- A text may have come in short strings and is written in full ones, which take less.
        have hle := readStrings_size hbs
        rw [← Text.bytes_of_ofBytes? htext, Text.length_bytes] at hle
        simp only [size, stringCount, maxStringSize] at hle ⊢
        omega
      · cases hmore

theorem read_sound {type : RecordType} {ttl : UInt32} {length : Nat} {rdata : Rdata Name}
    (h : Rdata.read type ttl packet pos length = .ok rdata) (hlength : length ≤ maxRdataSize) :
    (∀ n ∈ rdata.references, n.form = .plain) ∧ (rdata.kind ≠ .soa → ttl = rdata.ttl) ∧
      rdata.size ≤ maxRdataSize := by
  unfold maxRdataSize at hlength ⊢
  unfold Rdata.read at h
  split at h
  · cases h
  · split at h
    · cases h
    · rename_i kind _
      rcases exists_of_bind h with ⟨⟨out, next⟩, hout, hend⟩
      dsimp only at hend
      split at hend
      · cases hend
        rename_i hnext
        rcases readKind_sound hout with ⟨hplain, httl, hsize⟩
        refine ⟨hplain, httl, ?_⟩
        omega
      · cases hend

end Rdata

namespace Record

/-- A record that is read has plain names and the TTL of its payload, and its payload fits its
length field. -/
theorem read_sound {record : Record} (h : Record.read packet pos = .ok (record, next)) :
    record.IsPlain ∧ record.TtlAgrees ∧ record.rdata.size ≤ maxRdataSize := by
  rcases exists_of_bind h with ⟨⟨name, pos⟩, hname, h⟩
  rcases exists_of_bind h with ⟨type, -, h⟩
  rcases exists_of_bind h with ⟨cls, -, h⟩
  split at h
  · cases h
  · rcases exists_of_bind h with ⟨ttl, -, h⟩
    rcases exists_of_bind h with ⟨length, -, h⟩
    rcases exists_of_bind h with ⟨rdata, hrdata, h⟩
    cases h
    have hlength : length.toNat ≤ maxRdataSize := Nat.le_of_lt_succ length.toNat_lt
    rcases Rdata.read_sound hrdata hlength with ⟨hplain, httl, hsize⟩
    refine ⟨?_, httl, hsize⟩
    intro n hmem
    rcases List.mem_cons.1 hmem with rfl | hmem
    · exact (Name.read_sound hname).1
    · exact hplain n hmem

/-- However a record comes about, from its parts or off the wire, its TTL agrees with that of its
payload. -/
theorem ttlAgrees_of_built {record : Record}
    (h : (∃ name rdata, record = .of name rdata) ∨
      ∃ packet pos next, Record.read packet pos = .ok (record, next)) : record.TtlAgrees := by
  rcases h with ⟨name, rdata, rfl⟩ | ⟨packet, pos, next, hread⟩
  · exact fun _ => rfl
  · exact (read_sound hread).2.1

theorem readMany_sound {count : Nat} {records : List Record}
    (h : readMany packet count pos = .ok (records, next)) :
    records.length = count ∧ ∀ record ∈ records,
      record.IsPlain ∧ record.TtlAgrees ∧ record.rdata.size ≤ maxRdataSize := by
  induction count generalizing pos records with
  | zero =>
      cases h
      simp
  | succ count ih =>
      rcases exists_of_bind h with ⟨⟨first, pos⟩, hfirst, h⟩
      rcases exists_of_bind h with ⟨⟨rest, last⟩, hrest, h⟩
      cases h
      rcases ih hrest with ⟨hlength, hall⟩
      refine ⟨by simp [hlength], ?_⟩
      intro record hmem
      rcases List.mem_cons.1 hmem with rfl | hmem
      · exact read_sound hfirst
      · exact hall record hmem

theorem toPlain_of_isPlain {record : Record} (h : record.IsPlain) : record.toPlain = record := by
  have hname : ∀ n ∈ record.names, n.toPlain = n := by
    intro n hmem
    exact Name.ext rfl (h n hmem).symm
  rcases record with ⟨name, rdata, ttl⟩
  have howner : name.toPlain = name := hname name List.mem_cons_self
  have hrdata : rdata.map Name.toPlain = rdata := by
    have href : ∀ n ∈ rdata.references, n.toPlain = n := fun n hmem =>
      hname n (List.mem_cons_of_mem name hmem)
    cases rdata <;> simp_all [Rdata.map, Rdata.references, Rdata.targets]
  simp only [toPlain, howner, hrdata]

end Record

namespace Question

theorem read_form {question : Question} (h : Question.read packet pos = .ok (question, next)) :
    question.name.form = .plain := by
  rcases exists_of_bind h with ⟨⟨name, last⟩, hname, h⟩
  rcases exists_of_bind h with ⟨type, -, h⟩
  rcases exists_of_bind h with ⟨cls, -, h⟩
  split at h
  · cases h
  · cases h
    exact (Name.read_sound hname).1

end Question

namespace Message

variable {message : Message}

theorem toPlain_of_isPlain (hquestion : message.question.name.form = .plain)
    (hrecords : ∀ record ∈ message.records, record.IsPlain) : message.toPlain = message := by
  have hname : message.question.name.toPlain = message.question.name :=
    Name.ext rfl hquestion.symm
  have hlist : ∀ records : List Record, (∀ record ∈ records, record.IsPlain) →
      records.map Record.toPlain = records := by
    intro records hall
    have hmap : records.map Record.toPlain = records.map id :=
      List.map_congr_left fun record hmem => Record.toPlain_of_isPlain (hall record hmem)
    rw [hmap, List.map_id]
  have hanswer := hlist message.answer fun record hmem => hrecords record (by simp [records, hmem])
  have hauthority := hlist message.authority fun record hmem =>
    hrecords record (by simp [records, hmem])
  have hadditional := hlist message.additional fun record hmem =>
    hrecords record (by simp [records, hmem])
  simp only [toPlain, hname, hanswer, hauthority, hadditional]

/-- What is read from any bytes is a message with plain names that can be written again. -/
theorem read_sound (h : Message.read packet = .ok message) :
    message.Encodable ∧ message.toPlain = message := by
  rcases exists_of_bind h with ⟨⟨got, last⟩, h, heq⟩
  cases heq
  rcases exists_of_bind h with ⟨⟨header, counts⟩, -, h⟩
  rcases exists_of_bind h with ⟨⟨question, pos⟩, hquestion, h⟩
  rcases exists_of_bind h with ⟨⟨answer, pos⟩, hanswer, h⟩
  rcases exists_of_bind h with ⟨⟨authority, pos⟩, hauthority, h⟩
  rcases exists_of_bind h with ⟨⟨additional, pos⟩, hadditional, h⟩
  cases h
  rcases Record.readMany_sound hanswer with ⟨hanswerCount, hanswer⟩
  rcases Record.readMany_sound hauthority with ⟨hauthorityCount, hauthority⟩
  rcases Record.readMany_sound hadditional with ⟨hadditionalCount, hadditional⟩
  have hname : question.name.form = .plain := Question.read_form hquestion
  have hall : ∀ record ∈ answer ++ authority ++ additional,
      record.IsPlain ∧ record.TtlAgrees ∧ record.rdata.size ≤ maxRdataSize := by
    intro record hmem
    rcases List.mem_append.1 hmem with hmem | hmem
    · rcases List.mem_append.1 hmem with hmem | hmem
      · exact hanswer record hmem
      · exact hauthority record hmem
    · exact hadditional record hmem
  refine ⟨{ names := ?_, ttl := ?_, answer := ?_, authority := ?_, additional := ?_,
            payload := ?_ }, ?_⟩
  · intro n hmem
    rcases List.mem_cons.1 hmem with rfl | hmem
    · exact Name.isCompressed_of_form hname
    · rcases List.mem_flatMap.1 hmem with ⟨record, hrecord, hmem⟩
      exact Name.isCompressed_of_form ((hall record hrecord).1 n hmem)
  · exact fun record hmem => (hall record hmem).2.1
  · exact hanswerCount ▸ Nat.le_of_lt_succ counts.answer.toNat_lt
  · exact hauthorityCount ▸ Nat.le_of_lt_succ counts.authority.toNat_lt
  · exact hadditionalCount ▸ Nat.le_of_lt_succ counts.additional.toNat_lt
  · exact fun record hmem => (hall record hmem).2.2
  · exact toPlain_of_isPlain hname fun record hmem => (hall record hmem).1

/-! ## The round trip -/

theorem toPlain_eq_of_through {got : Message}
    (h : got.through Name.toPlain = message.through Name.toPlain) :
    got.toPlain = message.toPlain := by
  have hlist : ∀ xs ys : List Record,
      xs.map (Record.through Name.toPlain) = ys.map (Record.through Name.toPlain) →
        xs.map Record.toPlain = ys.map Record.toPlain := by
    intro xs ys heq
    have hmap := congrArg
      (List.map fun t : Name × Rdata Name × UInt32 => Record.mk t.1 t.2.1 t.2.2) heq
    rw [List.map_map, List.map_map] at hmap
    exact hmap
  simp only [through, Prod.mk.injEq] at h
  rcases h with ⟨hheader, ⟨hname, htype⟩, hanswer, hauthority, hadditional⟩
  simp only [toPlain, hheader, hname, htype, hlist _ _ hanswer, hlist _ _ hauthority,
    hlist _ _ hadditional]

/-- A message without pointers is read back with plain names in place of its own, up to its end and
whatever stands behind it. -/
theorem readTo_of_holdsAt {packet : Packet} (hm : message.Encodable)
    (hbytes : packet.HoldsAt 0 message.wire) :
    readTo packet = .ok (message.toPlain, message.size) := by
  have huncompressed : ∀ n ∈ Slot.names message.slots, n.isCompressed = false := by
    rw [names_slots]
    exact hm.names
  have hnames : NamesAt (Name.ReadsAt packet .manyPointers (fun _ => True) Name.toPlain) headerSize
      message.slots := by
    refine ((namesAt_wire hbytes).and_names huncompressed).imp ?_
    rintro pos n ⟨hholds, hform⟩
    refine ⟨fun _ => ⟨_, Name.read_wire hform hholds, rfl, rfl⟩, fun hnot => ?_⟩
    exact absurd trivial hnot
  have hread := readTo_wire hbytes hnames (fun record hmem => ⟨hm.ttl record hmem,
    hm.payload record hmem⟩) hm.toCountable
  have hgood : NamesAt (fun _ _ => True) headerSize message.slots :=
    (namesAt_wire hbytes).imp fun _ _ _ => trivial
  rcases hread.1 hgood with ⟨⟨got, next⟩, hgot, hthrough, rfl⟩
  -- The view forgets the form of a name; that what was read is plain settles it.
  have hwhole : read packet = .ok got := by
    unfold read
    rw [hgot]
    rfl
  rw [hgot, ← toPlain_eq_of_through hthrough, (read_sound hwhole).2]

theorem read_wire_toPlain (hm : message.Encodable) :
    Message.read message.wire.toArray = .ok message.toPlain := by
  unfold read
  rw [readTo_of_holdsAt hm (Packet.holdsAt_toArray message.wire)]
  rfl

/-- A message without pointers takes the bytes it says and is read back whole, its section sizes
included; and what is read from any packet is such a message, which comes back unchanged. -/
theorem wire_round_trip :
    (∀ message : Message, message.Encodable →
      message.wire.length = message.size ∧
        (∃ counts, Header.read message.wire.toArray = .ok (message.header, counts) ∧
          message.Tally counts) ∧
        Message.read message.wire.toArray = .ok message.toPlain) ∧
    ∀ (packet : Packet) (message : Message), Message.read packet = .ok message →
      message.Encodable ∧ Message.read message.wire.toArray = .ok message := by
  constructor
  · intro message hm
    have hheader := readHeader_wire (Packet.holdsAt_toArray message.wire)
    exact ⟨message.length_wire, ⟨message.counts, hheader, tally_counts hm.toCountable⟩,
      read_wire_toPlain hm⟩
  · intro packet message hread
    rcases read_sound hread with ⟨hm, hplain⟩
    refine ⟨hm, ?_⟩
    rw [read_wire_toPlain hm, hplain]

/-- A reply to a question about `ns`, with one record in each section. -/
def sampleReply : Message :=
  let ns : Name := ⟨[⟨"ns", by decide, by decide, by decide⟩], .plain, by decide, trivial⟩
  { header := (Header.query 7).responseTo
    question := ⟨ns, RecordKind.ns.type⟩
    answer := [.of ns (.ns 60 ns)]
    authority := [.of ns (.soa ⟨ns, ns, 1, 2, 3, 4, 5⟩)]
    additional := [.of ns (.txt 60 "hello")] }

theorem encodable_sampleReply : sampleReply.Encodable where
  names := by decide
  ttl := by decide
  answer := by decide
  authority := by decide
  additional := by decide
  payload := by decide

theorem wire_round_trip_sampleReply :
    sampleReply.Encodable ∧ sampleReply.wire.length = sampleReply.size ∧
      Message.read sampleReply.wire.toArray = .ok sampleReply :=
  let written := wire_round_trip.1 sampleReply encodable_sampleReply
  ⟨(wire_round_trip.2 _ sampleReply written.2.2).1, written.1,
    (wire_round_trip.2 _ sampleReply written.2.2).2⟩

end Message

end NameServer
