import NameServer.Proofs.Message.Reading
import NameServer.Proofs.ZoneFile.Entry

/-!
# Proofs.ZoneFile.Lifetimes — how long a record from text may live

A lifetime in text is at most `Ttl.maxSeconds`, and a payload takes the lifetime that it is given.
The exception is an SOA: its lifetime is its minimum, which is read as one of its numbers and may be
any 32-bit word.

* `Payload.ofArguments_withTtl`, `ZoneEntry.exists_lifetime` — what is read has the lifetime given;
* `Record.lifetime_of_described` — so the record is bounded but for the minimum of an SOA;
* `Record.ofLine_rootStart`, `Record.soa_outlives` — no minimum is refused, and one that is too long.
-/

namespace NameServer

/-! ## What is read -/

namespace Payload

variable {type : RecordType} {ttl : UInt32} {rdata : Rdata Name}

theorem txt_withTtl {raw : String} (h : txt ttl raw = .ok rdata) : withTtl ttl rdata = rdata := by
  unfold txt at h
  split at h
  · cases h
  · dsimp only at h
    split at h <;> cases h
    rfl

/-- A payload has the lifetime that it was given. -/
theorem ofArguments_withTtl {arguments : List String}
    (h : ofArguments type ttl arguments = .ok rdata) : withTtl ttl rdata = rdata := by
  unfold ofArguments at h
  cases hkind : type.kind? with
  | none => simp [hkind] at h
  | some kind =>
      rw [hkind] at h
      cases kind
      case a | ns | cname =>
        dsimp only at h
        split at h
        · rcases exists_of_bind h with ⟨argument, -, ⟨⟩⟩
          rfl
        · cases h
      case mx =>
        dsimp only at h
        split at h
        · rcases exists_of_bind h with ⟨preference, -, h⟩
          rcases exists_of_bind h with ⟨exchange, -, ⟨⟩⟩
          rfl
        · cases h
      case soa =>
        -- Whatever the seven arguments are, none of them is the lifetime that is given.
        dsimp only at h
        split at h
        · iterate 6 rcases exists_of_bind h with ⟨_, -, h⟩
          rcases exists_of_bind h with ⟨minimum, -, ⟨⟩⟩
          rfl
        · cases h
      case txt => exact txt_withTtl h

end Payload

namespace ZoneEntry

/-- The payload of a line has the lifetime that the line names. -/
theorem exists_lifetime {line : String} {entry : ZoneEntry} (h : ofLine line = .ok (some entry)) :
    ∃ text ttl, Ttl.ofText text = .ok ttl ∧ Payload.withTtl ttl entry.rdata = entry.rdata := by
  unfold ofLine at h
  dsimp only at h
  split at h
  · cases h
  · rcases exists_of_bind h with ⟨read, hread, ⟨⟩⟩
    unfold ofFields at hread
    split at hread
    · next owner text word argument arguments _ =>
        rcases exists_of_bind hread with ⟨name, -, hread⟩
        rcases exists_of_bind hread with ⟨ttl, httl, hread⟩
        rcases exists_of_bind hread with ⟨type, -, hread⟩
        refine ⟨text, ttl, httl, ?_⟩
        dsimp only at hread
        -- A text is what stands behind three fields, any other payload is its fields.
        by_cases htext : type = .txt
        · rw [if_pos htext] at hread
          rcases exists_of_bind hread with ⟨rdata, hrdata, ⟨⟩⟩
          exact Payload.txt_withTtl hrdata
        · rw [if_neg htext] at hread
          rcases exists_of_bind hread with ⟨rdata, hrdata, ⟨⟩⟩
          exact Payload.ofArguments_withTtl hrdata
    · cases hread

end ZoneEntry

/-! ## Records -/

namespace Record

/-- A record that text describes: a line of a zone file, or the arguments of a type behind a lifetime
in text. -/
inductive Described : Record → Prop
  | line {line : String} {entry : ZoneEntry} (h : ZoneEntry.ofLine line = .ok (some entry)) :
      Described (Record.of entry.name entry.rdata)
  | arguments {text : String} {ttl : UInt32} {type : RecordType} {arguments : List String}
      {rdata : Rdata Name} (httl : Ttl.ofText text = .ok ttl)
      (h : Payload.ofArguments type ttl arguments = .ok rdata) (name : Name) :
      Described (Record.of name rdata)

/-- The lifetime of a record is one that a text can name. -/
def Bounded (record : Record) : Prop :=
  record.ttl.toNat ≤ Ttl.maxSeconds

instance (record : Record) : Decidable record.Bounded :=
  inferInstanceAs (Decidable (record.ttl.toNat ≤ Ttl.maxSeconds))

/-- With a lifetime from text, only the minimum of an SOA may be too long. -/
theorem bounded_iff {text : String} {ttl : UInt32} (httl : Ttl.ofText text = .ok ttl)
    {rdata : Rdata Name} (hgiven : Payload.withTtl ttl rdata = rdata) (name : Name) :
    (Record.of name rdata).Bounded ↔
      ∀ start, rdata = .soa start → start.minimum.toNat ≤ Ttl.maxSeconds := by
  have hle := Ttl.ofText_le httl
  cases rdata with
  | soa start => simp [Bounded, Record.of, Rdata.ttl]
  | _ =>
      simp only [Payload.withTtl] at hgiven
      cases hgiven
      simpa [Bounded, Record.of, Rdata.ttl] using hle

/-- The lifetime of a record is bounded unless it is that of an SOA with a minimum that is not, and
it is what stands on the wire behind the owner, the type and the class. -/
theorem lifetime_of_described {record : Record} (h : record.Described) :
    (record.Bounded ↔
      ∀ start, record.rdata = .soa start → start.minimum.toNat ≤ Ttl.maxSeconds) ∧
    ∀ packet pos, Packet.HoldsAt packet pos record.wire →
      packet.field32 (pos + record.name.size + 4) = .ok record.ttl := by
  refine ⟨?_, fun packet pos hholds => (fields_wire hholds).2.2.1⟩
  cases h with
  | line hline =>
      rcases ZoneEntry.exists_lifetime hline with ⟨text, ttl, httl, hgiven⟩
      exact bounded_iff httl hgiven _
  | arguments httl harguments name =>
      exact bounded_iff httl (Payload.ofArguments_withTtl harguments) name

/-- An SOA at the root with no other names, which lasts as long as it is told. -/
def rootStart (minimum : UInt32) : ZoneEntry where
  name := .root
  wildcard := false
  rdata := .soa ⟨.root, .root, 1, 2, 3, 4, minimum⟩

/-- Any minimum can be written into a file, whatever lifetime stands in front of it. -/
theorem ofLine_rootStart (minimum : UInt32) :
    ZoneEntry.ofLine ((rootStart minimum).shown 60) = .ok (some (rootStart minimum)) := by
  have hroot : Name.root.Solid := List.forall_mem_singleton.2 rfl
  have hshowable : (rootStart minimum).Showable := by
    refine ⟨hroot, ?_, by rintro ⟨⟩, by rintro - label ⟨⟩⟩
    simpa [rootStart, Rdata.Solid, Rdata.references] using hroot
  exact ZoneEntry.ofLine_shown_withTtl hshowable (by decide)

/-- The largest minimum that is not too long, beside a text for a day. -/
theorem lifetime_of_described_rootStart :
    let start := Record.of .root (rootStart 2147483647).rdata
    start.Described ∧ start.Bounded ∧ Packet.field32 start.wire.toArray 5 = .ok 2147483647 ∧
      (Record.of .root (.txt 86400 "mp")).Bounded := by
  have hstart : (Record.of .root (rootStart 2147483647).rdata).Described :=
    .line (ofLine_rootStart 2147483647)
  have htext : (Record.of .root (.txt 86400 "mp")).Described := by
    have httl : Ttl.ofText "1d" = .ok 86400 := by decide +kernel
    have hrdata : Payload.ofArguments .txt 86400 ["mp"] = .ok (.txt 86400 "mp") := by
      decide +kernel
    exact .arguments httl hrdata .root
  refine ⟨hstart, ?_, ?_, ?_⟩
  · refine (lifetime_of_described hstart).1.2 ?_
    rintro start ⟨⟩
    decide
  · exact (lifetime_of_described hstart).2 _ 0 (Packet.holdsAt_toArray _)
  · refine (lifetime_of_described htext).1.2 ?_
    rintro start ⟨⟩

/-- A minute stands in front of the payload, and the record lives 136 years. -/
theorem soa_outlives :
    ZoneEntry.ofLine ". 60 SOA . . 1 2 3 4 4294967295" = .ok (some (rootStart 4294967295)) ∧
      (Record.of .root (rootStart 4294967295).rdata).ttl = 4294967295 ∧
      ¬(Record.of .root (rootStart 4294967295).rdata).Bounded := by
  have hshown : (rootStart 4294967295).shown 60 = ". 60 SOA . . 1 2 3 4 4294967295" := by
    decide +kernel
  refine ⟨?_, rfl, by decide⟩
  rw [← hshown]
  exact ofLine_rootStart 4294967295

end Record
end NameServer
