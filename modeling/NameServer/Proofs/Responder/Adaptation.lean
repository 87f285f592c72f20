import NameServer.Proofs.Message.Twin
import NameServer.Proofs.Resolver.Respelling
import NameServer.Responder

/-!
# Proofs.Responder.Adaptation — a reply is adapted to another spelling

Adapting the reply to a query gives the reply that another spelling of the query would get, byte for
byte.

* `Responder.adapt_wire` — what adapting does to the bytes of a message;
* `Message.datagram_twin` — twin messages are sent as bytes of which the second are the first,
  adapted;
* `Responder.resolve_twin` — so are the replies to two spellings of a query.
-/

namespace NameServer

open Zone (Store CaseBlind)
open Record (Twins)

namespace Responder

/-! ## Bytes -/

/-- Setting the bit for recursion in the high byte of the flags. -/
theorem flags_adapt (header : Header) (id : UInt16) (desired : Bool) :
    UInt8.ofNat ((UInt8.ofNat (header.flags.toNat / 0x100)).toNat / 2 * 2 +
        if desired then 1 else 0) =
      UInt8.ofNat (({ header with id, recursionDesired := desired } : Header).flags.toNat / 0x100) ∧
    UInt8.ofNat header.flags.toNat =
      UInt8.ofNat ({ header with id, recursionDesired := desired } : Header).flags.toNat := by
  have hold := header.toNat_flags
  have hnew := ({ header with id, recursionDesired := desired } : Header).toNat_flags
  dsimp only at hnew
  have hopcode := header.opcode.code_lt
  have hrcode := header.rcode.code_lt
  have h₁ := header.response.toNat_le
  have h₂ := header.authoritative.toNat_le
  have h₃ := header.truncated.toNat_le
  have h₄ := header.recursionDesired.toNat_le
  have h₅ := header.recursionAvailable.toNat_le
  have hdesired : (if desired then 1 else 0) = desired.toNat := by cases desired <;> rfl
  have h₆ := desired.toNat_le
  rw [hdesired]
  -- The wish for recursion is the lowest bit of the high byte, so only that one is replaced.
  constructor
  · apply UInt8.toNat_inj.1
    simp only [UInt8.toNat_ofNat']
    omega
  · apply UInt8.toNat_inj.1
    simp only [UInt8.toNat_ofNat']
    omega

theorem respell_append {name name' : List UInt8} (h : name.map foldByte = name'.map foldByte)
    (tail : List UInt8) : respell name' (name ++ tail) = name' ++ tail := by
  have hlength : name.length = name'.length := by simpa using congrArg List.length h
  unfold respell
  rw [← hlength, List.take_left, List.drop_left, if_pos h]

/-- Adapting the bytes of a message changes its identifier, its wish for recursion and the spelling
of its question. -/
theorem adapt_wire (header : Header) (counts : SectionCounts) {question question' : Question}
    (hname : question.name.wire.map foldByte = question'.name.wire.map foldByte)
    (htype : question.type = question'.type) (id : UInt16) (desired : Bool) (tail : List UInt8) :
    adapt (header.wire counts ++ question.wire ++ tail) id desired question'.name.wire =
      ({ header with id, recursionDesired := desired } : Header).wire counts ++ question'.wire ++
        tail := by
  rcases flags_adapt header id desired with ⟨hhigh, hlow⟩
  let header' : Header := { header with id, recursionDesired := desired }
  -- What stands between the high byte of the flags and the question.
  let back : Header → List UInt8 := fun header => UInt8.ofNat header.flags.toNat ::
    [counts.question, counts.answer, counts.authority, counts.additional].flatMap Octets.ofWord16
  let rest := Octets.ofWord16 question.type.code ++
    Octets.ofWord16 RecordClass.internet.code ++ tail
  have hback : back header = back header' := congrArg (· :: _) hlow
  have hlength : (back header).length = headerSize - 3 := rfl
  calc
    adapt (header.wire counts ++ question.wire ++ tail) id desired question'.name.wire
      = adapt (Octets.ofWord16 header.id ++ UInt8.ofNat (header.flags.toNat / 0x100) ::
          (back header ++ (question.name.wire ++ rest))) id desired question'.name.wire := by
        simp [Header.wire, Question.wire, back, rest, Octets.ofWord16]
    _ = Octets.ofWord16 id ++ UInt8.ofNat ((UInt8.ofNat (header.flags.toNat / 0x100)).toNat / 2 * 2
          + if desired then 1 else 0) ::
            ((back header ++ (question.name.wire ++ rest)).take (headerSize - 3) ++
              respell question'.name.wire
                ((back header ++ (question.name.wire ++ rest)).drop (headerSize - 3))) := rfl
    _ = Octets.ofWord16 id ++ UInt8.ofNat (header'.flags.toNat / 0x100) ::
          (back header' ++ (question'.name.wire ++ rest)) := by
        rw [hhigh, List.take_left' hlength, List.drop_left' hlength, respell_append hname, hback]
    _ = header'.wire counts ++ question'.wire ++ tail := by
        simp [Header.wire, Question.wire, back, rest, header', Octets.ofWord16, htype]

end Responder

/-! ## Datagrams -/

namespace Message

variable {m m' : Message}

theorem Twin.records (h : m.Twin m') :
    Twins m.question.name.folded m.records m'.records :=
  List.rel_append (List.rel_append h.answer h.authority) h.additional

theorem Twin.counts (h : m.Twin m') : m.counts = m'.counts := by
  simp only [Message.counts, sectionCount, h.answer.length_eq, h.authority.length_eq,
    h.additional.length_eq]

/-- Twin messages take the same room. -/
theorem Twin.size (h : m.Twin m') : m.size = m'.size := by
  have htotal : Record.totalSize m.records = Record.totalSize m'.records := by
    have hrecords := h.records
    revert hrecords
    generalize m.records = records, m'.records = records'
    intro hrecords
    induction hrecords with
    | nil => rfl
    | @cons r r' rest rest' hr _ ih =>
        simp only [Record.totalSize, Record.size, hr.name.size, hr.rdata, ih]
  simp only [Message.size, Question.size, h.name.size, htotal]

theorem Twin.withoutAdditional (h : m.Twin m') :
    m.withoutAdditional.Twin m'.withoutAdditional :=
  ⟨h.header, h.name, h.type, h.answer, h.authority, List.Forall₂.nil⟩

theorem Twin.truncated (h : m.Twin m') : m.truncated.Twin m'.truncated := by
  refine ⟨?_, h.name, h.type, List.Forall₂.nil, List.Forall₂.nil, List.Forall₂.nil⟩
  unfold Message.truncated
  dsimp only
  rw [h.header]

/-- The bytes of `m'` are those of `m`, adapted. -/
def Adapts (m' : Message) (bytes bytes' : List UInt8) : Prop :=
  bytes' = Responder.adapt bytes m'.header.id m'.header.recursionDesired m'.question.name.wire

theorem flatMap_wire_of_sections {c c' : Message}
    (h : c.answer.map Record.wire = c'.answer.map Record.wire ∧
      c.authority.map Record.wire = c'.authority.map Record.wire ∧
        c.additional.map Record.wire = c'.additional.map Record.wire) :
    c.records.flatMap Record.wire = c'.records.flatMap Record.wire := by
  simp only [List.flatMap_def, records, List.map_append, h.1, h.2.1, h.2.2]

/-- Twin messages are compressed to bytes of which the second are the first, adapted. -/
theorem compress_adapts (h : m.Twin m') :
    Agree (fun c c' => c.size = c'.size ∧ m'.Adapts c.wire c'.wire) m.compress m'.compress := by
  refine (compress_twin h).values.imp ?_
  rintro c c' ⟨hsections, hc, hc'⟩
  -- The records have the same bytes; the header and the question are what adapting makes of them.
  have hrecords := flatMap_wire_of_sections hsections
  have hquestion := question_compress hc
  have hquestion' := question_compress hc'
  have hlaidAs := (laidAs_of_compress hc).2
  have hlaidAs' := (laidAs_of_compress hc').2
  have hcounts : c'.counts = c.counts := by
    have hsame := h.counts
    simp only [Message.counts, sectionCount] at hsame ⊢
    rw [hlaidAs.answer.length_eq, hlaidAs.authority.length_eq, hlaidAs.additional.length_eq,
      hlaidAs'.answer.length_eq, hlaidAs'.authority.length_eq, hlaidAs'.additional.length_eq]
    exact hsame.symm
  constructor
  · have htotal := congrArg List.length hrecords
    rw [Record.length_flatMap_wire, Record.length_flatMap_wire] at htotal
    simp only [Message.size, Question.size, hquestion, hquestion', h.name.size, htotal]
  · unfold Adapts wire
    rw [← hrecords, hcounts, hquestion, hquestion', hlaidAs.header, hlaidAs'.header, h.header]
    exact (Responder.adapt_wire m.header c.counts h.name.wire h.type _ _ _).symm

theorem fitted?_twin (h : m.Twin m') :
    Agree (fun sent sent' => sent = none ∧ sent' = none ∨ ∃ bytes bytes', sent = some bytes ∧
        sent' = some bytes' ∧ m'.Adapts bytes bytes') m.fitted? m'.fitted? := by
  unfold fitted?
  rw [h.size]
  split
  · exact Or.inl ⟨rfl, rfl⟩
  · refine (compress_adapts h).bind ?_
    rintro c c' ⟨hsize, hadapts⟩
    rw [hsize]
    split
    · exact Or.inl ⟨rfl, rfl⟩
    · exact Or.inr ⟨_, _, rfl, rfl, hadapts⟩

/-- Twin messages are sent as bytes of which the second are the first, adapted. -/
theorem datagram_twin (h : m.Twin m') : Agree m'.Adapts m.datagram m'.datagram := by
  unfold datagram
  refine (fitted?_twin h).bind ?_
  rintro _ _ (⟨rfl, rfl⟩ | ⟨bytes, bytes', rfl, rfl, hadapts⟩)
  · refine (fitted?_twin h.withoutAdditional).bind ?_
    rintro _ _ (⟨rfl, rfl⟩ | ⟨bytes, bytes', rfl, rfl, hadapts⟩)
    · refine (compress_adapts h.truncated).bind ?_
      rintro c c' ⟨-, hadapts⟩
      exact hadapts
    · exact hadapts
  · exact hadapts

end Message

/-! ## Replies -/

namespace Responder

variable {σ : Type} [Store σ]

/-- The reply to another spelling of a query is the reply to the query, adapted. -/
theorem resolve_twin (hblind : CaseBlind σ) (store : σ) (limit : Nat) {query query' : Message}
    (hopcode : query.header.opcode = query'.header.opcode)
    (hname : Name.Twin query.question.name.folded query.question.name query'.question.name)
    (htype : query.question.type = query'.question.type) :
    Agree (fun out out' => query'.Adapts out.1 out'.1)
      (resolve store limit query) (resolve store limit query') := by
  unfold resolve
  refine (Resolver.respond_twin hblind store limit hopcode hname htype).bind ?_
  rintro response response' ⟨htwin, hquestion, hid, hdesired⟩
  refine ((Message.datagram_twin htwin).mapError _).bind ?_
  intro bytes bytes' hadapts
  unfold Message.Adapts at hadapts ⊢
  rw [hquestion, hid, hdesired] at hadapts
  exact hadapts

end Responder

end NameServer
