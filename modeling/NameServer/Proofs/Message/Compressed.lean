import NameServer.Proofs.Message.Laying
import NameServer.Proofs.Message.RoundTrip

/-!
# Proofs.Message.Compressed — what a compressed message is read as

A compressed message is read as the message it was made of, names up to ASCII case, exactly when no
name in it takes more pointers than a reader follows.

* `Slot.Tracked` — slots that were laid out, with what is known in front of each name;
* `Slot.Tracked.reads` — every laid name is read, or refused for its pointers, as its trail says;
* `Message.Conveys` — what a reader gets of a message;
* `Message.read_compressed` — a compressed message is read, or refused for its pointers.
-/

namespace NameServer

open Slot (layAll NamesAt)

/-! ## Laid names -/

/-- A reader gets through the name at `pos`. -/
def Name.Readable (packet : Packet) (pos : Nat) : Prop :=
  ∃ out, Name.read packet pos = .ok out

section Names

variable {packet : Packet}

/-- A placed name that is spelled is read exactly when its pointers are not too many. -/
theorem Name.readsAt_of_spelled {pos hops : Nat} {labels : List Label} {n placed : Name}
    (h : Name.Spelled packet pos labels hops (pos + placed.size))
    (hlabels : labels.map Label.folded = n.folded) (hplaced : placed.labels = n.labels) :
    Name.ReadsAt packet .manyPointers (Name.Readable packet) Name.folded pos placed ∧
      (Name.Readable packet pos ↔ hops ≤ maxHops) := by
  have fits : Name.wireSize labels ≤ maxNameSize := by
    unfold Name.wireSize
    rw [Name.literalSize_congr hlabels]
    exact n.size_le
  have hread := Name.read_of_spelled h fits
  have hfolded : labels.map Label.folded = placed.folded := by
    rw [hlabels]
    simp only [Name.folded, hplaced]
  by_cases hhops : hops ≤ maxHops
  · rw [if_pos hhops] at hread
    have hreadable : Name.Readable packet pos := ⟨_, hread⟩
    refine ⟨⟨fun _ => ⟨_, hread, hfolded, rfl⟩, fun hnot => absurd hreadable hnot⟩, ?_⟩
    exact iff_of_true hreadable hhops
  · rw [if_neg hhops] at hread
    have hnot : ¬Name.Readable packet pos := by
      rintro ⟨out, hout⟩
      rw [hread] at hout
      cases hout
    refine ⟨⟨fun hreadable => absurd hreadable hnot, fun _ => hread⟩, ?_⟩
    exact iff_of_false hnot hhops

/-- Slots that were laid out from `pos` on, with names behind them as the trail says: in front of
each name the table agrees with the packet. -/
inductive Slot.Tracked (packet : Packet) : Trail → Nat → List Slot → List Slot → Prop where
  | nil {trail : Trail} {pos : Nat} : Tracked packet trail pos [] []
  | gap {trail : Trail} {pos count : Nat} {slots laid : List Slot} :
      Tracked packet trail (pos + count) slots laid →
        Tracked packet trail pos (.gap count :: slots) (.gap count :: laid)
  | name {trail : Trail} {pos : Nat} {n placed : Name} {table after : Compressor}
      {slots laid : List Slot} :
      Compressor.Tracks packet table trail pos → table.Places pos n placed after →
        n.isCompressed = false → packet.HoldsAt pos placed.wire →
          Tracked packet (trail.push n) (pos + placed.size) slots laid →
            Tracked packet trail pos (.name n :: slots) (.name placed :: laid)

/-- What is laid out and then stands in a packet was tracked all along. -/
theorem Slot.tracked_of_layAll {slots laid : List Slot} {layout after : Layout} {trail : Trail}
    (h : layAll slots layout = .ok (laid, after))
    (hform : ∀ n ∈ names slots, n.isCompressed = false)
    (hbytes : NamesAt (fun pos n => packet.HoldsAt pos n.wire) layout.offset laid)
    (htracks : layout.offset ≤ maxPointer →
      Compressor.Tracks packet layout.table trail layout.offset) :
    Tracked packet trail layout.offset slots laid := by
  induction slots generalizing layout laid trail with
  | nil =>
      cases h
      exact Tracked.nil
  | cons slot slots ih =>
      cases slot with
      | gap count =>
          rcases exists_of_bind h with ⟨⟨rest, last⟩, hrest, heq⟩
          cases heq
          have hbehind := ih hrest hform hbytes fun hreach => by
            -- Nothing is recorded in a gap, so what was known stays true further on.
            change layout.offset + count ≤ maxPointer at hreach
            exact (htracks (by omega)).mono (Nat.le_add_right _ _)
          exact Tracked.gap hbehind
      | name n =>
          rcases exists_of_bind h with ⟨⟨placed, next⟩, hplace, h⟩
          rcases exists_of_bind h with ⟨⟨rest, last⟩, hrest, heq⟩
          cases heq
          rcases hbytes with ⟨hfirst, hmore⟩
          rcases Layout.placeName_places hplace with ⟨hreach, hplaces, hnext⟩
          have hn : n.isCompressed = false := hform n List.mem_cons_self
          have hforms : ∀ m ∈ names slots, m.isCompressed = false := fun m hmem =>
            hform m (List.mem_cons_of_mem n hmem)
          -- A name that ends beyond the reach of pointers is the last one that can be placed.
          have htracks' : next.offset ≤ maxPointer →
              Compressor.Tracks packet next.table (trail.push n) next.offset := by
            rw [hnext]
            exact fun hend => (htracks hreach).next hplaces hn hfirst hend
          rw [← hnext] at hmore
          have hbehind := ih hrest hforms hmore htracks'
          rw [hnext] at hbehind
          exact Tracked.name (htracks hreach) hplaces hn hfirst hbehind

/-- Laid names are read, or refused for their pointers, as the trail says. -/
theorem Slot.Tracked.reads {trail : Trail} {pos : Nat} {slots laid : List Slot}
    (h : Tracked packet trail pos slots laid) :
    NamesAt (Name.ReadsAt packet .manyPointers (Name.Readable packet) Name.folded) pos laid ∧
      (NamesAt (fun pos _ => Name.Readable packet pos) pos laid ↔
        ∀ hops ∈ trail.pointers (names slots), hops ≤ maxHops) := by
  induction h with
  | nil => exact ⟨trivial, by simp [names, Trail.pointers]⟩
  | gap _ ih => exact ih
  | name htracks hplaces hform hbytes _ ih =>
      rcases htracks.spelled hplaces hform hbytes with ⟨labels, hlabels, hspelled⟩
      have hread := Name.readsAt_of_spelled hspelled hlabels hplaces.labels_eq
      refine ⟨⟨hread.1, ih.1⟩, ?_⟩
      simp only [Slot.namesAt_name, names, Trail.pointers, List.forall_mem_cons]
      rw [hread.2, ih.2]

end Names

/-! ## Laid messages -/

theorem Rdata.map_folded (rdata : Rdata Name) :
    rdata.map Name.folded = (rdata.map Name.labels).map (List.map Label.folded) := by
  cases rdata <;> rfl

namespace Record

variable {placed record : Record}

theorem LaidAs.through_folded (h : placed.LaidAs record) :
    placed.through Name.folded = record.through Name.folded := by
  have hthrough := h.1
  simp only [through, Prod.mk.injEq] at hthrough ⊢
  refine ⟨congrArg (List.map Label.folded) hthrough.1, ?_, hthrough.2.2⟩
  rw [Rdata.map_folded, Rdata.map_folded, hthrough.2.1]

theorem LaidAs.ttlAgrees (h : placed.LaidAs record) (httl : record.TtlAgrees) :
    placed.TtlAgrees := by
  have hthrough := h.1
  simp only [through, Prod.mk.injEq] at hthrough
  have hkind := congrArg Rdata.kind hthrough.2.1
  have hpayload := congrArg Rdata.ttl hthrough.2.1
  simp only [Rdata.kind_map, Rdata.ttl_map] at hkind hpayload
  intro hsoa
  rw [hthrough.2.2, hpayload]
  exact httl (hkind ▸ hsoa)

theorem map_through_folded {laid records : List Record} (h : List.Forall₂ LaidAs laid records) :
    laid.map (through Name.folded) = records.map (through Name.folded) := by
  induction h with
  | nil => rfl
  | cons hfirst _ ih => rw [List.map_cons, List.map_cons, hfirst.through_folded, ih]

theorem exists_source {laid records : List Record} (h : List.Forall₂ LaidAs laid records)
    (hmem : placed ∈ laid) : ∃ source ∈ records, placed.LaidAs source := by
  induction h with
  | nil => cases hmem
  | @cons first source rest sources hfirst _ ih =>
      rcases List.mem_cons.1 hmem with rfl | hmem
      · exact ⟨source, List.mem_cons_self, hfirst⟩
      · rcases ih hmem with ⟨other, hother, hlaid⟩
        exact ⟨other, List.mem_cons_of_mem _ hother, hlaid⟩

end Record

namespace Message

variable {message placed got : Message}

theorem LaidAs.records (h : placed.LaidAs message) :
    List.Forall₂ Record.LaidAs placed.records message.records :=
  List.rel_append (List.rel_append h.answer h.authority) h.additional

theorem LaidAs.through_folded (h : placed.LaidAs message) :
    placed.through Name.folded = message.through Name.folded := by
  simp only [through, Name.folded, h.header, h.question, h.type]
  rw [Record.map_through_folded h.answer, Record.map_through_folded h.authority,
    Record.map_through_folded h.additional]

/-- What a reader gets of a message: its header, its question as it is spelled, and its records in
their order, whose names may differ in ASCII case. -/
structure Conveys (message got : Message) : Prop where
  header : got.header = message.header
  question : got.question = ⟨message.question.name.toPlain, message.question.type⟩
  answer : got.answer.map (Record.through Name.folded) =
    message.answer.map (Record.through Name.folded)
  authority : got.authority.map (Record.through Name.folded) =
    message.authority.map (Record.through Name.folded)
  additional : got.additional.map (Record.through Name.folded) =
    message.additional.map (Record.through Name.folded)

/-- The number of pointers that are followed for each name of the compressed message. -/
def pointers (message : Message) : List Nat :=
  Trail.pointers [] message.names

theorem question_of_read {packet : Packet} (h : Message.read packet = .ok got) :
    ∃ pos, Question.read packet headerSize = .ok (got.question, pos) := by
  rcases exists_of_bind h with ⟨⟨message, last⟩, h, heq⟩
  cases heq
  rcases exists_of_bind h with ⟨⟨header, counts⟩, -, h⟩
  rcases exists_of_bind h with ⟨⟨question, pos⟩, hquestion, h⟩
  rcases exists_of_bind h with ⟨⟨answer, pos⟩, -, h⟩
  rcases exists_of_bind h with ⟨⟨authority, pos⟩, -, h⟩
  rcases exists_of_bind h with ⟨⟨additional, pos⟩, -, h⟩
  cases h
  exact ⟨_, hquestion⟩

/-! ## Reading a compressed message -/

/-- In the bytes of a compressed message its names are tracked from the question on. -/
theorem tracked_compress (hform : ∀ n ∈ message.names, n.isCompressed = false)
    (h : message.compress = .ok placed) :
    Slot.Tracked placed.wire.toArray [] headerSize message.slots placed.slots := by
  rcases (laidAs_of_compress h).1 with ⟨after, hlaid⟩
  have hbytes := namesAt_wire (Packet.holdsAt_toArray placed.wire)
  rw [← names_slots] at hform
  exact Slot.tracked_of_layAll hlaid hform hbytes fun _ => Compressor.tracks_empty

/-- The question of a compressed message is read as it is spelled. -/
theorem question_of_read_compressed (hm : message.Writable) (h : message.compress = .ok placed)
    (hgot : Message.read placed.wire.toArray = .ok got) :
    got.question = ⟨message.question.name.toPlain, message.question.type⟩ := by
  have hbytes := holdsAt_question (Packet.holdsAt_toArray placed.wire)
  have hform : placed.question.name.isCompressed = false := by
    rw [question_compress h]
    exact hm.names _ List.mem_cons_self
  have hname : Name.ReadsAt placed.wire.toArray .manyPointers (fun _ => True) Name.toPlain
      headerSize placed.question.name :=
    ⟨fun _ => ⟨_, Name.read_wire hform hbytes.left.left, rfl, rfl⟩,
      fun hnot => absurd trivial hnot⟩
  rcases (Question.read_wire hbytes hname).1 trivial with
    ⟨⟨⟨n, t⟩, pos⟩, hquestion, hplain, htype, -⟩
  change n.toPlain = placed.question.name.toPlain at hplain
  change t = placed.question.type at htype
  have hn : n.toPlain = n := Name.ext rfl (Question.read_form hquestion).symm
  rcases question_of_read hgot with ⟨last, hlast⟩
  rw [hquestion] at hlast
  have heq : (⟨n, t⟩ : Question) = got.question := (Prod.mk.inj (Except.ok.inj hlast)).1
  rw [← heq, ← hn, hplain, htype, question_compress h]

/-- A compressed message is read as what it was made of, or refused for the pointers of a name. -/
theorem read_compressed (hm : message.Writable) (h : message.compress = .ok placed)
    (hcount : placed.Countable)
    (hpayload : ∀ record ∈ placed.records, record.rdata.size ≤ maxRdataSize) :
    Yields .manyPointers (∀ hops ∈ message.pointers, hops ≤ maxHops) message.Conveys
      (Message.read placed.wire.toArray) := by
  have hlaidAs := (laidAs_of_compress h).2
  have hbytes := Packet.holdsAt_toArray placed.wire
  rcases (tracked_compress hm.names h).reads with ⟨hreads, hgood⟩
  rw [names_slots] at hgood
  have hrecords : ∀ record ∈ placed.records,
      record.TtlAgrees ∧ record.rdata.size ≤ maxRdataSize := by
    intro record hmem
    rcases Record.exists_source hlaidAs.records hmem with ⟨source, hsource, hlaid⟩
    exact ⟨hlaid.ttlAgrees (hm.ttl source hsource), hpayload record hmem⟩
  have hread := read_wire hbytes hreads hrecords hcount
  refine (hread.imp hgood fun _ hthrough => hthrough).keep ?_
  intro got hgot hthrough
  -- Seen through folded names the question lost its spelling, which it keeps since it stands first.
  rw [hlaidAs.through_folded] at hthrough
  simp only [through, Prod.mk.injEq] at hthrough
  exact ⟨hthrough.1, question_of_read_compressed hm h hgot, hthrough.2.2.1, hthrough.2.2.2.1,
    hthrough.2.2.2.2⟩

theorem LaidAs.countable (h : placed.LaidAs message) (hm : message.Countable) :
    placed.Countable where
  answer := h.answer.length_eq ▸ hm.answer
  authority := h.authority.length_eq ▸ hm.authority
  additional := h.additional.length_eq ▸ hm.additional

theorem LaidAs.tally (h : placed.LaidAs message) (hcount : placed.Countable) :
    message.Tally placed.counts where
  question := rfl
  answer := h.answer.length_eq ▸ (tally_counts hcount).answer
  authority := h.authority.length_eq ▸ (tally_counts hcount).authority
  additional := h.additional.length_eq ▸ (tally_counts hcount).additional

theorem payload_compress (hm : message.Encodable) (h : message.compress = .ok placed) :
    ∀ record ∈ placed.records, record.rdata.size ≤ maxRdataSize := by
  intro record hmem
  have hlaidAs := (laidAs_of_compress h).2
  rcases Record.exists_source hlaidAs.records hmem with ⟨source, hsource, hlaid⟩
  have hforms : ∀ n ∈ source.names, n.isCompressed = false := fun n hn =>
    hm.names n (List.mem_cons_of_mem _ (List.mem_flatMap.2 ⟨source, hsource, hn⟩))
  exact Nat.le_trans (hlaid.2 hforms) (hm.payload source hsource)

/-- A compressed message takes the bytes it says, which are no more than without compression. It is
read as what it was made of when no name takes more than `maxHops` pointers, and refused if one
does. -/
theorem compressed_round_trip (hm : message.Encodable) (h : message.compress = .ok placed) :
    placed.wire.length = placed.size ∧ placed.size ≤ message.size ∧
      (∃ counts, Header.read placed.wire.toArray = .ok (message.header, counts) ∧
        message.Tally counts) ∧
      ((∀ hops ∈ message.pointers, hops ≤ maxHops) →
        ∃ got, Message.read placed.wire.toArray = .ok got ∧ message.Conveys got) ∧
      (¬(∀ hops ∈ message.pointers, hops ≤ maxHops) →
        Message.read placed.wire.toArray = .error .manyPointers) := by
  have hlaidAs := (laidAs_of_compress h).2
  have hcount := hlaidAs.countable hm.toCountable
  have hheader := readHeader_wire (Packet.holdsAt_toArray placed.wire)
  rw [hlaidAs.header] at hheader
  have hread := read_compressed hm.toWritable h hcount (payload_compress hm h)
  exact ⟨placed.length_wire, size_compress_le h hm.names, ⟨_, hheader, hlaidAs.tally hcount⟩,
    hread.1, hread.2⟩

theorem compressed_round_trip_sampleReply :
    sampleReply.Encodable ∧ (∃ placed, sampleReply.compress = .ok placed ∧
      ∃ got, Message.read placed.wire.toArray = .ok got ∧ sampleReply.Conveys got) := by
  refine ⟨encodable_sampleReply, ?_⟩
  have hsize : sampleReply.size ≤ maxPointer := by decide
  rcases compress_total hsize encodable_sampleReply.names with ⟨placed, hplaced⟩
  have hpointers : ∀ hops ∈ sampleReply.pointers, hops ≤ maxHops := by decide
  exact ⟨placed, hplaced,
    (compressed_round_trip encodable_sampleReply hplaced).2.2.2.1 hpointers⟩

/-! ## A message that cannot be read back -/

/-- The name of 66 labels `a`. -/
def tallName : Name :=
  ⟨List.replicate 66 ⟨"a", by decide, by decide, by decide⟩, .plain, by decide, trivial⟩

/-- An address at each name from the root up to `tallName`. Each name ends with the one before it,
whose pointers it takes on. -/
def tower : Message where
  header := (Header.query 0).responseTo
  question := ⟨Name.root, RecordKind.a.type⟩
  answer := (tallName :: tallName.parents).reverse.map fun n => .of n (.a 0 ⟨0, 0, 0, 0⟩)
  authority := []
  additional := []

theorem encodable_tower : tower.Encodable where
  names := by decide
  ttl := by decide
  answer := by decide
  authority := by decide
  additional := by decide
  payload := by decide

/-- The last name of the tower takes 65 pointers, so its bytes are refused. -/
theorem tower_refused :
    tower.Encodable ∧ ∃ placed, tower.compress = .ok placed ∧
      Message.read placed.wire.toArray = .error .manyPointers := by
  refine ⟨encodable_tower, ?_⟩
  have hsize : tower.size ≤ maxPointer := by decide
  rcases compress_total hsize encodable_tower.names with ⟨placed, hplaced⟩
  refine ⟨placed, hplaced, ?_⟩
  have hcount := (laidAs_of_compress hplaced).2.countable encodable_tower.toCountable
  have hpayload := payload_compress encodable_tower hplaced
  refine (read_compressed encodable_tower.toWritable hplaced hcount hpayload).2 fun hall => ?_
  have hlast : 65 ∈ tower.pointers := by decide +kernel
  have hfew := hall 65 hlast
  simp [maxHops] at hfew

end Message

end NameServer
