import NameServer.Message.Basic
import NameServer.Proofs.Name.StrictReading

/-!
# Proofs.Message.StrictReading — messages are read without breaking down

The readers of payloads, records and messages, taken step by step where a step may take a byte that
is not there. The strings of a text are the only loop besides that over a name; its bytes are taken
without a look at the end of the packet, which the length of the payload was compared with before.

* `Rdata.readStrict`, `Message.readStrict`, `Message.readQueryStrict` — the readers;
* `Rdata.readStrict_eq_of`, `Message.readStrict_eq_of`, `Message.readQueryStrict_eq_of` — they never
  break down and read what the total functions read.
-/

namespace NameServer

open Strict (of breakDown octet loop bind_eq_of)

/-! ## Payloads -/

namespace Rdata

variable {target : Target} {packet : Packet} {pos limit : Nat}

/-- One turn of the loop over the strings up to `limit`, on the bytes so far and the offset. -/
def stringTurn (target : Target) (packet : Packet) (limit : Nat) :
    List UInt8 × Nat → Strict WireError (List UInt8 × Nat ⊕ List UInt8 × Nat)
  | (bytes, cursor) => do
    if cursor < limit then
      let size ← packet.byteAt cursor
      let first ← target.add cursor 1
      match ← packet.part? target first size.toNat with
      | none => throw (.chunkRunsOut cursor)
      | some string => return .inl (bytes ++ string, ← target.add first size.toNat)
    else return .inr (bytes, cursor)

/-- The bytes of the strings from `pos` up to `limit`, and the offset behind the last of them. -/
def readStringsStrict (target : Target) (packet : Packet) (limit pos : Nat) :
    Strict WireError (List UInt8 × Nat) :=
  loop (stringTurn target packet limit) (limit - pos + 1) ([], pos)

/-- The loop ends as the reader does from here on, with the bytes so far in front. -/
def StringsEnd (packet : Packet) (limit : Nat) (state : List UInt8 × Nat)
    (outcome : Except WireError (List UInt8 × Nat)) : Prop :=
  outcome = (readStrings packet limit state.2).map fun rest => (state.1 ++ rest.1, rest.2)

/-- Every turn that goes on takes at least the length byte of a string. -/
theorem stringTurns (hroom : packet.size ≤ target.room) (hlimit : limit ≤ packet.size)
    (state : List UInt8 × Nat) (outcome : Except WireError (List UInt8 × Nat))
    (h : StringsEnd packet limit state outcome) :
    Strict.Turns (stringTurn target packet limit) (fun state => limit - state.2)
      (StringsEnd packet limit) state outcome := by
  rcases state with ⟨bytes, cursor⟩
  unfold StringsEnd at h
  subst h
  unfold Strict.Turns stringTurn
  rw [readStrings]
  dsimp only
  by_cases hlt : cursor < limit
  · -- The limit is within the packet, so there is a length byte, and no sum is too large.
    have hget : packet[cursor]? = some packet[cursor] :=
      Array.getElem?_eq_getElem (Nat.lt_of_lt_of_le hlt hlimit)
    have hsize := packet[cursor].toNat_lt
    have hmost := target.room_lt
    have hsum : cursor + 1 + packet[cursor].toNat < 2 ^ 64 := by omega
    rw [if_pos hlt, dif_pos hlt, Packet.byteAt_eq_of hget, Strict.of_ok_bind,
      Target.add_eq_of (by omega), Strict.of_ok_bind,
      Packet.part?_eq_of hroom (Target.adds_of_lt hsum), Strict.of_ok_bind, hget]
    simp only [Target.add_eq_of hsum, Strict.of_ok_bind]
    cases packet.slice? (cursor + 1) packet[cursor].toNat with
    | none => exact Or.inl rfl
    | some string =>
        refine Or.inr ⟨_, rfl, by dsimp only; omega, ?_⟩
        unfold StringsEnd
        cases readStrings packet limit (cursor + 1 + packet[cursor].toNat) with
        | error e => rfl
        | ok rest =>
            show Except.ok (bytes ++ (string ++ rest.1), rest.2) = _
            rw [← List.append_assoc]
            rfl
  · left
    rw [if_neg hlt, dif_neg hlt]
    show of (.ok (Sum.inr (bytes, cursor))) = of (.ok (Sum.inr (bytes ++ [], cursor)))
    rw [List.append_nil]

theorem readStringsStrict_eq_of (hroom : packet.size ≤ target.room) (hlimit : limit ≤ packet.size)
    (pos : Nat) : readStringsStrict target packet limit pos = of (readStrings packet limit pos) := by
  apply Strict.loop_eq_of (stringTurns hroom hlimit) (Nat.lt_succ_self _)
  unfold StringsEnd
  cases readStrings packet limit pos <;> rfl

/-- An SOA payload at `pos` and the offset behind it. -/
def readSoaStrict (target : Target) (packet : Packet) (pos : Nat) :
    Strict WireError (Soa Name × Nat) := do
  let (mname, pos) ← Name.readStrict target packet pos
  let (rname, pos) ← Name.readStrict target packet pos
  let serial ← packet.fieldStrict32 target pos
  let refresh ← packet.fieldBehind32 target pos 4
  let retry ← packet.fieldBehind32 target pos 8
  let expire ← packet.fieldBehind32 target pos 12
  let minimum ← packet.fieldBehind32 target pos 16
  return ({ mname, rname, serial, refresh, retry, expire, minimum }, ← target.add pos 20)

theorem readSoaStrict_eq_of (hroom : packet.size ≤ target.room) (pos : Nat) :
    readSoaStrict target packet pos = of (readSoa packet pos) := by
  have hmost := target.room_lt
  apply bind_eq_of (Name.readStrict_eq_of hroom pos)
  intro ⟨mname, pos⟩ _
  apply bind_eq_of (Name.readStrict_eq_of hroom pos)
  intro ⟨rname, pos⟩ hrname
  -- The numbers begin within the packet.
  have hpos : pos ≤ packet.size := (Name.bounds_of_read hrname).2
  apply bind_eq_of (Packet.fieldStrict32_eq_of hroom (Target.adds_of_lt (by omega)))
  intro serial _
  apply bind_eq_of (Packet.fieldBehind32_eq_of hroom (by omega))
  intro refresh _
  apply bind_eq_of (Packet.fieldBehind32_eq_of hroom (by omega))
  intro retry _
  apply bind_eq_of (Packet.fieldBehind32_eq_of hroom (by omega))
  intro expire _
  apply bind_eq_of (Packet.fieldBehind32_eq_of hroom (by omega))
  intro minimum _
  rw [Target.add_eq_of (by omega)]
  rfl

/-- The payload of a stored type in the `length` bytes at `pos`, which should end at `limit`, and the
offset behind it. -/
def readKindStrict (target : Target) (kind : RecordKind) (ttl : UInt32) (packet : Packet)
    (pos length limit : Nat) : Strict WireError (Rdata Name × Nat) :=
  match kind with
  | .a => do
    match ← packet.part? target pos 4 with
    | none => throw (.addressRunsOut pos)
    | some bytes =>
      let address : IPv4 :=
        ⟨← octet bytes 0, ← octet bytes 1, ← octet bytes 2, ← octet bytes 3⟩
      return (.a ttl address, ← target.add pos 4)
  | .ns => do
    let (server, next) ← Name.readStrict target packet pos
    return (.ns ttl server, next)
  | .cname => do
    let (goal, next) ← Name.readStrict target packet pos
    return (.cname ttl goal, next)
  | .mx => do
    let preference ← packet.fieldStrict16 target pos
    let (exchange, next) ← Name.readStrict target packet (← target.add pos 2)
    return (.mx ttl preference exchange, next)
  | .soa => do
    let (start, next) ← readSoaStrict target packet pos
    return (.soa start, next)
  | .txt => do
    -- Memory for the whole text is set aside before any of it is read.
    target.reserve length
    let (bs, next) ← readStringsStrict target packet limit pos
    match Text.ofBytes? bs with
    | some text => return (.txt ttl text, next)
    | none => throw .textNotText

theorem exists_of_length_four {bytes : List UInt8} (h : bytes.length = 4) :
    ∃ w x y z, bytes = [w, x, y, z] := by
  rcases bytes with _ | ⟨w, _ | ⟨x, _ | ⟨y, _ | ⟨z, _ | ⟨_, _⟩⟩⟩⟩⟩
  all_goals cases h
  exact ⟨w, x, y, z, rfl⟩

/-- Only the limit has to be within the packet; the payload may begin anywhere, unless sums are
checked. -/
theorem readKindStrict_eq_of (kind : RecordKind) (ttl : UInt32) {length : Nat}
    (hroom : packet.size ≤ target.room) (hadds : target.Adds pos 4) (hlimit : limit ≤ packet.size)
    (hreserve : kind = .txt → length ≤ target.room) :
    readKindStrict target kind ttl packet pos length limit =
      of (readKind kind ttl packet pos limit) := by
  have hmost := target.room_lt
  cases kind with
  | a =>
      -- The four bytes are taken from a slice, which is that long if it is there at all.
      unfold readKindStrict readKind
      simp only
      rw [Packet.part?_eq_of hroom hadds, Strict.of_ok_bind]
      cases hslice : packet.slice? pos 4 with
      | none => rfl
      | some bytes =>
          rcases Packet.holdsAt_of_slice? hslice with ⟨-, hlength, hle⟩
          rcases exists_of_length_four hlength with ⟨w, x, y, z, rfl⟩
          simp only [Target.add_eq_of (show pos + 4 < 2 ^ 64 by omega), Strict.of_ok_bind]
          rfl
  | ns =>
      apply bind_eq_of (Name.readStrict_eq_of hroom pos)
      intro _ _
      rfl
  | cname =>
      apply bind_eq_of (Name.readStrict_eq_of hroom pos)
      intro _ _
      rfl
  | mx =>
      have hsum : target.checked = true → pos + 2 < 2 ^ 64 := fun hchecked =>
        Nat.lt_of_le_of_lt (by omega) (hadds.sum_lt hchecked)
      apply bind_eq_of (Packet.fieldStrict16_eq_of hroom ⟨hadds.pos_lt, by decide, hsum⟩)
      intro preference hpreference
      have hle := (Packet.word16?_append (Packet.word16?_of_field hpreference)).1
      rw [Target.add_eq_of (by omega), Strict.of_ok_bind]
      apply bind_eq_of (Name.readStrict_eq_of hroom (pos + 2))
      intro _ _
      rfl
  | soa =>
      apply bind_eq_of (readSoaStrict_eq_of hroom pos)
      intro _ _
      rfl
  | txt =>
      unfold readKindStrict
      simp only
      rw [Target.reserve_eq_of (hreserve rfl), Strict.of_ok_bind]
      apply bind_eq_of (readStringsStrict_eq_of hroom hlimit pos)
      rintro ⟨bs, next⟩ _
      cases htext : Text.ofBytes? bs <;> simp only [htext] <;> rfl

/-- The payload of `type` in the `length` bytes at `pos`. -/
def readStrict (target : Target) (type : RecordType) (ttl : UInt32) (packet : Packet)
    (pos length : Nat) : Strict WireError (Rdata Name) := do
  let limit ← target.add pos length
  if packet.size < limit then throw (.payloadRunsOut pos)
  else
    match type.kind? with
    | none => throw (.payloadType type)
    | some kind =>
      let (rdata, next) ← readKindStrict target kind ttl packet pos length limit
      if next = limit then return rdata
      else throw (.payloadLength type pos length (next - pos))

/-- Where a payload ends at an offset that is a word, it is read without breaking down. -/
theorem readStrict_eq_of (type : RecordType) (ttl : UInt32) {length : Nat}
    (hroom : packet.size ≤ target.room) (hsum : pos + length < 2 ^ 64) :
    readStrict target type ttl packet pos length = of (read type ttl packet pos length) := by
  have hmost := target.room_lt
  unfold readStrict read
  rw [Target.add_eq_of hsum, Strict.of_ok_bind]
  by_cases hout : packet.size < pos + length
  · rw [if_pos hout, if_pos hout]
    rfl
  · rw [if_neg hout, if_neg hout]
    cases type.kind? with
    | none => rfl
    | some kind =>
        -- The payload ends within the packet, as the strings of a text need it.
        apply bind_eq_of (readKindStrict_eq_of kind ttl hroom (Target.adds_of_lt (by omega))
          (Nat.not_lt.1 hout) fun _ => by omega)
        intro ⟨rdata, next⟩ _
        by_cases hend : next = pos + length
        · simp only [if_pos hend]
          rfl
        · simp only [if_neg hend]
          rfl

/-! ### Payloads whose end is no word -/

/-- Checked sums stop the program before anything is read. -/
theorem readStrict_checked (type : RecordType) (ttl : UInt32) {length : Nat}
    (hchecked : target.checked = true) (hsum : 2 ^ 64 ≤ pos + length) :
    readStrict target type ttl packet pos length = breakDown .overflow := by
  rw [readStrict, Target.add_checked hchecked hsum]
  rfl

theorem le_of_readStrings {bs : List UInt8} {next : Nat}
    (h : readStrings packet limit pos = .ok (bs, next)) : pos ≤ next := by
  fun_induction readStrings packet limit pos generalizing bs next with
  | case1 => cases h
  | case2 => cases h
  | case3 pos hlt size hget string hslice ih =>
      rcases exists_of_bind h with ⟨⟨rest, last⟩, hrest, heq⟩
      cases heq
      have hmore := ih hrest
      omega
  | case4 =>
      cases h
      exact Nat.le_refl _

/-- Behind a payload is no offset before it. -/
theorem le_of_readKind {kind : RecordKind} {ttl : UInt32} {rdata : Rdata Name} {next : Nat}
    (h : readKind kind ttl packet pos limit = .ok (rdata, next)) : pos ≤ next := by
  cases kind with
  | a =>
      simp only [readKind] at h
      split at h
      · cases h
        exact Nat.le_add_right pos 4
      · cases h
  | ns | cname =>
      rcases exists_of_bind h with ⟨⟨name, last⟩, hname, heq⟩
      cases heq
      exact Nat.le_of_lt (Name.bounds_of_read hname).1
  | mx =>
      rcases exists_of_bind h with ⟨preference, -, hmore⟩
      rcases exists_of_bind hmore with ⟨⟨exchange, last⟩, hexchange, heq⟩
      cases heq
      have hlt := (Name.bounds_of_read hexchange).1
      omega
  | soa =>
      rcases exists_of_bind h with ⟨⟨start, last⟩, hstart, heq⟩
      cases heq
      rcases exists_of_bind hstart with ⟨⟨mname, pos₁⟩, hmname, hstart⟩
      rcases exists_of_bind hstart with ⟨⟨rname, pos₂⟩, hrname, hstart⟩
      rcases exists_of_bind hstart with ⟨serial, -, hstart⟩
      rcases exists_of_bind hstart with ⟨refresh, -, hstart⟩
      rcases exists_of_bind hstart with ⟨retry, -, hstart⟩
      rcases exists_of_bind hstart with ⟨expire, -, hstart⟩
      rcases exists_of_bind hstart with ⟨minimum, -, hstart⟩
      cases hstart
      have hfirst := (Name.bounds_of_read hmname).1
      have hsecond := (Name.bounds_of_read hrname).1
      omega
  | txt =>
      rcases exists_of_bind h with ⟨⟨bs, last⟩, hbs, hmore⟩
      dsimp only at hmore
      split at hmore
      · cases hmore
        exact le_of_readStrings hbs
      · cases hmore

/-- A text for which more memory is set aside than there is, although its end has wrapped around to an
offset within the packet. -/
def Exhausts (target : Target) (type : RecordType) (packet : Packet) (pos length : Nat) : Prop :=
  type.kind? = some .txt ∧ target.room < length ∧ pos + length - 2 ^ 64 ≤ packet.size

/-- A sum that wraps around gives an end before the payload, so nothing is read. -/
theorem readStrict_wrapped (type : RecordType) (ttl : UInt32) {length : Nat}
    (hroom : packet.size ≤ target.room) (hchecked : target.checked = false) (hpos : pos < 2 ^ 64)
    (hlength : length < 2 ^ 64) (hsum : 2 ^ 64 ≤ pos + length)
    (hmemory : ¬Exhausts target type packet pos length) :
    ∃ e, readStrict target type ttl packet pos length = of (.error e) := by
  unfold readStrict
  rw [Target.add_wrapped hchecked hsum, Strict.of_ok_bind]
  by_cases hout : packet.size < pos + length - 2 ^ 64
  · rw [if_pos hout]
    exact ⟨_, rfl⟩
  · rw [if_neg hout]
    cases hkind : type.kind? with
    | none => exact ⟨_, rfl⟩
    | some kind =>
        have hreserve : kind = .txt → length ≤ target.room := by
          rintro rfl
          exact Nat.not_lt.1 fun hmuch => hmemory ⟨hkind, hmuch, Nat.not_lt.1 hout⟩
        have hadds : target.Adds pos 4 := by
          refine ⟨hpos, by decide, fun h => ?_⟩
          rw [h] at hchecked
          cases hchecked
        dsimp only
        rw [readKindStrict_eq_of kind ttl hroom hadds (Nat.not_lt.1 hout) hreserve]
        cases hread : readKind kind ttl packet pos (pos + length - 2 ^ 64) with
        | error e => exact ⟨e, rfl⟩
        | ok out =>
            rcases out with ⟨rdata, next⟩
            have hle := le_of_readKind hread
            rw [Strict.of_ok_bind]
            dsimp only
            rw [if_neg (by omega)]
            exact ⟨_, rfl⟩

/-- Memory is set aside before the end is looked at. -/
theorem readStrict_exhausted {type : RecordType} (ttl : UInt32) {length : Nat}
    (hchecked : target.checked = false) (hsum : 2 ^ 64 ≤ pos + length)
    (hmemory : Exhausts target type packet pos length) :
    readStrict target type ttl packet pos length = breakDown (.exhausted length) := by
  rcases hmemory with ⟨hkind, hmuch, hend⟩
  unfold readStrict
  rw [Target.add_wrapped hchecked hsum, Strict.of_ok_bind, if_neg (Nat.not_lt.2 hend), hkind]
  dsimp only
  rw [readKindStrict, Target.reserve_exhausted hmuch]
  rfl

end Rdata

/-! ## Headers and questions -/

section Headers

variable {target : Target} {packet : Packet}

/-- The header of a packet and its section sizes. -/
def Header.readStrict (target : Target) (packet : Packet) :
    Strict WireError (Header × SectionCounts) :=
  if packet.size < headerSize then throw (.shortHeader packet.size)
  else do
    let id ← packet.fieldStrict16 target 0
    let flags ← packet.fieldStrict16 target 2
    let question ← packet.fieldStrict16 target 4
    let answer ← packet.fieldStrict16 target 6
    let authority ← packet.fieldStrict16 target 8
    let additional ← packet.fieldStrict16 target 10
    if question ≠ 1 then throw (.questionCount question)
    else do
      let header ← of (Header.ofFlags id flags)
      return (header, { question, answer, authority, additional })

theorem Header.readStrict_eq_of (hroom : packet.size ≤ target.room) :
    Header.readStrict target packet = of (Header.read packet) := by
  have hfield : ∀ pos ≤ 10, packet.fieldStrict16 target pos = of (packet.field16 pos) :=
    fun pos hpos => Packet.fieldStrict16_eq_of hroom (Target.adds_of_lt (by omega))
  unfold Header.readStrict Header.read
  by_cases hshort : packet.size < headerSize
  · rw [if_pos hshort, if_pos hshort]
    rfl
  · rw [if_neg hshort, if_neg hshort]
    apply bind_eq_of (hfield 0 (by decide))
    intro id _
    apply bind_eq_of (hfield 2 (by decide))
    intro flags _
    apply bind_eq_of (hfield 4 (by decide))
    intro question _
    apply bind_eq_of (hfield 6 (by decide))
    intro answer _
    apply bind_eq_of (hfield 8 (by decide))
    intro authority _
    apply bind_eq_of (hfield 10 (by decide))
    intro additional _
    by_cases hone : question ≠ 1
    · rw [if_pos hone, if_pos hone]
      rfl
    · rw [if_neg hone, if_neg hone]
      apply bind_eq_of rfl
      intro _ _
      rfl

/-- The question at `pos` and the offset behind it. -/
def Question.readStrict (target : Target) (packet : Packet) (pos : Nat) :
    Strict WireError (Question × Nat) := do
  let (name, pos) ← Name.readStrict target packet pos
  let type ← packet.fieldStrict16 target pos
  let cls ← packet.fieldBehind16 target pos 2
  if cls ≠ RecordClass.internet.code then throw (.questionClass ⟨cls⟩)
  else return (⟨name, ⟨type⟩⟩, ← target.add pos 4)

theorem Question.readStrict_eq_of (hroom : packet.size ≤ target.room) (pos : Nat) :
    Question.readStrict target packet pos = of (Question.read packet pos) := by
  have hmost := target.room_lt
  apply bind_eq_of (Name.readStrict_eq_of hroom pos)
  intro ⟨name, pos⟩ hname
  -- Behind a name that is read no sum is too large for a word.
  have hpos : pos ≤ packet.size := (Name.bounds_of_read hname).2
  apply bind_eq_of (Packet.fieldStrict16_eq_of hroom (Target.adds_of_lt (by omega)))
  intro type _
  apply bind_eq_of (Packet.fieldBehind16_eq_of hroom (by omega))
  intro cls _
  by_cases hclass : cls ≠ RecordClass.internet.code
  · rw [if_pos hclass, if_pos hclass]
    rfl
  · rw [if_neg hclass, if_neg hclass, Target.add_eq_of (by omega)]
    rfl

end Headers

/-! ## Records -/

namespace Record

variable {target : Target} {packet : Packet}

/-- The record at `pos` and the offset behind it. -/
def readStrict (target : Target) (packet : Packet) (pos : Nat) :
    Strict WireError (Record × Nat) := do
  let (name, pos) ← Name.readStrict target packet pos
  let type ← packet.fieldStrict16 target pos
  let cls ← packet.fieldBehind16 target pos 2
  if cls ≠ RecordClass.internet.code then throw (.recordClass ⟨cls⟩)
  else do
    let ttl ← packet.fieldBehind32 target pos 4
    let length ← packet.fieldBehind16 target pos 8
    let start ← target.add pos fixedSize
    let rdata ← Rdata.readStrict target ⟨type⟩ ttl packet start length.toNat
    return (⟨name, rdata, ttl⟩, ← target.add start length.toNat)

/-- `count` records from `pos` on, and the offset behind them. -/
def readManyStrict (target : Target) (packet : Packet) :
    Nat → Nat → Strict WireError (List Record × Nat)
  | 0, pos => return ([], pos)
  | count + 1, pos => do
    let (record, pos) ← readStrict target packet pos
    let (records, pos) ← readManyStrict target packet count pos
    return (record :: records, pos)

/-- A length that a record declares is too small for a sum that is no word. -/
theorem readStrict_eq_of (hroom : packet.size ≤ target.room) (pos : Nat) :
    readStrict target packet pos = Strict.of (read packet pos) := by
  have hmost := target.room_lt
  apply bind_eq_of (Name.readStrict_eq_of hroom pos)
  intro ⟨name, pos⟩ hname
  have hpos : pos ≤ packet.size := (Name.bounds_of_read hname).2
  apply bind_eq_of (Packet.fieldStrict16_eq_of hroom (Target.adds_of_lt (by omega)))
  intro type _
  apply bind_eq_of (Packet.fieldBehind16_eq_of hroom (by omega))
  intro cls _
  by_cases hclass : cls ≠ RecordClass.internet.code
  · rw [if_pos hclass, if_pos hclass]
    rfl
  · rw [if_neg hclass, if_neg hclass]
    apply bind_eq_of (Packet.fieldBehind32_eq_of hroom (by omega))
    intro ttl _
    apply bind_eq_of (Packet.fieldBehind16_eq_of hroom (by omega))
    intro length _
    have hlength := length.toNat_lt
    have hsum : pos + fixedSize + length.toNat < 2 ^ 64 := by
      unfold fixedSize
      omega
    rw [Target.add_eq_of (Nat.lt_of_le_of_lt (Nat.le_add_right _ _) hsum), Strict.of_ok_bind]
    apply bind_eq_of (Rdata.readStrict_eq_of ⟨type⟩ ttl hroom hsum)
    intro rdata _
    rw [Target.add_eq_of hsum]
    rfl

theorem readManyStrict_eq_of (hroom : packet.size ≤ target.room) (count pos : Nat) :
    readManyStrict target packet count pos = Strict.of (readMany packet count pos) := by
  induction count generalizing pos with
  | zero => rfl
  | succ count ih =>
      apply bind_eq_of (readStrict_eq_of hroom pos)
      intro ⟨record, pos⟩ _
      apply bind_eq_of (ih pos)
      intro _ _
      rfl

end Record

/-! ## Messages -/

namespace Message

variable {target : Target} {packet : Packet}

/-- The header and the question of a packet. -/
def readQueryStrict (target : Target) (packet : Packet) : Strict WireError Message := do
  let (header, _) ← Header.readStrict target packet
  let (question, _) ← Question.readStrict target packet headerSize
  return ⟨header, question, [], [], []⟩

/-- The message in a packet, and the offset behind its last record. -/
def readToStrict (target : Target) (packet : Packet) : Strict WireError (Message × Nat) := do
  let (header, counts) ← Header.readStrict target packet
  let (question, pos) ← Question.readStrict target packet headerSize
  let (answer, pos) ← Record.readManyStrict target packet counts.answer.toNat pos
  let (authority, pos) ← Record.readManyStrict target packet counts.authority.toNat pos
  let (additional, pos) ← Record.readManyStrict target packet counts.additional.toNat pos
  return (⟨header, question, answer, authority, additional⟩, pos)

/-- The message in a packet. -/
def readStrict (target : Target) (packet : Packet) : Strict WireError Message := do
  let (message, _) ← readToStrict target packet
  return message

theorem readQueryStrict_eq_of (hroom : packet.size ≤ target.room) :
    readQueryStrict target packet = of (readQuery packet) := by
  apply bind_eq_of (Header.readStrict_eq_of hroom)
  intro ⟨header, counts⟩ _
  apply bind_eq_of (Question.readStrict_eq_of hroom headerSize)
  intro ⟨question, pos⟩ _
  rfl

theorem readToStrict_eq_of (hroom : packet.size ≤ target.room) :
    readToStrict target packet = of (readTo packet) := by
  apply bind_eq_of (Header.readStrict_eq_of hroom)
  intro ⟨header, counts⟩ _
  apply bind_eq_of (Question.readStrict_eq_of hroom headerSize)
  intro ⟨question, pos⟩ _
  apply bind_eq_of (Record.readManyStrict_eq_of hroom counts.answer.toNat pos)
  intro ⟨answer, pos⟩ _
  apply bind_eq_of (Record.readManyStrict_eq_of hroom counts.authority.toNat pos)
  intro ⟨authority, pos⟩ _
  apply bind_eq_of (Record.readManyStrict_eq_of hroom counts.additional.toNat pos)
  intro ⟨additional, pos⟩ _
  rfl

theorem readStrict_eq_of (hroom : packet.size ≤ target.room) :
    readStrict target packet = of (read packet) := by
  apply bind_eq_of (readToStrict_eq_of hroom)
  intro ⟨message, pos⟩ _
  rfl

end Message

end NameServer
