import NameServer.Proofs.Message.DumpWalk
import NameServer.Proofs.Message.Slots
import NameServer.Proofs.Message.StrictReading

/-!
# Proofs.Message.StrictDump — decoding is safe for every packet

The dump shows a packet that need not be valid, with loops of its own over the labels of a name and
over the strings of a text, and it takes the four bytes of an address without a look at the end of
the packet.

* `Trace.messageStrict` — the dump, step by step; `Trace.messageStrict_eq_of` — it never breaks down;
* `Packet.dumpStrict` — its text;
* `Rdata.ReadSafely` — what becomes of a payload at any offset and of any length;
* `Packet.decoding_safe` — whatever the bytes are, no reader and no dump takes a byte from outside,
  and names that are read are within their limits.
-/

namespace NameServer

open Strict (of breakDown loop bind_eq_of)

namespace Trace

variable {target : Target} {packet : Packet} {trace : Trace}

/-! ## Fields -/

/-- Ahead by `count` bytes. -/
def ahead (target : Target) (trace : Trace) (count : Nat) : Strict Trace Trace := do
  return { trace with pos := ← target.add trace.pos count }

theorem ahead_eq_of {count : Nat} (h : trace.pos + count < 2 ^ 64) :
    ahead target trace count = of (.ok (trace.skip count)) := by
  rw [ahead, Target.add_eq_of h]
  rfl

/-- Shows a 16-bit field; `line` words it. -/
def wordStrict16 (target : Target) (packet : Packet) (trace : Trace) (line : UInt16 → String) :
    Strict Trace (UInt16 × Trace) := do
  match ← packet.wordStrict16? target trace.pos with
  | some w => return (w, ← ahead target (trace.say s!"{trace.pos}: {line w}") 2)
  | none => throw trace

/-- Shows a 32-bit field; `line` words it. -/
def wordStrict32 (target : Target) (packet : Packet) (trace : Trace) (line : UInt32 → String) :
    Strict Trace Trace := do
  match ← packet.wordStrict32? target trace.pos with
  | some w => ahead target (trace.say s!"{trace.pos}: {line w}") 4
  | none => throw trace

theorem wordStrict16_eq_of (hroom : packet.size ≤ target.room) (hpos : trace.pos ≤ packet.size)
    (line : UInt16 → String) :
    wordStrict16 target packet trace line = of (word16 packet trace line) := by
  have hmost := target.room_lt
  unfold wordStrict16 word16
  rw [Packet.wordStrict16?_eq_of hroom (Target.adds_of_lt (by omega)), Strict.of_ok_bind]
  cases packet.word16? trace.pos with
  | none => rfl
  | some w =>
      dsimp only
      rw [ahead_eq_of (by rw [say_pos]; omega)]
      rfl

theorem wordStrict32_eq_of (hroom : packet.size ≤ target.room) (hpos : trace.pos ≤ packet.size)
    (line : UInt32 → String) :
    wordStrict32 target packet trace line = of (word32 packet trace line) := by
  have hmost := target.room_lt
  unfold wordStrict32 word32
  rw [Packet.wordStrict32?_eq_of hroom (Target.adds_of_lt (by omega)), Strict.of_ok_bind]
  cases packet.word32? trace.pos with
  | none => rfl
  | some w =>
      dsimp only
      rw [ahead_eq_of (by rw [say_pos]; omega)]

/-! ## Names -/

/-- One turn of the loop over the labels of a name. -/
def nameTurn (target : Target) (packet : Packet) (trace : Trace) :
    Strict Trace (Trace ⊕ Trace) := do
  let pos := trace.pos
  match ← packet.byte? pos with
  | none => throw trace
  | some byte =>
    let size := byte.toNat
    let next ← ahead target trace 1
    if size = 0 then return .inr (next.say s!"{pos}: Null label")
    else if size < 0x40 then
      match ← packet.part? target next.pos size with
      | none => throw next
      | some bs => return .inl ((← ahead target next size).say s!"{pos}: Label: {Text.lossy bs}")
    else if 0xC0 ≤ size then
      match ← packet.byte? next.pos with
      | none => throw next
      | some low =>
        return .inr ((← ahead target next 1).say
          s!"{pos}: Pointer ==> {(size - 0xC0) * 0x100 + low.toNat}")
    else return .inr (next.say s!"{pos}: Unknown label type: {size / 0x40}")

/-- Shows the labels of a name, in at most one turn more than there are bytes left. -/
def nameStrict (target : Target) (packet : Packet) (trace : Trace) : Strict Trace Trace :=
  loop (nameTurn target packet) (packet.size - trace.pos + 1) trace

/-- Every turn that goes on takes a byte, and no pointer is followed. -/
theorem nameTurns (hroom : packet.size ≤ target.room) (trace : Trace) (outcome : Showing)
    (h : outcome = name packet trace) :
    Strict.Turns (nameTurn target packet) (fun trace => packet.size - trace.pos)
      (fun trace outcome => outcome = name packet trace) trace outcome := by
  subst h
  have hmost := target.room_lt
  -- From a byte that is there, a name has no sum that is too large.
  have hnext {byte : UInt8} (hbyte : packet[trace.pos]? = some byte) :
      ahead target trace 1 = of (.ok (trace.skip 1)) :=
    ahead_eq_of (by have := (Array.getElem?_eq_some_iff.1 hbyte).1; omega)
  unfold Strict.Turns nameTurn
  simp only [Packet.byte?_eq_of, Strict.of_ok_bind]
  -- A name is shown up to its first pointer, so only a label makes the loop go on.
  fun_cases name packet trace with
  | case1 pos hbyte =>
      left
      rw [hbyte]
      rfl
  | case2 pos byte hbyte size hzero =>
      left
      rw [hbyte]
      dsimp only
      rw [hnext hbyte, Strict.of_ok_bind]
      exact if_pos hzero
  | case3 pos byte hbyte size hzero hlow hslice =>
      have hlt := (Array.getElem?_eq_some_iff.1 hbyte).1
      left
      rw [hbyte]
      dsimp only
      rw [hnext hbyte, Strict.of_ok_bind, if_neg hzero, if_pos hlow,
        Packet.part?_eq_of hroom (Target.adds_of_lt (by rw [skip_pos]; omega)), Strict.of_ok_bind,
        skip_pos, hslice]
      rfl
  | case4 pos byte hbyte size hzero hlow bs hslice hlt =>
      right
      rw [hbyte]
      dsimp only
      rw [hnext hbyte, Strict.of_ok_bind, if_neg hzero, if_pos hlow,
        Packet.part?_eq_of hroom (Target.adds_of_lt (by rw [skip_pos]; omega)), Strict.of_ok_bind,
        skip_pos, hslice, ahead_eq_of (by rw [skip_pos]; omega)]
      refine ⟨_, rfl, ?_, ?_⟩
      · simp only [skip, say]
        omega
      · simp only [skip, say, Nat.add_assoc]
        rfl
  | case5 pos byte hbyte size hzero hlow hhigh hsecond =>
      left
      rw [hbyte]
      dsimp only
      rw [hnext hbyte, Strict.of_ok_bind, if_neg hzero, if_neg hlow, if_pos hhigh, skip_pos,
        hsecond]
      rfl
  | case6 pos byte hbyte size hzero hlow hhigh second hsecond =>
      have hlt := (Array.getElem?_eq_some_iff.1 hsecond).1
      left
      rw [hbyte]
      dsimp only
      rw [hnext hbyte, Strict.of_ok_bind, if_neg hzero, if_neg hlow, if_pos hhigh, skip_pos,
        hsecond]
      dsimp only
      rw [ahead_eq_of (by rw [skip_pos]; omega)]
      rfl
  | case7 pos byte hbyte size hzero hlow hhigh =>
      left
      rw [hbyte]
      dsimp only
      rw [hnext hbyte, Strict.of_ok_bind, if_neg hzero, if_neg hlow]
      exact if_neg hhigh

theorem nameStrict_eq_of (hroom : packet.size ≤ target.room) (trace : Trace) :
    nameStrict target packet trace = of (name packet trace) := by
  apply Strict.loop_eq_of (nameTurns hroom) (Nat.lt_succ_self _)
  rfl

/-! ## Payloads -/

/-- One turn of the loop over the strings of a text payload that ends at `limit`. -/
def stringTurn (target : Target) (packet : Packet) (limit : Nat) (trace : Trace) :
    Strict Trace (Trace ⊕ Trace) := do
  let pos := trace.pos
  if pos < limit then
    match ← packet.byte? pos with
    | none => throw trace
    | some size =>
      let next ← ahead target trace 1
      match ← packet.part? target next.pos size.toNat with
      | none => throw next
      | some bs =>
        return .inl ((← ahead target next size.toNat).say s!"{pos}: TEXT: \"{Text.lossy bs}\"")
  else return .inr trace

/-- Shows the strings of a text payload that ends at `limit`. -/
def stringsStrict (target : Target) (packet : Packet) (limit : Nat) (trace : Trace) :
    Strict Trace Trace :=
  loop (stringTurn target packet limit) (limit - trace.pos + 1) trace

/-- Every turn that goes on takes a byte of the payload. -/
theorem stringTurns (hroom : packet.size ≤ target.room) (limit : Nat) (trace : Trace)
    (outcome : Showing) (h : outcome = strings packet limit trace) :
    Strict.Turns (stringTurn target packet limit) (fun trace => limit - trace.pos)
      (fun trace outcome => outcome = strings packet limit trace) trace outcome := by
  subst h
  have hmost := target.room_lt
  unfold Strict.Turns stringTurn
  simp only [Packet.byte?_eq_of, Strict.of_ok_bind]
  -- The loop goes on in the third case, and is over in all others.
  fun_cases strings packet limit trace with
  | case1 pos hlt hbyte =>
      left
      rw [if_pos hlt, hbyte]
      rfl
  | case2 pos hlt size hbyte hslice =>
      have hin := (Array.getElem?_eq_some_iff.1 hbyte).1
      have hsize := size.toNat_lt
      left
      rw [if_pos hlt, hbyte]
      dsimp only
      rw [ahead_eq_of (by omega), Strict.of_ok_bind,
        Packet.part?_eq_of hroom (Target.adds_of_lt (by rw [skip_pos]; omega)), Strict.of_ok_bind,
        skip_pos, hslice]
      rfl
  | case3 pos hlt size hbyte bs hslice =>
      have hin := (Array.getElem?_eq_some_iff.1 hbyte).1
      have hsize := size.toNat_lt
      right
      rw [if_pos hlt, hbyte]
      dsimp only
      rw [ahead_eq_of (by omega), Strict.of_ok_bind,
        Packet.part?_eq_of hroom (Target.adds_of_lt (by rw [skip_pos]; omega)), Strict.of_ok_bind,
        skip_pos, hslice, ahead_eq_of (by rw [skip_pos]; omega)]
      refine ⟨_, rfl, ?_, ?_⟩
      · simp only [skip, say]
        omega
      · simp only [skip, say, Nat.add_assoc]
        rfl
  | case4 pos hge =>
      left
      exact if_neg hge

theorem stringsStrict_eq_of (hroom : packet.size ≤ target.room) (limit : Nat) (trace : Trace) :
    stringsStrict target packet limit trace = of (strings packet limit trace) := by
  apply Strict.loop_eq_of (stringTurns hroom limit) (Nat.lt_succ_self _)
  rfl

/-- Shows an address payload of `length` bytes, which are taken as they are declared. -/
def addressStrict (target : Target) (packet : Packet) (length : Nat) (trace : Trace) :
    Strict Trace Trace := do
  let start := trace.pos
  if length = 4 then
    let a ← packet.byteAt start
    let b ← packet.byteAt (← target.add start 1)
    let c ← packet.byteAt (← target.add start 2)
    let d ← packet.byteAt (← target.add start 3)
    return trace.say s!"{start}: {a}.{b}.{c}.{d}"
  else return trace.say s!"{start}: ({length} bytes not decoded)"

/-- Shows a payload of `length` bytes. -/
def payloadStrict (target : Target) (packet : Packet) (type : RecordType) (length : Nat)
    (trace : Trace) : Strict Trace Trace :=
  match type.kind? with
  | some .a => addressStrict target packet length trace
  | some .ns | some .cname => nameStrict target packet trace
  | some .mx => do
    let (_, trace) ← wordStrict16 target packet trace fun preference => s!"PREFERENCE: {preference}"
    nameStrict target packet trace
  | some .txt => do stringsStrict target packet (← target.add trace.pos length) trace
  | _ => return trace.say s!"{trace.pos}: ({length} bytes not decoded)"

/-- An address is taken from bytes that are there when the payload is. -/
theorem addressStrict_eq_of {type : RecordType} {length : Nat} (hroom : packet.size ≤ target.room)
    (htype : type.kind? = some .a) (hlimit : trace.pos + length ≤ packet.size) :
    addressStrict target packet length trace = of (payload packet type length trace) := by
  have hmost := target.room_lt
  have hslice : ∃ bytes, packet.slice? trace.pos length = some bytes := by
    unfold Packet.slice?
    rw [if_pos hlimit]
    exact ⟨_, rfl⟩
  rcases hslice with ⟨bytes, hslice⟩
  have hlength : bytes.length = length := (Packet.holdsAt_of_slice? hslice).2.1
  unfold addressStrict payload
  rw [htype]
  dsimp only
  rw [hslice]
  by_cases hfour : length = 4
  · subst hfour
    rcases Rdata.exists_of_length_four hlength with ⟨a, b, c, d, rfl⟩
    -- The dump takes the bytes from the packet, one by one, and not from a slice of it.
    have hbyte : ∀ (index : Nat) (byte : UInt8), index < 4 →
        [a, b, c, d][index]? = some byte →
          (packet.byteAt (trace.pos + index) : Strict Trace UInt8) = of (.ok byte) := by
      intro index byte hindex hget
      apply Packet.byteAt_eq_of
      rw [← Packet.getElem?_of_slice? hslice hindex, hget]
    have hadd : ∀ index < 4,
        (target.add trace.pos index : Strict Trace Nat) = of (.ok (trace.pos + index)) :=
      fun index hindex => Target.add_eq_of (by omega)
    have ha : (packet.byteAt trace.pos : Strict Trace UInt8) = of (.ok a) :=
      hbyte 0 a (by omega) rfl
    rw [if_pos rfl, ha, Strict.of_ok_bind, hadd 1 (by omega), Strict.of_ok_bind,
      hbyte 1 b (by omega) rfl, Strict.of_ok_bind, hadd 2 (by omega), Strict.of_ok_bind,
      hbyte 2 c (by omega) rfl, Strict.of_ok_bind, hadd 3 (by omega), Strict.of_ok_bind,
      hbyte 3 d (by omega) rfl]
    rfl
  · -- An address of any other length is not decoded.
    rw [if_neg hfour]
    match bytes, hlength with
    | [], _ | [_], _ | [_, _], _ | [_, _, _], _ | _ :: _ :: _ :: _ :: _ :: _, _ => rfl
    | [_, _, _, _], h => exact absurd h.symm hfour

theorem payloadStrict_eq_of (type : RecordType) {length : Nat} (hroom : packet.size ≤ target.room)
    (hlimit : trace.pos + length ≤ packet.size) :
    payloadStrict target packet type length trace = of (payload packet type length trace) := by
  have hmost := target.room_lt
  unfold payloadStrict
  cases htype : type.kind? with
  | none =>
      unfold payload
      rw [htype]
      rfl
  | some kind =>
      cases kind with
      | a => exact addressStrict_eq_of hroom htype hlimit
      | ns | cname =>
          unfold payload
          rw [htype]
          exact nameStrict_eq_of hroom trace
      | mx =>
          unfold payload
          rw [htype]
          apply bind_eq_of (wordStrict16_eq_of hroom (by omega) _)
          intro ⟨preference, trace⟩ _
          exact nameStrict_eq_of hroom trace
      | txt =>
          unfold payload
          rw [htype]
          dsimp only
          rw [Target.add_eq_of (by omega), Strict.of_ok_bind]
          exact stringsStrict_eq_of hroom _ trace
      | soa =>
          unfold payload
          rw [htype]
          rfl

/-! ## Sections -/

/-- Shows a question. -/
def questionStrict (target : Target) (packet : Packet) (trace : Trace) : Strict Trace Trace := do
  let trace ← nameStrict target packet trace
  let (_, trace) ← wordStrict16 target packet trace fun type => s!"QTYPE: {typeText type}"
  let (_, trace) ← wordStrict16 target packet trace fun cls => s!"QCLASS: {cls}"
  return trace

/-- Shows a record. -/
def recordStrict (target : Target) (packet : Packet) (trace : Trace) : Strict Trace Trace := do
  let trace ← nameStrict target packet (trace.say "ResourceRecord:")
  let (type, trace) ← wordStrict16 target packet trace fun type => s!"TYPE: {typeText type}"
  let (_, trace) ← wordStrict16 target packet trace fun cls => s!"CLASS: {cls}"
  let trace ← wordStrict32 target packet trace fun ttl => s!"TTL: {signed ttl}"
  let (length, trace) ← wordStrict16 target packet trace fun length => s!"RDLENGTH: {length}"
  match ← packet.part? target trace.pos length.toNat with
  | none => throw trace
  | some _ =>
    let shown ← payloadStrict target packet ⟨type⟩ length.toNat trace
    return { shown with pos := ← target.add trace.pos length.toNat }

/-- Repeats a step. -/
def timesStrict (step : Trace → Strict Trace Trace) : Nat → Trace → Strict Trace Trace
  | 0, trace => return trace
  | count + 1, trace => do timesStrict step count (← step trace)

/-- Shows a section of records. -/
def recordsStrict (target : Target) (packet : Packet) (title empty : String) (count : UInt16)
    (trace : Trace) : Strict Trace Trace :=
  let trace := trace.say title
  timesStrict (recordStrict target packet) count.toNat
    (if count = 0 then trace.say empty else trace)

/-- Shows a whole packet. -/
def messageStrict (target : Target) (packet : Packet) : Strict Trace Trace := do
  let trace := say ⟨0, []⟩ "HEADER:"
  let (_, trace) ← wordStrict16 target packet trace fun id => s!"ID: {id}"
  let (_, trace) ← wordStrict16 target packet trace flagsLine
  let (questions, trace) ← wordStrict16 target packet trace fun count => s!"QDCOUNT: {count}"
  let (answers, trace) ← wordStrict16 target packet trace fun count => s!"ANCOUNT: {count}"
  let (authorities, trace) ← wordStrict16 target packet trace fun count => s!"NSCOUNT: {count}"
  let (additionals, trace) ← wordStrict16 target packet trace fun count => s!"ARCOUNT: {count}"
  let trace := if questions = 1 then trace else trace.say "Error: QDCOUNT must be 1"
  let trace ← timesStrict (questionStrict target packet) questions.toNat
    (trace.say "QUESTION SECTION:")
  let trace ← recordsStrict target packet "ANSWER SECTION:" "(no entries in answer section)" answers
    trace
  let trace ← recordsStrict target packet "NS SECTION:" "(no entries in ns section)" authorities
    trace
  recordsStrict target packet "ADDITIONAL SECTION:" "(no entries in ar section)" additionals trace

/-- A 16-bit field within a packet is shown without breaking down, and what follows it starts within
the packet. -/
theorem word16_bind_eq_of {β : Type} {line : UInt16 → String}
    {f : UInt16 × Trace → Except Trace β} {g : UInt16 × Trace → Strict Trace β}
    (hroom : packet.size ≤ target.room) (hpos : trace.pos ≤ packet.size)
    (hnext : ∀ out : UInt16 × Trace, out.2.pos ≤ packet.size → g out = of (f out)) :
    (wordStrict16 target packet trace line >>= g) = of (word16 packet trace line >>= f) :=
  bind_eq_of (wordStrict16_eq_of hroom hpos line) fun out hout =>
    hnext out (word16_local trace line hpos hout).1

theorem questionStrict_eq_of (hroom : packet.size ≤ target.room) (trace : Trace)
    (hpos : trace.pos ≤ packet.size) :
    questionStrict target packet trace = of (question packet trace) := by
  apply bind_eq_of (nameStrict_eq_of hroom trace)
  intro next hnext
  apply word16_bind_eq_of hroom (name_local trace hpos hnext).1
  intro ⟨type, trace⟩ hpos
  apply word16_bind_eq_of hroom hpos
  intro ⟨cls, trace⟩ _
  rfl

theorem recordStrict_eq_of (hroom : packet.size ≤ target.room) (trace : Trace)
    (hpos : trace.pos ≤ packet.size) :
    recordStrict target packet trace = of (record packet trace) := by
  have hmost := target.room_lt
  apply bind_eq_of (nameStrict_eq_of hroom _)
  intro next hnext
  apply word16_bind_eq_of hroom (name_local (trace.say "ResourceRecord:") hpos hnext).1
  intro ⟨type, trace⟩ hpos
  apply word16_bind_eq_of hroom hpos
  intro ⟨cls, trace⟩ hpos
  apply bind_eq_of (wordStrict32_eq_of hroom hpos _)
  intro next hnext
  apply word16_bind_eq_of hroom (word32_local trace _ hpos hnext).1
  intro ⟨length, trace⟩ hpos
  have hlength := length.toNat_lt
  have hsum : trace.pos + length.toNat < 2 ^ 64 := by
    dsimp only at hpos
    omega
  dsimp only
  rw [Packet.part?_eq_of hroom (Target.adds_of_lt hsum), Strict.of_ok_bind]
  unfold Packet.slice?
  by_cases hout : packet.size < trace.pos + length.toNat
  · rw [if_neg (Nat.not_le.2 hout), if_pos hout]
    rfl
  · rw [if_pos (Nat.not_lt.1 hout), if_neg hout]
    -- The payload is in the packet, so its bytes may be taken.
    apply bind_eq_of (payloadStrict_eq_of ⟨type⟩ hroom (Nat.not_lt.1 hout))
    intro shown _
    rw [Target.add_eq_of hsum]
    rfl

theorem timesStrict_eq_of {step : Trace → Strict Trace Trace} {showing : Packet → Trace → Showing}
    (hstep : ∀ trace : Trace, trace.pos ≤ packet.size → step trace = of (showing packet trace))
    (hlocal : ∀ trace : Trace, Local trace.pos (fun packet => showing packet trace) Trace.pos)
    (count : Nat) (trace : Trace) (hpos : trace.pos ≤ packet.size) :
    timesStrict step count trace = of (times (showing packet) count trace) := by
  induction count generalizing trace with
  | zero => rfl
  | succ count ih =>
      apply bind_eq_of (hstep trace hpos)
      intro next hnext
      exact ih next (hlocal trace hpos hnext).1

theorem recordsStrict_eq_of (title empty : String) (count : UInt16)
    (hroom : packet.size ≤ target.room) (hpos : trace.pos ≤ packet.size) :
    recordsStrict target packet title empty count trace =
      of (records packet title empty count trace) := by
  refine timesStrict_eq_of (recordStrict_eq_of hroom) record_local _ _ ?_
  split <;> exact hpos

/-- Showing a packet never breaks down. -/
theorem messageStrict_eq_of (hroom : packet.size ≤ target.room) :
    messageStrict target packet = of (message packet) := by
  apply word16_bind_eq_of hroom (Nat.zero_le _)
  intro ⟨id, trace⟩ hpos
  apply word16_bind_eq_of hroom hpos
  intro ⟨flags, trace⟩ hpos
  apply word16_bind_eq_of hroom hpos
  intro ⟨questions, trace⟩ hpos
  apply word16_bind_eq_of hroom hpos
  intro ⟨answers, trace⟩ hpos
  apply word16_bind_eq_of hroom hpos
  intro ⟨authorities, trace⟩ hpos
  apply word16_bind_eq_of hroom hpos
  intro ⟨additionals, trace⟩ hpos
  -- A complaint about the number of questions does not move on.
  have hstart : ((if questions = 1 then trace else
      trace.say "Error: QDCOUNT must be 1").say "QUESTION SECTION:").pos ≤ packet.size := by
    rw [say_pos]
    split <;> exact hpos
  apply bind_eq_of (timesStrict_eq_of (questionStrict_eq_of hroom) question_local _ _ hstart)
  intro shown hshown
  have hpos := (times_local question_local _ _ hstart hshown).1
  apply bind_eq_of (recordsStrict_eq_of _ _ answers hroom hpos)
  intro shown hshown
  have hpos := (records_local _ _ answers _ hpos hshown).1
  apply bind_eq_of (recordsStrict_eq_of _ _ authorities hroom hpos)
  intro shown hshown
  have hpos := (records_local _ _ authorities _ hpos hshown).1
  exact recordsStrict_eq_of _ _ additionals hroom hpos

end Trace

/-! ## Safety -/

/-- A run that takes no byte from outside, comes out of its loops and builds no impossible name. It
may still stop at a sum that no word holds, or for want of memory. -/
def Strict.InBounds {ε α : Type} (run : Strict ε α) : Prop :=
  ∀ cause, run = breakDown cause → cause = .overflow ∨ ∃ count, cause = .exhausted count

theorem Strict.inBounds_of {ε α : Type} (x : Except ε α) : (of x).InBounds :=
  fun _ h => nomatch h

namespace Rdata

/-- What becomes of reading a payload at any offset and of any length. What `Rdata.read` yields, if the
sum of the two is a word; otherwise sums that are checked stop the program, and sums that wrap around
lead to an error, unless a text asks for more memory than there is. -/
structure ReadSafely (target : Target) (type : RecordType) (ttl : UInt32) (packet : Packet)
    (pos length : UInt64) : Prop where
  inBounds : (readStrict target type ttl packet pos.toNat length.toNat).InBounds
  read : pos.toNat + length.toNat < 2 ^ 64 →
    readStrict target type ttl packet pos.toNat length.toNat =
      of (Rdata.read type ttl packet pos.toNat length.toNat)
  checked : 2 ^ 64 ≤ pos.toNat + length.toNat → target.checked = true →
    readStrict target type ttl packet pos.toNat length.toNat = breakDown .overflow
  wrapped : 2 ^ 64 ≤ pos.toNat + length.toNat → target.checked = false →
    ¬Exhausts target type packet pos.toNat length.toNat →
      ∃ e, readStrict target type ttl packet pos.toNat length.toNat = of (.error e)
  exhausted : 2 ^ 64 ≤ pos.toNat + length.toNat → target.checked = false →
    Exhausts target type packet pos.toNat length.toNat →
      readStrict target type ttl packet pos.toNat length.toNat =
        breakDown (.exhausted length.toNat)
  limits : ∀ rdata, readStrict target type ttl packet pos.toNat length.toNat = of (.ok rdata) →
    ∀ name ∈ rdata.references, name.WithinLimits

theorem readSafely {target : Target} {packet : Packet} (hroom : packet.size ≤ target.room)
    (type : RecordType) (ttl : UInt32) (pos length : UInt64) :
    ReadSafely target type ttl packet pos length where
  inBounds := by
    intro cause hcause
    by_cases hsum : pos.toNat + length.toNat < 2 ^ 64
    · rw [readStrict_eq_of type ttl hroom hsum] at hcause
      exact Strict.inBounds_of _ cause hcause
    rw [Nat.not_lt] at hsum
    cases hchecked : target.checked with
    | true =>
        rw [readStrict_checked type ttl hchecked hsum] at hcause
        cases hcause
        exact Or.inl rfl
    | false =>
        by_cases hmemory : Exhausts target type packet pos.toNat length.toNat
        · rw [readStrict_exhausted ttl hchecked hsum hmemory] at hcause
          cases hcause
          exact Or.inr ⟨_, rfl⟩
        · rcases readStrict_wrapped type ttl hroom hchecked pos.toNat_lt length.toNat_lt hsum
            hmemory with ⟨e, herror⟩
          rw [herror] at hcause
          exact Strict.inBounds_of _ cause hcause
  read := readStrict_eq_of type ttl hroom
  checked hsum hchecked := readStrict_checked type ttl hchecked hsum
  wrapped hsum hchecked :=
    readStrict_wrapped type ttl hroom hchecked pos.toNat_lt length.toNat_lt hsum
  exhausted hsum hchecked := readStrict_exhausted ttl hchecked hsum
  limits _ _ name _ := name.withinLimits

end Rdata

namespace Packet

/-- The dump of a packet, unless it breaks down. -/
def dumpStrict (target : Target) (packet : Packet) : Except Breakdown String := do
  let lines :=
    match ← (Trace.messageStrict target packet).run with
    | .error trace =>
      (trace.say
        s!"TRUNCATED: packet ends at offset {trace.pos} ({packet.size} bytes)").lines.reverse
    | .ok trace =>
      if trace.pos < packet.size then
        (trace.say
          s!"{trace.pos}: {packet.size - trace.pos} trailing bytes not decoded").lines.reverse
      else trace.lines.reverse
  return String.join (lines.map fun line => line ++ "\n")

theorem dumpStrict_eq_ok {target : Target} {packet : Packet} (hroom : packet.size ≤ target.room) :
    packet.dumpStrict target = .ok packet.dump := by
  unfold dumpStrict
  rw [Trace.messageStrict_eq_of hroom]
  rfl

/-- Decoding is safe for every packet that memory can hold, with checked sums or without. Read with
loops that may take only so many turns, from bytes that have to be there, names at any offset,
messages, queries and the dump come out as the total functions have them: no step breaks down. So do
payloads of any type, unless they end at an offset that is no word; and never is a byte taken from
outside or a loop endless. Names that are read are within their limits; a name that is read by itself
ends behind its start and within the packet. -/
theorem decoding_safe (target : Target) (packet : Packet) (hroom : packet.size ≤ target.room) :
    (∀ start,
      Name.readStrict target packet start = of (Name.read packet start) ∧
        ∀ name next, Name.read packet start = .ok (name, next) →
          name.WithinLimits ∧ start < next ∧ next ≤ packet.size) ∧
    (∀ type ttl pos length, Rdata.ReadSafely target type ttl packet pos length) ∧
    (Message.readStrict target packet = of (Message.read packet) ∧
      ∀ message, Message.read packet = .ok message → ∀ name ∈ message.names, name.WithinLimits) ∧
    (Message.readQueryStrict target packet = of (Message.readQuery packet) ∧
      ∀ query, Message.readQuery packet = .ok query → ∀ name ∈ query.names, name.WithinLimits) ∧
    packet.dumpStrict target = .ok packet.dump := by
  refine ⟨?names, Rdata.readSafely hroom, ?messages, ?queries, dumpStrict_eq_ok hroom⟩
  case names =>
    intro start
    refine ⟨Name.readStrict_eq_of hroom start, ?_⟩
    intro name next hread
    exact ⟨name.withinLimits, Name.bounds_of_read hread⟩
  case messages =>
    exact ⟨Message.readStrict_eq_of hroom, fun _ _ name _ => name.withinLimits⟩
  case queries =>
    exact ⟨Message.readQueryStrict_eq_of hroom, fun _ _ name _ => name.withinLimits⟩

/-- The name `a.` and a pointer back to it. -/
def samplePacket : Packet := #[1, 97, 0, 0xC0, 0]

/-- A program with a mebibyte of memory. -/
def sampleTarget (checked : Bool) : Target :=
  ⟨checked, 2 ^ 20, by decide⟩

/-- The largest offset. -/
def lastWord : UInt64 := 0xFFFFFFFFFFFFFFFF

/-- A name behind a pointer, and payloads whose end is no word: one byte at the largest offset, where
only checked sums stop the program, and a text that asks for all the memory that there could be. -/
theorem decoding_safe_samplePacket :
    (∃ name, Name.readStrict (sampleTarget true) samplePacket 3 = of (.ok (name, 5)) ∧
      name.WithinLimits ∧ 3 < 5 ∧ 5 ≤ samplePacket.size) ∧
    Rdata.readStrict (sampleTarget true) .ns 60 samplePacket lastWord.toNat (1 : UInt64).toNat =
      breakDown .overflow ∧
    (∃ e, Rdata.readStrict (sampleTarget false) .ns 60 samplePacket lastWord.toNat
      (1 : UInt64).toNat = of (.error e)) ∧
    Rdata.readStrict (sampleTarget false) .txt 60 samplePacket (1 : UInt64).toNat lastWord.toNat =
      breakDown (.exhausted lastWord.toNat) := by
  have hroom : ∀ checked, samplePacket.size ≤ (sampleTarget checked).room := by decide
  rcases decoding_safe (sampleTarget true) samplePacket (hroom true) with ⟨hnames, hchecked, -⟩
  rcases decoding_safe (sampleTarget false) samplePacket (hroom false) with ⟨-, hwrapped, -⟩
  refine ⟨?name, (hchecked .ns 60 lastWord 1).checked (by decide) rfl,
    (hwrapped .ns 60 lastWord 1).wrapped (by decide) rfl ?nothing,
    (hwrapped .txt 60 1 lastWord).exhausted (by decide) rfl ?everything⟩
  case name =>
    rcases hnames 3 with ⟨hstrict, hlimits⟩
    have hpointer : samplePacket.HoldsAt 3 (Name.pointerWire 0) := by
      unfold HoldsAt
      decide
    have hspelled : Name.Spelled samplePacket 3 [⟨"a", by decide, by decide, by decide⟩] 1 (3 + 2) :=
      Name.Spelled.jump hpointer (by decide) (by decide)
        (Name.Spelled.label (by unfold HoldsAt; decide) (Name.Spelled.stop rfl))
    have hread := Name.read_of_spelled hspelled (by decide)
    rw [if_pos (by decide)] at hread
    exact ⟨_, hstrict.trans (congrArg of hread), hlimits _ _ hread⟩
  case nothing =>
    rintro ⟨htext, -⟩
    exact absurd htext (by decide)
  case everything => exact ⟨by decide, by decide, by decide⟩

end Packet

end NameServer
