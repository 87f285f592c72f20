import NameServer.Message.Basic
import NameServer.Message.Dump
import NameServer.Proofs.Name.Spelling
import NameServer.Proofs.Outcome

/-!
# Proofs.Message.DumpWalk — the dump walks over the fields that a reader reads

The dump does not follow pointers, does not read an SOA, and behind each payload it goes on where
the record says that the payload ends. In a packet that is read it still comes to the same offsets.

* `Local start x pos` — the step `x` ends within the packet, and bytes behind its end do not matter;
* `Trace.message_local` — showing a packet is such a step, since it is so field by field;
* `Trace.Reaches x pos` — the step `x` shows all its fields and ends at `pos`;
* `Trace.message_reaches` — in a packet that is read, the dump ends where the reader does.
-/

namespace NameServer

/-! ## Local steps -/

section Local

variable {ε α β : Type} {start : Nat} {x : Packet → Except ε α} {pos : α → Nat} {pos' : β → Nat}

/-- A step that begins at `start` ends within the packet where it succeeds, and it does not change
when the packet grows at its end. -/
def Local (start : Nat) (x : Packet → Except ε α) (pos : α → Nat) : Prop :=
  ∀ ⦃packet a⦄, start ≤ packet.size → x packet = .ok a →
    pos a ≤ packet.size ∧ ∀ more, x (packet ++ more) = .ok a

theorem Local.ok {a : α} (h : pos a = start) : Local start (fun _ => (.ok a : Except ε α)) pos := by
  intro packet b hstart hb
  cases hb
  exact ⟨h ▸ hstart, fun _ => rfl⟩

theorem Local.bind {f : α → Packet → Except ε β} (hx : Local start x pos)
    (hf : ∀ a, Local (pos a) (f a) pos') :
    Local start (fun packet => x packet >>= fun a => f a packet) pos' := by
  intro packet b hstart hb
  rcases exists_of_bind hb with ⟨a, ha, hfa⟩
  rcases hx hstart ha with ⟨hpos, hkept⟩
  rcases hf a hpos hfa with ⟨hpos', hkept'⟩
  refine ⟨hpos', fun more => ?_⟩
  dsimp only
  rw [hkept more, ok_bind, hkept' more]

end Local

namespace Trace

variable {packet : Packet} {trace : Trace}

@[simp] theorem say_pos (trace : Trace) (line : String) : (trace.say line).pos = trace.pos := rfl

@[simp] theorem skip_pos (trace : Trace) (count : Nat) :
    (trace.skip count).pos = trace.pos + count := rfl

/-! ## Fields -/

theorem word16_of_some {w : UInt16} (h : packet.word16? trace.pos = some w)
    (line : UInt16 → String) :
    word16 packet trace line = .ok (w, (trace.say s!"{trace.pos}: {line w}").skip 2) := by
  simp only [word16, h]

theorem word32_of_some {w : UInt32} (h : packet.word32? trace.pos = some w)
    (line : UInt32 → String) :
    word32 packet trace line = .ok ((trace.say s!"{trace.pos}: {line w}").skip 4) := by
  simp only [word32, h]

theorem word16_local (trace : Trace) (line : UInt16 → String) :
    Local trace.pos (fun packet => word16 packet trace line) fun out => out.2.pos := by
  intro packet out _ h
  cases hword : packet.word16? trace.pos with
  | none =>
      simp only [word16, hword] at h
      cases h
  | some w =>
      rcases Packet.word16?_append hword with ⟨hle, hkept⟩
      cases h.symm.trans (word16_of_some hword line)
      exact ⟨hle, fun more => word16_of_some (hkept more) line⟩

theorem word32_local (trace : Trace) (line : UInt32 → String) :
    Local trace.pos (fun packet => word32 packet trace line) Trace.pos := by
  intro packet out _ h
  cases hword : packet.word32? trace.pos with
  | none =>
      simp only [word32, hword] at h
      cases h
  | some w =>
      rcases Packet.word32?_append hword with ⟨hle, hkept⟩
      cases h.symm.trans (word32_of_some hword line)
      exact ⟨hle, fun more => word32_of_some (hkept more) line⟩

/-! ## Names -/

section Name

variable {byte low : UInt8} {bs : List UInt8}

theorem name_stop (h : packet[trace.pos]? = some byte) (hzero : byte.toNat = 0) :
    name packet trace = .ok ((trace.say s!"{trace.pos}: Null label").skip 1) := by
  rw [name]
  split
  · simp_all
  · rename_i other hother
    cases h.symm.trans hother
    rw [if_pos hzero]

theorem name_label (h : packet[trace.pos]? = some byte) (hzero : byte.toNat ≠ 0)
    (hsmall : byte.toNat < 0x40) (hslice : packet.slice? (trace.pos + 1) byte.toNat = some bs) :
    name packet trace = name packet
      ((trace.say s!"{trace.pos}: Label: {Text.lossy bs}").skip (1 + byte.toNat)) := by
  rw [name]
  split
  · simp_all
  · rename_i other hother
    cases h.symm.trans hother
    simp only [if_neg hzero, if_pos hsmall, hslice]

theorem name_pointer (h : packet[trace.pos]? = some byte) (hmark : 0xC0 ≤ byte.toNat)
    (hlow : packet[trace.pos + 1]? = some low) :
    name packet trace = .ok ((trace.say
      s!"{trace.pos}: Pointer ==> {(byte.toNat - 0xC0) * 0x100 + low.toNat}").skip 2) := by
  rw [name]
  split
  · simp_all
  · rename_i other hother
    cases h.symm.trans hother
    simp only [hlow]
    rw [if_neg (by omega), if_neg (by omega), if_pos hmark]

theorem name_unknown (h : packet[trace.pos]? = some byte) (hlarge : 0x40 ≤ byte.toNat)
    (hmark : byte.toNat < 0xC0) :
    name packet trace =
      .ok ((trace.say s!"{trace.pos}: Unknown label type: {byte.toNat / 0x40}").skip 1) := by
  rw [name]
  split
  · simp_all
  · rename_i other hother
    cases h.symm.trans hother
    rw [if_neg (by omega), if_neg (by omega), if_neg (by omega)]

end Name

theorem name_local (trace : Trace) :
    Local trace.pos (fun packet => name packet trace) Trace.pos := by
  intro packet out hstart h
  dsimp only at h ⊢
  -- The induction follows the labels; a pointer ends the name here and is not followed.
  fun_induction name packet trace with
  | case2 trace pos byte hbyte size hzero =>
      cases h
      have hlt := (Array.getElem?_eq_some_iff.1 hbyte).1
      exact ⟨hlt, fun more => name_stop (Packet.getElem?_append hbyte more) hzero⟩
  | case4 trace pos byte hbyte size hzero hsmall bs hslice hlt ih =>
      have hend := (Packet.holdsAt_of_slice? hslice).2.2
      rcases ih (by simp only [skip_pos, say_pos]; omega) h with ⟨hout, hkept⟩
      refine ⟨hout, fun more => ?_⟩
      rw [name_label (Packet.getElem?_append hbyte more) hzero hsmall
        (Packet.slice?_append hslice more)]
      exact hkept more
  | case6 trace pos byte hbyte size hzero hlarge hmark low hlow =>
      cases h
      have hlt := (Array.getElem?_eq_some_iff.1 hlow).1
      exact ⟨hlt, fun more => name_pointer (Packet.getElem?_append hbyte more) hmark
        (Packet.getElem?_append hlow more)⟩
  | case7 trace pos byte hbyte size hzero hlarge hmark =>
      cases h
      have hlt := (Array.getElem?_eq_some_iff.1 hbyte).1
      exact ⟨hlt, fun more => name_unknown (Packet.getElem?_append hbyte more)
        (Nat.le_of_not_lt hlarge) (Nat.lt_of_not_le hmark)⟩
  | _ => cases h

/-! ## Payloads -/

section Strings

variable {size : UInt8} {bs : List UInt8} {limit : Nat}

theorem strings_done (h : limit ≤ trace.pos) : strings packet limit trace = .ok trace := by
  rw [strings]
  exact dif_neg (Nat.not_lt.2 h)

theorem strings_next (hlt : trace.pos < limit) (h : packet[trace.pos]? = some size)
    (hslice : packet.slice? (trace.pos + 1) size.toNat = some bs) :
    strings packet limit trace = strings packet limit
      ((trace.say s!"{trace.pos}: TEXT: \"{Text.lossy bs}\"").skip (1 + size.toNat)) := by
  rw [strings]
  simp only [dif_pos hlt, h, hslice]

end Strings

theorem strings_local (limit : Nat) (trace : Trace) :
    Local trace.pos (fun packet => strings packet limit trace) Trace.pos := by
  intro packet out hstart h
  dsimp only at h ⊢
  fun_induction strings packet limit trace with
  | case3 trace pos hlt size hsize bs hslice ih =>
      have hend := (Packet.holdsAt_of_slice? hslice).2.2
      rcases ih (by simp only [skip_pos, say_pos]; omega) h with ⟨hout, hkept⟩
      refine ⟨hout, fun more => ?_⟩
      rw [strings_next hlt (Packet.getElem?_append hsize more) (Packet.slice?_append hslice more)]
      exact hkept more
  | case4 trace pos hdone =>
      cases h
      exact ⟨hstart, fun _ => strings_done (Nat.le_of_not_lt hdone)⟩
  | _ => cases h

/-- The bytes of the payload are in the packet, and what is shown of them depends on no others but
those that its fields take. -/
theorem payload_local (type : RecordType) (length : Nat) (trace : Trace) {packet : Packet}
    {out : Trace} (hlength : trace.pos + length ≤ packet.size)
    (h : payload packet type length trace = .ok out) (more : Packet) :
    payload (packet ++ more) type length trace = .ok out := by
  have hstart : trace.pos ≤ packet.size := Nat.le_of_add_right_le hlength
  unfold payload at h ⊢
  cases hkind : type.kind? with
  | none =>
      rw [hkind] at h
      exact h
  | some kind =>
      rw [hkind] at h
      cases kind with
      | a =>
          have hslice : ∃ bs, packet.slice? trace.pos length = some bs :=
            ⟨_, if_pos hlength⟩
          rcases hslice with ⟨bs, hslice⟩
          simp only [hslice] at h
          simp only [Packet.slice?_append hslice more]
          exact h
      | ns | cname => exact (name_local trace hstart h).2 more
      | mx =>
          have hboth := (word16_local trace fun preference => s!"PREFERENCE: {preference}").bind
            fun out => name_local out.2
          exact (hboth hstart h).2 more
      | soa => exact h
      | txt => exact (strings_local (trace.pos + length) trace hstart h).2 more

/-! ## Sections -/

theorem question_local (trace : Trace) :
    Local trace.pos (fun packet => question packet trace) Trace.pos := by
  refine (name_local trace).bind fun trace => ?_
  refine (word16_local trace _).bind fun out => ?_
  refine (word16_local out.2 _).bind fun out => ?_
  exact Local.ok rfl

theorem record_local (trace : Trace) :
    Local trace.pos (fun packet => record packet trace) Trace.pos := by
  refine (name_local (trace.say "ResourceRecord:")).bind fun trace => ?_
  refine (word16_local trace _).bind fun out => ?_
  refine (word16_local out.2 _).bind fun cls => ?_
  refine (word32_local cls.2 _).bind fun trace => ?_
  refine (word16_local trace _).bind fun length => ?_
  -- Whatever its fields take, the payload counts as far as it is declared.
  intro packet last _ h
  dsimp only at h ⊢
  by_cases hend : packet.size < length.2.pos + length.1.toNat
  · rw [if_pos hend] at h
    cases h
  · rw [if_neg hend] at h
    rcases exists_of_bind h with ⟨shown, hshown, hlast⟩
    cases hlast
    refine ⟨Nat.le_of_not_lt hend, fun more => ?_⟩
    rw [if_neg (by rw [Array.size_append]; omega),
      payload_local _ _ _ (Nat.le_of_not_lt hend) hshown more]
    rfl

theorem times_local {step : Packet → Trace → Showing}
    (h : ∀ trace, Local trace.pos (fun packet => step packet trace) Trace.pos) (count : Nat)
    (trace : Trace) :
    Local trace.pos (fun packet => times (step packet) count trace) Trace.pos := by
  induction count generalizing trace with
  | zero => exact Local.ok rfl
  | succ count ih => exact (h trace).bind ih

theorem records_local (title empty : String) (count : UInt16) (trace : Trace) :
    Local trace.pos (fun packet => records packet title empty count trace) Trace.pos := by
  unfold records
  split
  · exact times_local record_local count.toNat ((trace.say title).say empty)
  · exact times_local record_local count.toNat (trace.say title)

theorem message_local : Local 0 message Trace.pos := by
  refine (word16_local (say ⟨0, []⟩ "HEADER:") _).bind fun id => ?_
  refine (word16_local id.2 _).bind fun flags => ?_
  refine (word16_local flags.2 _).bind fun questions => ?_
  refine (word16_local questions.2 _).bind fun answers => ?_
  refine (word16_local answers.2 _).bind fun authorities => ?_
  refine (word16_local authorities.2 _).bind fun additionals => ?_
  dsimp only
  have hpos : (if questions.1 = 1 then additionals.2
      else additionals.2.say "Error: QDCOUNT must be 1").pos = additionals.2.pos := by
    split <;> rfl
  rw [← hpos]
  generalize (if questions.1 = 1 then additionals.2 else _) = trace
  refine (times_local question_local _ (trace.say "QUESTION SECTION:")).bind fun trace => ?_
  refine (records_local _ _ answers.1 trace).bind fun trace => ?_
  refine (records_local _ _ authorities.1 trace).bind fun trace => ?_
  exact records_local _ _ additionals.1 trace

/-! ## Packets that are read -/

/-- The step shows all its fields and ends at `pos`. -/
def Reaches (x : Showing) (pos : Nat) : Prop :=
  ∃ trace, x = .ok trace ∧ trace.pos = pos

section Reaches

variable {pos mid next : Nat} {x : Showing}

theorem reaches_ok (h : trace.pos = pos) : Reaches (.ok trace) pos :=
  ⟨trace, rfl, h⟩

theorem Reaches.bind {f : Trace → Showing} (hx : Reaches x mid)
    (hf : ∀ trace : Trace, trace.pos = mid → Reaches (f trace) pos) : Reaches (x >>= f) pos := by
  rcases hx with ⟨trace, rfl, hpos⟩
  exact hf trace hpos

theorem reaches_word16 {w : UInt16} {line : UInt16 → String} {f : UInt16 × Trace → Showing}
    (h : packet.field16 trace.pos = .ok w)
    (hf : Reaches (f (w, (trace.say s!"{trace.pos}: {line w}").skip 2)) pos) :
    Reaches (word16 packet trace line >>= f) pos := by
  rw [word16_of_some (Packet.word16?_of_field h), ok_bind]
  exact hf

theorem reaches_word32 {w : UInt32} {line : UInt32 → String} {f : Trace → Showing}
    (h : packet.field32 trace.pos = .ok w)
    (hf : Reaches (f ((trace.say s!"{trace.pos}: {line w}").skip 4)) pos) :
    Reaches (word32 packet trace line >>= f) pos := by
  rw [word32_of_some (Packet.word32?_of_field h), ok_bind]
  exact hf

/-- A spelled name is shown up to the end of its own bytes. -/
theorem reaches_name {labels : List Label} {hops : Nat}
    (h : Name.Spelled packet pos labels hops next) (hpos : trace.pos = pos) :
    Reaches (name packet trace) next := by
  induction h generalizing trace with
  | stop hstop =>
      subst hpos
      exact ⟨_, name_stop hstop rfl, rfl⟩
  | @label pos hops next label labels hlabel _ ih =>
      subst hpos
      have hbyte : packet[trace.pos]? = some (UInt8.ofNat label.size) := hlabel.getElem?
      have hlt : trace.pos < packet.size := (Array.getElem?_eq_some_iff.1 hbyte).1
      have hslice : packet.slice? (trace.pos + 1) label.size = some label.bytes := by
        rw [← label.length_bytes]
        exact hlabel.tail.slice? hlt
      have hbound : 0 < label.size ∧ label.size ≤ maxLabelSize := ⟨label.size_pos, label.size_le⟩
      unfold maxLabelSize at hbound
      rw [name_label hbyte (by rw [Label.toNat_size]; omega) (by rw [Label.toNat_size]; omega)
        (by rw [Label.toNat_size]; exact hslice)]
      refine ih ?_
      simp only [skip_pos, say_pos, Label.toNat_size]
      omega
  | @jump pos target hops next labels hpointer hle _ _ _ =>
      subst hpos
      have hbyte : packet[trace.pos]? = some (UInt8.ofNat (0xC0 + target / 0x100)) :=
        hpointer.getElem?
      have hmark : 0xC0 ≤ (UInt8.ofNat (0xC0 + target / 0x100)).toNat := by
        unfold maxPointer at hle
        simp only [UInt8.toNat_ofNat']
        omega
      exact ⟨_, name_pointer hbyte hmark hpointer.tail.getElem?, rfl⟩

theorem reaches_read {n : Name} (h : Name.read packet pos = .ok (n, next))
    (hpos : trace.pos = pos) : Reaches (name packet trace) next := by
  rcases (Name.read_eq_ok_iff.1 h).2 with ⟨hops, -, hspelled⟩
  exact reaches_name hspelled hpos

theorem exists_strings {limit : Nat} {out : List UInt8 × Nat}
    (h : Rdata.readStrings packet limit pos = .ok out) (hpos : trace.pos = pos) :
    ∃ shown, strings packet limit trace = .ok shown := by
  fun_induction Rdata.readStrings packet limit pos generalizing trace out with
  | case3 pos hlt size hsize bs hslice ih =>
      subst hpos
      rcases exists_of_bind h with ⟨rest, hrest, -⟩
      rw [strings_next hlt hsize hslice]
      exact ih hrest (by simp only [skip_pos, say_pos]; omega)
  | case4 pos hdone =>
      subst hpos
      exact ⟨trace, strings_done (Nat.le_of_not_lt hdone)⟩
  | _ => cases h

/-- The fields of a payload that is read are all shown. -/
theorem exists_payload {kind : RecordKind} {type : RecordType} {ttl : UInt32} {length limit : Nat}
    {out : Rdata Name × Nat} (hkind : type.kind? = some kind)
    (h : Rdata.readKind kind ttl packet trace.pos limit = .ok out)
    (hlimit : limit = trace.pos + length) :
    ∃ shown, payload packet type length trace = .ok shown := by
  subst hlimit
  unfold payload
  rw [hkind]
  cases kind with
  | a =>
      dsimp only
      split <;> exact ⟨_, rfl⟩
  | soa => exact ⟨_, rfl⟩
  | ns | cname =>
      rcases exists_of_bind h with ⟨⟨n, last⟩, hname, -⟩
      rcases reaches_read hname rfl with ⟨shown, hshown, -⟩
      exact ⟨shown, hshown⟩
  | mx =>
      rcases exists_of_bind h with ⟨preference, hpreference, h⟩
      rcases exists_of_bind h with ⟨⟨n, last⟩, hname, -⟩
      have hreaches : Reaches (word16 packet trace (fun preference => s!"PREFERENCE: {preference}")
          >>= fun out => name packet out.2) last :=
        reaches_word16 hpreference (reaches_read hname rfl)
      rcases hreaches with ⟨shown, hshown, -⟩
      exact ⟨shown, hshown⟩
  | txt =>
      rcases exists_of_bind h with ⟨strings, hstrings, -⟩
      exact exists_strings hstrings rfl

theorem reaches_payload {type : RecordType} {ttl : UInt32} {length : Nat} {rdata : Rdata Name}
    (h : Rdata.read type ttl packet pos length = .ok rdata) (hpos : trace.pos = pos) :
    Reaches (if packet.size < trace.pos + length then .error trace
      else do
        let shown ← payload packet type length trace
        return { shown with pos := trace.pos + length }) (pos + length) := by
  subst hpos
  unfold Rdata.read at h
  by_cases hend : packet.size < trace.pos + length
  · rw [if_pos hend] at h
    cases h
  · rw [if_neg hend] at h ⊢
    cases hkind : type.kind? with
    | none =>
        simp only [hkind] at h
        cases h
    | some kind =>
        simp only [hkind] at h
        rcases exists_of_bind h with ⟨out, hread, -⟩
        rcases exists_payload hkind hread rfl with ⟨shown, hshown⟩
        rw [hshown, ok_bind]
        exact reaches_ok rfl

theorem reaches_question {q : Question} (h : Question.read packet pos = .ok (q, next))
    (hpos : trace.pos = pos) : Reaches (question packet trace) next := by
  rcases exists_of_bind h with ⟨⟨n, mid⟩, hname, h⟩
  rcases exists_of_bind h with ⟨type, htype, h⟩
  rcases exists_of_bind h with ⟨cls, hcls, h⟩
  split at h
  · cases h
  · cases h
    refine (reaches_read hname hpos).bind fun shown hshown => ?_
    subst hshown
    refine reaches_word16 htype ?_
    refine reaches_word16 hcls ?_
    exact reaches_ok rfl

theorem reaches_record {r : Record} (h : Record.read packet pos = .ok (r, next))
    (hpos : trace.pos = pos) : Reaches (record packet trace) next := by
  rcases exists_of_bind h with ⟨⟨n, mid⟩, hname, h⟩
  rcases exists_of_bind h with ⟨type, htype, h⟩
  rcases exists_of_bind h with ⟨cls, hcls, h⟩
  split at h
  · cases h
  · rcases exists_of_bind h with ⟨ttl, httl, h⟩
    rcases exists_of_bind h with ⟨length, hlength, h⟩
    rcases exists_of_bind h with ⟨rdata, hrdata, h⟩
    cases h
    have howner : Reaches (name packet (trace.say "ResourceRecord:")) mid :=
      reaches_read hname hpos
    refine howner.bind fun shown hshown => ?_
    subst hshown
    refine reaches_word16 htype ?_
    refine reaches_word16 hcls ?_
    refine reaches_word32 httl ?_
    refine reaches_word16 hlength ?_
    exact reaches_payload hrdata rfl

theorem reaches_times {rs : List Record} {count : Nat}
    (h : Record.readMany packet count pos = .ok (rs, next)) (hpos : trace.pos = pos) :
    Reaches (times (record packet) count trace) next := by
  induction count generalizing trace pos rs with
  | zero =>
      cases h
      exact reaches_ok hpos
  | succ count ih =>
      rcases exists_of_bind h with ⟨⟨r, mid⟩, hread, h⟩
      rcases exists_of_bind h with ⟨⟨rest, last⟩, hrest, h⟩
      cases h
      exact (reaches_record hread hpos).bind fun shown hshown => ih hrest hshown

theorem reaches_records {rs : List Record} {count : UInt16} (title empty : String)
    (h : Record.readMany packet count.toNat pos = .ok (rs, next)) (hpos : trace.pos = pos) :
    Reaches (records packet title empty count trace) next := by
  unfold records
  split
  · exact reaches_times h hpos
  · exact reaches_times h hpos

/-- In a packet that is read, everything is shown up to the end of the last record. -/
theorem message_reaches {m : Message} {ends : Nat} (h : Message.readTo packet = .ok (m, ends)) :
    Reaches (message packet) ends := by
  rcases exists_of_bind h with ⟨⟨header, counts⟩, hheader, h⟩
  rcases exists_of_bind h with ⟨⟨q, pos⟩, hquestion, h⟩
  rcases exists_of_bind h with ⟨⟨answer, pos₁⟩, hanswer, h⟩
  rcases exists_of_bind h with ⟨⟨authority, pos₂⟩, hauthority, h⟩
  rcases exists_of_bind h with ⟨⟨additional, pos₃⟩, hadditional, h⟩
  cases h
  unfold Header.read at hheader
  split at hheader
  · cases hheader
  · rcases exists_of_bind hheader with ⟨id, hid, hheader⟩
    rcases exists_of_bind hheader with ⟨flags, hflags, hheader⟩
    rcases exists_of_bind hheader with ⟨questions, hquestions, hheader⟩
    rcases exists_of_bind hheader with ⟨answers, hanswers, hheader⟩
    rcases exists_of_bind hheader with ⟨authorities, hauthorities, hheader⟩
    rcases exists_of_bind hheader with ⟨additionals, hadditionals, hheader⟩
    split at hheader
    · cases hheader
    · rename_i hone
      rcases exists_of_bind hheader with ⟨_, _, hcounts⟩
      cases hcounts
      obtain rfl : questions = 1 := by simpa using hone
      unfold message
      refine reaches_word16 hid ?_
      refine reaches_word16 hflags ?_
      refine reaches_word16 hquestions ?_
      refine reaches_word16 hanswers ?_
      refine reaches_word16 hauthorities ?_
      refine reaches_word16 hadditionals ?_
      refine Reaches.bind ((reaches_question hquestion rfl).bind (f := .ok)
        fun _ hpos => reaches_ok hpos) fun _ hpos => ?_
      refine (reaches_records _ _ hanswer hpos).bind fun _ hpos => ?_
      refine (reaches_records _ _ hauthority hpos).bind fun _ hpos => ?_
      exact reaches_records _ _ hadditional hpos

end Reaches

end Trace

end NameServer
