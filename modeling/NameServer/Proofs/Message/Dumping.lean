import NameServer.Proofs.Message.DumpWalk
import NameServer.Proofs.Message.RoundTrip

/-!
# Proofs.Message.Dumping — what the last line of a dump says

A dump closes with a line that says that the packet is cut off, or with one that counts the bytes
behind the last record, or with neither. The words of a closing line do not end any other line that
may come last, whatever bytes of the packet it shows.

* `EndsWithLine text line` — the text ends with the line;
* `Quiet line` — the line does not end as a closing line does;
* `Trace.message_quiet` — before it is closed, a whole dump ends with such a line;
* `Packet.Dumps` and `Packet.dump_agrees` — the dump of a packet that is read closes as the reader
  found it, and that of any shorter beginning says that it is cut off.
-/

namespace NameServer

/-! ## Last lines -/

/-- The text consists of lines, of which this is the last one. -/
def EndsWithLine (text line : String) : Prop :=
  ∃ front : List String, text = String.join ((front ++ [line]).map fun line => line ++ "\n")

/-- The last two characters, the last one first. -/
def lastTwo (line : String) : List Char :=
  line.toList.reverse.take 2

/-- The line that says that a packet ends too early. -/
def truncatedLine (pos size : Nat) : String :=
  s!"TRUNCATED: packet ends at offset {pos} ({size} bytes)"

/-- The line that counts the bytes behind the last record. -/
def trailingLine (pos count : Nat) : String :=
  s!"{pos}: {count} trailing bytes not decoded"

/-- The line does not end like one that closes a dump. -/
def Quiet (line : String) : Prop :=
  (lastTwo line).length = 2 ∧ lastTwo line ≠ [')', 's'] ∧ lastTwo line ≠ ['d', 'e']

instance (line : String) : Decidable (Quiet line) :=
  inferInstanceAs (Decidable (_ ∧ _ ∧ _))

section Lines

variable {text line other : String}

theorem lastTwo_append (front line : String) (h : (lastTwo line).length = 2) :
    lastTwo (front ++ line) = lastTwo line := by
  have hlength : 2 ≤ line.toList.reverse.length := by
    unfold lastTwo at h
    rw [List.length_take] at h
    omega
  unfold lastTwo
  rw [String.toList_append, List.reverse_append, List.take_append_of_le_length hlength]

theorem lastTwo_truncatedLine (pos size : Nat) : lastTwo (truncatedLine pos size) = [')', 's'] :=
  lastTwo_append _ " bytes)" (by decide)

theorem lastTwo_trailingLine (pos count : Nat) : lastTwo (trailingLine pos count) = ['d', 'e'] :=
  lastTwo_append _ " trailing bytes not decoded" (by decide)

/-- Lines that end the same text end with the same characters. -/
theorem EndsWithLine.lastTwo_eq (h : EndsWithLine text line) (h' : EndsWithLine text other)
    (hline : (lastTwo line).length = 2) (hother : (lastTwo other).length = 2) :
    lastTwo line = lastTwo other := by
  have hends : ∀ {last : String}, EndsWithLine text last → (lastTwo last).length = 2 →
      text.toList.reverse.tail.take 2 = lastTwo last := by
    rintro last ⟨front, rfl⟩ hlast
    rw [← lastTwo_append (String.join (front.map fun line => line ++ "\n")) last hlast]
    simp [lastTwo, String.toList_append]
  exact (hends h hline).symm.trans (hends h' hother)

theorem Quiet.append (h : Quiet line) (front : String) : Quiet (front ++ line) := by
  unfold Quiet
  rw [lastTwo_append front line h.1]
  exact h

theorem quiet_of_last {front : List Char} {c : Char} (h : line.toList = front ++ [c])
    (hne : front ≠ []) (hparen : c ≠ ')') (hletter : c ≠ 'd') : Quiet line := by
  have htwo : lastTwo line = c :: front.reverse.take 1 := by
    unfold lastTwo
    rw [h, List.reverse_concat, List.take_succ_cons]
  have hlength : 0 < front.length := List.length_pos_iff.2 hne
  refine ⟨?_, ?_, ?_⟩
  · rw [htwo, List.length_cons, List.length_take, List.length_reverse]
    omega
  · rw [htwo]
    exact fun heq => hparen (List.cons.inj heq).1
  · rw [htwo]
    exact fun heq => hletter (List.cons.inj heq).1

/-- A line may end with a number if there is something in front of it. -/
theorem quiet_number (front line : String) (h : line.toList ≠ []) (n : Nat) :
    Quiet (front ++ line ++ toString n) := by
  rcases List.eq_nil_or_concat (Nat.toDigits 10 n) with hnil | ⟨digits, c, hdigits⟩
  · exact absurd hnil Nat.toDigits_ne_nil
  · have hmem : c ∈ Nat.toDigits 10 n := by
      rw [hdigits]
      simp
    have hdigit : c.isDigit = true :=
      Nat.isDigit_of_mem_toDigits (Nat.succ_pos 9) (Nat.le_refl 10) hmem
    have htext : (front ++ line ++ toString n).toList =
        (front.toList ++ line.toList ++ digits) ++ [c] := by
      change (front ++ line ++ n.repr).toList = _
      simp [String.toList_append, Nat.toList_repr, hdigits]
    refine quiet_of_last htext ?_ ?_ ?_
    · simp [h]
    · rintro rfl
      cases hdigit
    · rintro rfl
      cases hdigit

theorem quiet_quoted (front line : String) (h : line.toList ≠ []) (text : String) :
    Quiet (front ++ line ++ text ++ "\"") := by
  have htext : (front ++ line ++ text ++ "\"").toList = (front ++ line ++ text).toList ++ ['"'] :=
    String.toList_append
  refine quiet_of_last htext ?_ (by decide) (by decide)
  simp [String.toList_append, h]

end Lines

/-! ## Traces -/

namespace Trace

variable {packet : Packet} {trace out : Trace}

/-- The line that came last is quiet. -/
def IsQuiet (trace : Trace) : Prop :=
  ∃ line rest, trace.lines = line :: rest ∧ Quiet line

theorem isQuiet_say {line : String} (h : Quiet line) (count : Nat) :
    ((trace.say line).skip count).IsQuiet :=
  ⟨line, trace.lines, rfl, h⟩

/-- A name ends with a line for its end or for a pointer. -/
theorem name_quiet (h : name packet trace = .ok out) : out.IsQuiet := by
  fun_induction name packet trace with
  | case2 trace pos =>
      cases h
      exact isQuiet_say ((show Quiet ": Null label" by decide).append _) 1
  | case4 trace pos byte hbyte size hzero hsmall bs hslice hlt ih => exact ih h
  | case6 trace pos =>
      cases h
      exact isQuiet_say (quiet_number _ ": Pointer ==> " (by decide) _) 2
  | case7 trace pos =>
      cases h
      exact isQuiet_say (quiet_number _ ": Unknown label type: " (by decide) _) 1
  | _ => cases h

/-- A string that is shown ends with a quotation mark. -/
theorem strings_quiet {limit : Nat} (hquiet : trace.IsQuiet)
    (h : strings packet limit trace = .ok out) : out.IsQuiet := by
  fun_induction strings packet limit trace with
  | case3 trace pos hlt size hsize bs hslice ih =>
      exact ih (isQuiet_say (quiet_quoted _ ": TEXT: \"" (by decide) _) _) h
  | case4 trace pos =>
      cases h
      exact hquiet
  | _ => cases h

theorem payload_quiet {type : RecordType} {length : Nat} (hquiet : trace.IsQuiet)
    (h : payload packet type length trace = .ok out) : out.IsQuiet := by
  have hcount : Quiet s!"{trace.pos}: ({length} bytes not decoded)" :=
    (show Quiet " bytes not decoded)" by decide).append _
  unfold payload at h
  cases hkind : type.kind? with
  | none =>
      rw [hkind] at h
      cases h
      exact isQuiet_say hcount 0
  | some kind =>
      rw [hkind] at h
      cases kind with
      | a =>
          dsimp only at h
          split at h
          · rename_i a b c d _
            cases h
            exact isQuiet_say (quiet_number _ "." (by decide) d.toNat) 0
          · cases h
            exact isQuiet_say hcount 0
      | soa =>
          cases h
          exact isQuiet_say hcount 0
      | ns | cname => exact name_quiet h
      | mx =>
          rcases exists_of_bind h with ⟨_, -, hname⟩
          exact name_quiet hname
      | txt => exact strings_quiet hquiet h

/-- An empty payload shows nothing, but then the line of its length came last. -/
theorem record_quiet (h : record packet trace = .ok out) : out.IsQuiet := by
  rcases exists_of_bind h with ⟨trace, -, h⟩
  rcases exists_of_bind h with ⟨type, -, h⟩
  rcases exists_of_bind h with ⟨cls, -, h⟩
  rcases exists_of_bind h with ⟨ttl, -, h⟩
  rcases exists_of_bind h with ⟨⟨length, sized⟩, hlength, h⟩
  have hsized : sized.IsQuiet := by
    unfold word16 at hlength
    split at hlength
    · cases hlength
      exact isQuiet_say ((quiet_number "" "RDLENGTH: " (by decide) _).append _) 2
    · cases hlength
  dsimp only at h
  split at h
  · cases h
  · rcases exists_of_bind h with ⟨shown, hshown, hout⟩
    rcases payload_quiet hsized hshown with ⟨line, rest, hlines, hline⟩
    cases hout
    exact ⟨line, rest, hlines, hline⟩

theorem times_quiet {count : Nat} (hquiet : count = 0 → trace.IsQuiet)
    (h : times (record packet) count trace = .ok out) : out.IsQuiet := by
  induction count generalizing trace with
  | zero =>
      cases h
      exact hquiet rfl
  | succ count ih =>
      rcases exists_of_bind h with ⟨next, hnext, h⟩
      exact ih (fun _ => record_quiet hnext) h

theorem records_quiet {title empty : String} {count : UInt16} (hempty : Quiet empty)
    (h : records packet title empty count trace = .ok out) : out.IsQuiet := by
  unfold records at h
  refine times_quiet (fun hzero => ?_) h
  rw [if_pos (UInt16.toNat_inj.1 hzero)]
  exact isQuiet_say hempty 0

/-- The last section ends with its last record, or with the line that says that it has none. -/
theorem message_quiet (h : message packet = .ok out) : out.IsQuiet := by
  rcases exists_of_bind h with ⟨id, -, h⟩
  rcases exists_of_bind h with ⟨flags, -, h⟩
  rcases exists_of_bind h with ⟨questions, -, h⟩
  rcases exists_of_bind h with ⟨answers, -, h⟩
  rcases exists_of_bind h with ⟨authorities, -, h⟩
  rcases exists_of_bind h with ⟨additionals, -, h⟩
  rcases exists_of_bind h with ⟨asked, -, h⟩
  rcases exists_of_bind h with ⟨answered, -, h⟩
  rcases exists_of_bind h with ⟨referred, -, h⟩
  exact records_quiet (by decide) h

end Trace

/-! ## Dumps -/

namespace Packet

variable {packet : Packet} {trace : Trace} {ends : Nat}

theorem dump_of_error (h : Trace.message packet = .error trace) :
    EndsWithLine packet.dump (truncatedLine trace.pos packet.size) := by
  refine ⟨trace.lines.reverse, ?_⟩
  unfold dump dumpLines
  rw [h, ← List.reverse_cons]
  rfl

theorem dump_of_trailing (h : Trace.message packet = .ok trace) (hless : trace.pos < packet.size) :
    EndsWithLine packet.dump (trailingLine trace.pos (packet.size - trace.pos)) := by
  refine ⟨trace.lines.reverse, ?_⟩
  unfold dump dumpLines
  rw [h, ← List.reverse_cons]
  dsimp only
  rw [if_pos hless]
  rfl

theorem dump_of_whole (h : Trace.message packet = .ok trace) (hall : packet.size ≤ trace.pos) :
    ∃ line, Quiet line ∧ EndsWithLine packet.dump line := by
  rcases Trace.message_quiet h with ⟨line, rest, hlines, hline⟩
  refine ⟨line, hline, rest.reverse, ?_⟩
  unfold dump dumpLines
  rw [h, ← List.reverse_cons, ← hlines]
  dsimp only
  rw [if_neg (Nat.not_lt.2 hall)]

/-- How the dump of a packet closes in which the last record ends at `ends`. -/
structure Dumps (packet : Packet) (ends : Nat) : Prop where
  within : ends ≤ packet.size
  whole : ∀ pos size, ¬EndsWithLine packet.dump (truncatedLine pos size)
  trailing : ends < packet.size →
    EndsWithLine packet.dump (trailingLine ends (packet.size - ends))
  nothing : ∀ pos count, EndsWithLine packet.dump (trailingLine pos count) → ends < packet.size
  /-- The beginnings that do not reach the end of the last record are said to be cut off. -/
  cut : ∀ size < ends,
    ∃ pos, EndsWithLine (dump (packet.extract 0 size)) (truncatedLine pos size)

theorem dumps_of_reaches (h : Trace.Reaches (Trace.message packet) ends) :
    packet.Dumps ends := by
  rcases h with ⟨trace, htrace, rfl⟩
  have hwithin : trace.pos ≤ packet.size := (Trace.message_local (Nat.zero_le _) htrace).1
  -- Either the bytes behind are counted, or the dump is not closed and its last line is quiet.
  have hlast : ∃ line, EndsWithLine packet.dump line ∧ (lastTwo line).length = 2 ∧
      lastTwo line ≠ [')', 's'] ∧ (lastTwo line = ['d', 'e'] → trace.pos < packet.size) := by
    by_cases hless : trace.pos < packet.size
    · refine ⟨_, dump_of_trailing htrace hless, ?_⟩
      rw [lastTwo_trailingLine]
      exact ⟨rfl, by decide, fun _ => hless⟩
    · rcases dump_of_whole htrace (Nat.le_of_not_lt hless) with ⟨line, hquiet, hline⟩
      exact ⟨line, hline, hquiet.1, hquiet.2.1, fun hend => absurd hend hquiet.2.2⟩
  rcases hlast with ⟨line, hline, htwo, htruncated, htrailing⟩
  refine ⟨hwithin, fun pos size hends => ?_, dump_of_trailing htrace, fun pos count hends => ?_,
    fun size hsize => ?_⟩
  · have hsame := hline.lastTwo_eq hends htwo (by rw [lastTwo_truncatedLine]; rfl)
    exact htruncated (hsame.trans (lastTwo_truncatedLine pos size))
  · have hsame := hline.lastTwo_eq hends htwo (by rw [lastTwo_trailingLine]; rfl)
    exact htrailing (hsame.trans (lastTwo_trailingLine pos count))
  · have hparts : packet.extract 0 size ++ packet.extract size packet.size = packet := by
      rw [Array.extract_append_extract, Nat.zero_min, Nat.max_eq_right (by omega),
        Array.extract_size]
    cases hcut : Trace.message (packet.extract 0 size) with
    | ok shown =>
        -- The whole packet would then be shown no further than its beginning.
        rcases Trace.message_local (Nat.zero_le _) hcut with ⟨hle, hkept⟩
        have hsame := hkept (packet.extract size packet.size)
        rw [hparts, htrace] at hsame
        cases hsame
        rw [Array.size_extract] at hle
        omega
    | error shown =>
        have hends := dump_of_error hcut
        rw [Array.size_extract, Nat.sub_zero, Nat.min_eq_left (by omega)] at hends
        exact ⟨shown.pos, hends⟩

/-- The dump agrees with the reader: for a packet that is read it shows everything up to the end of
the last record, and counts what is behind; for any part of the packet that ends before that it says
that the packet is cut off. -/
theorem dump_agrees {message : Message} (h : Message.read packet = .ok message) :
    ∃ ends, Message.readTo packet = .ok (message, ends) ∧ packet.Dumps ends := by
  rcases exists_of_bind h with ⟨⟨got, ends⟩, hread, hgot⟩
  cases hgot
  exact ⟨ends, hread, dumps_of_reaches (Trace.message_reaches hread)⟩

/-- In the sample reply with one more byte behind it, the last record ends before that byte. -/
theorem dump_agrees_sampleReply :
    ∃ packet message ends, packet = (Message.sampleReply.wire ++ [0]).toArray ∧
      Message.read packet = .ok message ∧ Message.readTo packet = .ok (message, ends) ∧
      ends + 1 = packet.size ∧ packet.Dumps ends := by
  have hholds : HoldsAt (Message.sampleReply.wire ++ [0]).toArray 0 Message.sampleReply.wire :=
    (holdsAt_toArray _).left
  have hto := Message.readTo_of_holdsAt Message.encodable_sampleReply hholds
  have hread : Message.read (Message.sampleReply.wire ++ [0]).toArray =
      .ok Message.sampleReply.toPlain := by
    unfold Message.read
    rw [hto]
    rfl
  rcases dump_agrees hread with ⟨ends, hends, hdumps⟩
  refine ⟨_, _, ends, rfl, hread, hends, ?_, hdumps⟩
  cases hends.symm.trans hto
  simp [Message.length_wire]

end Packet

end NameServer
