import NameServer.Name.Wire
import NameServer.Proofs.Name.Spelling
import NameServer.Proofs.Wire.Strict

/-!
# Proofs.Name.StrictReading — reading a name comes to an end

Pointers may lead back into labels that were read before, so the offset at which a name is read on
goes up and down, and neither the labels nor the pointers alone count the turns. The two together
do: every turn that goes on takes a label or a pointer, and a name has room for `maxLabels` of the
one and `maxHops` of the other. What is counted, bytes of labels and pointers, stays within one step
of these limits, so that only sums of offsets are sums of words here.

* `Name.turn` — one turn of the loop over a name, on the variables of that loop, with
  `Name.turn_end`, `Name.turn_label` and `Name.turn_pointer` for what it comes to;
* `Name.Walk.rank` — the labels and pointers that are still allowed, which every turn lowers;
* `Name.readStrict` — the reader with at most `maxLabels + maxHops + 1` turns, which builds its name
  only of labels that a name can have;
* `Name.readStrict_eq_of` — it never breaks down and reads what `Name.read` reads;
* `Name.WithinLimits` — what holds of a name that was read.
-/

namespace NameServer

namespace Name

open Strict (of breakDown loop)

variable {target : Target} {packet : Packet} {start next : Nat}

/-! ## The loop over a name -/

/-- The variables of the loop: the labels so far and the bytes they take, where to read on, the
pointers followed and, past the first of them, the offset behind the name. -/
structure Walk where
  labels : List Label
  encoded : Nat
  pos : Nat
  hops : Nat
  resume? : Option Nat

/-- The loop begins with no label, at the start of the name. -/
def Walk.begin (start : Nat) : Walk :=
  ⟨[], 1, start, 0, none⟩

/-- A turn ends with what to go on with, or with all labels and the offset behind the name. -/
abbrev Turn : Type :=
  Strict WireError (Walk ⊕ List Label × Nat)

/-- The turn that takes a label of `size` bytes. -/
def takeLabel (target : Target) (packet : Packet) (start : Nat) (walk : Walk) (size : Nat) :
    Turn := do
  let first ← target.add walk.pos 1
  match ← packet.part? target first size with
  | none => throw (.labelRunsOut walk.pos)
  | some bytes =>
    if walk.labels.length = maxLabels then throw (.manyLabelsAt start)
    else if maxNameSize < walk.encoded + (size + 1) then throw (.longNameAt start)
    else
      let label ← of (Label.ofBytes bytes)
      let behind ← target.add first size
      return .inl
        { walk with
          labels := walk.labels ++ [label]
          encoded := walk.encoded + (size + 1)
          pos := behind }

/-- The offset behind the name, which only its first pointer gives. -/
def resume (target : Target) (walk : Walk) : Strict WireError (Option Nat) :=
  match walk.resume? with
  | some behind => return some behind
  | none => some <$> target.add walk.pos 2

/-- The turn that takes a pointer whose first byte is `high`. -/
def takePointer (target : Target) (packet : Packet) (walk : Walk) (high : Nat) : Turn := do
  let second ← target.add walk.pos 1
  match ← packet.byte? second with
  | none => throw (.pointerRunsOut walk.pos)
  | some low =>
    let goal := (high - 0xC0) * 0x100 + low.toNat
    if walk.pos ≤ goal then throw (.pointerForward walk.pos)
    else if maxHops < walk.hops + 1 then throw .manyPointers
    else
      let resume? ← resume target walk
      return .inl { walk with pos := goal, hops := walk.hops + 1, resume? }

/-- The turn that takes the zero byte behind the last label. -/
def takeEnd (target : Target) (walk : Walk) : Turn := do
  let behind ← target.add walk.pos 1
  return .inr (walk.labels, walk.resume?.getD behind)

/-- One turn of the loop over the name at `start`. -/
def turn (target : Target) (packet : Packet) (start : Nat) (walk : Walk) : Turn := do
  match ← packet.byte? walk.pos with
  | none => throw (.nameRunsOut start)
  | some byte =>
    if byte.toNat = 0 then takeEnd target walk
    else if byte.toNat < 0x40 then takeLabel target packet start walk byte.toNat
    else if 0xC0 ≤ byte.toNat then takePointer target packet walk byte.toNat
    else throw (.labelType byte walk.pos)

/-- A name of these labels, which have to fit one. -/
def build (labels : List Label) : Strict WireError Name :=
  if h : labels.length ≤ maxLabels ∧ wireSize labels ≤ maxNameSize then
    return ⟨labels, .plain, h.2, trivial⟩
  else breakDown .oversized

/-- The name at `start` and the offset behind it, read by a loop. -/
def readStrict (target : Target) (packet : Packet) (start : Nat) :
    Strict WireError (Name × Nat) := do
  let (labels, next) ← loop (turn target packet start) (maxLabels + maxHops + 1) (Walk.begin start)
  let name ← build labels
  return (name, next)

/-! ## Turns -/

section Turns

variable {walk : Walk} {byte : UInt8}

theorem turn_of_byte (h : packet[walk.pos]? = some byte) :
    turn target packet start walk =
      if byte.toNat = 0 then takeEnd target walk
      else if byte.toNat < 0x40 then takeLabel target packet start walk byte.toNat
      else if 0xC0 ≤ byte.toNat then takePointer target packet walk byte.toNat
      else throw (.labelType byte walk.pos) := by
  rw [turn, Packet.byte?_eq_of, Strict.of_ok_bind, h]

/-- From a byte that is there no sum that a turn needs is too large for a word. -/
theorem add_pos_eq_of (hroom : packet.size ≤ target.room) (h : packet[walk.pos]? = some byte)
    {count : Nat} (hcount : count < 2 ^ 63) :
    (target.add walk.pos count : Strict WireError Nat) = of (.ok (walk.pos + count)) := by
  have hlt := (Array.getElem?_eq_some_iff.1 h).1
  have hmost := target.room_lt
  exact Target.add_eq_of (by omega)

theorem turn_end (hroom : packet.size ≤ target.room) (h : packet[walk.pos]? = some byte)
    (hzero : byte.toNat = 0) :
    turn target packet start walk =
      of (.ok (.inr (walk.labels, walk.resume?.getD (walk.pos + 1)))) := by
  rw [turn_of_byte h, if_pos hzero, takeEnd, add_pos_eq_of hroom h (by decide), Strict.of_ok_bind]
  rfl

theorem turn_label (hroom : packet.size ≤ target.room) (h : packet[walk.pos]? = some byte)
    (hzero : byte.toNat ≠ 0) (hlow : byte.toNat < 0x40) :
    turn target packet start walk =
      match packet.slice? (walk.pos + 1) byte.toNat with
      | none => throw (.labelRunsOut walk.pos)
      | some bytes =>
        if walk.labels.length = maxLabels then throw (.manyLabelsAt start)
        else if maxNameSize < walk.encoded + (byte.toNat + 1) then throw (.longNameAt start)
        else of ((Label.ofBytes bytes).map fun label => .inl
          { walk with
            labels := walk.labels ++ [label]
            encoded := walk.encoded + (byte.toNat + 1)
            pos := walk.pos + 1 + byte.toNat }) := by
  have hlt := (Array.getElem?_eq_some_iff.1 h).1
  have hmost := target.room_lt
  have hsum : walk.pos + 1 + byte.toNat < 2 ^ 64 := by omega
  rw [turn_of_byte h, if_neg hzero, if_pos hlow, takeLabel, add_pos_eq_of hroom h (by decide),
    Strict.of_ok_bind, Packet.part?_eq_of hroom (Target.adds_of_lt hsum), Strict.of_ok_bind]
  cases packet.slice? (walk.pos + 1) byte.toNat with
  | none => rfl
  | some bytes =>
      simp only [Target.add_eq_of hsum, Strict.of_ok_bind]
      cases Label.ofBytes bytes <;> rfl

theorem turn_pointer (hroom : packet.size ≤ target.room) (h : packet[walk.pos]? = some byte)
    (hzero : byte.toNat ≠ 0) (hlow : ¬byte.toNat < 0x40) (hhigh : 0xC0 ≤ byte.toNat) :
    turn target packet start walk =
      match packet[walk.pos + 1]? with
      | none => throw (.pointerRunsOut walk.pos)
      | some low =>
        if walk.pos ≤ (byte.toNat - 0xC0) * 0x100 + low.toNat then
          throw (.pointerForward walk.pos)
        else if maxHops < walk.hops + 1 then throw .manyPointers
        else of (.ok (.inl
          { walk with
            pos := (byte.toNat - 0xC0) * 0x100 + low.toNat
            hops := walk.hops + 1
            resume? := walk.resume?.or (some (walk.pos + 2)) })) := by
  rw [turn_of_byte h, if_neg hzero, if_neg hlow, if_pos hhigh, takePointer,
    add_pos_eq_of hroom h (by decide), Strict.of_ok_bind, Packet.byte?_eq_of, Strict.of_ok_bind]
  cases packet[walk.pos + 1]? with
  | none => rfl
  | some low =>
      have hresume : resume target walk = of (.ok (walk.resume?.or (some (walk.pos + 2)))) := by
        unfold resume
        cases walk.resume? with
        | none =>
            rw [add_pos_eq_of hroom h (by decide)]
            rfl
        | some behind => rfl
      simp only [hresume, Strict.of_ok_bind]
      rfl

end Turns

/-! ## The loop ends -/

/-- The labels and pointers that are still allowed. -/
def Walk.rank (walk : Walk) : Nat :=
  (maxLabels - walk.labels.length) + (maxHops - walk.hops)

/-- The labels and the offset of a name that was read. -/
def spelling (result : Name × Nat) : List Label × Nat :=
  (result.1.labels, result.2)

/-- The variables are those of a reader that got this far, and the loop ends as the reader does. -/
def Ends (packet : Packet) (start : Nat) (walk : Walk)
    (outcome : Except WireError (List Label × Nat)) : Prop :=
  walk.hops ≤ maxHops ∧ ∃ read : Read, walk.labels = read.1 ∧ walk.encoded = wireSize read.1 ∧
    outcome = (readFrom packet start walk.pos walk.hops read walk.resume?).map spelling

theorem length_le_maxLabels {labels : List Label} (h : wireSize labels ≤ maxNameSize) :
    labels.length ≤ maxLabels :=
  length_labels_le ⟨labels, .plain, h, trivial⟩

/-- Every turn ends the loop or takes one of the labels and pointers that are still allowed. -/
theorem turns (hroom : packet.size ≤ target.room) (start : Nat) (walk : Walk)
    (outcome : Except WireError (List Label × Nat)) (h : Ends packet start walk outcome) :
    Strict.Turns (turn target packet start) Walk.rank (Ends packet start) walk outcome := by
  rcases walk with ⟨labels, encoded, pos, hops, resume?⟩
  rcases h with ⟨hhops, read, hlabels, hencoded, houtcome⟩
  simp only at hhops hlabels hencoded houtcome
  subst hlabels hencoded houtcome
  have hread : read.1.length ≤ maxLabels := length_le_maxLabels read.2
  -- Where the next label is cut off, its declared size is the number of its bytes.
  have hlength : ∀ {size : Nat} {bytes : List UInt8},
      packet.slice? (pos + 1) size = some bytes → bytes.length = size := fun h =>
    (Packet.holdsAt_of_slice? h).2.1
  unfold Strict.Turns
  -- The cases are those of the reader. It goes on in two of them and is over in all others.
  fun_cases readFrom packet start pos hops read resume? with
  | case1 hbyte =>
      left
      rw [turn, Packet.byte?_eq_of, Strict.of_ok_bind, hbyte]
      rfl
  | case2 byte hbyte size hzero =>
      left
      rw [turn_end hroom hbyte hzero]
      rfl
  | case3 byte hbyte size hzero hlow hslice =>
      left
      rw [turn_label hroom hbyte hzero hlow, hslice]
      rfl
  | case4 byte hbyte size hzero hlow bytes hslice hcount =>
      left
      rw [turn_label hroom hbyte hzero hlow, hslice]
      exact if_pos hcount
  | case5 byte hbyte size hzero hlow bytes hslice hcount hfits e hlabel =>
      left
      rw [hlength hslice] at hfits
      rw [turn_label hroom hbyte hzero hlow, hslice]
      simp only
      rw [if_neg hcount, if_neg (Nat.not_lt.2 hfits), hlabel]
      rfl
  | case6 byte hbyte size hzero hlow bytes hslice hcount hfits label hlabel hlt =>
      right
      rw [hlength hslice] at hfits
      have hsize : label.size = size := by rw [Label.size_of_ofBytes hlabel, hlength hslice]
      rw [turn_label hroom hbyte hzero hlow, hslice]
      simp only
      rw [if_neg hcount, if_neg (Nat.not_lt.2 hfits), hlabel]
      -- One label less is allowed, and the reader counts the bytes of this one as the loop does.
      refine ⟨_, rfl, ?_, hhops, _, rfl, ?_, rfl⟩
      · simp only [Walk.rank, List.length_append, List.length_singleton]
        omega
      · simp only [Read.push, wireSize, literalSize_append, literalSize, hsize]
        omega
  | case7 byte hbyte size hzero hlow bytes hslice hcount hfits =>
      left
      rw [hlength hslice] at hfits
      rw [turn_label hroom hbyte hzero hlow, hslice]
      simp only
      rw [if_neg hcount]
      exact if_pos (Nat.not_le.1 hfits)
  | case8 byte hbyte size hzero hlow hhigh hsecond =>
      left
      rw [turn_pointer hroom hbyte hzero hlow hhigh, hsecond]
      rfl
  | case9 byte hbyte size hzero hlow hhigh second hsecond goal hback =>
      left
      rw [turn_pointer hroom hbyte hzero hlow hhigh, hsecond]
      exact if_pos hback
  | case10 byte hbyte size hzero hlow hhigh second hsecond goal hback hfew =>
      right
      rw [turn_pointer hroom hbyte hzero hlow hhigh, hsecond]
      simp only
      rw [if_neg hback, if_neg (Nat.not_lt.2 hfew)]
      -- One pointer less is allowed; the labels stay as they are.
      refine ⟨_, rfl, ?_, hfew, read, rfl, rfl, rfl⟩
      simp only [Walk.rank]
      omega
  | case11 byte hbyte size hzero hlow hhigh second hsecond goal hback hfew =>
      left
      rw [turn_pointer hroom hbyte hzero hlow hhigh, hsecond]
      simp only
      rw [if_neg hback]
      exact if_pos (Nat.lt_succ_of_le (Nat.not_lt.1 hfew))
  | case12 byte hbyte size hzero hlow hhigh =>
      left
      rw [turn_of_byte hbyte, if_neg hzero, if_neg hlow]
      exact if_neg hhigh

/-- The loop is over after `maxLabels + maxHops + 1` turns, with what the reader yields. -/
theorem loop_turn_eq_of (hroom : packet.size ≤ target.room) (start : Nat) :
    loop (turn target packet start) (maxLabels + maxHops + 1) (Walk.begin start) =
      of ((Name.read packet start).map spelling) := by
  apply Strict.loop_eq_of (turns hroom start)
  · show maxLabels - 0 + (maxHops - 0) < maxLabels + maxHops + 1
    omega
  · exact ⟨Nat.zero_le _, ⟨[], wireSize_nil_le⟩, rfl, rfl, rfl⟩

/-- The labels of a plain name make up that name. -/
theorem build_labels {name : Name} (h : name.form = .plain) :
    build name.labels = of (.ok name) := by
  unfold build
  rw [dif_pos ⟨name.length_labels_le, name.size_le⟩]
  have hname : (⟨name.labels, .plain, name.size_le, trivial⟩ : Name) = name := Name.ext rfl h.symm
  rw [hname]
  rfl

/-- Reading a name by a loop never breaks down, and it yields what the reader does. -/
theorem readStrict_eq_of (hroom : packet.size ≤ target.room) (start : Nat) :
    readStrict target packet start = of (Name.read packet start) := by
  unfold readStrict
  rw [loop_turn_eq_of hroom]
  cases hread : Name.read packet start with
  | error e => rfl
  | ok result =>
      rcases result with ⟨name, next⟩
      have hbuild : build name.labels = of (.ok name) := build_labels (readFrom_form hread)
      show (build name.labels >>= fun name => pure (name, next)) = of (.ok (name, next))
      rw [hbuild]
      rfl

/-! ## Names that are read -/

/-- The limits of a name: at most 127 labels, at most 255 bytes without a pointer, and every label
is a text of 1 to 63 bytes of UTF-8 without a dot. -/
structure WithinLimits (name : Name) : Prop where
  count : name.labels.length ≤ 127
  size : wireSize name.labels ≤ 255
  label : ∀ label ∈ name.labels, 1 ≤ label.bytes.length ∧ label.bytes.length ≤ 63 ∧
    ∃ text, Text.ofBytes? label.bytes = some text ∧ '.' ∉ text.toList

theorem withinLimits (name : Name) : name.WithinLimits where
  count := name.length_labels_le
  size := name.size_le
  label := by
    intro label _
    rw [label.length_bytes]
    exact ⟨label.size_pos, label.size_le, label.text, Text.ofBytes?_bytes _, label.noDot⟩

/-- A name takes some bytes, and they end within the packet. -/
theorem bounds_of_read {name : Name} (h : Name.read packet start = .ok (name, next)) :
    start < next ∧ next ≤ packet.size := by
  rcases (Name.read_eq_ok_iff.1 h).2 with ⟨hops, _, hspelled⟩
  exact hspelled.bounds

end Name

end NameServer
