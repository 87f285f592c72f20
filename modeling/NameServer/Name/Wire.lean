import NameServer.Name.Basic
import NameServer.Wire.Octets

/-!
# Name.Wire — names in a packet

A name is written as its labels, each behind its length, and ends with a zero byte or with a pointer
to an earlier place where the rest stands. Pointers lead strictly backward and at most `maxHops` of
them are followed.
-/

namespace NameServer

/-- The largest number of pointers followed for one name. -/
def maxHops : Nat := 64

namespace Name

/-! ## Writing -/

/-- A label behind its length. -/
def labelWire (label : Label) : List UInt8 :=
  UInt8.ofNat label.size :: label.bytes

/-- The two bytes of a pointer, marked by their two highest bits. -/
def pointerWire (pointer : Nat) : List UInt8 :=
  [UInt8.ofNat (0xC0 + pointer / 0x100), UInt8.ofNat pointer]

/-- The end of a name of this form. -/
def Form.endWire : Form → List UInt8
  | .compressed pointer _ => pointerWire pointer
  | _ => [0]

/-- The name as it stands in a packet. -/
def wire (name : Name) : List UInt8 :=
  name.literal.flatMap labelWire ++ name.form.endWire

theorem length_flatMap_labelWire (labels : List Label) :
    (labels.flatMap labelWire).length = literalSize labels := by
  induction labels with
  | nil => rfl
  | cons label labels ih =>
    simp only [List.flatMap_cons, List.length_append, ih, labelWire, List.length_cons,
      Label.length_bytes, literalSize]

theorem length_wire (name : Name) : name.wire.length = name.size := by
  unfold wire size isCompressed
  rw [List.length_append, length_flatMap_labelWire]
  cases name.form <;> rfl

/-! ## Reading -/

/-- Labels read so far, which still fit a name. -/
abbrev Read := { labels : List Label // wireSize labels ≤ maxNameSize }

/-- One more label, after a check of its size. -/
def Read.push (read : Read) (label : Label)
    (h : wireSize read.1 + (label.size + 1) ≤ maxNameSize) : Read :=
  ⟨read.1 ++ [label], wireSize_append_le h⟩

/-- Reads on at `pos` a name that starts at `start`, with `hops` pointers followed and the labels
`read` behind it. Past its first pointer the name is followed by `resume?`. -/
def readFrom (packet : Packet) (start pos hops : Nat) (read : Read) (resume? : Option Nat) :
    Except WireError (Name × Nat) :=
  match hbyte : packet[pos]? with
  | none => .error (.nameRunsOut start)
  | some byte =>
    let size := byte.toNat
    if size = 0 then
      .ok (⟨read.1, .plain, read.2, trivial⟩, resume?.getD (pos + 1))
    else if size < 0x40 then
      -- The two highest bits are clear, so the byte is the length of a label.
      match packet.slice? (pos + 1) size with
      | none => .error (.labelRunsOut pos)
      | some bs =>
        if read.1.length = maxLabels then
          .error (.manyLabelsAt start)
        else if hsize : wireSize read.1 + (bs.length + 1) ≤ maxNameSize then
          match hlabel : Label.ofBytes bs with
          | .error e => .error e
          | .ok label =>
            have _ : pos < packet.size := (Array.getElem?_eq_some_iff.1 hbyte).1
            readFrom packet start (pos + 1 + size) hops
              (read.push label (Label.size_of_ofBytes hlabel ▸ hsize)) resume?
        else
          .error (.longNameAt start)
    else if 0xC0 ≤ size then
      -- They are both set, so the other fourteen bits are where the name goes on.
      match packet[pos + 1]? with
      | none => .error (.pointerRunsOut pos)
      | some low =>
        let target := (size - 0xC0) * 0x100 + low.toNat
        if pos ≤ target then
          .error (.pointerForward pos)
        else if hops < maxHops then
          readFrom packet start target (hops + 1) read (resume?.or (some (pos + 2)))
        else
          .error .manyPointers
    else
      .error (.labelType byte pos)
  termination_by (maxHops - hops, packet.size - pos)

/-- The name at `start` and the offset behind it. -/
def read (packet : Packet) (start : Nat) : Except WireError (Name × Nat) :=
  readFrom packet start start 0 ⟨[], wireSize_nil_le⟩ none

end Name
end NameServer
