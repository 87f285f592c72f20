import NameServer.Message.Layout
import NameServer.Proofs.Wire.Packet

/-!
# Proofs.Message.Slots — where the names of a message stand

Compression and reading both depend on the offsets of names and on nothing else of what is between
them. A message is therefore looked at as a row of slots, each a name or a gap of some bytes:

* `Message.slots` — the slots of a message behind its header;
* `Slot.NamesAt Q pos slots` — `Q` holds of every name at the offset where it stands;
* `Message.length_wire` — a message has as many bytes as its size says;
* `Message.namesAt_wire` — in the bytes of a message every name stands at its offset.
-/

namespace NameServer

/-- A stretch of a message: a name, or some bytes that hold no name. -/
inductive Slot where
  | name (name : Name)
  | gap (count : Nat)

namespace Slot

/-- The bytes that a slot takes. -/
def size : Slot → Nat
  | .name n => n.size
  | .gap count => count

/-- The bytes that slots take together. -/
def totalSize : List Slot → Nat
  | [] => 0
  | slot :: slots => slot.size + totalSize slots

@[simp] theorem totalSize_nil : totalSize [] = 0 := rfl

@[simp] theorem totalSize_name (n : Name) (slots : List Slot) :
    totalSize (.name n :: slots) = n.size + totalSize slots := rfl

@[simp] theorem totalSize_gap (count : Nat) (slots : List Slot) :
    totalSize (.gap count :: slots) = count + totalSize slots := rfl

@[simp] theorem totalSize_append (xs ys : List Slot) :
    totalSize (xs ++ ys) = totalSize xs + totalSize ys := by
  induction xs with
  | nil => simp
  | cons slot xs ih => simp [totalSize, ih, Nat.add_assoc]

/-! ## Names at their offsets -/

/-- `Q` holds of each name of the slots, at the offset where it stands when the first slot is at
`pos`. -/
def NamesAt (Q : Nat → Name → Prop) : Nat → List Slot → Prop
  | _, [] => True
  | pos, .gap count :: slots => NamesAt Q (pos + count) slots
  | pos, .name n :: slots => Q pos n ∧ NamesAt Q (pos + n.size) slots

variable {Q R : Nat → Name → Prop} {pos : Nat} {slots : List Slot}

@[simp] theorem namesAt_nil : NamesAt Q pos [] :=
  trivial

@[simp] theorem namesAt_gap {count : Nat} :
    NamesAt Q pos (.gap count :: slots) ↔ NamesAt Q (pos + count) slots :=
  Iff.rfl

@[simp] theorem namesAt_name {n : Name} :
    NamesAt Q pos (.name n :: slots) ↔ Q pos n ∧ NamesAt Q (pos + n.size) slots :=
  Iff.rfl

theorem namesAt_append {xs ys : List Slot} :
    NamesAt Q pos (xs ++ ys) ↔ NamesAt Q pos xs ∧ NamesAt Q (pos + totalSize xs) ys := by
  induction xs generalizing pos with
  | nil => simp
  | cons slot xs ih =>
      cases slot with
      | gap count => simp [ih, Nat.add_assoc]
      | name n => simp [ih, Nat.add_assoc, and_assoc]

theorem NamesAt.imp (h : NamesAt Q pos slots) (himp : ∀ pos n, Q pos n → R pos n) :
    NamesAt R pos slots := by
  induction slots generalizing pos with
  | nil => trivial
  | cons slot slots ih =>
      cases slot with
      | gap count => exact ih (namesAt_gap.1 h)
      | name n => exact ⟨himp pos n h.1, ih h.2⟩

/-! ## The names of slots -/

/-- The names of slots, in their order. -/
def names : List Slot → List Name
  | [] => []
  | .gap _ :: slots => names slots
  | .name n :: slots => n :: names slots

@[simp] theorem names_append (xs ys : List Slot) : names (xs ++ ys) = names xs ++ names ys := by
  induction xs with
  | nil => rfl
  | cons slot xs ih => cases slot <;> simp [names, ih]

theorem NamesAt.and_names {P : Name → Prop} (h : NamesAt Q pos slots)
    (hnames : ∀ n ∈ names slots, P n) : NamesAt (fun pos n => Q pos n ∧ P n) pos slots := by
  induction slots generalizing pos with
  | nil => trivial
  | cons slot slots ih =>
      cases slot with
      | gap count => exact ih (namesAt_gap.1 h) hnames
      | name n =>
          exact ⟨⟨h.1, hnames n List.mem_cons_self⟩,
            ih h.2 fun m hmem => hnames m (List.mem_cons_of_mem n hmem)⟩

end Slot

open Slot (totalSize NamesAt totalSize_append totalSize_nil namesAt_append)

theorem Name.size_pos (name : Name) : 0 < name.size := by
  unfold Name.size
  split <;> omega

/-! ## Payloads -/

namespace Rdata

/-- The slots of a payload. -/
def slots : Rdata Name → List Slot
  | a _ _ => [.gap 4]
  | ns _ server => [.name server]
  | cname _ target => [.name target]
  | mx _ _ exchange => [.gap 2, .name exchange]
  | soa s => [.name s.mname, .name s.rname, .gap 20]
  | txt ttl text => [.gap (txt ttl text).size]

@[simp] theorem totalSize_slots (rdata : Rdata Name) : totalSize rdata.slots = rdata.size := by
  cases rdata <;> simp [slots, size, Nat.add_assoc]

@[simp] theorem names_slots (rdata : Rdata Name) : Slot.names rdata.slots = rdata.references := by
  cases rdata <;> rfl

theorem flatten_strings (bs : List UInt8) : (strings bs).flatten = bs := by
  fun_induction strings bs with
  | case1 => rfl
  | case2 b bs ih => simp [ih]

theorem length_le_of_mem_strings {bs string : List UInt8} (h : string ∈ strings bs) :
    string.length ≤ maxStringSize := by
  fun_induction strings bs with
  | case1 => cases h
  | case2 b bs ih =>
      rcases List.mem_cons.1 h with rfl | hmem
      · simp only [List.length_cons, List.length_take, maxStringSize]
        omega
      · exact ih hmem

theorem length_strings (bs : List UInt8) :
    (strings bs).length = (bs.length + (maxStringSize - 1)) / maxStringSize := by
  fun_induction strings bs with
  | case1 => decide
  | case2 b bs ih =>
      rw [List.length_cons, ih, List.length_drop, List.length_cons]
      unfold maxStringSize
      omega

theorem length_flatMap_stringWire (strings : List (List UInt8)) :
    (strings.flatMap stringWire).length = strings.length + strings.flatten.length := by
  induction strings with
  | nil => rfl
  | cons string strings ih =>
      simp only [List.flatMap_cons, List.length_append, ih, stringWire, List.length_cons,
        List.flatten_cons]
      omega

theorem length_textWire (text : String) :
    (textWire text).length = text.utf8ByteSize + stringCount text.utf8ByteSize := by
  rw [← Text.length_bytes]
  unfold textWire
  split
  · rename_i hnil
    rw [hnil]
    decide
  · rename_i hne
    have hpos : 0 < (Text.bytes text).length := List.length_pos_iff.2 hne
    rw [length_flatMap_stringWire, flatten_strings, length_strings]
    -- With a byte to hold, there is at least one string, so the least count plays no part.
    unfold stringCount maxStringSize
    omega

@[simp] theorem length_wire (rdata : Rdata Name) : rdata.wire.length = rdata.size := by
  cases rdata with
  | a ttl address => rfl
  | ns ttl server => exact Name.length_wire server
  | cname ttl target => exact Name.length_wire target
  | mx ttl preference exchange => simp [wire, size, Name.length_wire]
  | soa s => simp [wire, size, Name.length_wire, Nat.add_assoc]
  | txt ttl text => exact length_textWire text

theorem size_pos (rdata : Rdata Name) : 0 < rdata.size := by
  cases rdata with
  | a ttl address => simp [size]
  | ns ttl server => exact server.size_pos
  | cname ttl target => exact target.size_pos
  | mx ttl preference exchange =>
      simp only [size]
      omega
  | soa s =>
      simp only [size]
      omega
  | txt ttl text =>
      simp only [size, stringCount]
      omega

theorem wire_ne_nil (rdata : Rdata Name) : rdata.wire ≠ [] := by
  rw [← List.length_pos_iff, length_wire]
  exact rdata.size_pos

/-- In the bytes of a payload every name stands at its offset. -/
theorem namesAt_wire {packet : Packet} {pos : Nat} {rdata : Rdata Name}
    (h : packet.HoldsAt pos rdata.wire) :
    NamesAt (fun pos name => packet.HoldsAt pos name.wire) pos rdata.slots := by
  cases rdata with
  | a ttl address => simp [slots]
  | ns ttl server => exact ⟨h, trivial⟩
  | cname ttl target => exact ⟨h, trivial⟩
  | mx ttl preference exchange => exact ⟨h.right, trivial⟩
  | soa s =>
      have hrname := h.left.right
      rw [Name.length_wire] at hrname
      exact ⟨h.left.left, hrname, trivial⟩
  | txt ttl text => simp [slots]

end Rdata

/-! ## Questions and records -/

namespace Question

/-- The slots of a question. -/
def slots (question : Question) : List Slot :=
  [.name question.name, .gap 4]

@[simp] theorem totalSize_slots (question : Question) :
    totalSize question.slots = question.size := by
  simp [slots, size]

@[simp] theorem length_wire (question : Question) : question.wire.length = question.size := by
  simp [wire, size, Name.length_wire]

theorem namesAt_wire {packet : Packet} {pos : Nat} {question : Question}
    (h : packet.HoldsAt pos question.wire) :
    NamesAt (fun pos name => packet.HoldsAt pos name.wire) pos question.slots :=
  ⟨h.left.left, trivial⟩

end Question

namespace Record

/-- The slots of a record. -/
def slots (record : Record) : List Slot :=
  .name record.name :: .gap fixedSize :: record.rdata.slots

@[simp] theorem totalSize_slots (record : Record) :
    Slot.totalSize record.slots = record.size := by
  simp [slots, size, Nat.add_assoc]

@[simp] theorem totalSize_flatMap_slots (records : List Record) :
    Slot.totalSize (records.flatMap slots) = Record.totalSize records := by
  induction records with
  | nil => rfl
  | cons record records ih => simp [Record.totalSize, ih]

@[simp] theorem length_wire (record : Record) : record.wire.length = record.size := by
  simp only [wire, List.length_append, Name.length_wire, Octets.length_ofWord16,
    Octets.length_ofWord32, Rdata.length_wire]
  unfold size fixedSize
  omega

@[simp] theorem length_flatMap_wire (records : List Record) :
    (records.flatMap wire).length = Record.totalSize records := by
  induction records with
  | nil => rfl
  | cons record records ih => simp [Record.totalSize, ih]

/-- The names of a record: its owner and what its payload refers to. -/
def names (record : Record) : List Name :=
  record.name :: record.rdata.references

@[simp] theorem names_flatMap_slots (records : List Record) :
    Slot.names (records.flatMap slots) = records.flatMap names := by
  induction records with
  | nil => rfl
  | cons record records ih => simp [slots, Slot.names, names, ih]

/-- The payload of a record stands behind the owner and the fixed fields. -/
theorem holdsAt_rdata {packet : Packet} {pos : Nat} {record : Record}
    (h : packet.HoldsAt pos record.wire) :
    packet.HoldsAt (pos + record.name.size + fixedSize) record.rdata.wire := by
  have hrdata := h.right
  simpa [fixedSize, Name.length_wire, Nat.add_assoc] using hrdata

theorem namesAt_wire {packet : Packet} {pos : Nat} {record : Record}
    (h : packet.HoldsAt pos record.wire) :
    NamesAt (fun pos name => packet.HoldsAt pos name.wire) pos record.slots :=
  ⟨h.left.left.left.left.left, Rdata.namesAt_wire (holdsAt_rdata h)⟩

theorem namesAt_flatMap_wire {packet : Packet} {pos : Nat} {records : List Record}
    (h : packet.HoldsAt pos (records.flatMap wire)) :
    NamesAt (fun pos name => packet.HoldsAt pos name.wire) pos (records.flatMap slots) := by
  induction records generalizing pos with
  | nil => trivial
  | cons record records ih =>
      rw [List.flatMap_cons] at h ⊢
      have hrest := h.right
      rw [length_wire, ← totalSize_slots] at hrest
      exact namesAt_append.2 ⟨namesAt_wire h.left, ih hrest⟩

end Record

/-! ## Messages -/

namespace Header

@[simp] theorem length_wire (header : Header) (counts : SectionCounts) :
    (header.wire counts).length = headerSize := rfl

end Header

namespace Message

/-- The slots of a message behind its header. -/
def slots (message : Message) : List Slot :=
  message.question.slots ++ message.records.flatMap Record.slots

/-- The names of a message, in the order in which they are written. -/
def names (message : Message) : List Name :=
  message.question.name :: message.records.flatMap Record.names

@[simp] theorem names_slots (message : Message) : Slot.names message.slots = message.names := by
  simp [slots, names, Question.slots, Slot.names]

theorem size_eq_totalSize (message : Message) :
    message.size = headerSize + totalSize message.slots := by
  simp [size, slots, Nat.add_assoc]

@[simp] theorem length_wire (message : Message) : message.wire.length = message.size := by
  unfold wire size
  rw [List.length_append, List.length_append, Header.length_wire, Question.length_wire,
    Record.length_flatMap_wire]

variable {packet : Packet} {message : Message}

theorem holdsAt_question (h : packet.HoldsAt 0 message.wire) :
    packet.HoldsAt headerSize message.question.wire := by
  simpa using h.left.right

theorem holdsAt_records (h : packet.HoldsAt 0 message.wire) :
    packet.HoldsAt (headerSize + message.question.size)
      (message.records.flatMap Record.wire) := by
  simpa using h.right

/-- In the bytes of a message every name stands at its offset. -/
theorem namesAt_wire (h : packet.HoldsAt 0 message.wire) :
    NamesAt (fun pos name => packet.HoldsAt pos name.wire) headerSize message.slots := by
  have hrecords := holdsAt_records h
  rw [← Question.totalSize_slots] at hrecords
  exact namesAt_append.2
    ⟨Question.namesAt_wire (holdsAt_question h), Record.namesAt_flatMap_wire hrecords⟩

end Message

end NameServer
