import NameServer.Name.Wire

/-!
# Compression — one table of suffixes for one message

While a message is laid out, every suffix of a name that is written out is recorded with the offset
it gets. A later name with that suffix ends with a pointer to it. Suffixes are compared without
ASCII case, and an entry is never changed or removed.
-/

namespace NameServer

/-- The size of the header, in front of every name. -/
def headerSize : Nat := 12

/-- The largest offset that a pointer can hold. -/
def maxPointer : Nat := 0x3FFF

/-! ## Suffixes -/

/-- The last labels of a name. -/
structure Suffix where
  labels : List Label
  deriving DecidableEq

namespace Suffix

/-- All labels of a name. -/
def ofName (name : Name) : Suffix :=
  ⟨name.labels⟩

/-- One label less at the front; nothing is cut from the empty suffix. -/
def chop (suffix : Suffix) : Suffix :=
  ⟨suffix.labels.tail⟩

/-- The number of labels. -/
def count (suffix : Suffix) : Nat :=
  suffix.labels.length

/-- The size of the first label. -/
def topSize? (suffix : Suffix) : Option Nat :=
  suffix.labels.head?.map Label.size

/-- The folded labels, by which suffixes are compared. -/
def folded (suffix : Suffix) : List (List UInt8) :=
  suffix.labels.map Label.folded

/-- Whether two suffixes have the same labels, ASCII case aside. -/
def SameAs (a b : Suffix) : Prop :=
  a.folded = b.folded

instance (a b : Suffix) : Decidable (a.SameAs b) :=
  inferInstanceAs (Decidable (a.folded = b.folded))

end Suffix

/-! ## The table -/

/-- The suffixes of a message with their offsets, the last recorded first. -/
structure Compressor where
  entries : List (List (List UInt8) × Nat)
  deriving DecidableEq, Repr

namespace Compressor

/-- No suffix yet. -/
def empty : Compressor := ⟨[]⟩

/-- The number of recorded suffixes. -/
def size (table : Compressor) : Nat :=
  table.entries.length

/-- The offset recorded for a suffix. -/
def find? (table : Compressor) (suffix : Suffix) : Option Nat :=
  table.entries.lookup suffix.folded

/-- The offset recorded for a whole name. -/
def offsetOf? (table : Compressor) (name : Name) : Option Nat :=
  table.find? (.ofName name)

/-- One more suffix, unless its offset is too large for a pointer. -/
def record (table : Compressor) (suffix : Suffix) (offset : Nat) : Compressor :=
  if offset ≤ maxPointer then ⟨(suffix.folded, offset) :: table.entries⟩ else table

/-- Lays labels out from `offset` on: each suffix that is not known is recorded, up to the first one
that is. Yields the pointer to that one and how many labels it has. -/
def lay (table : Compressor) (offset : Nat) : List Label → Compressor × Option (Nat × Nat)
  | [] => (table, none)
  | label :: labels =>
    match table.find? ⟨label :: labels⟩ with
    | some pointer => (table, some (pointer, labels.length + 1))
    | none => (table.record ⟨label :: labels⟩ offset).lay (offset + label.size + 1) labels

/-- The name as it is to be written at `offset`, and the table after it. The root, and a name of
which no suffix is known, are left as they are. -/
def place (table : Compressor) (name : Name) (offset : Nat) :
    Except WireError (Name × Compressor) :=
  -- The name itself has to stand within reach, even if nothing in it is new.
  if headerSize ≤ offset ∧ offset ≤ maxPointer then
    match table.lay offset name.labels with
    | (table, some (pointer, suffix)) => .ok (name.compressed pointer suffix, table)
    | (table, none) => .ok (name, table)
  else .error (.placeOutside offset)

end Compressor
end NameServer
