import NameServer.Fault
import NameServer.Rdata.Basic
import NameServer.Timestamp

/-!
# Zone.Store — what the server needs of a zone store

A zone store is a tree of nodes below the root, each with a label and perhaps the wildcard mark, and
of records at the root and at nodes. Two stores implement the interface: `Zone.Tree` and
`Zone.Relations`.
-/

namespace NameServer
namespace Zone

/-! ## Values -/

/-- A child of a node, as it is listed. -/
structure Child where
  id : ZoneId
  label : Label
  wildcard : Bool
  deriving DecidableEq

/-- What a store holds, by number, and since when it is open. -/
structure Statistics where
  startedAt : Timestamp
  zones : Nat
  a : Nat
  ns : Nat
  cname : Nat
  mx : Nat
  soa : Nat
  txt : Nat
  deriving DecidableEq, Repr

namespace Statistics

/-- The number of zones and, for each stored type, of records. -/
def ofCounts (startedAt : Timestamp) (zones : Nat) (count : RecordKind → Nat) : Statistics where
  startedAt := startedAt
  zones := zones
  a := count .a
  ns := count .ns
  cname := count .cname
  mx := count .mx
  soa := count .soa
  txt := count .txt

/-- Nothing is stored. -/
def empty (startedAt : Timestamp) : Statistics :=
  ofCounts startedAt 0 fun _ => 0

/-- The number of records of all types. -/
def total (stats : Statistics) : Nat :=
  stats.a + stats.ns + stats.cname + stats.mx + stats.soa + stats.txt

end Statistics

/-! ## Changes -/

/-- A change to a store of type `σ`. When it fails, what it did before stays done. -/
abbrev Change (σ : Type) := ExceptT Fault (StateM σ)

namespace Change

variable {σ α : Type}

/-- A look at the store. -/
def ask (f : σ → Except Fault α) : Change σ α :=
  ExceptT.mk fun store => (f store, store)

/-- One step that happens as a whole or not at all. -/
def step (f : σ → Except Fault (α × σ)) : Change σ α :=
  ExceptT.mk fun store =>
    match f store with
    | .ok (a, next) => (.ok a, next)
    | .error fault => (.error fault, store)

/-- What a change yields on a store, and the store after it. -/
def perform (change : Change σ α) (store : σ) : Except Fault α × σ :=
  change.run.run store

end Change

/-! ## The interface -/

/-- The operations of a zone store. -/
class Store (σ : Type) where
  /-- The name with the nodes of its last labels, as far as they exist. -/
  resolve : σ → Name → Except Fault Name
  /-- The first records of a type at a zone, with fully resolved names. -/
  records : σ → ZoneId → RecordType → Nat → Except Fault (List (Rdata Name))
  /-- Whether a node exists and is a wildcard. -/
  isWildcard : σ → ZoneId → Bool
  /-- The fully resolved name of a node. -/
  nameOf? : σ → ZoneId → Except Fault (Option Name)
  /-- The children of a zone in the order of their numbers. -/
  children : σ → ZoneId → List Child
  /-- How much is stored. -/
  statistics : σ → Except Fault Statistics
  /-- A new child of a zone; the answer is its number. -/
  addNode : ZoneId → Label → Bool → Change σ ZoneId
  /-- One more record at a zone; its names have to be fully resolved. The answer is its number. -/
  addRecord : ZoneId → Rdata Name → Change σ Nat
  /-- Sets or clears the mark of a node. -/
  setWildcard : ZoneId → Bool → Change σ Unit
  /-- Removes the records of a type at a zone; the answer is how many there were. -/
  deleteRecords : ZoneId → RecordType → Change σ Nat
  /-- Removes a node with its records. It must have no child, and no record elsewhere may refer to
  it. -/
  deleteNode : ZoneId → Change σ Unit

end Zone
end NameServer
