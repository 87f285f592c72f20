import NameServer.Message.Basic
import NameServer.Zone.Store
import NameServer.ZoneFile.Entry

/-!
# Zone.Admin — changing and listing zones by name

The administration works on any store. Adding a name creates the nodes that it lacks, and adding a
record also creates the nodes of the names it refers to.
-/

namespace NameServer
namespace Zone
namespace Admin

variable {σ : Type} [Store σ]

/-- The largest number of records of one type that are listed. -/
def listLimit : Nat := 1000

/-- The name with these nodes, in a change. -/
def attach (name : Name) (nodes : List ZoneNode) : Change σ Name :=
  Change.ask fun _ => (name.resolve nodes).mapError .wire

/-! ## Adding -/

/-- Adds nodes below `parent`, one below the other; only the last of them gets the wildcard mark. -/
def addBelow (parent : ZoneId) (wildcard : Bool) : List Label → Change σ (List ZoneNode)
  | [] => pure []
  | label :: labels => do
    let star := wildcard && labels.isEmpty
    let id ← Store.addNode parent label star
    let nodes ← addBelow id wildcard labels
    return ⟨id, star⟩ :: nodes

/-- Marks the last of some nodes. -/
def markLast : List ZoneNode → List ZoneNode
  | [] => []
  | [node] => [{ node with wildcard := true }]
  | node :: nodes => node :: markLast nodes

/-- Creates the nodes that a name lacks and yields it fully resolved. A wildcard's deepest node is
marked, also when it was there before. The root cannot be a wildcard. -/
def addName (name : Name) (wildcard : Bool) : Change σ Name :=
  if name.isRoot then
    if wildcard then throw .wildcardRoot else attach name []
  else do
    let resolved ← Change.ask fun store => Store.resolve store name
    let missing := name.labels.take (name.labels.length - resolved.resolvedCount)
    if missing.isEmpty then
      if wildcard && !resolved.isStar then
        Store.setWildcard resolved.zoneId true
        attach name (markLast resolved.nodes)
      else return resolved
    else
      let nodes ← addBelow resolved.zoneId wildcard missing.reverse
      attach name (resolved.nodes ++ nodes)

/-- Creates the names that a payload refers to. -/
def addTargets (rdata : Rdata Name) : Change σ (Rdata Name) :=
  rdata.mapM fun target => addName target false

/-- Stores a payload at a name, both created as far as they lack nodes. -/
def addAt (name : Name) (wildcard : Bool) (rdata : Rdata Name) : Change σ Record := do
  let owner ← addName name wildcard
  let rdata ← addTargets rdata
  let _ ← Store.addRecord owner.zoneId rdata
  return .of owner.toPlain rdata

/-- Stores a payload at a name. -/
def addRecord (owner : Name) (rdata : Rdata Name) : Change σ Record :=
  addAt owner false rdata

/-- Stores what a line of a zone file says. -/
def addEntry (entry : ZoneEntry) : Change σ Record :=
  addAt entry.name entry.wildcard entry.rdata

/-! ## Looking up -/

/-- The name as far as it exists. -/
def find (store : σ) (name : Name) : Except Fault Name :=
  Store.resolve store name

/-- The name, if all of it exists. -/
def findZone (store : σ) (name : Name) : Except Fault Name := do
  let resolved ← Store.resolve store name
  if resolved.isFullyResolved then return resolved else .error (.noName name)

/-- The records at a zone for each of the given types, or of all stored types if none is given.
Types without records are left out. -/
def listRecords (store : σ) (zone : ZoneId) (types : List RecordType) :
    Except Fault (List (RecordType × List (Rdata Name))) := do
  let types := if types.isEmpty then RecordKind.all.map RecordKind.type else types
  let listed ← types.mapM fun type => do
    return (type, ← Store.records store zone type listLimit)
  return listed.filter fun entry => !entry.2.isEmpty

/-! ## Deleting -/

/-- Removes the records of a type at a zone and counts them. -/
def deleteRecords (zone : ZoneId) (type : RecordType) : Change σ Nat :=
  Store.deleteRecords zone type

/-- Removes a zone that has no children. -/
def deleteZone (zone : ZoneId) : Change σ Unit :=
  if zone = rootZone then throw .rootKept
  else do
    let children ← Change.ask fun store => .ok (Store.children store zone)
    if children.isEmpty then Store.deleteNode zone else throw (.hasChildren zone)

end Admin
end Zone
end NameServer
