import Std.Data.TreeMap
import NameServer.Zone.Store

/-!
# Zone.Tree — zones as maps

Nodes are found by their number and, through an index, by their place: the parent and the folded
label. Records are kept with the zone that owns them and refer to other zones by number; the names
they refer to are put together anew whenever they are read.
-/

namespace NameServer
namespace Zone

/-- A node, with the zone above it. -/
structure Node where
  label : Label
  parent : ZoneId
  wildcard : Bool
  deriving DecidableEq

/-- Where a node hangs: the zone above it and its folded label. -/
abbrev Place := ZoneId × List UInt8

/-- Places in order of the zone above, then of the label. -/
def comparePlace : Place → Place → Ordering :=
  compareLex (compareOn Prod.fst) (compareOn Prod.snd)

instance : Std.TransCmp comparePlace :=
  inferInstanceAs (Std.TransCmp (compareLex _ _))

instance : Std.LawfulEqCmp comparePlace where
  eq_of_compare {p q} h := by
    unfold comparePlace at h
    rw [compareLex_eq_eq] at h
    exact Prod.ext (Std.LawfulEqOrd.eq_of_compare h.1) (Std.LawfulEqOrd.eq_of_compare h.2)

/-- The place of a node. -/
def Node.place (node : Node) : Place :=
  (node.parent, node.label.folded)

/-- A zone tree as maps. The numbers that are given out next stand for 64-bit numbers and have no
bound here; no tree gets so large that they would wrap. -/
structure Tree where
  nodes : Std.TreeMap ZoneId Node
  index : Std.TreeMap Place ZoneId comparePlace
  records : Std.TreeMap ZoneId (List (Rdata ZoneId))
  nextZone : ZoneId
  nextRecord : Nat
  startedAt : Timestamp

namespace Tree

/-- A tree with nothing below the root and no record. -/
def empty (startedAt : Timestamp) : Tree :=
  ⟨∅, ∅, ∅, rootZone + 1, 1, startedAt⟩

/-! ## Nodes -/

/-- Whether a zone is the root or a node. -/
def hasZone (tree : Tree) (zone : ZoneId) : Bool :=
  zone == rootZone || tree.nodes.contains zone

/-- Whether a node exists and is a wildcard. -/
def isWildcard (tree : Tree) (zone : ZoneId) : Bool :=
  match tree.nodes[zone]? with
  | some node => node.wildcard
  | none => false

/-- The child of a zone with a label, ASCII case aside. -/
def child? (tree : Tree) (parent : ZoneId) (label : Label) : Option ZoneId :=
  tree.index[(parent, label.folded)]?

/-- The nodes below `parent` that labels lead through, the first label next to `parent`. -/
def walk (tree : Tree) (parent : ZoneId) : List Label → List ZoneNode
  | [] => []
  | label :: labels =>
    match tree.child? parent label with
    | none => []
    | some id => ⟨id, tree.isWildcard id⟩ :: tree.walk id labels

/-- The name with the nodes of its last labels, as far as they exist. -/
def resolve (tree : Tree) (name : Name) : Except Fault Name :=
  (name.resolve (tree.walk rootZone name.labels.reverse)).mapError .wire

/-- The nodes from a zone up to the root, without the root; none if the way does not end there
within `steps`. -/
def path? (tree : Tree) : Nat → ZoneId → Option (List (ZoneId × Node))
  | steps, zone =>
    if zone = rootZone then some []
    else
      match steps with
      | 0 => none
      | steps + 1 => do
        let node ← tree.nodes[zone]?
        let rest ← tree.path? steps node.parent
        return (zone, node) :: rest

/-- The fully resolved name that the nodes of a way up spell. -/
def nameOfPath (path : List (ZoneId × Node)) : Except WireError Name := do
  let name ← Name.ofLabels (path.map fun step => step.2.label)
  name.resolve (path.map fun step => ⟨step.1, step.2.wildcard⟩).reverse

/-- The fully resolved name of a node, unless it breaks the limits of names. A way up visits no node
twice, so it is no longer than the number of nodes. -/
def nameOf? (tree : Tree) (zone : ZoneId) : Option Name :=
  (tree.path? tree.nodes.size zone).bind fun path => (nameOfPath path).toOption

/-- The children of a zone in the order of their numbers. -/
def children (tree : Tree) (zone : ZoneId) : List Child :=
  (tree.nodes.toList.filter fun entry => entry.2.parent = zone).map fun entry =>
    ⟨entry.1, entry.2.label, entry.2.wildcard⟩

/-! ## Records -/

/-- The records at a zone in the order in which they were added. -/
def recordsAt (tree : Tree) (zone : ZoneId) : List (Rdata ZoneId) :=
  tree.records.getD zone []

/-- A stored record with the names of the zones it refers to. -/
def withNames (tree : Tree) (rdata : Rdata ZoneId) : Except Fault (Rdata Name) :=
  rdata.mapM fun zone =>
    match tree.nameOf? zone with
    | some name => .ok name
    | none => .error (.dangling zone)

/-- The first records of a type at a zone. -/
def firstRecords (tree : Tree) (zone : ZoneId) (type : RecordType) (limit : Nat) :
    Except Fault (List (Rdata Name)) :=
  (((tree.recordsAt zone).filter fun rdata => rdata.type = type).take limit).mapM tree.withNames

/-- Whether a record at another zone refers to a zone. -/
def isReferenced (tree : Tree) (zone : ZoneId) : Bool :=
  tree.records.toList.any fun entry =>
    entry.1 != zone && entry.2.any fun rdata => rdata.references.contains zone

/-- All records of the tree. -/
def allRecords (tree : Tree) : List (Rdata ZoneId) :=
  tree.records.toList.flatMap Prod.snd

/-- How much is stored. -/
def statistics (tree : Tree) : Statistics :=
  .ofCounts tree.startedAt tree.nodes.size fun kind =>
    tree.allRecords.countP fun rdata => rdata.kind = kind

/-! ## Changes -/

/-- A new child of a zone. Its label must not be taken, ASCII case aside. -/
def addNode (tree : Tree) (parent : ZoneId) (label : Label) (wildcard : Bool) :
    Except Fault (ZoneId × Tree) :=
  if !tree.hasZone parent then .error (.noZone parent)
  else
    match tree.child? parent label with
    | some _ => .error (.labelTaken parent label)
    | none =>
      let id := tree.nextZone
      let node : Node := ⟨label, parent, wildcard⟩
      .ok (id, { tree with
        nodes := tree.nodes.insert id node
        index := tree.index.insert node.place id
        nextZone := id + 1 })

/-- One more record at a zone. Records are numbered through the whole tree. -/
def addRecord (tree : Tree) (zone : ZoneId) (rdata : Rdata Name) : Except Fault (Nat × Tree) :=
  if !tree.hasZone zone then .error (.noZone zone)
  else if !rdata.references.all Name.isFullyResolved then .error .unresolvedTargets
  else
    .ok (tree.nextRecord, { tree with
      records := tree.records.insert zone (tree.recordsAt zone ++ [rdata.map Name.zoneId])
      nextRecord := tree.nextRecord + 1 })

/-- Sets or clears the mark of a node. -/
def setWildcard (tree : Tree) (zone : ZoneId) (wildcard : Bool) : Except Fault (Unit × Tree) :=
  match tree.nodes[zone]? with
  | none => .error (.noZone zone)
  | some node => .ok ((), { tree with nodes := tree.nodes.insert zone { node with wildcard } })

/-- Removes the records of a type at a zone. -/
def deleteRecords (tree : Tree) (zone : ZoneId) (type : RecordType) : Nat × Tree :=
  match tree.records[zone]? with
  | none => (0, tree)
  | some records =>
    let kept := records.filter fun rdata => rdata.type ≠ type
    (records.length - kept.length, { tree with records := tree.records.insert zone kept })

/-- Removes a node with its records. -/
def deleteNode (tree : Tree) (zone : ZoneId) : Except Fault (Unit × Tree) :=
  if zone = rootZone then .error .rootKept
  else if !(tree.children zone).isEmpty then .error (.hasChildren zone)
  else if tree.isReferenced zone then .error (.isReferenced zone)
  else
    match tree.nodes[zone]? with
    | none => .error (.noZone zone)
    | some node =>
      .ok ((), { tree with
        nodes := tree.nodes.erase zone
        index := tree.index.erase node.place
        records := tree.records.erase zone })

instance : Store Tree where
  resolve := resolve
  records := firstRecords
  isWildcard := isWildcard
  nameOf? := fun tree zone => .ok (tree.nameOf? zone)
  children := children
  statistics := fun tree => .ok tree.statistics
  addNode := fun parent label wildcard => Change.step fun tree => tree.addNode parent label wildcard
  addRecord := fun zone rdata => Change.step fun tree => tree.addRecord zone rdata
  setWildcard := fun zone wildcard => Change.step fun tree => tree.setWildcard zone wildcard
  deleteRecords := fun zone type => Change.step fun tree => .ok (tree.deleteRecords zone type)
  deleteNode := fun zone => Change.step fun tree => tree.deleteNode zone

end Tree
end Zone
end NameServer
