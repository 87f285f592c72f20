import NameServer.Zone.Store

/-!
# Zone.Relations — zones as rows

All nodes stand in one relation and all records in another, in the order in which they were added.
Every question is a search through rows. Labels are compared without ASCII case, and only up to a
zero byte. Records are numbered for each type on its own, numbers are never given again, and a way
up of more than `maxDepth` nodes counts as broken.
-/

namespace NameServer
namespace Zone

/-- The row of a node. -/
structure ZoneRow where
  id : ZoneId
  label : Label
  parent : ZoneId
  wildcard : Bool
  deriving DecidableEq

/-- The node of a row, as a name carries it. -/
def ZoneRow.node (row : ZoneRow) : ZoneNode :=
  ⟨row.id, row.wildcard⟩

/-- The row of a record. -/
structure RecordRow where
  id : Nat
  zone : ZoneId
  rdata : Rdata ZoneId
  deriving DecidableEq

/-- A zone tree as rows. -/
structure Relations where
  zones : List ZoneRow
  records : List RecordRow
  lastZone : ZoneId
  lastRecord : RecordKind → Nat
  startedAt : Timestamp

namespace Relations

/-- The largest number of nodes on a way up that is followed. -/
def maxDepth : Nat := 128

/-- No row. -/
def empty (startedAt : Timestamp) : Relations :=
  ⟨[], [], rootZone, fun _ => 0, startedAt⟩

/-! ## Nodes -/

/-- The row of a node. -/
def row? (rows : Relations) (zone : ZoneId) : Option ZoneRow :=
  rows.zones.find? fun row => row.id = zone

/-- Whether a zone is the root or a node. -/
def hasZone (rows : Relations) (zone : ZoneId) : Bool :=
  zone == rootZone || (rows.row? zone).isSome

/-- Whether a node exists and is a wildcard. -/
def isWildcard (rows : Relations) (zone : ZoneId) : Bool :=
  match rows.row? zone with
  | some row => row.wildcard
  | none => false

/-- What rows compare of a label: its size, and its folded bytes in front of the first zero byte. -/
def labelKey (label : Label) : Nat × List UInt8 :=
  (label.size, label.folded.takeWhile (· ≠ 0))

/-- The row of the child of a zone with a label. -/
def child? (rows : Relations) (parent : ZoneId) (label : Label) : Option ZoneRow :=
  rows.zones.find? fun row => row.parent = parent ∧ labelKey row.label = labelKey label

/-- The nodes below `parent` that labels lead through, the first label next to `parent`. -/
def walk (rows : Relations) (parent : ZoneId) : List Label → List ZoneNode
  | [] => []
  | label :: labels =>
    match rows.child? parent label with
    | none => []
    | some row => row.node :: rows.walk row.id labels

/-- The name with the nodes of its last labels, as far as they exist. -/
def resolve (rows : Relations) (name : Name) : Except Fault Name :=
  (name.resolve (rows.walk rootZone name.labels.reverse)).mapError .wire

/-- At most `steps` rows from a node upward. -/
def chain (rows : Relations) : Nat → ZoneId → List ZoneRow
  | 0, _ => []
  | steps + 1, zone =>
    match rows.row? zone with
    | none => []
    | some row => row :: rows.chain steps row.parent

/-- The fully resolved name of a node. -/
def nameOf? (rows : Relations) (zone : ZoneId) : Except Fault (Option Name) :=
  if zone = rootZone then do
    return some (← (Name.root.resolve []).mapError .wire)
  else
    let chain := rows.chain maxDepth zone
    match chain.getLast? with
    | none => .ok none
    | some last =>
      if last.parent ≠ rootZone then .error (.brokenPath zone)
      else
        let name := do
          let name ← Name.ofLabels (chain.map ZoneRow.label)
          name.resolve (chain.map ZoneRow.node).reverse
        (name.map some).mapError (.corruptName zone)

/-- The children of a zone in the order of their numbers. -/
def children (rows : Relations) (zone : ZoneId) : List Child :=
  (rows.zones.filter fun row => row.parent = zone).map fun row => ⟨row.id, row.label, row.wildcard⟩

/-! ## Records -/

/-- A stored record with the names of the zones it refers to. -/
def withNames (rows : Relations) (rdata : Rdata ZoneId) : Except Fault (Rdata Name) :=
  rdata.mapM fun zone => do
    match ← rows.nameOf? zone with
    | some name => return name
    | none => .error (.dangling zone)

/-- The rows of the records of a type at a zone. -/
def recordRows (rows : Relations) (zone : ZoneId) (type : RecordType) : List RecordRow :=
  rows.records.filter fun row => row.zone = zone ∧ row.rdata.type = type

/-- The first records of a type at a zone. -/
def firstRecords (rows : Relations) (zone : ZoneId) (type : RecordType) (limit : Nat) :
    Except Fault (List (Rdata Name)) :=
  ((rows.recordRows zone type).take limit).mapM fun row => rows.withNames row.rdata

/-- How many records at other zones refer to a zone. -/
def referenceCount (rows : Relations) (zone : ZoneId) : Nat :=
  rows.records.countP fun row => row.zone ≠ zone ∧ zone ∈ row.rdata.references

/-- How much is stored. -/
def statistics (rows : Relations) : Statistics :=
  .ofCounts rows.startedAt rows.zones.length fun kind =>
    rows.records.countP fun row => row.rdata.kind = kind

/-! ## Changes -/

/-- A new child of a zone. Its label must not be taken. -/
def addNode (rows : Relations) (parent : ZoneId) (label : Label) (wildcard : Bool) :
    Except Fault (ZoneId × Relations) :=
  if !rows.hasZone parent then .error (.noZone parent)
  else if (rows.child? parent label).isSome then .error (.labelTaken parent label)
  else
    let id := rows.lastZone + 1
    .ok (id, { rows with zones := rows.zones ++ [⟨id, label, parent, wildcard⟩], lastZone := id })

/-- The number of a fully resolved name. -/
def reference (target : Name) : Except Fault ZoneId :=
  if target.isFullyResolved then .ok target.zoneId else .error (.unresolvedTarget target)

/-- One more record at a zone. -/
def addRecord (rows : Relations) (zone : ZoneId) (rdata : Rdata Name) :
    Except Fault (Nat × Relations) :=
  if !rows.hasZone zone then .error (.noZone zone)
  else do
    let stored ← rdata.mapM reference
    let id := rows.lastRecord stored.kind + 1
    return (id, { rows with
      records := rows.records ++ [⟨id, zone, stored⟩]
      lastRecord := fun kind => if kind = stored.kind then id else rows.lastRecord kind })

/-- Sets or clears the mark of a node. -/
def setWildcard (rows : Relations) (zone : ZoneId) (wildcard : Bool) :
    Except Fault (Unit × Relations) :=
  if (rows.row? zone).isNone then .error (.noZone zone)
  else
    .ok ((), { rows with
      zones := rows.zones.map fun row => if row.id = zone then { row with wildcard } else row })

/-- Removes the records of a type at a zone. -/
def deleteRecords (rows : Relations) (zone : ZoneId) (type : RecordType) : Nat × Relations :=
  ((rows.recordRows zone type).length, { rows with
    records := rows.records.filter fun row => !(row.zone = zone ∧ row.rdata.type = type) })

/-- Removes a node with its records. -/
def deleteNode (rows : Relations) (zone : ZoneId) : Except Fault (Unit × Relations) :=
  if zone = rootZone then .error .rootKept
  else if (rows.children zone).length ≠ 0 then
    .error (.hasChildCount zone (rows.children zone).length)
  else if rows.referenceCount zone ≠ 0 then
    .error (.hasReferenceCount zone (rows.referenceCount zone))
  else if (rows.row? zone).isNone then .error (.noZone zone)
  else
    .ok ((), { rows with
      zones := rows.zones.filter fun row => row.id ≠ zone
      records := rows.records.filter fun row => row.zone ≠ zone })

instance : Store Relations where
  resolve := resolve
  records := firstRecords
  isWildcard := isWildcard
  nameOf? := nameOf?
  children := children
  statistics := fun rows => .ok rows.statistics
  addNode := fun parent label wildcard => Change.step fun rows => rows.addNode parent label wildcard
  addRecord := fun zone rdata => Change.step fun rows => rows.addRecord zone rdata
  setWildcard := fun zone wildcard => Change.step fun rows => rows.setWildcard zone wildcard
  deleteRecords := fun zone type => Change.step fun rows => .ok (rows.deleteRecords zone type)
  deleteNode := fun zone => Change.step fun rows => rows.deleteNode zone

end Relations
end Zone
end NameServer
