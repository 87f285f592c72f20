import NameServer.Zone.Relations

/-!
# Zone.ReadOnly — zones that cannot be changed

A store of rows that answers every question and refuses every change. What a change asks for is
looked at first, so it may be refused for its own sake.
-/

namespace NameServer
namespace Zone

/-- Rows that stay as they are. -/
structure ReadOnly where
  rows : Relations

namespace ReadOnly

/-- The refusal of a change. -/
def refusal : Fault := .database .readOnly

/-- Why no child is added to a zone. -/
def nodeRefusal (store : ReadOnly) (parent : ZoneId) : Fault :=
  if store.rows.hasZone parent then refusal else .noZone parent

/-- Why no record is added at a zone. -/
def recordRefusal (store : ReadOnly) (zone : ZoneId) (rdata : Rdata Name) : Fault :=
  if store.rows.hasZone zone then
    match rdata.references.find? fun name => !name.isFullyResolved with
    | some name => .unresolvedTarget name
    | none => refusal
  else .noZone zone

/-- What becomes of the removal of records; of a type that is never stored there are none. -/
def deleteRecords (type : RecordType) : Except Fault Nat :=
  if type.kind?.isSome then .error refusal else .ok 0

/-- Why a node is not removed. -/
def deletionRefusal (store : ReadOnly) (zone : ZoneId) : Fault :=
  if zone = rootZone then .rootKept
  else if (store.rows.children zone).length ≠ 0 then
    .hasChildCount zone (store.rows.children zone).length
  else if store.rows.referenceCount zone ≠ 0 then
    .hasReferenceCount zone (store.rows.referenceCount zone)
  else refusal

instance : Store ReadOnly where
  resolve := fun store name => store.rows.resolve name
  records := fun store zone type limit => store.rows.firstRecords zone type limit
  isWildcard := fun store zone => store.rows.isWildcard zone
  nameOf? := fun store zone => store.rows.nameOf? zone
  children := fun store zone => store.rows.children zone
  statistics := fun store => .ok store.rows.statistics
  addNode := fun parent _ _ => Change.ask fun store => .error (store.nodeRefusal parent)
  addRecord := fun zone rdata => Change.ask fun store => .error (store.recordRefusal zone rdata)
  setWildcard := fun _ _ => Change.ask fun _ => .error refusal
  deleteRecords := fun _ type => Change.ask fun _ => deleteRecords type
  deleteNode := fun zone => Change.ask fun store => .error (store.deletionRefusal zone)

end ReadOnly
end Zone
end NameServer
