import NameServer.Zone.Store

/-!
# Zone.Unprepared — zones without tables

A store in a database that has not been made ready for zones. It knows the root, holds nothing and
fails at everything that it would have to look up or write down.
-/

namespace NameServer
namespace Zone

/-- A store without tables. -/
structure Unprepared where
  deriving DecidableEq, Repr

namespace Unprepared

/-- The failure of every operation. -/
def failure : Fault := .database (.noTable "zone")

/-- The name of the root; no other is found. -/
def resolve (name : Name) : Except Fault Name :=
  if name.isRoot then (name.resolve []).mapError .wire else .error failure

/-- The name of the root. -/
def nameOf? (zone : ZoneId) : Except Fault (Option Name) :=
  if zone = rootZone then some <$> resolve .root else .error failure

instance : Store Unprepared where
  resolve := fun _ name => resolve name
  records := fun _ _ _ _ => .error failure
  isWildcard := fun _ _ => false
  nameOf? := fun _ zone => nameOf? zone
  children := fun _ _ => []
  statistics := fun _ => .error failure
  addNode := fun _ _ _ => throw failure
  addRecord := fun _ _ => throw failure
  setWildcard := fun _ _ => throw failure
  deleteRecords := fun _ _ => throw failure
  deleteNode := fun _ => throw failure

end Unprepared
end Zone
end NameServer
