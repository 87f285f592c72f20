import NameServer.Name.Basic

/-!
# Name.Ancestors — the zones above a resolved name

From the deepest node of a resolved name the server climbs node by node toward the root. Each level
is the name that the node has within the queried name, with the number of the node.
-/

namespace NameServer
namespace Name

/-- The levels from `name` upward, at most `steps` of them; the root is no level. -/
def climb : Nat → Name → List (Name × ZoneId)
  | 0, _ => []
  | steps + 1, name =>
    match name.parent? with
    | none => []
    | some up => (name, name.zoneId) :: climb steps up

/-- The levels of the nodes of a name, the deepest first. -/
def ancestors (name : Name) : List (Name × ZoneId) :=
  climb name.resolvedCount name.resolvedPart

end Name
end NameServer
