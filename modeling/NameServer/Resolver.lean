import NameServer.Message.Basic
import NameServer.Name.Ancestors
import NameServer.Zone.Store

/-!
# Resolver — answering questions from a zone store

A question is answered at the deepest node on the way to its name. The answer section holds the
records found there, after one alias at most; the authority section holds the closest name servers
or the closest start of authority; the additional section holds the addresses of the names that
both refer to. Data that does not exist is no error.
-/

namespace NameServer
namespace Resolver

open Zone (Store)

variable {σ : Type} [Store σ]

/-- Records looked up for one zone and type, unless the settings say otherwise. -/
def defaultLimit : Nat := 13

/-! ## Looking up -/

/-- The first records of a type at a zone, as records of `owner`. -/
def recordsAt (store : σ) (limit : Nat) (zone : ZoneId) (owner : Name) (type : RecordType) :
    Except Fault (List Record) := do
  return (← Store.records store zone type limit).map (Record.of owner)

/-- Whether a zone has a record of a type. -/
def hasRecords (store : σ) (zone : ZoneId) (type : RecordType) : Except Fault Bool := do
  return !(← Store.records store zone type 1).isEmpty

/-- The zones on the way from the deepest node of a name up to the root, with their names. -/
def levels (name : Name) : List (Name × ZoneId) :=
  name.ancestors.map (fun level => (level.1.toPlain, level.2)) ++ [(.root, rootZone)]

/-- The records of the first level that has any, looking for the types in turn at each level. -/
def firstOf (store : σ) (limit : Nat) (types : List RecordType) :
    List (Name × ZoneId) → Except Fault (List Record)
  | [] => .ok []
  | (owner, zone) :: levels => do
    let rec atLevel : List RecordType → Except Fault (List Record)
      | [] => .ok []
      | type :: types => do
        let found ← recordsAt store limit zone owner type
        if found.isEmpty then atLevel types else return found
    let found ← atLevel types
    if found.isEmpty then firstOf store limit types levels else return found

/-- Records behind others, without those that are there already. -/
def pushUnique (records : List Record) : List Record → List Record
  | [] => records
  | record :: found =>
    if records.any fun other => other.SameAs record then pushUnique records found
    else pushUnique (records ++ [record]) found

/-! ## The answer -/

/-- The distinct records of several types at a zone. -/
def merged (store : σ) (limit : Nat) (zone : ZoneId) (owner : Name) (records : List Record) :
    List RecordType → Except Fault (List Record)
  | [] => .ok records
  | type :: types => do
    let found ← recordsAt store limit zone owner type
    merged store limit zone owner (pushUnique records found) types

/-- The records of a type at a resolved name, as records of `owner`. A name that does not exist in
full has records only if its deepest node is a wildcard, and never of any type at once. -/
def recordSet (store : σ) (limit : Nat) (name owner : Name) (type : RecordType) :
    Except Fault (List Record) :=
  if type = .any then
    if name.isFullyResolved then
      merged store limit name.zoneId owner [] (RecordKind.ofAny.map RecordKind.type)
    else .ok []
  else if type.kind?.isNone then .ok []
  else if !name.isFullyResolved &&
      (name.resolvedCount == 0 || !Store.isWildcard store name.zoneId) then .ok []
  else recordsAt store limit name.zoneId owner type

/-- The alias at a resolved name and the records of a type that it leads to, after one hop. -/
def followAlias (store : σ) (limit : Nat) (name owner : Name) (type : RecordType) :
    Except Fault (List Record) := do
  match (← recordSet store limit name owner .cname).head? with
  | none => return []
  | some hop =>
    match hop.rdata.targets.head? with
    | none => return [hop]
    | some target =>
      -- A target that came out of a store may know its zones already.
      let target ← if target.isResolved then pure target else Store.resolve store target
      let found ← recordSet store limit target target.toPlain type
      return pushUnique [hop] found

/-- The answer section for a resolved name. -/
def answerSection (store : σ) (limit : Nat) (name owner : Name) (type : RecordType) :
    Except Fault (List Record) := do
  let answer ← recordSet store limit name owner type
  if answer.isEmpty && type != .cname && type != .any then
    followAlias store limit name owner type
  else return answer

/-! ## Authority -/

/-- The authority section for a resolved name. Without an answer it is the closest start of
authority, or the name servers of the deepest node if that is a delegation; with one it is the
closest name servers. -/
def authoritySection (store : σ) (limit : Nat) (name : Name) (noAnswer : Bool) :
    Except Fault (List Record) :=
  if name.isStar && noAnswer then firstOf store limit [.soa] (levels name)
  else if noAnswer then do
    let cut ←
      if name.resolvedCount = 0 then pure []
      else recordsAt store limit name.zoneId name.resolvedPart.toPlain .ns
    -- Name servers beside a start of authority are those of the zone itself, not of a cut.
    if cut.isEmpty then firstOf store limit [.soa] (levels name)
    else if ← hasRecords store name.zoneId .soa then firstOf store limit [.soa] (levels name)
    else return cut
  else if name.resolvedCount = 0 then recordsAt store limit rootZone .root .ns
  else if name.isFullyResolved || name.isStar then firstOf store limit [.ns] (levels name)
  else firstOf store limit [.soa, .ns] (levels name)

/-- Whether the first level with a start of authority or name servers has a start of authority. -/
def isAuthority (store : σ) : List (Name × ZoneId) → Except Fault Bool
  | [] => .ok false
  | (_, zone) :: levels => do
    if ← hasRecords store zone .soa then return true
    else if ← hasRecords store zone .ns then return false
    else isAuthority store levels

/-- Whether the server speaks with authority for a resolved name. -/
def isAuthoritative (store : σ) (name : Name) : Except Fault Bool :=
  isAuthority store (levels name)

/-! ## Additional records -/

/-- The distinct names that records refer to, in the order of their first mention. Addresses and
aliases do not count. -/
def mentioned (records : List Record) : List Name :=
  let targets := (records.filter fun record => record.type ≠ .a ∧ record.type ≠ .cname).flatMap
    fun record => record.rdata.targets
  targets.foldl (fun names target =>
    if names.any fun name => name.SameAs target then names else names ++ [target]) []

/-- Adds the addresses of names behind records. -/
def glueFrom (store : σ) (limit : Nat) (records : List Record) :
    List Name → Except Fault (List Record)
  | [] => .ok records
  | target :: targets => do
    let resolved ← if target.isResolved then pure target else Store.resolve store target
    if !resolved.isFullyResolved || resolved.isRoot then glueFrom store limit records targets
    else
      let found ← recordsAt store limit resolved.zoneId resolved.toPlain .a
      glueFrom store limit (pushUnique records found) targets

/-- The additional section: the addresses of the names that the other two sections refer to. -/
def additionalSection (store : σ) (limit : Nat) (answer authority : List Record) :
    Except Fault (List Record) :=
  glueFrom store limit [] (mentioned (answer ++ authority))

/-! ## The response -/

/-- The response to a query. -/
def respond (store : σ) (limit : Nat) (query : Message) : Except Fault Message := do
  let question := query.question
  let name ← Store.resolve store question.name
  let answer ← answerSection store limit name question.name question.type
  let authority ← authoritySection store limit name answer.isEmpty
  let authoritative ← isAuthoritative store name
  let exists? := name.isFullyResolved || name.isStar
  let rcode := if exists? || !authoritative then .noError else .nameError
  let additional ← additionalSection store limit answer authority
  return {
    header := { Header.responseTo query.header with authoritative, rcode }
    question, answer, authority, additional }

end Resolver
end NameServer
