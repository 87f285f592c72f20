import NameServer.Database.Refusal
import NameServer.Name.Basic
import NameServer.ZoneFile.Error

/-!
# Fault — what goes wrong around a zone store

A fault is a cause from the codec or from a line of text, or one of the store's own. Its kind is
what callers decide by, its message is what people read.
-/

namespace NameServer

/-- The kinds of fault. -/
inductive Fault.Kind
  | wire
  | store
  | notFound
  | record
  | inUse
  | input
  deriving DecidableEq, Repr

/-- The causes for which a store, its administration or a load gives up. -/
inductive Fault
  /-- A name or a message breaks a rule of the codec. -/
  | wire (cause : WireError)
  /-- A stored record refers to a zone without a name. -/
  | dangling (zone : ZoneId)
  /-- The name of a stored node breaks the limits of names. -/
  | corruptName (zone : ZoneId) (cause : WireError)
  /-- The way up from a stored node is too long. -/
  | brokenPath (zone : ZoneId)
  | noZone (zone : ZoneId)
  | noName (name : Name)
  /-- A record in text is refused. -/
  | entry (cause : EntryError)
  | wildcardRoot
  | labelTaken (parent : ZoneId) (label : Label)
  | unresolvedTargets
  | unresolvedTarget (target : Name)
  | rootKept
  | hasChildren (zone : ZoneId)
  | hasChildCount (zone : ZoneId) (count : Nat)
  | isReferenced (zone : ZoneId)
  | hasReferenceCount (zone : ZoneId) (count : Nat)
  /-- A line of the input is not text. -/
  | notText (flaw : Text.Flaw)
  /-- The database refuses what it is asked for. -/
  | database (cause : Database.Refusal)
  deriving DecidableEq

namespace Fault

/-- The kind of a cause. -/
def kind : Fault → Kind
  | wire _ => .wire
  | dangling _ | corruptName _ _ | brokenPath _ | database _ => .store
  | noZone _ | noName _ => .notFound
  | entry _ | wildcardRoot | labelTaken _ _ | unresolvedTargets | unresolvedTarget _ => .record
  | rootKept | hasChildren _ | hasChildCount _ _ | isReferenced _ | hasReferenceCount _ _ => .inUse
  | notText _ => .input

/-- The words that open the message of a kind; a fault of the codec brings its own. -/
def Kind.opening : Kind → String
  | .wire => ""
  | .store => "Zone store failure: "
  | .notFound => "Resource not found: "
  | .record => "Invalid record: "
  | .inUse => "Zone in use: "
  | .input => "I/O error: "

/-- The wording of a cause. -/
def detail : Fault → String
  | wire cause => cause.message
  | dangling zone => s!"record references missing zone {zone}"
  | corruptName zone cause => s!"corrupt data at zone {zone}: {cause.message}"
  | brokenPath zone => s!"corrupt data at zone {zone}: parent chain does not reach the root"
  | noZone zone => s!"zone {zone} does not exist"
  | noName name => s!"zone {name.text} does not exist"
  | entry cause => cause.detail
  | wildcardRoot => "the root cannot be a wildcard zone"
  | labelTaken parent label => s!"zone {parent} already has a child labelled '{label.text}'"
  | unresolvedTargets => "target names must be resolved before they are stored"
  | unresolvedTarget target => s!"{target.text} must be resolved before it is stored"
  | rootKept => "the root zone cannot be deleted"
  | hasChildren zone => s!"zone {zone} has child zones"
  | hasChildCount zone count => s!"zone {zone} has {count} child zone(s)"
  | isReferenced zone => s!"zone {zone} is referenced by other records"
  | hasReferenceCount zone count => s!"zone {zone} is referenced by {count} record(s)"
  | notText flaw => flaw.message
  | database cause => cause.message

/-- The full message. -/
def message (fault : Fault) : String :=
  fault.kind.opening ++ fault.detail

/-- Whether the input itself is to blame, and not the server's data. -/
def isMalformedInput (fault : Fault) : Bool :=
  fault.kind == .wire

/-- Whether a load of many lines has to stop at the fault. -/
def stopsLoad (fault : Fault) : Bool :=
  fault.kind == .store || fault.kind == .input

end Fault
end NameServer
