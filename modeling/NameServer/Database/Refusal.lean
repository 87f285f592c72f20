/-!
# Database.Refusal — why a database refuses

A database has a number and a wording for each of its refusals.
-/

namespace NameServer
namespace Database

/-- Why a database refuses what it is asked for. -/
inductive Refusal
  /-- It has no table for what is asked. -/
  | noTable (name : String)
  /-- It may only be read. -/
  | readOnly
  /-- Its file cannot be opened. -/
  | cannotOpen
  /-- Its file can be opened but not read. -/
  | unreadable
  /-- Its file does not keep what is written. -/
  | notKept
  /-- The file that its own takes its permissions from is not there. -/
  | noPattern
  /-- Its file holds something else. -/
  | notDatabase
  /-- There is no file system of this name. -/
  | noSystem (name : String)
  /-- The authority of a URI is another machine. -/
  | authority (text : String)
  /-- A URI asks for a mode of access or of caching that there is none of. -/
  | noMode (kind value : String)
  /-- A URI asks for more access than there is. -/
  | modeNotAllowed (value : String)
  deriving DecidableEq, Repr

namespace Refusal

/-- The number of a refusal. -/
def code : Refusal → Nat
  | noTable _ | noSystem _ | authority _ | noMode _ _ => 1
  | modeNotAllowed _ => 3
  | readOnly => 8
  | cannotOpen => 14
  | notDatabase => 26
  | unreadable => 266
  | notKept => 1034
  | noPattern => 1802

/-- The words of a refusal. -/
def text : Refusal → String
  | noTable name => s!"no such table: {name}"
  | readOnly => "attempt to write a readonly database"
  | cannotOpen => "unable to open database file"
  | unreadable | notKept | noPattern => "disk I/O error"
  | notDatabase => "file is not a database"
  | noSystem name => s!"no such vfs: {name}"
  | authority text => s!"invalid uri authority: {text}"
  | noMode kind value => s!"no such {kind} mode: {value}"
  | modeNotAllowed value => s!"access mode not allowed: {value}"

/-- The full wording. -/
def message (refusal : Refusal) : String :=
  s!"error returned from database: (code: {refusal.code}) {refusal.text}"

end Refusal
end Database
end NameServer
