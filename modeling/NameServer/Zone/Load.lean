import NameServer.Text.Lines
import NameServer.Zone.Admin

/-!
# Zone.Load — reading a zone file into a store

A load goes through the lines of a zone file. A line that is refused is reported with its number and
the load goes on; it stops when the store fails or when a line is not text, and keeps what it has
loaded by then.
-/

namespace NameServer
namespace Zone

/-- A line that was not loaded, and why. -/
structure RejectedLine where
  line : Nat
  cause : Fault
  deriving DecidableEq

/-- What became of the lines of a zone file. -/
structure LoadReport where
  loaded : Nat
  rejected : List RejectedLine
  deriving DecidableEq

namespace Load

variable {σ : Type} [Store σ]

/-- What one line does to a store: nothing for a comment, else one more record. -/
def line (text : String) : Change σ (Option Record) :=
  match ZoneEntry.ofLine text with
  | .error cause => throw (.entry cause)
  | .ok none => return none
  | .ok (some entry) => some <$> Admin.addEntry entry

/-- Loads the lines from number `number` on. -/
def linesFrom (number : Nat) (report : LoadReport) : List String → Change σ LoadReport
  | [] => return report
  | text :: rest => do
    let report ← tryCatch
      (do
        match ← line text with
        | none => return report
        | some _ => return { report with loaded := report.loaded + 1 })
      (fun fault =>
        if fault.stopsLoad then throw fault
        else return { report with rejected := report.rejected ++ [⟨number, fault⟩] })
    linesFrom (number + 1) report rest

/-- Loads lines. -/
def lines (texts : List String) : Change σ LoadReport :=
  linesFrom 1 ⟨0, []⟩ texts

/-- Loads a text. -/
def text (s : String) : Change σ LoadReport :=
  lines ((Text.lines s.toList).map String.ofList)

/-- The texts of the first lines, up to one that is not text, and the flaw of that one. -/
def readable : List (List UInt8) → List String × Option Text.Flaw
  | [] => ([], none)
  | line :: rest =>
    match Text.decode line with
    | .error flaw => ([], some flaw)
    | .ok s =>
      let (texts, flaw?) := readable rest
      (s :: texts, flaw?)

/-- Loads a zone file. Of a file that is not text it loads the lines in front of the first that is
not. -/
def file (bytes : List UInt8) : Change σ LoadReport := do
  let (texts, flaw?) := readable (Text.byteLines bytes)
  let report ← lines texts
  match flaw? with
  | some flaw => throw (.notText flaw)
  | none => return report

end Load
end Zone
end NameServer
