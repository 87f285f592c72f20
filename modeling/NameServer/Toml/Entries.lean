import NameServer.Toml.Value

/-!
# Toml.Entries — adding to a table

Nothing is defined twice. A header opens a table that was not there or was only implied; a header in
double brackets adds a table to an array that such headers started; a dotted key adds to tables that
dotted keys made. A table between braces is complete.
-/

namespace NameServer
namespace Toml
namespace Entries

/-- The value under a key. -/
def get? (entries : Entries) (key : String) : Option Value :=
  entries.lookup key

/-- The entries with a value under a key, in the place of an earlier one. -/
def put (key : String) (value : Value) : Entries → Entries
  | [] => [(key, value)]
  | entry :: entries =>
    if entry.1 = key then (key, value) :: entries else entry :: put key value entries

/-- Changes the table at the end of a path, as `change` says for a table of its kind, and creates
the tables that are missing on the way. Of an array that headers started the path takes the last
table; a path of a `dotted` key enters no table that has a header. -/
def within (dotted : Bool) (change : TableKind → Entries → Option Entries) :
    TableKind → List String → Entries → Option Entries
  | kind, [], entries => change kind entries
  | _, key :: path, entries =>
    match entries.get? key with
    | none => do
      let kind := if dotted then .dotted else .implied
      let inner ← within dotted change kind path []
      return entries.put key (.table kind inner)
    | some (.table kind inner) =>
      if kind = .braced ∨ (dotted ∧ kind = .header) then none
      else do
        let inner ← within dotted change kind path inner
        return entries.put key (.table kind inner)
    | some (.array true items) =>
      match items.getLast? with
      | some (.table kind inner) => do
        let inner ← within dotted change kind path inner
        return entries.put key (.array true (items.dropLast ++ [.table kind inner]))
      | _ => none
    | some _ => none

/-- Adds a value under a dotted key. Tables of dotted keys take values of dotted keys only, and
tables with a header take values under a single key. -/
def assign (path : List String) (value : Value) (kind : TableKind) (entries : Entries) :
    Option Entries :=
  match path.getLast? with
  | none => none
  | some key =>
    within true
      (fun kind inner =>
        if (kind = .dotted) = (path.length = 1) ∨ (inner.get? key).isSome then none
        else some (inner.put key value))
      kind path.dropLast entries

/-- Opens the table of a header. -/
def openTable (path : List String) (entries : Entries) : Option Entries :=
  match path.getLast? with
  | none => none
  | some key =>
    within false
      (fun _ inner =>
        match inner.get? key with
        | none => some (inner.put key (.table .header []))
        | some (.table .implied children) => some (inner.put key (.table .header children))
        | some _ => none)
      .header path.dropLast entries

/-- Adds a table to the array of a header in double brackets. -/
def pushTable (path : List String) (entries : Entries) : Option Entries :=
  match path.getLast? with
  | none => none
  | some key =>
    within false
      (fun _ inner =>
        match inner.get? key with
        | none => some (inner.put key (.array true [.table .header []]))
        | some (.array true items) =>
          some (inner.put key (.array true (items ++ [.table .header []])))
        | some _ => none)
      .header path.dropLast entries

end Entries
end Toml
end NameServer
