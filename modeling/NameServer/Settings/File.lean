import NameServer.Settings.Basic
import NameServer.Toml.Document

/-!
# Settings.File — settings in a file

A settings file is a document with a table for each section. A section may also be an array, the
items of which are the values of the section in order. What is not known is ignored, but it must be
readable.
-/

namespace NameServer
namespace Settings

open Toml (Value Entries)

/-! ## Values -/

/-- The text of a value. -/
def text? : Value → Option String
  | .text text => some text
  | _ => none

/-- The number below `bound` of a value. -/
def number? (bound : Nat) : Value → Option Nat
  | .integer (some value) => if 0 ≤ value ∧ value < bound then some value.toNat else none
  | _ => none

def word16? (value : Value) : Option UInt16 :=
  (number? UInt16.size value).map UInt16.ofNat

def word32? (value : Value) : Option UInt32 :=
  (number? UInt32.size value).map UInt32.ofNat

def word64? (value : Value) : Option UInt64 :=
  (number? UInt64.size value).map UInt64.ofNat

/-- The truth value of a value. -/
def boolean? : Value → Option Bool
  | .boolean value => some value
  | _ => none

/-- The word of a value: a text, or the only key of a table if nothing stands under it. -/
def word? : Value → Option String
  | .text word => some word
  | .table _ [(word, .table _ [])] | .table _ [(word, .array _ [])] => some word
  | _ => none

/-! ## Sections -/

/-- The value of a section under each of its keys. -/
abbrev Section := List (Option Value)

/-- The values of a section with these keys. A date is a section without values. -/
def section? (keys : List String) : Value → Option Section
  | .table _ entries =>
    if Value.entriesReadable entries then some (keys.map (Entries.get? entries)) else none
  | .array _ items => some (keys.mapIdx fun i _ => items[i]?)
  | .date _ => some (keys.map fun _ => none)
  | _ => none

/-- A value of a section, or what it is without one. -/
def value? {α : Type} (read : Value → Option α) (default : α) (values : Section) (place : Nat) :
    Option α :=
  match values[place]?.join with
  | some value => read value
  | none => some default

def listenKeys : List String :=
  ["bind_address", "dns_port", "workers"]

def listen? (values : Section) : Option ListenSettings := do
  let defaults : ListenSettings := {}
  return {
    address := ← value? text? defaults.address values 0
    port := ← value? word16? defaults.port values 1
    workers := ← value? word64? defaults.workers values 2 }

def queryKeys : List String :=
  ["record_limit", "query_timeout_ms", "max_concurrent_queries"]

def query? (values : Section) : Option QuerySettings := do
  let defaults : QuerySettings := {}
  return {
    recordLimit := ← value? word64? defaults.recordLimit values 0
    timeoutMillis := ← value? word64? defaults.timeoutMillis values 1
    concurrency := ← value? word64? defaults.concurrency values 2 }

def cacheKeys : List String :=
  ["enabled", "max_entries", "max_ttl", "negative_ttl"]

def cache? (values : Section) : Option CacheSettings := do
  let defaults : CacheSettings := {}
  return {
    enabled := ← value? boolean? defaults.enabled values 0
    capacity := ← value? word64? defaults.capacity values 1
    maxTtl := ← value? word32? defaults.maxTtl values 2
    negativeTtl := ← value? word32? defaults.negativeTtl values 3 }

def databaseKeys : List String :=
  ["backend", "path", "max_connections", "busy_timeout_secs"]

def database? (values : Section) : Option DatabaseSettings := do
  let defaults : DatabaseSettings := {}
  return {
    backend := ← value? (fun v => (word? v).bind Backend.ofWord?) defaults.backend values 0
    path := ← value? text? defaults.path values 1
    connections := ← value? word32? defaults.connections values 2
    busySeconds := ← value? word64? defaults.busySeconds values 3 }

def logKeys : List String :=
  ["level", "format"]

def log? (values : Section) : Option LogSettings := do
  let defaults : LogSettings := {}
  return {
    level := ← value? text? defaults.level values 0
    format := ← value? (fun v => (word? v).bind LogFormat.ofWord?) defaults.format values 1 }

/-! ## Files -/

def sectionNames : List String :=
  ["server", "dns", "cache", "database", "logging"]

/-- The section of a document under a name; a section that is not there has no values. -/
def sectionOf? (entries : Entries) (name : String) (keys : List String) : Option Section :=
  match entries.get? name with
  | some value => section? keys value
  | none => some []

/-- The settings in a file. -/
def ofText? (text : String) : Option Settings := do
  let entries ← Toml.Document.ofText? text
  let unknown := entries.filter fun entry => !sectionNames.contains entry.1
  if !Value.entriesReadable unknown then none
  return {
    listen := ← listen? (← sectionOf? entries "server" listenKeys)
    query := ← query? (← sectionOf? entries "dns" queryKeys)
    cache := ← cache? (← sectionOf? entries "cache" cacheKeys)
    database := ← database? (← sectionOf? entries "database" databaseKeys)
    log := ← log? (← sectionOf? entries "logging" logKeys) }

end Settings
end NameServer
