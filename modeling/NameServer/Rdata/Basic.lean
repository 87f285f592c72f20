import NameServer.Address
import NameServer.Name.Basic

/-!
# Rdata.Basic — typed record payloads

A payload is one of the six stored types. It is written over what it refers to: over names in
messages, over zone numbers in a store. Each payload has its own TTL; that of an SOA is its minimum.
-/

namespace NameServer

/-- The start of authority of a zone. -/
structure Soa (ν : Type) where
  mname : ν
  rname : ν
  serial : UInt32
  refresh : UInt32
  retry : UInt32
  expire : UInt32
  minimum : UInt32
  deriving DecidableEq, Repr

/-- The payload of a record. -/
inductive Rdata (ν : Type)
  | a (ttl : UInt32) (address : IPv4)
  | ns (ttl : UInt32) (server : ν)
  | cname (ttl : UInt32) (target : ν)
  | mx (ttl : UInt32) (preference : UInt16) (exchange : ν)
  | soa (start : Soa ν)
  | txt (ttl : UInt32) (text : String)
  deriving DecidableEq, Repr

namespace Rdata

variable {ν μ : Type}

/-! ## Parts -/

/-- The stored type of the payload. -/
def kind : Rdata ν → RecordKind
  | a _ _ => .a
  | ns _ _ => .ns
  | cname _ _ => .cname
  | mx _ _ _ => .mx
  | soa _ => .soa
  | txt _ _ => .txt

/-- The record type of the payload. -/
def type (rdata : Rdata ν) : RecordType :=
  rdata.kind.type

/-- The TTL of the payload. -/
def ttl : Rdata ν → UInt32
  | a ttl _ | ns ttl _ | cname ttl _ | mx ttl _ _ | txt ttl _ => ttl
  | soa s => s.minimum

/-- What the payload points at and address records may be sent along for. -/
def targets : Rdata ν → List ν
  | a _ _ | txt _ _ => []
  | ns _ server => [server]
  | cname _ target => [target]
  | mx _ _ exchange => [exchange]
  | soa s => [s.mname]

/-- Everything the payload refers to. -/
def references : Rdata ν → List ν
  | soa s => [s.mname, s.rname]
  | rdata => rdata.targets

/-! ## Other references -/

/-- The payload over other references, each got by an action, in their order. -/
def mapM {m : Type → Type} [Monad m] (f : ν → m μ) : Rdata ν → m (Rdata μ)
  | a ttl address => pure (a ttl address)
  | ns ttl server => do return ns ttl (← f server)
  | cname ttl target => do return cname ttl (← f target)
  | mx ttl preference exchange => do return mx ttl preference (← f exchange)
  | soa s => do
    let mname ← f s.mname
    let rname ← f s.rname
    return soa { s with mname, rname }
  | txt ttl text => pure (txt ttl text)

/-- The payload over other references. -/
def map (f : ν → μ) : Rdata ν → Rdata μ
  | a ttl address => a ttl address
  | ns ttl server => ns ttl (f server)
  | cname ttl target => cname ttl (f target)
  | mx ttl preference exchange => mx ttl preference (f exchange)
  | soa s => soa { s with mname := f s.mname, rname := f s.rname }
  | txt ttl text => txt ttl text

@[simp] theorem kind_map (f : ν → μ) (rdata : Rdata ν) : (rdata.map f).kind = rdata.kind := by
  cases rdata <;> rfl

@[simp] theorem ttl_map (f : ν → μ) (rdata : Rdata ν) : (rdata.map f).ttl = rdata.ttl := by
  cases rdata <;> rfl

@[simp] theorem references_map (f : ν → μ) (rdata : Rdata ν) :
    (rdata.map f).references = rdata.references.map f := by
  cases rdata <;> rfl

/-! ## Payloads over names -/

/-- Whether two payloads are equal but for the ASCII case of their names. -/
def SameAs (r s : Rdata Name) : Prop :=
  r.map Name.folded = s.map Name.folded

instance (r s : Rdata Name) : Decidable (r.SameAs s) :=
  inferInstanceAs (Decidable (r.map Name.folded = s.map Name.folded))

/-- The payload as text: its type and its fields. -/
def text : Rdata Name → String
  | a _ address => "A " ++ address.text
  | ns _ server => "NS " ++ server.text
  | cname _ target => "CNAME " ++ target.text
  | mx _ preference exchange => s!"MX {preference} {exchange.text}"
  | soa s =>
    s!"SOA {s.mname.text} {s.rname.text} {s.serial} {s.refresh} {s.retry} {s.expire} {s.minimum}"
  | txt _ text => "TXT \"" ++ text ++ "\""

end Rdata
end NameServer
