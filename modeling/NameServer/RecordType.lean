import NameServer.Text.Numeral

/-!
# RecordType — types and classes of records

A record type is its 16-bit code. Some codes have a mnemonic; six of them can be stored, and these
are also the constructors of `RecordKind`.
-/

namespace NameServer

/-! ## Types -/

/-- The type of a record or of a question. -/
structure RecordType where
  code : UInt16
  deriving DecidableEq, Repr

namespace RecordType

def a : RecordType := ⟨1⟩
def ns : RecordType := ⟨2⟩
def cname : RecordType := ⟨5⟩
def soa : RecordType := ⟨6⟩
def mx : RecordType := ⟨15⟩
def txt : RecordType := ⟨16⟩
def any : RecordType := ⟨255⟩

/-- The types that have a mnemonic. -/
def mnemonics : List (RecordType × String) :=
  [(a, "A"), (ns, "NS"), (⟨3⟩, "MD"), (⟨4⟩, "MF"), (cname, "CNAME"), (soa, "SOA"), (⟨7⟩, "MB"),
    (⟨8⟩, "MG"), (⟨9⟩, "MR"), (⟨10⟩, "NULL"), (⟨11⟩, "WKS"), (⟨12⟩, "PTR"), (⟨13⟩, "HINFO"),
    (⟨14⟩, "MINFO"), (mx, "MX"), (txt, "TXT"), (⟨28⟩, "AAAA"), (⟨33⟩, "SRV"), (⟨41⟩, "OPT"),
    (⟨251⟩, "IXFR"), (⟨252⟩, "AXFR"), (⟨253⟩, "MAILB"), (⟨254⟩, "MAILA"), (any, "ANY")]

/-- The mnemonic of a type, if it has one. -/
def mnemonic? (type : RecordType) : Option String :=
  mnemonics.lookup type

/-- The mnemonic of a type, or `TYPE` and its code. -/
def text (type : RecordType) : String :=
  match type.mnemonic? with
  | some mnemonic => mnemonic
  | none => s!"TYPE{type.code}"

/-- The type that a word names, in letters of either case: a mnemonic, or `TYPE` and a code. -/
def ofText? (word : String) : Option RecordType :=
  let upper := word.toList.map Char.toUpper
  match mnemonics.find? fun entry => entry.2.toList = upper with
  | some entry => some entry.1
  | none =>
    match upper with
    | 'T' :: 'Y' :: 'P' :: 'E' :: code => (Text.word16? code).map RecordType.mk
    | _ => none

end RecordType

/-! ## Stored types -/

/-- The types of record that the server stores and answers. -/
inductive RecordKind
  | a
  | ns
  | cname
  | mx
  | soa
  | txt
  deriving DecidableEq, Repr

namespace RecordKind

/-- The stored types, in the order in which they are listed. -/
def all : List RecordKind := [a, ns, cname, mx, soa, txt]

/-- The stored types that a question for any type is answered with, in this order. -/
def ofAny : List RecordKind := [a, mx, ns, cname]

/-- The record type of a stored type. -/
def type : RecordKind → RecordType
  | a => .a
  | ns => .ns
  | cname => .cname
  | mx => .mx
  | soa => .soa
  | txt => .txt

theorem type_injective {k l : RecordKind} (h : k.type = l.type) : k = l := by
  revert h
  cases k <;> cases l <;> decide

end RecordKind

namespace RecordType

/-- The stored type with this code, if there is one. -/
def kind? (type : RecordType) : Option RecordKind :=
  RecordKind.all.find? fun kind => kind.type = type

theorem kind?_type (kind : RecordKind) : kind.type.kind? = some kind := by
  cases kind <;> decide

theorem type_of_kind? {type : RecordType} {kind : RecordKind} (h : type.kind? = some kind) :
    kind.type = type := by
  simpa using List.find?_some h

end RecordType

/-! ## Classes -/

/-- The class of a record or of a question. -/
structure RecordClass where
  code : UInt16
  deriving DecidableEq, Repr

namespace RecordClass

/-- The Internet class, the only one that is served. -/
def internet : RecordClass := ⟨1⟩

/-- The short name of a class, or `CLASS` and its code. -/
def text (cls : RecordClass) : String :=
  if cls.code = 1 then "IN"
  else if cls.code = 3 then "CH"
  else if cls.code = 4 then "HS"
  else s!"CLASS{cls.code}"

end RecordClass
end NameServer
