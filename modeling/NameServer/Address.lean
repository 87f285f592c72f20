import NameServer.Text.Blank
import NameServer.Text.Numeral

/-!
# Address — Internet addresses in text

An IPv4 address is a dotted quad of decimal octets without leading zeros. Of IPv6 addresses the
server only needs to know which texts are one.
-/

namespace NameServer

/-! ## IPv4 -/

/-- An IPv4 address. -/
structure IPv4 where
  a : UInt8
  b : UInt8
  c : UInt8
  d : UInt8
  deriving DecidableEq, Repr

namespace IPv4

/-- The four bytes of the address. -/
def octets (address : IPv4) : List UInt8 :=
  [address.a, address.b, address.c, address.d]

/-- The dotted quad of the address. -/
def text (address : IPv4) : String :=
  s!"{address.a}.{address.b}.{address.c}.{address.d}"

/-- One octet: at most three digits, no leading zero, at most 255. -/
def octet? (cs : List Char) : Option UInt8 :=
  if 3 < cs.length ∨ (cs.head? = some '0' ∧ 1 < cs.length) then none
  else ((Text.decimal? cs).filter (· < UInt8.size)).map UInt8.ofNat

/-- The address with this dotted quad. -/
def ofChars? (cs : List Char) : Option IPv4 :=
  match Text.splitOn '.' cs with
  | [a, b, c, d] => do
    return ⟨← octet? a, ← octet? b, ← octet? c, ← octet? d⟩
  | _ => none

/-- The address with this dotted quad. -/
def ofText? (text : String) : Option IPv4 :=
  ofChars? text.toList

end IPv4

/-! ## IPv6 -/

namespace IPv6

/-- A group of one to four hexadecimal digits. -/
def isGroup (cs : List Char) : Bool :=
  0 < cs.length && cs.length ≤ 4 &&
    cs.all fun c => c.isDigit || ('a' ≤ c && c ≤ 'f') || ('A' ≤ c && c ≤ 'F')

/-- How many groups of 16 bits the pieces between colons stand for; a dotted quad may come last and
counts for two. -/
def groups? (quad : Bool) : List (List Char) → Option Nat
  | [] => some 0
  | [last] =>
    if isGroup last then some 1
    else if quad && (IPv4.ofChars? last).isSome then some 2
    else none
  | group :: rest => if isGroup group then (groups? quad rest).map (· + 1) else none

/-- The groups of one side of a double colon, which may be empty. -/
def side? (quad : Bool) (cs : List Char) : Option Nat :=
  if cs = [] then some 0 else groups? quad (Text.splitOn ':' cs)

/-- The text before the first double colon and the text behind it. -/
def cut : List Char → List Char → Option (List Char × List Char)
  | _, [] => none
  | before, ':' :: ':' :: rest => some (before.reverse, rest)
  | before, c :: rest => cut (c :: before) rest

/-- Whether a text is an IPv6 address: eight groups, or fewer with one double colon for the rest. -/
def isAddress (text : String) : Bool :=
  match cut [] text.toList with
  | none => groups? true (Text.splitOn ':' text.toList) == some 8
  | some (front, back) =>
    match side? false front, side? true back with
    | some m, some n => m + n ≤ 7
    | _, _ => false

end IPv6

/-- Whether a text is an address of either family. -/
def isAddress (text : String) : Bool :=
  (IPv4.ofText? text).isSome || IPv6.isAddress text

end NameServer
