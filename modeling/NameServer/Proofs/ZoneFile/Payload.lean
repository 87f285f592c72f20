import NameServer.Proofs.Console.Grammar
import NameServer.Proofs.Text.Numerals

/-!
# Proofs.ZoneFile.Payload — payloads are read as they are shown

A payload is shown as its type and its arguments. Numbers, addresses and names without white space
are arguments of one field each, so the fields are the arguments again. A text stands between
quotes and may hold anything, which is why it is the only payload that is read as it stands.

* `Text.fields_intercalate` — the fields of words with spaces between them are the words;
* `Rdata.arguments`, `Rdata.toList_text` — what a payload is shown as;
* `Payload.ofArguments_arguments` — the arguments of a payload are read as the payload;
* `Payload.ofRest_shown` — so is the rest of a line that shows a payload.
-/

namespace NameServer

/-! ## Fields -/

namespace Text

theorem fields_word {word : List Char} (h : Word word) : fields word = [word] := by
  have hspace : Blank [' '] := List.forall_mem_singleton.2 rfl
  rw [← fields_append_blank hspace word, fields_word_append h rfl]
  rfl

theorem fields_intercalate {words : List (List Char)} (h : ∀ word ∈ words, Word word) :
    fields ([' '].intercalate words) = words := by
  induction words with
  | nil => rfl
  | cons word words ih =>
      rcases List.forall_mem_cons.1 h with ⟨hword, hwords⟩
      cases words with
      | nil => rw [List.intercalate_singleton, fields_word hword]
      | cons other words =>
          rw [List.intercalate_cons_cons, List.append_assoc, List.singleton_append,
            fields_word_append hword rfl, ih hwords]

end Text

namespace Name

/-- Without white space in its text. -/
def Solid (name : Name) : Prop :=
  ∀ c ∈ name.text.toList, Text.isBlank c = false

theorem Solid.word {name : Name} (h : name.Solid) : Text.Word name.text.toList :=
  ⟨name.toList_text_ne_nil, h⟩

end Name

/-! ## What is shown -/

namespace RecordKind

/-- The mnemonic of a stored type. -/
def word : RecordKind → String
  | a => "A"
  | ns => "NS"
  | cname => "CNAME"
  | mx => "MX"
  | soa => "SOA"
  | txt => "TXT"

theorem isWord (kind : RecordKind) : Text.Word kind.word.toList := by
  cases kind <;> decide

/-- A stored type is named by its mnemonic. -/
theorem type_word (kind : RecordKind) : Payload.type kind.word = .ok kind.type := by
  cases kind <;> decide +kernel

end RecordKind

namespace Rdata

/-- The arguments of a payload as text. -/
def arguments : Rdata Name → List String
  | a _ address => [address.text]
  | ns _ server => [server.text]
  | cname _ target => [target.text]
  | mx _ preference exchange => [toString preference, exchange.text]
  | soa s => [s.mname.text, s.rname.text, toString s.serial, toString s.refresh, toString s.retry,
      toString s.expire, toString s.minimum]
  | txt _ text => ["\"" ++ text ++ "\""]

/-- The characters of the arguments, with spaces between them. -/
def shown (rdata : Rdata Name) : List Char :=
  [' '].intercalate (rdata.arguments.map String.toList)

theorem toList_text (rdata : Rdata Name) :
    rdata.text.toList = rdata.kind.word.toList ++ ' ' :: rdata.shown := by
  cases rdata with
  | a ttl address =>
      change ("A " ++ address.text).toList = _
      simp [RecordKind.word, kind, shown, arguments]
  | ns ttl server =>
      change ("NS " ++ server.text).toList = _
      simp [RecordKind.word, kind, shown, arguments]
  | cname ttl target =>
      change ("CNAME " ++ target.text).toList = _
      simp [RecordKind.word, kind, shown, arguments]
  | mx ttl preference exchange =>
      change ("MX " ++ toString preference ++ " " ++ exchange.text).toList = _
      simp [RecordKind.word, kind, shown, arguments]
  | soa s =>
      change ("SOA " ++ s.mname.text ++ " " ++ s.rname.text ++ " " ++ toString s.serial ++ " " ++
        toString s.refresh ++ " " ++ toString s.retry ++ " " ++ toString s.expire ++ " " ++
        toString s.minimum).toList = _
      simp [RecordKind.word, kind, shown, arguments]
  | txt ttl text =>
      change ("TXT \"" ++ text ++ "\"").toList = _
      simp [RecordKind.word, kind, shown, arguments]

/-- Every name of the payload is one field. -/
def Solid (rdata : Rdata Name) : Prop :=
  ∀ name ∈ rdata.references, name.Solid

/-- The arguments are fields, but for a text. -/
theorem Solid.words {rdata : Rdata Name} (h : rdata.Solid) (hkind : rdata.kind ≠ .txt) :
    ∀ argument ∈ rdata.arguments, Text.Word argument.toList := by
  have hnumber : ∀ w : UInt32, Text.Word (toString w).toList := fun w =>
    Text.word_toString w.toNat
  cases rdata with
  | a ttl address => simpa [arguments] using address.word_text
  | ns ttl server =>
      have hserver : server.Solid := h server (by simp [references, targets])
      simpa [arguments] using hserver.word
  | cname ttl target =>
      have htarget : target.Solid := h target (by simp [references, targets])
      simpa [arguments] using htarget.word
  | mx ttl preference exchange =>
      have hexchange : exchange.Solid := h exchange (by simp [references, targets])
      have hpreference : Text.Word (toString preference).toList :=
        Text.word_toString preference.toNat
      simpa [arguments] using ⟨hpreference, hexchange.word⟩
  | soa s =>
      have hmname : s.mname.Solid := h s.mname (by simp [references])
      have hrname : s.rname.Solid := h s.rname (by simp [references])
      simpa [arguments, hnumber] using ⟨hmname.word, hrname.word⟩
  | txt ttl text => exact absurd rfl hkind

theorem Solid.fields_shown {rdata : Rdata Name} (h : rdata.Solid) (hkind : rdata.kind ≠ .txt) :
    ZoneEntry.fields rdata.shown = rdata.arguments := by
  have hwords : ∀ word ∈ rdata.arguments.map String.toList, Text.Word word := by
    simpa using h.words hkind
  unfold ZoneEntry.fields shown
  rw [Text.fields_intercalate hwords, List.map_map]
  simp [Function.comp_def]

/-- What is shown begins and ends with no white space. -/
theorem Solid.trimmed_shown {rdata : Rdata Name} (h : rdata.Solid) :
    Text.Trimmed rdata.shown := by
  by_cases hkind : rdata.kind = .txt
  · cases rdata with
    | txt ttl text =>
        have hquote : Text.Trimmed ['"'] := by
          refine ⟨?_, ?_⟩ <;> rintro c ⟨⟩ <;> rfl
        simpa [shown, arguments] using hquote.append hquote (by simp) (by simp) text.toList
    | _ => cases hkind
  · refine Text.trimmed_intercalate ?_
    simpa using h.words hkind

theorem Solid.shown_ne_nil {rdata : Rdata Name} (h : rdata.Solid) : rdata.shown ≠ [] := by
  by_cases hkind : rdata.kind = .txt
  · cases rdata with
    | txt ttl text => simp [shown, arguments]
    | _ => cases hkind
  · have hwords := h.words hkind
    have hne : rdata.arguments ≠ [] := by
      cases rdata <;> exact List.cons_ne_nil _ _
    rcases List.exists_cons_of_ne_nil hne with ⟨argument, arguments, harguments⟩
    rw [harguments] at hwords
    rw [shown, harguments, List.map_cons]
    exact Text.intercalate_ne_nil (hwords argument List.mem_cons_self) _

end Rdata

/-! ## What is read -/

namespace Payload

variable {ttl : UInt32} {rdata : Rdata Name}

theorem name_text (name : Name) : Payload.name name.text = .ok name.toPlain := by
  unfold Payload.name
  rw [Name.ofText_text]
  rfl

theorem address_text (address : IPv4) : Payload.address address.text = .ok address := by
  unfold Payload.address
  rw [IPv4.ofText?_text]

theorem preference_toString (w : UInt16) : Payload.preference (toString w) = .ok w := by
  unfold Payload.preference
  rw [Text.word16?_toString]

theorem number_toString (w : UInt32) : Payload.number (toString w) = .ok w := by
  unfold Payload.number
  rw [Text.word32?_toString]

/-- The payload with another lifetime; an SOA has its own, which is one of its numbers. -/
def withTtl (ttl : UInt32) : Rdata Name → Rdata Name
  | .a _ address => .a ttl address
  | .ns _ server => .ns ttl server
  | .cname _ target => .cname ttl target
  | .mx _ preference exchange => .mx ttl preference exchange
  | .soa start => .soa start
  | .txt _ text => .txt ttl text

theorem withTtl_ttl (rdata : Rdata Name) : withTtl rdata.ttl rdata = rdata := by
  cases rdata <;> rfl

/-- The arguments of a payload are read as the payload, with the lifetime that is given. -/
theorem ofArguments_arguments (ttl : UInt32) (hkind : rdata.kind ≠ .txt) :
    ofArguments rdata.type ttl rdata.arguments = .ok (withTtl ttl (rdata.map Name.toPlain)) := by
  cases rdata with
  | txt _ text => exact absurd rfl hkind
  | _ =>
      simp [ofArguments, Rdata.type, Rdata.kind, RecordType.kind?_type, Rdata.arguments, ok_bind,
        address_text, preference_toString, number_toString, name_text, withTtl, Rdata.map]

/-- A text in quotes is read as the text, if it fits into a record. -/
theorem txt_quoted (ttl : UInt32) {text : String}
    (hfits : (Rdata.txt ttl text : Rdata Name).size ≤ maxRdataSize) :
    Payload.txt ttl (String.ofList ('"' :: (text.toList ++ ['"']))) = .ok (.txt ttl text) := by
  have hunquoted : String.ofList (unquoted ('"' :: (text.toList ++ ['"']))) = text := by
    rw [Console.unquoted_quoted, String.ofList_toList]
  simp [Payload.txt, hunquoted, hfits]

/-- The payload that the rest of a line spells. -/
def ofRest (type : RecordType) (ttl : UInt32) (rest : List Char) :
    Except EntryError (Rdata Name) :=
  if type = .txt then txt ttl (String.ofList rest)
  else ofArguments type ttl (ZoneEntry.fields rest)

/-- What is shown of a payload is read as the payload. -/
theorem ofRest_shown (ttl : UInt32) (h : rdata.Solid)
    (hfits : rdata.kind = .txt → rdata.size ≤ maxRdataSize) :
    ofRest rdata.type ttl rdata.shown = .ok (withTtl ttl (rdata.map Name.toPlain)) := by
  by_cases hkind : rdata.kind = .txt
  · cases rdata with
    | txt old text =>
        have hshown : (Rdata.txt old text : Rdata Name).shown = '"' :: (text.toList ++ ['"']) := by
          simp [Rdata.shown, Rdata.arguments]
        rw [hshown]
        exact (if_pos rfl).trans (txt_quoted ttl (hfits rfl))
    | _ => cases hkind
  · have htype : rdata.type ≠ .txt := fun heq => hkind (RecordKind.type_injective heq)
    rw [ofRest, if_neg htype, h.fields_shown hkind]
    exact ofArguments_arguments ttl hkind

end Payload

end NameServer
