import NameServer.Proofs.ZoneFile.Payload
import NameServer.Proofs.ZoneFile.Ttl

/-!
# Proofs.ZoneFile.Entry — a line that shows a record is read as the record

A record is shown on a line as its owner, its lifetime and its payload, and an owner with an
asterisk label in front is that of a wildcard. What the reader does to a line before it looks at the
fields is undone by nothing: it trims the line, takes comments out, cuts the owner at the asterisk
and looks for the text of a payload behind three fields.

* `ZoneEntry.Spaced` — a line of an owner, a lifetime, a type and a rest, and what its fields are;
* `ZoneEntry.ofLine_of_spaced` — such a line says what its parts say;
* `ZoneEntry.ofLine_shown_withTtl` — the line that shows an entry behind some lifetime;
* `ZoneEntry.ofLine_shown` — so every entry that can be shown is read as itself.
-/

namespace NameServer
namespace ZoneEntry

variable {line owner ttl word rest : List Char}

/-! ## Lines -/

/-- A line of an owner, a lifetime, a type and a rest with single spaces between them. -/
structure Spaced (line owner ttl word rest : List Char) : Prop where
  line_eq : line = owner ++ ' ' :: (ttl ++ ' ' :: (word ++ ' ' :: rest))
  owner_isWord : Text.Word owner
  ttl_isWord : Text.Word ttl
  word_isWord : Text.Word word
  rest_trimmed : Text.Trimmed rest
  rest_ne_nil : rest ≠ []

/-- There is nothing to trim. -/
theorem Spaced.trim (h : Spaced line owner ttl word rest) : Text.trim line = line := by
  have hends : Text.Trimmed (owner ++ (' ' :: (ttl ++ ' ' :: (word ++ [' ']))) ++ rest) :=
    h.owner_isWord.trimmed.append h.rest_trimmed h.owner_isWord.ne h.rest_ne_nil _
  have hline : line = owner ++ (' ' :: (ttl ++ ' ' :: (word ++ [' ']))) ++ rest := by
    simp [h.line_eq]
  have hnone : Text.Blank [] := fun _ hc => (List.not_mem_nil hc).elim
  rw [← hline] at hends
  simpa using Text.trim_append hnone hends hnone

theorem Spaced.fields (h : Spaced line owner ttl word rest) :
    ZoneEntry.fields line = String.ofList owner :: String.ofList ttl :: String.ofList word ::
      ZoneEntry.fields rest := by
  have hspace : Text.isBlank ' ' = true := rfl
  simp [ZoneEntry.fields, h.line_eq, Text.fields_word_append, h.owner_isWord, h.ttl_isWord,
    h.word_isWord, hspace]

/-- Behind three fields stands the rest. -/
theorem Spaced.afterFields (h : Spaced line owner ttl word rest) :
    Text.afterFields 3 line = rest := by
  have hspace : Text.isBlank ' ' = true := rfl
  have hrest : Text.dropBlank rest = rest := Text.dropBlank_of_head h.rest_trimmed.head
  rw [h.line_eq, Text.afterFields_word_append h.owner_isWord hspace,
    Text.dropBlank_word_append h.ttl_isWord, Text.afterFields_word_append h.ttl_isWord hspace,
    Text.dropBlank_word_append h.word_isWord, Text.afterFields_word_append h.word_isWord hspace,
    hrest, Text.afterFields, hrest]

theorem Spaced.fields_rest_ne_nil (h : Spaced line owner ttl word rest) :
    ZoneEntry.fields rest ≠ [] := by
  intro hnil
  have hsolid : Text.solid rest = [] := by
    rw [← Text.flatten_fields, List.map_eq_nil_iff.1 hnil]
    rfl
  have hhead := h.rest_trimmed.head?_solid
  rw [hsolid] at hhead
  exact h.rest_ne_nil (List.head?_eq_none_iff.1 hhead.symm)

/-- A line says what its owner, its lifetime, its type and its rest say. -/
theorem ofLine_of_spaced {text : String} (h : Spaced text.toList owner ttl word rest)
    (hcomment : ∀ c ∈ owner.head?, c ≠ '#' ∧ c ≠ ';')
    {name : Name} (hname : Payload.name (String.ofList (cutStar owner).1) = .ok name)
    {lifetime : UInt32} (hlifetime : Ttl.ofText (String.ofList ttl) = .ok lifetime)
    {type : RecordType} (htype : Payload.type (String.ofList word) = .ok type)
    {rdata : Rdata Name} (hrdata : Payload.ofRest type lifetime rest = .ok rdata) :
    ofLine text = .ok (some ⟨name, (cutStar owner).2, rdata⟩) := by
  -- A comment is told by its first character, which is that of the owner.
  have hspeaks : ¬isComment text.toList = true := by
    rcases List.exists_cons_of_ne_nil h.owner_isWord.ne with ⟨c, cs, howner⟩
    have hc := hcomment c (by simp [howner])
    rw [Zone.Load.isComment_iff, h.line_eq, howner]
    intro hall
    rcases hall c rfl with rfl | rfl
    · exact hc.1 rfl
    · exact hc.2 rfl
  -- The rest has a field, so there are four at least.
  rcases List.exists_cons_of_ne_nil h.fields_rest_ne_nil with ⟨argument, arguments, hrest⟩
  have hfields : ofFields text.toList = .ok ⟨name, (cutStar owner).2, rdata⟩ := by
    by_cases htext : type = .txt
    · rw [Payload.ofRest, if_pos htext] at hrdata
      simp [ofFields, h.fields, h.afterFields, hrest, hname, hlifetime, htype, htext, hrdata,
        ok_bind]
    · rw [Payload.ofRest, if_neg htext, hrest] at hrdata
      simp [ofFields, h.fields, hrest, hname, hlifetime, htype, htext, hrdata, ok_bind]
  simp [ofLine, h.trim, hspeaks, hfields]

/-! ## Entries -/

/-- How the owner of an entry stands on a line. -/
def spelling (entry : ZoneEntry) : String :=
  if entry.wildcard then "*." ++ entry.name.text else entry.name.text

/-- The line that shows an entry behind a lifetime. -/
def shown (entry : ZoneEntry) (ttl : UInt32) : String :=
  s!"{entry.spelling} {ttl} {entry.rdata.text}"

/-- The entry with names that carry nothing besides their labels. -/
def toPlain (entry : ZoneEntry) : ZoneEntry :=
  ⟨entry.name.toPlain, entry.wildcard, entry.rdata.map Name.toPlain⟩

/-- An entry that can be shown on a line: its names have no white space in them, a text fits into a
record, and where no asterisk label is put in front of the owner, it does not begin with one or as a
comment does. -/
structure Showable (entry : ZoneEntry) : Prop where
  name : entry.name.Solid
  rdata : entry.rdata.Solid
  fits : entry.rdata.kind = .txt → entry.rdata.size ≤ maxRdataSize
  first : entry.wildcard = false → ∀ label ∈ entry.name.labels.head?,
    label.text ≠ "*" ∧ ∀ c ∈ label.text.toList.head?, c ≠ '#' ∧ c ≠ ';'

section Showable

variable {entry : ZoneEntry}

/-- Where no asterisk is put in front of it, the owner is spelled as it is. -/
theorem Showable.spellable (h : entry.Showable) (hwildcard : entry.wildcard = false) :
    Console.Spellable entry.name :=
  ⟨h.name, h.first hwildcard⟩

theorem toList_spelling_of_wildcard (hwildcard : entry.wildcard = true) :
    entry.spelling.toList = '*' :: '.' :: entry.name.text.toList := by
  simp [spelling, hwildcard]

theorem spelling_of_not_wildcard (hwildcard : entry.wildcard = false) :
    entry.spelling = entry.name.text := by
  simp [spelling, hwildcard]

theorem Showable.spelling_isWord (h : entry.Showable) : Text.Word entry.spelling.toList := by
  cases hwildcard : entry.wildcard with
  | true =>
      rw [toList_spelling_of_wildcard hwildcard]
      refine ⟨List.cons_ne_nil _ _, ?_⟩
      exact List.forall_mem_cons.2 ⟨rfl, List.forall_mem_cons.2 ⟨rfl, h.name⟩⟩
  | false =>
      rw [spelling_of_not_wildcard hwildcard]
      exact h.name.word

/-- No owner begins as a comment does. -/
theorem Showable.head?_spelling (h : entry.Showable) :
    ∀ c ∈ entry.spelling.toList.head?, c ≠ '#' ∧ c ≠ ';' := by
  cases hwildcard : entry.wildcard with
  | true =>
      rw [toList_spelling_of_wildcard hwildcard]
      rintro c ⟨⟩
      decide
  | false =>
      rw [spelling_of_not_wildcard hwildcard]
      exact Console.head?_text (h.spellable hwildcard)

/-- The asterisk label that was put in front of the owner is found, and no other. -/
theorem Showable.cutStar_spelling (h : entry.Showable) :
    cutStar entry.spelling.toList = (entry.name.text.toList, entry.wildcard) := by
  cases hwildcard : entry.wildcard with
  | true =>
      rw [toList_spelling_of_wildcard hwildcard]
      rfl
  | false =>
      rw [spelling_of_not_wildcard hwildcard]
      exact Console.cutStar_text (h.spellable hwildcard)

theorem Showable.spaced (h : entry.Showable) (ttl : UInt32) :
    Spaced (entry.shown ttl).toList entry.spelling.toList (toString ttl).toList
      entry.rdata.kind.word.toList entry.rdata.shown where
  line_eq := by
    change (entry.spelling ++ " " ++ toString ttl ++ " " ++ entry.rdata.text).toList = _
    simp [Rdata.toList_text]
  owner_isWord := h.spelling_isWord
  ttl_isWord := Text.word_toString ttl.toNat
  word_isWord := entry.rdata.kind.isWord
  rest_trimmed := h.rdata.trimmed_shown
  rest_ne_nil := h.rdata.shown_ne_nil

/-- Behind any lifetime that is not too long, an entry is read as itself with that lifetime. -/
theorem ofLine_shown_withTtl (h : entry.Showable) {ttl : UInt32}
    (httl : ttl.toNat ≤ Ttl.maxSeconds) :
    ofLine (entry.shown ttl) = .ok (some ⟨entry.name.toPlain, entry.wildcard,
      Payload.withTtl ttl (entry.rdata.map Name.toPlain)⟩) := by
  have hcut := h.cutStar_spelling
  have hname : Payload.name (String.ofList (cutStar entry.spelling.toList).1) =
      .ok entry.name.toPlain := by
    simp [hcut, Payload.name_text]
  have hlifetime : Ttl.ofText (String.ofList (toString ttl).toList) = .ok ttl := by
    simpa using Ttl.ofText_toString httl
  have htype : Payload.type (String.ofList entry.rdata.kind.word.toList) =
      .ok entry.rdata.type := by
    rw [String.ofList_toList]
    exact entry.rdata.kind.type_word
  have hrdata := Payload.ofRest_shown ttl h.rdata h.fits
  have hread := ofLine_of_spaced (h.spaced ttl) h.head?_spelling hname hlifetime htype hrdata
  rwa [hcut] at hread

/-- An entry is read as it is shown, with its own lifetime; an SOA has its own among its numbers and
stands behind any other. -/
theorem ofLine_shown (entry : ZoneEntry) (h : entry.Showable) (ttl : UInt32)
    (httl : ttl.toNat ≤ Ttl.maxSeconds)
    (hown : entry.rdata.kind = .soa ∨ entry.rdata.ttl = ttl) :
    ofLine (entry.shown ttl) = .ok (some entry.toPlain) := by
  have hsame : Payload.withTtl ttl (entry.rdata.map Name.toPlain) =
      entry.rdata.map Name.toPlain := by
    rcases hown with hsoa | rfl
    · -- An SOA takes no lifetime from the line.
      cases hrdata : entry.rdata with
      | soa start => rfl
      | _ => simp [hrdata, Rdata.kind] at hsoa
    · rw [← Rdata.ttl_map, Payload.withTtl_ttl]
  rw [ofLine_shown_withTtl h httl, hsame]
  rfl

end Showable

/-- A wildcard whose name begins with an asterisk label as well, with a text that has quotes, a line
break and white space at its ends. -/
def sampleEntry : ZoneEntry where
  name := ⟨[⟨"*", by decide, by decide, by decide⟩, ⟨"#é", by decide, by decide, by decide⟩], .plain,
    by decide +kernel, trivial⟩
  wildcard := true
  rdata := .txt 60 " \"a\" \n"

/-- The text that stands between the first and the last quote is the text, quotes included. -/
theorem ofLine_sampleEntry :
    sampleEntry.shown 60 = "*.*.#é. 60 TXT \" \"a\" \n\"" ∧
      ofLine "*.*.#é. 60 TXT \" \"a\" \n\"" = .ok (some sampleEntry) := by
  have hshown : sampleEntry.shown 60 = "*.*.#é. 60 TXT \" \"a\" \n\"" := by decide +kernel
  have hsolid : sampleEntry.name.Solid := by
    have hall : sampleEntry.name.text.toList.all (!Text.isBlank ·) = true := by decide +kernel
    simpa [Name.Solid] using hall
  have hshowable : sampleEntry.Showable :=
    ⟨hsolid, by rintro name ⟨⟩, by decide +kernel, by rintro ⟨⟩⟩
  refine ⟨hshown, ?_⟩
  have hread := ofLine_shown sampleEntry hshowable 60 (by decide) (.inr rfl)
  rwa [hshown] at hread

end ZoneEntry
end NameServer
