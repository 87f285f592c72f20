import NameServer.Proofs.Console.Refusals
import NameServer.Proofs.Zone.Rejections
import NameServer.Zone.Relations

/-!
# Proofs.Console.Grammar — records added in a session and in a file

Inside a zone a record is added by `add <type> <ttl> <arguments>`, and a zone file describes it by
`<zone> <ttl> <type> <arguments>`. Both lines lead to the same store, with one exception: the
console joins the words of a text by single spaces, while a file keeps the white space between
them.

* `Console.execute_addLine`, `Console.perform_fileLine` — what the lines do to any store;
* `Console.said_eq_written_iff` — they spell the same payload unless a text is spaced otherwise;
* `Console.addition_agrees` — so they lead to the same store unless it is;
* `Console.spaces_lost` — a text with two spaces, of which one is lost.
-/

namespace NameServer

open Zone (Tree Relations Change Store)

namespace Console

variable {tree : Tree} {zone kept : Name} {word ttl s : String}

/-! ## The lines -/

/-- The line that adds a record inside a zone. -/
def addLine (word ttl s : String) : String :=
  s!"add {word} {ttl} {s}"

/-- The line of a zone file that describes the record. -/
def fileLine (zone : Name) (word ttl s : String) : String :=
  s!"{zone.text} {ttl} {word} {s}"

/-- A type, a lifetime and arguments that fit into a line. -/
structure Arguments (word ttl s : String) : Prop where
  word : Text.Word word.toList
  ttl : Text.Word ttl.toList
  nonblank : ∃ c ∈ s.toList, Text.isBlank c = false
  line : '\n' ∉ s.toList

/-- A name that can be the owner in a zone file as it is: it is one field, no asterisk label comes
first, and no comment begins with it. -/
structure Spellable (zone : Name) : Prop where
  solid : ∀ c ∈ zone.text.toList, Text.isBlank c = false
  first : ∀ label ∈ zone.labels.head?,
    label.text ≠ "*" ∧ ∀ c ∈ label.text.toList.head?, c ≠ '#' ∧ c ≠ ';'

theorem toList_addLine (word ttl s : String) : (addLine word ttl s).toList =
    "add".toList ++ ' ' :: (word.toList ++ ' ' :: (ttl.toList ++ ' ' :: s.toList)) := by
  change ("add " ++ word ++ " " ++ ttl ++ " " ++ s).toList = _
  simp [String.toList_append]

theorem toList_fileLine (zone : Name) (word ttl s : String) : (fileLine zone word ttl s).toList =
    zone.text.toList ++ ' ' :: (ttl.toList ++ ' ' :: (word.toList ++ ' ' :: s.toList)) := by
  change (zone.text ++ " " ++ ttl ++ " " ++ word ++ " " ++ s).toList = _
  simp [String.toList_append]

theorem fields_addLine (h : Arguments word ttl s) :
    ZoneEntry.fields (addLine word ttl s).toList =
      "add" :: word :: ttl :: ZoneEntry.fields s.toList := by
  have hadd : Text.Word "add".toList := by decide
  have hspace : Text.isBlank ' ' = true := rfl
  unfold ZoneEntry.fields
  rw [toList_addLine, Text.fields_word_append hadd hspace, Text.fields_word_append h.word hspace,
    Text.fields_word_append h.ttl hspace, List.map_cons, List.map_cons, List.map_cons,
    String.ofList_toList, String.ofList_toList, String.ofList_toList]

theorem Arguments.solid_ne_nil (h : Arguments word ttl s) : Text.solid s.toList ≠ [] := by
  rcases h.nonblank with ⟨c, hc, hblank⟩
  exact List.ne_nil_of_mem (List.mem_filter.2 ⟨hc, by rw [hblank]; rfl⟩)

theorem Arguments.trim_ne_nil (h : Arguments word ttl s) : Text.trim s.toList ≠ [] := by
  intro hnil
  refine h.solid_ne_nil ?_
  rw [← Text.solid_trim, hnil]
  rfl

theorem Arguments.fields_ne_nil (h : Arguments word ttl s) : ZoneEntry.fields s.toList ≠ [] := by
  intro hnil
  refine h.solid_ne_nil ?_
  rw [← Text.flatten_fields, List.map_eq_nil_iff.1 hnil]
  rfl

theorem Spellable.isWord (h : Spellable zone) : Text.Word zone.text.toList :=
  ⟨zone.toList_text_ne_nil, h.solid⟩

/-- Trimmed, the line of a file keeps all but the white space at its end. -/
theorem trim_fileLine (hzone : Spellable zone) (h : Arguments word ttl s) :
    ∃ front, Text.Blank front ∧ Text.trim (fileLine zone word ttl s).toList =
      zone.text.toList ++ ' ' ::
        (ttl.toList ++ ' ' :: (word.toList ++ ' ' :: (front ++ Text.trim s.toList))) := by
  rcases Text.exists_trim s.toList with ⟨front, back, hs, hfront, htrim, hback⟩
  refine ⟨front, hfront, ?_⟩
  have hcore := hzone.isWord.trimmed.append htrim hzone.isWord.ne h.trim_ne_nil
    (' ' :: (ttl.toList ++ ' ' :: (word.toList ++ ' ' :: front)))
  have hline : (fileLine zone word ttl s).toList = [] ++ (zone.text.toList ++
      (' ' :: (ttl.toList ++ ' ' :: (word.toList ++ ' ' :: front))) ++ Text.trim s.toList) ++
        back := by
    rw [toList_fileLine]
    conv => lhs; rw [hs]
    simp
  rw [hline, Text.trim_append (fun _ hc => (List.not_mem_nil hc).elim) hcore hback]
  simp

/-! ## The line of a file -/

/-- The payload that the line of a file spells behind its owner. -/
def described (word ttl s : String) : Except EntryError (Rdata Name) := do
  let ttl ← Ttl.ofText ttl
  let type ← Payload.type word
  if type = .txt then Payload.txt ttl (String.ofList (Text.trim s.toList))
  else Payload.ofArguments type ttl (ZoneEntry.fields s.toList)

/-- The text of a name begins with its first label, or it is the dot of the root. -/
theorem head?_text (h : Spellable zone) : ∀ c ∈ zone.text.toList.head?, c ≠ '#' ∧ c ≠ ';' := by
  have hfirst := h.first
  unfold Name.text Name.isRoot
  cases hlabels : zone.labels with
  | nil =>
      rintro c ⟨⟩
      decide
  | cons label labels =>
      rw [hlabels] at hfirst
      rw [List.isEmpty_cons, if_neg Bool.false_ne_true, String.toList_ofList, Name.dotted_cons,
        List.head?_append_of_ne_nil _ (Label.toList_ne_nil label)]
      exact (hfirst label rfl).2

/-- A label with a dot behind it is an asterisk label if an asterisk with a dot stands there. -/
theorem cutStar_text (h : Spellable zone) :
    ZoneEntry.cutStar zone.text.toList = (zone.text.toList, false) := by
  have hfirst := h.first
  unfold Name.text Name.isRoot
  cases hlabels : zone.labels with
  | nil => rfl
  | cons label labels =>
      rw [hlabels] at hfirst
      rw [List.isEmpty_cons, if_neg Bool.false_ne_true, String.toList_ofList, Name.dotted_cons]
      cases htext : label.text.toList with
      | nil => exact absurd htext (Label.toList_ne_nil label)
      | cons c cs =>
          have hdot := label.noDot
          unfold ZoneEntry.cutStar
          split
          · rename_i rest heq
            exfalso
            rw [htext] at hdot
            cases cs with
            | nil =>
                refine (hfirst label rfl).1 (String.toList_inj.1 (htext.trans ?_))
                rw [(List.cons.inj heq).1]
                rfl
            | cons d cs =>
                refine hdot (List.mem_cons_of_mem _ ?_)
                rw [(List.cons.inj (List.cons.inj heq).2).1]
                exact List.mem_cons_self
          · rfl

theorem ofFields_fileLine (hzone : Spellable zone) (h : Arguments word ttl s) :
    ZoneEntry.ofFields (Text.trim (fileLine zone word ttl s).toList) =
      (described word ttl s).map fun rdata => ⟨zone.toPlain, false, rdata⟩ := by
  have hspace : Text.isBlank ' ' = true := rfl
  rcases trim_fileLine hzone h with ⟨front, hfront, htrim⟩
  have hfields : ZoneEntry.fields (Text.trim (fileLine zone word ttl s).toList) =
      zone.text :: ttl :: word :: ZoneEntry.fields s.toList := by
    unfold ZoneEntry.fields
    rw [htrim, Text.fields_word_append hzone.isWord hspace, Text.fields_word_append h.ttl hspace,
      Text.fields_word_append h.word hspace, Text.fields_blank_append hfront, Text.fields_trim,
      List.map_cons, List.map_cons, List.map_cons, String.ofList_toList, String.ofList_toList,
      String.ofList_toList]
  have hrest : Text.afterFields 3 (Text.trim (fileLine zone word ttl s).toList) =
      Text.trim s.toList := by
    have hhead : ∀ c ∈ (Text.trim s.toList).head?, Text.isBlank c = false := by
      rcases Text.exists_trim s.toList with ⟨-, -, -, -, hcore, -⟩
      exact hcore.head
    rw [htrim, Text.afterFields_word_append hzone.isWord hspace,
      Text.dropBlank_word_append h.ttl, Text.afterFields_word_append h.ttl hspace,
      Text.dropBlank_word_append h.word, Text.afterFields_word_append h.word hspace,
      Text.afterFields, Text.dropBlank_append hfront, Text.dropBlank_of_head hhead,
      Text.dropBlank_of_head hhead]
  -- There are four fields at least, so the line is not too short.
  rcases List.exists_cons_of_ne_nil h.fields_ne_nil with ⟨argument, arguments, hwords⟩
  unfold ZoneEntry.ofFields
  rw [hfields, hwords, hrest]
  dsimp only
  rw [cutStar_text hzone, String.ofList_toList]
  unfold described Payload.name
  rw [Name.ofText_text, hwords]
  cases Ttl.ofText ttl with
  | error cause => rfl
  | ok lifetime =>
      cases Payload.type word with
      | error cause => rfl
      | ok type =>
          change (if type = .txt then _ else _) = Except.map _ (if type = .txt then _ else _)
          split
          · cases Payload.txt lifetime (String.ofList (Text.trim s.toList)) <;> rfl
          · cases Payload.ofArguments type lifetime (argument :: arguments) <;> rfl

/-- What the line of a file says. -/
theorem ofLine_fileLine (hzone : Spellable zone) (h : Arguments word ttl s) :
    ZoneEntry.ofLine (fileLine zone word ttl s) =
      (described word ttl s).map fun rdata => some ⟨zone.toPlain, false, rdata⟩ := by
  have hcomment : ¬ZoneEntry.isComment (Text.trim (fileLine zone word ttl s).toList) = true := by
    rcases trim_fileLine hzone h with ⟨front, -, htrim⟩
    rcases List.exists_cons_of_ne_nil hzone.isWord.ne with ⟨c, cs, htext⟩
    rw [Zone.Load.isComment_iff, htrim, htext]
    intro hcomment
    have hc := head?_text hzone c (by rw [htext]; rfl)
    rcases hcomment c rfl with rfl | rfl
    · exact hc.1 rfl
    · exact hc.2 rfl
  unfold ZoneEntry.ofLine
  dsimp only
  rw [if_neg hcomment, ofFields_fileLine hzone h]
  cases described word ttl s <;> rfl

/-! ## What the lines do -/

section Stores

variable {σ : Type} [Store σ]

/-- The store with the payload at a zone, if there is one. -/
def supplied (zone : Name) (rdata? : Option (Rdata Name)) (store : σ) : σ :=
  match rdata? with
  | none => store
  | some rdata => ((Zone.Admin.addRecord zone rdata).perform store).2

/-- The payload that the console makes of the words. -/
def said (word ttl s : String) : Option (Rdata Name) :=
  (payload word ttl (ZoneEntry.fields s.toList)).toOption

/-- The payload that the line of a file spells. -/
def written (word ttl s : String) : Option (Rdata Name) :=
  (described word ttl s).toOption

theorem execute_addLine (h : Arguments word ttl s) (zone : Name) (store : σ) :
    (execute (.zone zone) (addLine word ttl s) store).2.2 =
      supplied zone (said word ttl s) store := by
  rcases List.exists_cons_of_ne_nil h.fields_ne_nil with ⟨argument, arguments, hwords⟩
  have hcommand : (command (.zone zone) "add" (word :: ttl :: argument :: arguments) :
      Change σ Reaction) = do return (← addRecord zone word ttl (argument :: arguments),
        .zone zone) := rfl
  have hadd : (addRecord zone word ttl (argument :: arguments) : Change σ Output) = do
      let rdata ← Change.ask fun _ => payload word ttl (argument :: arguments)
      let record ← Zone.Admin.addRecord zone rdata
      return say [s!"Record added: {record.text}"] := rfl
  have hask : (Change.ask fun _ => payload word ttl (argument :: arguments) :
      Change σ (Rdata Name)).perform store =
        (payload word ttl (argument :: arguments), store) := rfl
  unfold said
  rw [execute_eq (fields_addLine h), hwords, hcommand, Zone.Change.perform_bind, hadd,
    Zone.Change.perform_bind, hask]
  cases payload word ttl (argument :: arguments) with
  | error fault => rfl
  | ok rdata =>
      dsimp only
      rw [Zone.Change.perform_bind]
      change _ = ((Zone.Admin.addRecord zone rdata).perform store).2
      cases (Zone.Admin.addRecord zone rdata : Change σ Record).perform store with
      | mk outcome next => cases outcome <;> rfl

/-- The stores resolve a name by its labels. -/
def ByLabels (σ : Type) [Store σ] : Prop :=
  ∀ (store : σ) (name : Name), Store.resolve store name = Store.resolve store name.toPlain

theorem tree_byLabels : ByLabels Tree :=
  fun _ _ => rfl

theorem relations_byLabels : ByLabels Relations :=
  fun _ _ => rfl

theorem addName_toPlain (hlabels : ByLabels σ) (name : Name) (wildcard : Bool) :
    (Zone.Admin.addName name wildcard : Change σ Name) =
      Zone.Admin.addName name.toPlain wildcard := by
  have hresolve : (fun store : σ => Store.resolve store name) =
      fun store => Store.resolve store name.toPlain := funext fun store => hlabels store name
  unfold Zone.Admin.addName
  rw [hresolve]
  rfl

theorem addRecord_toPlain (hlabels : ByLabels σ) (zone : Name) (rdata : Rdata Name) :
    (Zone.Admin.addRecord zone rdata : Change σ Record) =
      Zone.Admin.addEntry ⟨zone.toPlain, false, rdata⟩ := by
  unfold Zone.Admin.addRecord Zone.Admin.addEntry Zone.Admin.addAt
  rw [addName_toPlain hlabels]

/-- A load of one line does to a store what the line does. -/
theorem perform_lines_singleton (text : String) (store : σ) :
    ((Zone.Load.lines [text]).perform store).2 = ((Zone.Load.line text).perform store).2 := by
  unfold Zone.Load.lines Zone.Load.linesFrom
  rw [Zone.Change.perform_bind, Zone.Change.perform_tryCatch, Zone.Change.perform_bind]
  cases (Zone.Load.line text).perform store with
  | mk outcome next =>
      cases outcome with
      | error fault =>
          dsimp only
          cases fault.stopsLoad <;> rfl
      | ok added => cases added <;> rfl

theorem not_mem_of_word {cs : List Char} (h : Text.Word cs) : '\n' ∉ cs := fun hmem =>
  absurd (h.solid '\n' hmem) (by decide)

theorem linesOf_fileLine (hzone : Spellable zone) (h : Arguments word ttl s) :
    Text.linesOf (fileLine zone word ttl s) = [fileLine zone word ttl s] := by
  have hlist := toList_fileLine zone word ttl s
  refine Text.linesOf_of_not_mem (fun hempty => ?_) ?_
  · rw [hempty] at hlist
    exact absurd hlist.symm (List.append_ne_nil_of_left_ne_nil hzone.isWord.ne _)
  · rw [hlist]
    simp [not_mem_of_word hzone.isWord, not_mem_of_word h.ttl, not_mem_of_word h.word, h.line]

theorem perform_fileLine (hlabels : ByLabels σ) (hzone : Spellable zone)
    (h : Arguments word ttl s) (store : σ) :
    ((Zone.Load.file (Text.bytes (fileLine zone word ttl s))).perform store).2 =
      supplied zone (written word ttl s) store := by
  rw [Zone.Load.file_bytes, Zone.Load.text_eq_lines, linesOf_fileLine hzone h,
    perform_lines_singleton]
  unfold Zone.Load.line written
  rw [ofLine_fileLine hzone h]
  cases described word ttl s with
  | error cause => rfl
  | ok rdata =>
      change ((some <$> Zone.Admin.addEntry ⟨zone.toPlain, false, rdata⟩ :
        Change σ (Option Record)).perform store).2 =
          ((Zone.Admin.addRecord zone rdata).perform store).2
      rw [addRecord_toPlain hlabels, Zone.Change.perform_map]
      cases (Zone.Admin.addEntry ⟨zone.toPlain, false, rdata⟩ : Change σ Record).perform store with
      | mk outcome next => cases outcome <;> rfl

end Stores

/-! ## Payloads -/

/-- The console looks for a stored type first, but a payload of another type is refused anyway. -/
theorem toOption_payload (word ttl : String) (words : List String) :
    (payload word ttl words).toOption =
      (do
        let lifetime ← Ttl.ofText ttl
        let type ← Payload.type word
        Payload.ofArguments type lifetime words : Except EntryError (Rdata Name)).toOption := by
  unfold payload kind Payload.kind
  cases Payload.type word with
  | error cause => cases Ttl.ofText ttl <;> rfl
  | ok type =>
      cases hkind : type.kind? with
      | none =>
          have hrefused (lifetime : UInt32) :
              Payload.ofArguments type lifetime words = .error (.unsupported type) := by
            unfold Payload.ofArguments
            rw [hkind]
          cases Ttl.ofText ttl with
          | error cause =>
              rw [ok_bind, hkind]
              rfl
          | ok lifetime =>
              rw [ok_bind, ok_bind, ok_bind, hkind, hrefused]
              rfl
      | some kind =>
          cases Ttl.ofText ttl with
          | error cause =>
              rw [ok_bind, hkind]
              rfl
          | ok lifetime =>
              rw [ok_bind, ok_bind, ok_bind, hkind, ← RecordType.type_of_kind? hkind]
              change ((Payload.ofArguments kind.type lifetime words).mapError
                Fault.entry).toOption = _
              cases Payload.ofArguments kind.type lifetime words <;> rfl

/-- The words of a text with single spaces between them. -/
def joined (s : String) : String :=
  String.ofList (Text.respaced s.toList)

/-- A text as it stands, without the white space around it. -/
def trimmed (s : String) : String :=
  String.ofList (Text.trim s.toList)

theorem intercalate_fields (s : String) :
    " ".intercalate (ZoneEntry.fields s.toList) = joined s := by
  refine String.toList_inj.1 ?_
  unfold joined ZoneEntry.fields Text.respaced
  rw [String.toList_intercalate, List.map_map, String.toList_ofList]
  simp

/-- Whether the payload of a text fits into a record. -/
def Fits (raw : String) : Prop :=
  (Rdata.txt 0 (String.ofList (Payload.unquoted raw.toList)) : Rdata Name).size ≤ maxRdataSize

instance (raw : String) : Decidable (Fits raw) :=
  inferInstanceAs (Decidable
    ((Rdata.txt 0 (String.ofList (Payload.unquoted raw.toList)) : Rdata Name).size ≤ maxRdataSize))

theorem toOption_txt (lifetime : UInt32) {raw : String} (h : raw ≠ "") :
    (Payload.txt lifetime raw).toOption =
      if Fits raw then some (.txt lifetime (String.ofList (Payload.unquoted raw.toList)))
      else none := by
  have hempty : ¬raw.isEmpty = true := by simpa using h
  unfold Payload.txt
  rw [if_neg hempty]
  dsimp only
  by_cases hfits : Fits raw
  · rw [if_pos hfits]
    exact congrArg Except.toOption (if_pos hfits)
  · rw [if_neg hfits]
    exact congrArg Except.toOption (if_neg hfits)

/-! ## Texts in quotes -/

/-- A text between quotes. -/
def Quoted (cs : List Char) : Prop :=
  ∃ inner, cs = '"' :: (inner ++ ['"'])

theorem unquoted_quoted (inner : List Char) :
    Payload.unquoted ('"' :: (inner ++ ['"'])) = inner :=
  (if_pos List.getLast?_concat).trans List.dropLast_concat

theorem unquoted_of_not_quoted {cs : List Char} (h : ¬Quoted cs) : Payload.unquoted cs = cs := by
  unfold Payload.unquoted
  split
  · rename_i rest
    refine if_neg fun hlast => h ⟨rest.dropLast, ?_⟩
    rw [List.dropLast_append_getLast? _ hlast]
  · rfl

/-- White space in a text does not matter for whether it stands between quotes. -/
theorem quoted_solid {cs : List Char} (h : Text.Trimmed cs) :
    Quoted (Text.solid cs) ↔ Quoted cs := by
  constructor
  · rintro ⟨inner, hinner⟩
    have hhead := h.head?_solid
    have hlast := h.getLast?_solid
    rw [hinner] at hhead hlast
    cases cs with
    | nil => cases hhead
    | cons c cs =>
        obtain rfl : '"' = c := Option.some.inj hhead
        rcases List.eq_nil_or_concat' cs with rfl | ⟨front, d, rfl⟩
        · -- One quote is no pair.
          have hlength := congrArg List.length hinner
          change 1 = _ at hlength
          simp at hlength
        · rw [← List.cons_append, ← List.cons_append, List.getLast?_concat,
            List.getLast?_concat] at hlast
          obtain rfl : '"' = d := Option.some.inj hlast
          exact ⟨front, rfl⟩
  · rintro ⟨inner, rfl⟩
    refine ⟨Text.solid inner, ?_⟩
    change Text.solid (['"'] ++ (inner ++ ['"'])) = _
    rw [Text.solid_append, Text.solid_append]
    rfl

/-- Texts with the same characters that are not blank are equal if they are without their quotes. -/
theorem unquoted_inj {as bs : List Char} (ha : Text.Trimmed as) (hb : Text.Trimmed bs)
    (hsolid : Text.solid as = Text.solid bs) :
    Payload.unquoted as = Payload.unquoted bs ↔ as = bs := by
  refine ⟨fun h => ?_, congrArg _⟩
  by_cases hquoted : Quoted as
  · have hquoted' : Quoted bs := by
      rwa [← quoted_solid hb, ← hsolid, quoted_solid ha]
    rcases hquoted with ⟨inner, rfl⟩
    rcases hquoted' with ⟨inner', rfl⟩
    rw [unquoted_quoted, unquoted_quoted] at h
    rw [h]
  · have hquoted' : ¬Quoted bs := by
      rwa [← quoted_solid hb, ← hsolid, quoted_solid ha]
    rwa [unquoted_of_not_quoted hquoted, unquoted_of_not_quoted hquoted'] at h

/-! ## Where the payloads differ -/

/-- A text whose words are not one space apart, so that the console and a file read it otherwise. -/
structure Respaced (word ttl s : String) : Prop where
  type : Payload.type word = .ok .txt
  lifetime : ∃ lifetime, Ttl.ofText ttl = .ok lifetime
  spacing : joined s ≠ trimmed s
  fits : Fits (joined s) ∨ Fits (trimmed s)

theorem said_eq_written_of_other (h : Payload.type word ≠ .ok .txt) (ttl s : String) :
    said word ttl s = written word ttl s := by
  unfold said written described
  rw [toOption_payload]
  cases Ttl.ofText ttl with
  | error cause => rfl
  | ok lifetime =>
      cases htype : Payload.type word with
      | error cause => rfl
      | ok type =>
          rw [htype] at h
          rw [ok_bind, ok_bind, ok_bind, ok_bind, if_neg fun htxt => h (congrArg _ htxt)]

theorem said_txt {lifetime : UInt32} (htype : Payload.type word = .ok .txt)
    (hlifetime : Ttl.ofText ttl = .ok lifetime) (s : String) :
    said word ttl s = (Payload.txt lifetime (joined s)).toOption := by
  unfold said
  rw [toOption_payload, hlifetime, htype, ← intercalate_fields]
  rfl

theorem written_txt {lifetime : UInt32} (htype : Payload.type word = .ok .txt)
    (hlifetime : Ttl.ofText ttl = .ok lifetime) (s : String) :
    written word ttl s = (Payload.txt lifetime (trimmed s)).toOption := by
  unfold written described trimmed
  rw [hlifetime, htype, ok_bind, ok_bind, if_pos rfl]

theorem joined_ne_empty (h : Arguments word ttl s) : joined s ≠ "" := by
  intro hempty
  refine h.solid_ne_nil ?_
  rw [← Text.solid_respaced, String.ofList_eq_empty_iff.1 hempty]
  rfl

theorem trimmed_ne_empty (h : Arguments word ttl s) : trimmed s ≠ "" := by
  intro hempty
  exact h.trim_ne_nil (String.ofList_eq_empty_iff.1 hempty)

/-- Quoted or not, texts of the same characters are the same payload if they are equal. -/
theorem payload_inj (s : String) :
    String.ofList (Payload.unquoted (joined s).toList) =
      String.ofList (Payload.unquoted (trimmed s).toList) ↔ joined s = trimmed s := by
  have htrimmed : Text.Trimmed (Text.trim s.toList) := by
    rcases Text.exists_trim s.toList with ⟨-, -, -, -, htrim, -⟩
    exact htrim
  have hsolid : Text.solid (Text.respaced s.toList) = Text.solid (Text.trim s.toList) :=
    (Text.solid_respaced _).trans (Text.solid_trim _).symm
  unfold joined trimmed
  rw [String.ofList_inj, String.ofList_inj, String.toList_ofList, String.toList_ofList,
    unquoted_inj (Text.trimmed_respaced _) htrimmed hsolid]

/-- The console and a file read the same payload, or none, but for a text that is spaced
otherwise. -/
theorem said_eq_written_iff (h : Arguments word ttl s) :
    said word ttl s = written word ttl s ↔ ¬Respaced word ttl s := by
  by_cases htype : Payload.type word = .ok .txt
  · cases hlifetime : Ttl.ofText ttl with
    | error cause =>
        refine iff_of_true ?_ fun hspaced => ?_
        · unfold said written described
          rw [toOption_payload, hlifetime]
          rfl
        · rcases hspaced.lifetime with ⟨lifetime, hok⟩
          rw [hlifetime] at hok
          cases hok
    | ok lifetime =>
        rw [said_txt htype hlifetime, written_txt htype hlifetime,
          toOption_txt lifetime (joined_ne_empty h), toOption_txt lifetime (trimmed_ne_empty h)]
        by_cases hspacing : joined s = trimmed s
        · exact iff_of_true (by rw [hspacing]) fun hspaced => hspaced.spacing hspacing
        · have hdiffer : String.ofList (Payload.unquoted (joined s).toList) ≠
              String.ofList (Payload.unquoted (trimmed s).toList) :=
            fun heq => hspacing ((payload_inj s).1 heq)
          have hspaced : Respaced word ttl s ↔ Fits (joined s) ∨ Fits (trimmed s) :=
            ⟨Respaced.fits, fun hfits => ⟨htype, ⟨lifetime, hlifetime⟩, hspacing, hfits⟩⟩
          rw [hspaced]
          -- If neither text fits, both are refused, and then the spaces do not matter.
          by_cases hjoined : Fits (joined s) <;> by_cases htrimmed : Fits (trimmed s) <;>
            simp [hjoined, htrimmed, hdiffer]
  · exact iff_of_true (said_eq_written_of_other htype ttl s) fun hspaced => htype hspaced.type

/-! ## The stores -/

/-- A payload is stored at a zone, or nothing is changed. -/
def Gains (tree : Tree) (zone : Name) : Option (Rdata Name) → Tree → Prop
  | none, next => next = tree
  | some rdata, next => ∃ stored, Added tree zone rdata stored next

theorem gains_supplied (h : tree.Sound) (hzone : tree.Settled zone)
    (rdata? : Option (Rdata Name)) : Gains tree zone rdata? (supplied zone rdata? tree) := by
  cases rdata? with
  | none => rfl
  | some rdata =>
      rcases addRecord_added h hzone rdata with ⟨stored, next, hperform, hadded⟩
      refine ⟨stored, ?_⟩
      unfold supplied
      dsimp only
      rw [hperform]
      exact hadded

/-- Texts without names are stored as they are. -/
theorem Gains.recordsAt {rdata? : Option (Rdata Name)} {next : Tree}
    (h : Gains tree zone rdata? next)
    (htext : ∀ rdata ∈ rdata?, ∃ lifetime text, rdata = .txt lifetime text) :
    next.recordsAt zone.zoneId =
      tree.recordsAt zone.zoneId ++ rdata?.toList.map (Rdata.map Name.zoneId) := by
  cases rdata? with
  | none =>
      obtain rfl : next = tree := h
      exact (List.append_nil _).symm
  | some rdata =>
      rcases h with ⟨stored, hadded⟩
      rcases htext rdata rfl with ⟨lifetime, text, rfl⟩
      have hstored : stored = .txt lifetime text := by
        have hplain := hadded.plain
        cases stored with
        | txt other said => exact hplain
        | _ => cases hplain
      rw [hadded.recordsAt, if_pos rfl, hstored]
      rfl

theorem text_of_toOption {lifetime : UInt32} {raw : String} {rdata : Rdata Name} (hraw : raw ≠ "")
    (h : (Payload.txt lifetime raw).toOption = some rdata) :
    ∃ text, rdata = .txt lifetime text := by
  rw [toOption_txt lifetime hraw] at h
  split at h
  · exact ⟨_, (Option.some.inj h).symm⟩
  · cases h

/-- Trees that gained different texts are different. -/
theorem ne_of_respaced (h : tree.Sound) (hzone : tree.Settled zone) (hargs : Arguments word ttl s)
    (hspaced : Respaced word ttl s) :
    supplied zone (said word ttl s) tree ≠ supplied zone (written word ttl s) tree := by
  intro heq
  refine (said_eq_written_iff hargs).1 ?_ hspaced
  rcases hspaced.lifetime with ⟨lifetime, hlifetime⟩
  have hsaid : ∀ rdata ∈ said word ttl s, ∃ lifetime text, rdata = .txt lifetime text := by
    intro rdata hmem
    rw [said_txt hspaced.type hlifetime] at hmem
    exact ⟨lifetime, text_of_toOption (joined_ne_empty hargs) hmem⟩
  have hwritten : ∀ rdata ∈ written word ttl s, ∃ lifetime text, rdata = .txt lifetime text := by
    intro rdata hmem
    rw [written_txt hspaced.type hlifetime] at hmem
    exact ⟨lifetime, text_of_toOption (trimmed_ne_empty hargs) hmem⟩
  -- Equal trees have the same records at the zone, so they gained the same text.
  have hrecords := (gains_supplied h hzone (said word ttl s)).recordsAt hsaid
  rw [heq, (gains_supplied h hzone (written word ttl s)).recordsAt hwritten] at hrecords
  have hlists := List.append_cancel_left hrecords
  cases hs : said word ttl s with
  | none =>
      cases hw : written word ttl s with
      | none => rfl
      | some rdata =>
          rw [hs, hw] at hlists
          cases hlists
  | some rdata =>
      cases hw : written word ttl s with
      | none =>
          rw [hs, hw] at hlists
          cases hlists
      | some other =>
          rcases hsaid rdata hs with ⟨lifetime, text, rfl⟩
          rcases hwritten other hw with ⟨lifetime', text', rfl⟩
          rw [hs, hw] at hlists
          cases hlists
          rfl

/-- A name under which a zone is found stands for it when a record is added. -/
theorem supplied_of_findZone (h : tree.Sound) (hfind : findZone tree kept.text = .ok zone)
    (rdata? : Option (Rdata Name)) : supplied kept rdata? tree = supplied zone rdata? tree := by
  cases rdata? with
  | none => rfl
  | some rdata =>
      unfold supplied
      dsimp only
      rw [addRecord_toPlain tree_byLabels, addRecord_toPlain tree_byLabels,
        toPlain_of_findZone h hfind]

/-- For a zone that a tree has, and whatever nodes the session keeps of it, the line of the
console and that of a file store a payload each, or nothing, and they lead to the same tree unless a
text is spaced otherwise. Then a database, too, becomes the same by both. -/
theorem addition_agrees {startedAt : Timestamp}
    (h : Zone.Administered (Tree.empty startedAt) tree)
    (hzone : findZone tree kept.text = .ok zone) (hspell : Spellable kept)
    (hargs : Arguments word ttl s) :
    Gains tree zone (said word ttl s)
        (execute (.zone kept) (addLine word ttl s) tree).2.2 ∧
      Gains tree zone (written word ttl s)
        ((Zone.Load.file (Text.bytes (fileLine kept word ttl s))).perform tree).2 ∧
      ((execute (.zone kept) (addLine word ttl s) tree).2.2 =
          ((Zone.Load.file (Text.bytes (fileLine kept word ttl s))).perform tree).2 ↔
        ¬Respaced word ttl s) ∧
      (¬Respaced word ttl s → ∀ rows : Relations,
        (execute (.zone kept) (addLine word ttl s) rows).2.2 =
          ((Zone.Load.file (Text.bytes (fileLine kept word ttl s))).perform rows).2) := by
  have hsound : tree.Sound := by
    rcases h.reached.history with ⟨events, hevents⟩
    exact Zone.Tree.sound_of_history hevents
  have hsettled := settled_of_findZone hsound hzone
  rw [execute_addLine hargs, perform_fileLine tree_byLabels hspell hargs,
    supplied_of_findZone hsound hzone, supplied_of_findZone hsound hzone]
  refine ⟨gains_supplied hsound hsettled _, gains_supplied hsound hsettled _,
    ⟨fun heq hspaced => ?_, fun hspaced => ?_⟩, fun hspaced rows => ?_⟩
  · exact ne_of_respaced hsound hsettled hargs hspaced heq
  · rw [(said_eq_written_iff hargs).2 hspaced]
  · rw [execute_addLine hargs, perform_fileLine relations_byLabels hspell hargs,
      (said_eq_written_iff hargs).2 hspaced]

/-- A tree with an address at `kin`. -/
def kinTree : Tree :=
  ((Zone.Admin.Request.addRecord Zone.sampleName.toPlain (.a 60 ⟨10, 0, 0, 1⟩)).change.perform
    (Tree.empty ⟨0, 0⟩)).2

/-- An exchange is the same by both lines, and a text with two spaces is not. -/
theorem addition_agrees_kinTree :
    (execute (.zone Zone.sampleName) (addLine "MX" "1h" "10  mail.kin") kinTree).2.2 =
        ((Zone.Load.file (Text.bytes (fileLine Zone.sampleName "MX" "1h" "10  mail.kin"))).perform
          kinTree).2 ∧
      (execute (.zone Zone.sampleName) (addLine "TXT" "60" "a  b") kinTree).2.2 ≠
        ((Zone.Load.file (Text.bytes (fileLine Zone.sampleName "TXT" "60" "a  b"))).perform
          kinTree).2 := by
  have htree : Zone.Administered (Tree.empty ⟨0, 0⟩) kinTree :=
    Zone.Administered.start.request (.addRecord Zone.sampleName.toPlain (.a 60 ⟨10, 0, 0, 1⟩))
  have hzone : findZone kinTree Zone.sampleName.text = .ok Zone.sampleName := by decide +kernel
  have hspell : Spellable Zone.sampleName := by
    have hword : Text.Word Zone.sampleName.text.toList := by decide +kernel
    refine ⟨hword.solid, ?_⟩
    rintro label ⟨⟩
    refine ⟨by decide, ?_⟩
    rintro c ⟨⟩
    decide
  constructor
  · have hargs : Arguments "MX" "1h" "10  mail.kin" :=
      ⟨by decide, by decide, ⟨'1', by decide, by decide⟩, by decide⟩
    have htype : Payload.type "MX" ≠ .ok .txt := by decide +kernel
    exact (addition_agrees htree hzone hspell hargs).2.2.1.2 fun hspaced => htype hspaced.type
  · have hargs : Arguments "TXT" "60" "a  b" :=
      ⟨by decide, by decide, ⟨'a', by decide, by decide⟩, by decide⟩
    have hspaced : Respaced "TXT" "60" "a  b" :=
      ⟨by decide +kernel, ⟨60, by decide +kernel⟩, by decide +kernel, Or.inl (by decide +kernel)⟩
    exact fun heq => (addition_agrees htree hzone hspell hargs).2.2.1.1 heq hspaced

/-- The console stores one of two spaces, a file both. -/
theorem spaces_lost :
    findZone kinTree "kin." = .ok Zone.sampleName ∧
      (execute (.zone Zone.sampleName) "add TXT 60 a  b" kinTree).2.2.recordsAt 1 =
        [.a 60 ⟨10, 0, 0, 1⟩, .txt 60 "a b"] ∧
      ((Zone.Load.file (Text.bytes "kin. 60 TXT a  b")).perform kinTree).2.recordsAt 1 =
        [.a 60 ⟨10, 0, 0, 1⟩, .txt 60 "a  b"] := by
  decide +kernel

end Console
end NameServer
