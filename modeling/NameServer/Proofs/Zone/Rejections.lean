import NameServer.Proofs.Text.Fields
import NameServer.Proofs.Text.Lines
import NameServer.Proofs.Zone.Calls
import NameServer.Proofs.Zone.Loading

/-!
# Proofs.Zone.Rejections — rejected lines leave no trace

A line is rejected for what it says and before it has done anything, so a load that goes on behind
it finds the store as it was. Its report accounts for every line of the file.

* `Load.file_bytes` — the file of a text is loaded line by line;
* `Load.Silent`, `Load.Refuses` — the lines that say nothing, and those that are refused;
* `Load.Accounts` — a report on some lines;
* `Load.file_leaves_no_trace` — the store is the one of the text with these lines cleared.
-/

namespace NameServer
namespace Zone
namespace Load

variable {tree : Tree} {texts : List String} {text : String} {fault : Fault}

/-! ## Files of texts -/

theorem readable_map_bytes (texts : List String) :
    readable (texts.map Text.bytes) = (texts, none) := by
  induction texts with
  | nil => rfl
  | cons text texts ih =>
      have hdecode : Text.decode (Text.bytes text) = .ok text := by
        unfold Text.decode
        rw [Text.ofBytes?_bytes]
      rw [List.map_cons, readable, hdecode]
      dsimp only
      rw [ih]

theorem hasLines_bytes (s : String) : HasLines (Text.bytes s) (Text.linesOf s) := by
  unfold HasLines
  rw [Text.byteLines_bytes, readable_map_bytes]

/-- A load of the bytes of a text is a load of the text. -/
theorem file_bytes {σ : Type} [Store σ] (s : String) :
    (file (Text.bytes s) : Change σ LoadReport) = Load.text s := by
  unfold file
  rw [hasLines_bytes s]
  exact bind_pure _

theorem text_eq_lines {σ : Type} [Store σ] (s : String) :
    (Load.text s : Change σ LoadReport) = lines (Text.linesOf s) := rfl

/-- What a load of the file of a text does to a sound tree. -/
theorem file_performs (h : tree.Sound) (s : String) :
    (file (Text.bytes s)).perform tree =
      (.ok ⟨(entriesOf (Text.linesOf s)).length, rejections 1 (Text.linesOf s)⟩,
        addAll (entriesOf (Text.linesOf s)) tree) := by
  have hload := linesFrom_performs h 1 ⟨0, []⟩ (Text.linesOf s)
  rw [Nat.zero_add, List.nil_append] at hload
  exact file_perform (hasLines_bytes s) tree hload

/-! ## What lines are to a load -/

/-- A blank line or a comment: its first character that is not blank, if any, starts a comment. -/
def Silent (text : String) : Prop :=
  ∀ c ∈ text.toList.find? (fun c => !Text.isBlank c), c = '#' ∨ c = ';'

instance : DecidablePred Silent :=
  fun text => inferInstanceAs (Decidable (∀ c ∈ text.toList.find? _, c = '#' ∨ c = ';'))

/-- A line that cannot be read, or one that asks for a wildcard at the root. -/
inductive Refuses (text : String) : Fault → Prop
  | unread {cause : EntryError} (h : ZoneEntry.ofLine text = .error cause) :
      Refuses text (.entry cause)
  | wildcardRoot {entry : ZoneEntry} (h : ZoneEntry.ofLine text = .ok (some entry))
      (root : entry.name.isRoot = true) (star : entry.wildcard = true) : Refuses text .wildcardRoot

theorem isComment_iff (line : List Char) :
    ZoneEntry.isComment line = true ↔ ∀ c ∈ line.head?, c = '#' ∨ c = ';' := by
  unfold ZoneEntry.isComment
  split
  · simp
  · simp
  · simp
  · rename_i hnil hhash hsemicolon
    cases line with
    | nil => exact absurd rfl hnil
    | cons c line =>
        refine ⟨fun h => (Bool.false_ne_true h).elim, fun h => ?_⟩
        rcases h c rfl with rfl | rfl
        · exact absurd rfl (hhash line)
        · exact absurd rfl (hsemicolon line)

theorem ofLine_eq_none_iff : ZoneEntry.ofLine text = .ok none ↔ Silent text := by
  unfold Silent
  rw [← Text.head?_trim, ← isComment_iff]
  unfold ZoneEntry.ofLine
  dsimp only
  split
  · rename_i hcomment
    exact iff_of_true rfl hcomment
  · rename_i hcomment
    refine iff_of_false ?_ hcomment
    cases ZoneEntry.ofFields (Text.trim text.toList) <;> exact fun h => nomatch h

theorem accepted_eq_none_iff : accepted text = .ok none ↔ Silent text := by
  rw [← ofLine_eq_none_iff]
  unfold accepted
  split
  · simp [*]
  · simp [*]
  · split <;> simp [*]

theorem accepted_eq_error_iff : accepted text = .error fault ↔ Refuses text fault := by
  constructor
  · intro h
    unfold accepted at h
    split at h
    · rename_i hline
      cases h
      exact .unread hline
    · cases h
    · rename_i hline
      split at h
      · rename_i hroot
        cases h
        rcases Bool.and_eq_true_iff.1 hroot with ⟨hname, hstar⟩
        exact .wildcardRoot hline hname hstar
      · cases h
  · unfold accepted
    rintro (hline | ⟨hline, hname, hstar⟩)
    · rw [hline]
    · rw [hline]
      exact if_pos (Bool.and_eq_true_iff.2 ⟨hname, hstar⟩)

/-! ## Reports -/

/-- A report that accounts for every one of some lines. -/
structure Accounts (texts : List String) (report : LoadReport) : Prop where
  /-- Every line is loaded, rejected, or says nothing. -/
  total : report.loaded + report.rejected.length + texts.countP (Silent ·) = texts.length
  increasing : report.rejected.Pairwise fun first second => first.line < second.line
  /-- A line is rejected for what it says, and by its number from 1. -/
  rejected : ∀ line fault, ⟨line, fault⟩ ∈ report.rejected ↔
    ∃ i text, texts[i]? = some text ∧ line = i + 1 ∧ Refuses text fault

theorem length_rejections (number : Nat) (texts : List String) :
    (entriesOf texts).length + (rejections number texts).length + texts.countP (Silent ·) =
      texts.length := by
  induction texts generalizing number with
  | nil => rfl
  | cons text texts ih =>
      have hrest := ih (number + 1)
      have hsilent := @accepted_eq_none_iff text
      rw [List.countP_cons, entriesOf_cons, rejections, List.length_cons]
      cases haccepted : accepted text with
      | error fault =>
          rw [haccepted] at hsilent
          have hspeaks : ¬Silent text := fun h => by cases hsilent.2 h
          rw [if_neg (mt of_decide_eq_true hspeaks), List.length_cons]
          dsimp only
          omega
      | ok said =>
          rw [haccepted] at hsilent
          cases said with
          | none =>
              rw [if_pos (decide_eq_true (hsilent.1 rfl))]
              dsimp only
              omega
          | some entry =>
              have hspeaks : ¬Silent text := fun h => by cases hsilent.2 h
              rw [if_neg (mt of_decide_eq_true hspeaks)]
              dsimp only
              rw [List.length_cons]
              omega

theorem pairwise_rejections (number : Nat) (texts : List String) :
    (rejections number texts).Pairwise fun first second => first.line < second.line := by
  induction texts generalizing number with
  | nil => exact List.Pairwise.nil
  | cons text texts ih =>
      rw [rejections]
      split
      · refine List.pairwise_cons.2 ⟨?_, ih _⟩
        rintro ⟨line, fault⟩ hlater
        rcases mem_rejections.1 hlater with ⟨i, -, -, hline, -⟩
        change number < line
        omega
      · exact ih _

theorem accounts (texts : List String) :
    Accounts texts ⟨(entriesOf texts).length, rejections 1 texts⟩ where
  total := length_rejections 1 texts
  increasing := pairwise_rejections 1 texts
  rejected line fault := by
    simp only [mem_rejections, accepted_eq_error_iff, Nat.add_comm 1]

/-! ## Rejected lines are cleared -/

/-- A line, or an empty one if it is rejected. -/
def spared (text : String) : String :=
  match accepted text with
  | .error _ => ""
  | .ok _ => text

theorem accepted_empty : accepted "" = .ok none := rfl

theorem exists_accepted_spared (text : String) : ∃ said, accepted (spared text) = .ok said := by
  unfold spared
  split
  · exact ⟨none, accepted_empty⟩
  · exact ⟨_, by assumption⟩

theorem entriesOf_map_spared (texts : List String) :
    entriesOf (texts.map spared) = entriesOf texts := by
  unfold entriesOf
  rw [List.filterMap_map]
  refine List.filterMap_congr fun text _ => ?_
  dsimp only [Function.comp]
  unfold spared
  split
  · rename_i fault haccepted
    rw [accepted_empty, haccepted]
    rfl
  · rfl

/-- Empty lines add nothing. -/
theorem entriesOf_filter (texts : List String) :
    entriesOf (texts.filter (· ≠ "")) = entriesOf texts := by
  unfold entriesOf
  rw [List.filterMap_filter]
  refine List.filterMap_congr fun text _ => ?_
  by_cases htext : text = ""
  · subst htext
    rfl
  · rw [if_pos (decide_eq_true htext)]

theorem rejections_eq_nil (number : Nat) (h : ∀ text ∈ texts, ∃ said, accepted text = .ok said) :
    rejections number texts = [] := by
  refine List.eq_nil_iff_forall_not_mem.2 ?_
  rintro ⟨line, fault⟩ hmem
  rcases mem_rejections.1 hmem with ⟨i, text, htext, -, hfault⟩
  rcases h text (List.mem_of_getElem? htext) with ⟨said, hentry⟩
  rw [hentry] at hfault
  cases hfault

/-- To empty the lines with the numbers of the rejections is to empty those that are rejected. -/
theorem mapIdx_rejections (texts : List String) :
    (texts.mapIdx fun i text =>
      if i + 1 ∈ (rejections 1 texts).map RejectedLine.line then "" else text) =
      texts.map spared := by
  refine List.ext_getElem? fun i => ?_
  rw [List.getElem?_mapIdx, List.getElem?_map]
  cases htext : texts[i]? with
  | none => rfl
  | some text =>
      have hnumber : i + 1 ∈ (rejections 1 texts).map RejectedLine.line ↔
          ∃ fault, accepted text = .error fault := by
        rw [List.mem_map]
        constructor
        · rintro ⟨⟨line, fault⟩, hmem, hline⟩
          rcases mem_rejections.1 hmem with ⟨j, other, hother, hj, hfault⟩
          obtain rfl : j = i := by
            change line = i + 1 at hline
            omega
          rw [htext] at hother
          cases hother
          exact ⟨fault, hfault⟩
        · rintro ⟨fault, hfault⟩
          exact ⟨⟨i + 1, fault⟩, mem_rejections.2 ⟨i, text, htext, Nat.add_comm i 1, hfault⟩, rfl⟩
      refine congrArg some ?_
      unfold spared
      cases haccepted : accepted text with
      | error fault => exact if_pos (hnumber.2 ⟨fault, haccepted⟩)
      | ok said =>
          refine if_neg fun hmem => ?_
          rcases hnumber.1 hmem with ⟨fault, hfault⟩
          rw [haccepted] at hfault
          cases hfault

/-- A text with its rejected lines cleared has the same entries. -/
theorem entriesOf_clear (s : String) :
    entriesOf (Text.linesOf
        (Text.clear ((rejections 1 (Text.linesOf s)).map RejectedLine.line) s)) =
      entriesOf (Text.linesOf s) := by
  rw [← entriesOf_filter, Text.linesOf_clear, entriesOf_filter, mapIdx_rejections,
    entriesOf_map_spared]

/-- And none of its lines is rejected. -/
theorem rejections_clear (s : String) :
    rejections 1 (Text.linesOf
      (Text.clear ((rejections 1 (Text.linesOf s)).map RejectedLine.line) s)) = [] := by
  refine rejections_eq_nil 1 fun text htext => ?_
  by_cases hempty : text = ""
  · subst hempty
    exact ⟨none, accepted_empty⟩
  · have hmem : text ∈ (Text.linesOf (Text.clear _ s)).filter (· ≠ "") :=
      List.mem_filter.2 ⟨htext, decide_eq_true hempty⟩
    rw [Text.linesOf_clear, mapIdx_rejections] at hmem
    rcases List.mem_map.1 (List.mem_filter.1 hmem).1 with ⟨other, -, rfl⟩
    exact exists_accepted_spared other

/-- A load of a text into a tree that calls have led to yields a report that accounts for every
line, and leads to the tree to which the text leads when the rejected lines are cleared. -/
theorem file_leaves_no_trace {startedAt : Timestamp} {events : List Event}
    (h : History (Tree.empty startedAt) events tree) (s : String) :
    ∃ report next, (file (Text.bytes s)).perform tree = (.ok report, next) ∧
      Accounts (Text.linesOf s) report ∧
        (file (Text.bytes (Text.clear (report.rejected.map RejectedLine.line) s))).perform tree =
          (.ok ⟨report.loaded, []⟩, next) := by
  have hsound := Tree.sound_of_history h
  refine ⟨_, _, file_performs hsound s, accounts _, ?_⟩
  rw [file_performs hsound, entriesOf_clear, rejections_clear]

/-- A file with a comment, an address in words, an asterisk at the root, and a last line that is too
short and has no end. -/
def sampleText : String :=
  "; hosts\r\nwww.kin 60 A 10.0.0.1\r\n\nkin 60 A ten\n*. 60 A 10.0.0.2\n" ++
    "old.kin 1h NS www.kin\nkin 60"

/-- Below the sample tree the file stores two records, one of them at a new node. -/
theorem file_leaves_no_trace_sampleText :
    ∃ report next, (file (Text.bytes sampleText)).perform sampleTree = (.ok report, next) ∧
      report.loaded = 2 ∧ report.rejected.map RejectedLine.line = [4, 5, 7] ∧
      Accounts (Text.linesOf sampleText) report ∧
        (file (Text.bytes (Text.clear [4, 5, 7] sampleText))).perform sampleTree =
          (.ok ⟨2, []⟩, next) := by
  rcases file_leaves_no_trace (history_foldl_record (Tree.empty ⟨0, 0⟩) sampleCalls) sampleText with
    ⟨report, next, hload, haccounts, hclear⟩
  have hreport : ((file (Text.bytes sampleText)).perform sampleTree).1.toOption.map
      (fun report => (report.loaded, report.rejected.map RejectedLine.line)) =
        some (2, [4, 5, 7]) := by
    decide +kernel
  change (file (Text.bytes sampleText)).perform sampleTree = _ at hload
  rw [hload] at hreport
  rcases Prod.mk.inj (Option.some.inj hreport) with ⟨hloaded, hrejected⟩
  rw [hloaded, hrejected] at hclear
  exact ⟨report, next, hload, hloaded, hrejected, haccounts, hclear⟩

end Load
end Zone
end NameServer
