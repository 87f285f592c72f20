import Mathlib.Data.List.FinRange
import Mathlib.Logic.Equiv.Defs
import NameServer.Proofs.Tree.Contents
import NameServer.Zone.Load

/-!
# Proofs.Zone.Loading — zone files whose lines change places

Which nodes a load creates first, what numbers they get and how their labels are spelled depends on
the order of the lines. What the server answers does not, as long as the records of one owner and
type stay in their order, in which they are served.

* `Load.accepted` — what a line is to a load, which depends on nothing but the line;
* `Load.lines_shows` — what a load makes of an empty tree, and what it reports;
* `Load.Reordering` — lines that change places, but not with others of the same owner and type;
* `Load.file_reordered` — then the same lines are rejected, and every query gets the same response.
-/

namespace NameServer
namespace Zone

namespace Change

variable {σ α : Type}

theorem perform_tryCatch (change : Change σ α) (handler : Fault → Change σ α) (store : σ) :
    (tryCatch change handler).perform store =
      match change.perform store with
      | (.ok a, next) => (.ok a, next)
      | (.error fault, next) => (handler fault).perform next := by
  cases hperform : change.perform store with
  | mk outcome next =>
      have hrun : StateT.run (ExceptT.run change) store = pure (outcome, next) := hperform
      change StateT.run (ExceptT.run (ExceptT.tryCatch change handler)) store = _
      unfold ExceptT.tryCatch
      rw [ExceptT.run_mk, StateT.run_bind]
      change (StateT.run (ExceptT.run change) store >>= _) = _
      rw [hrun, pure_bind]
      cases outcome <;> rfl

theorem perform_map {β : Type} (f : α → β) (change : Change σ α) (store : σ) :
    (f <$> change).perform store =
      match change.perform store with
      | (.ok a, next) => (.ok (f a), next)
      | (.error fault, next) => (.error fault, next) := by
  rw [map_eq_pure_bind, perform_bind]
  rfl

end Change

namespace Load

open Change (perform_map)

variable {tree next : Tree} {startedAt startedAt' : Timestamp} {xs ys : List String}
variable {entries : List ZoneEntry} {text : String} {entry : ZoneEntry} {fault : Fault}

/-! ## Lines -/

/-- What a line is to a load: nothing, an entry, or a fault. The root cannot be a wildcard. -/
def accepted (text : String) : Except Fault (Option ZoneEntry) :=
  match ZoneEntry.ofLine text with
  | .error cause => .error (.entry cause)
  | .ok none => .ok none
  | .ok (some entry) =>
    if entry.name.isRoot && entry.wildcard then .error .wildcardRoot else .ok (some entry)

/-- The entries that a load accepts. -/
def entriesOf (texts : List String) : List ZoneEntry :=
  texts.filterMap fun text => (accepted text).toOption.join

theorem entriesOf_cons (text : String) (rest : List String) :
    entriesOf (text :: rest) = match accepted text with
      | .ok (some entry) => entry :: entriesOf rest
      | _ => entriesOf rest := by
  unfold entriesOf
  rw [List.filterMap_cons]
  cases accepted text with
  | error fault => rfl
  | ok entry? => cases entry? <;> rfl

/-- The lines that a load rejects, when the first has the number `number`. -/
def rejections (number : Nat) : List String → List RejectedLine
  | [] => []
  | text :: rest =>
    match accepted text with
    | .error fault => ⟨number, fault⟩ :: rejections (number + 1) rest
    | .ok _ => rejections (number + 1) rest

theorem stopsLoad_of_accepted (h : accepted text = .error fault) : fault.stopsLoad = false := by
  unfold accepted at h
  split at h
  · cases h
    rfl
  · cases h
  · split at h
    · cases h
      rfl
    · cases h

/-- A line that is refused does nothing, and one that is accepted adds what it says. -/
theorem line_performs (h : tree.Sound) (text : String) :
    match accepted text with
    | .error fault => (line text).perform tree = (.error fault, tree)
    | .ok none => (line text).perform tree = (.ok none, tree)
    | .ok (some entry) => ∃ record next owner stored,
        (Admin.addEntry entry).perform tree = (.ok record, next) ∧
          (line text).perform tree = (.ok (some record), next) ∧
            tree.Stores entry.name entry.wildcard entry.rdata owner stored next := by
  unfold accepted line
  cases ZoneEntry.ofLine text with
  | error cause => rfl
  | ok entry? =>
      cases entry? with
      | none => rfl
      | some entry =>
          dsimp only
          by_cases hroot : (entry.name.isRoot && entry.wildcard) = true
          · rw [if_pos hroot]
            rw [perform_map, Admin.addEntry, Admin.addAt, Change.perform_bind, Admin.addName]
            rcases Bool.and_eq_true_iff.1 hroot with ⟨hname, hstar⟩
            rw [if_pos hname, if_pos hstar]
            rfl
          · rw [if_neg hroot]
            have hplain : entry.name.isRoot = true → entry.wildcard = false := by
              intro hname
              rw [hname, Bool.true_and] at hroot
              exact Bool.eq_false_iff.2 hroot
            rcases h.addAt_stores entry.rdata hplain with ⟨owner, stored, next, hadd, hstores⟩
            refine ⟨.of owner.toPlain stored, next, owner, stored, hadd, ?_, hstores⟩
            rw [perform_map, Admin.addEntry, hadd]

/-- The tree with entries added one after the other. -/
def addAll (entries : List ZoneEntry) (tree : Tree) : Tree :=
  entries.foldl (fun tree entry => ((Admin.addEntry entry).perform tree).2) tree

/-- A load adds the entries that it accepts and counts them, and reports the lines that it
rejects. -/
theorem linesFrom_performs (h : tree.Sound) (number : Nat) (report : LoadReport)
    (texts : List String) :
    (linesFrom number report texts).perform tree =
      (.ok ⟨report.loaded + (entriesOf texts).length,
        report.rejected ++ rejections number texts⟩, addAll (entriesOf texts) tree) := by
  induction texts generalizing tree number report with
  | nil =>
      simp only [entriesOf, rejections, List.filterMap_nil, List.length_nil, List.append_nil]
      rfl
  | cons text rest ih =>
      have hline := line_performs h text
      unfold linesFrom
      rw [Change.perform_bind, Change.perform_tryCatch, Change.perform_bind]
      cases haccepted : accepted text with
      | error fault =>
          rw [haccepted] at hline
          rw [hline, entriesOf_cons, haccepted]
          dsimp only
          rw [if_neg (by rw [stopsLoad_of_accepted haccepted]; decide)]
          refine (ih h (number + 1) { report with
            rejected := report.rejected ++ [⟨number, fault⟩] }).trans ?_
          simp only [rejections, haccepted, List.append_assoc, List.singleton_append]
      | ok entry? =>
          have hrejections : rejections number (text :: rest) = rejections (number + 1) rest := by
            simp only [rejections, haccepted]
          rw [haccepted] at hline
          rw [hrejections]
          cases entry? with
          | none =>
              rw [hline, entriesOf_cons, haccepted]
              exact ih h (number + 1) report
          | some entry =>
              rcases hline with ⟨record, mid, owner, stored, hadd, hline, hstores⟩
              rw [hline, entriesOf_cons, haccepted]
              dsimp only
              rw [List.length_cons, Nat.add_comm (entriesOf rest).length, ← Nat.add_assoc, addAll,
                List.foldl_cons, hadd]
              exact ih hstores.plants.sound (number + 1) { report with
                loaded := report.loaded + 1 }

theorem mem_entriesOf : entry ∈ entriesOf xs ↔ ∃ text ∈ xs, accepted text = .ok (some entry) := by
  unfold entriesOf
  rw [List.mem_filterMap]
  refine exists_congr fun text => and_congr_right fun _ => ?_
  cases accepted text with
  | error fault => simp [Except.toOption]
  | ok entry? => simp [Except.toOption]

/-- A load does not make a wildcard of the root. -/
theorem plain_of_mem_entriesOf (h : entry ∈ entriesOf xs) (hroot : entry.name.isRoot = true) :
    entry.wildcard = false := by
  rcases mem_entriesOf.1 h with ⟨text, -, haccepted⟩
  unfold accepted at haccepted
  split at haccepted
  · cases haccepted
  · cases haccepted
  · rename_i other _
    split at haccepted
    · cases haccepted
    · rename_i hplain
      cases haccepted
      rw [hroot, Bool.true_and] at hplain
      exact Bool.eq_false_iff.2 hplain

/-- What entries make of a tree that shows others. -/
theorem shows_addAll {more : List ZoneEntry} (h : Tree.Shows startedAt entries tree)
    (hmore : ∀ entry ∈ more, entry.name.isRoot = true → entry.wildcard = false) :
    Tree.Shows startedAt (entries ++ more) (addAll more tree) := by
  induction more generalizing tree entries with
  | nil =>
      rw [List.append_nil]
      exact h
  | cons entry more ih =>
      rcases List.forall_mem_cons.1 hmore with ⟨hentry, hmore⟩
      rcases h.sound.addAt_stores entry.rdata hentry with ⟨owner, stored, next, hadd, hstores⟩
      rw [addAll, List.foldl_cons, Admin.addEntry, hadd, List.append_cons]
      exact ih (h.stores hstores) hmore

/-- What a load makes of an empty tree. -/
theorem lines_shows (startedAt : Timestamp) (texts : List String) :
    ∃ tree, (lines texts).perform (Tree.empty startedAt) =
        (.ok ⟨(entriesOf texts).length, rejections 1 texts⟩, tree) ∧
      Tree.Shows startedAt (entriesOf texts) tree := by
  have hload := linesFrom_performs (Tree.sound_empty startedAt) 1 ⟨0, []⟩ texts
  rw [Nat.zero_add, List.nil_append] at hload
  exact ⟨_, hload, shows_addAll (Tree.shows_empty startedAt) fun _ => plain_of_mem_entriesOf⟩

/-- A line is rejected for what it says, wherever it stands. -/
theorem mem_rejections {number line : Nat} : ⟨line, fault⟩ ∈ rejections number xs ↔
    ∃ i text, xs[i]? = some text ∧ line = number + i ∧ accepted text = .error fault := by
  induction xs generalizing number with
  | nil => simp [rejections]
  | cons first rest ih =>
      have hrest : ⟨line, fault⟩ ∈ rejections (number + 1) rest ↔
          ∃ i text, rest[i]? = some text ∧ line = number + (i + 1) ∧
            accepted text = .error fault := by
        rw [ih]
        simp only [Nat.add_assoc, Nat.add_comm 1]
      have hfirst : (∃ i text, (first :: rest)[i]? = some text ∧ line = number + i ∧
          accepted text = .error fault) ↔ (line = number ∧ accepted first = .error fault) ∨
            ∃ i text, rest[i]? = some text ∧ line = number + (i + 1) ∧
              accepted text = .error fault := by
        rw [← Nat.or_exists_add_one]
        simp [and_comm]
      rw [hfirst, rejections]
      cases haccepted : accepted first with
      | error cause =>
          rw [List.mem_cons, hrest, RejectedLine.mk.injEq, Except.error.injEq, eq_comm (a := fault)]
      | ok entry? => simpa using hrest

/-! ## Lines that change places -/

/-- The owner and the type of the record that a line describes. -/
def key? (text : String) : Option (Site × RecordType) :=
  match ZoneEntry.ofLine text with
  | .ok (some entry) => some (entry.name.folded, entry.rdata.type)
  | _ => none

/-- The lines of one list in another order. Lines with the same owner, with or without the asterisk
and ASCII case aside, and the same type keep their order. -/
structure Reordering (xs ys : List String) where
  place : Fin xs.length ≃ Fin ys.length
  line : ∀ i, ys[place i] = xs[i]
  keeps : ∀ i j, i < j → (key? xs[i]).isSome = true → key? xs[i] = key? xs[j] → place i < place j

theorem filter_eq_map (p : String → Bool) (xs : List String) :
    xs.filter p = ((List.finRange xs.length).filter fun i => p xs[i]).map fun i => xs[i] := by
  calc
    xs.filter p = ((List.finRange xs.length).map fun i => xs[i]).filter p :=
      congrArg (List.filter p) (List.map_getElem_finRange xs).symm
    _ = _ := List.filter_map

namespace Reordering

/-- The lines of one owner and type are the same ones in the same order. -/
theorem filter_eq (reordering : Reordering xs ys) (key : Site × RecordType) :
    xs.filter (fun text => key? text = some key) = ys.filter fun text => key? text = some key := by
  have hplaces : ((List.finRange xs.length).filter fun i => key? xs[i] = some key).map
      reordering.place = (List.finRange ys.length).filter fun j => key? ys[j] = some key := by
    -- Both are the places of these lines in `ys`, from the first to the last.
    refine List.Perm.eq_of_pairwise (fun a b _ _ hlt hgt => absurd hlt (lt_asymm hgt)) ?_
      ((List.pairwise_lt_finRange _).filter _) ?_
    · rw [List.pairwise_map]
      refine ((List.pairwise_lt_finRange _).filter _).imp_of_mem fun hi hj hlt => ?_
      have hi := of_decide_eq_true (List.mem_filter.1 hi).2
      have hj := of_decide_eq_true (List.mem_filter.1 hj).2
      exact reordering.keeps _ _ hlt (by rw [hi]; rfl) (hi.trans hj.symm)
    · refine (List.perm_ext_iff_of_nodup ?_ ((List.nodup_finRange _).filter _)).2 fun j => ?_
      · exact ((List.nodup_finRange _).filter _).map reordering.place.injective
      · rw [List.mem_map, List.mem_filter]
        constructor
        · rintro ⟨i, hi, rfl⟩
          rw [reordering.line]
          exact ⟨List.mem_finRange _, (List.mem_filter.1 hi).2⟩
        · rintro ⟨-, hj⟩
          rcases reordering.place.surjective j with ⟨i, rfl⟩
          rw [reordering.line] at hj
          exact ⟨i, List.mem_filter.2 ⟨List.mem_finRange _, hj⟩, rfl⟩
  rw [filter_eq_map, filter_eq_map, ← hplaces, List.map_map]
  exact List.map_congr_left fun i _ => (reordering.line i).symm

theorem mem_iff (reordering : Reordering xs ys) : text ∈ xs ↔ text ∈ ys := by
  rw [List.mem_iff_get, List.mem_iff_get]
  constructor
  · rintro ⟨i, rfl⟩
    exact ⟨reordering.place i, reordering.line i⟩
  · rintro ⟨j, rfl⟩
    rcases reordering.place.surjective j with ⟨i, rfl⟩
    exact ⟨i, (reordering.line i).symm⟩

end Reordering

theorem key?_of_accepted (h : accepted text = .ok (some entry)) :
    key? text = some (entry.name.folded, entry.rdata.type) := by
  unfold accepted at h
  unfold key?
  split at h
  · cases h
  · cases h
  · split at h
    · cases h
    · cases h
      rename_i hline _
      rw [hline]

/-- The payloads of an owner and type are those of the lines with this owner and type. -/
theorem payloads_entriesOf (xs : List String) (site : Site) (type : RecordType) :
    (Tree.payloads (entriesOf xs) site).filter (fun rdata => rdata.type = type) =
      (entriesOf (xs.filter fun text => key? text = some (site, type))).map ZoneEntry.rdata := by
  unfold Tree.payloads
  rw [List.filter_map, List.filter_filter]
  congr 1
  unfold entriesOf
  rw [List.filter_filterMap, List.filterMap_filter]
  refine List.filterMap_congr fun text _ => ?_
  cases haccepted : accepted text with
  | error fault => simp [Except.toOption]
  | ok entry? =>
      cases entry? with
      | none => simp [Except.toOption]
      | some entry => simp [Except.toOption, Option.filter, key?_of_accepted haccepted, and_comm]

theorem Reordering.sameEntries (reordering : Reordering xs ys) :
    Tree.SameEntries (entriesOf xs) (entriesOf ys) where
  planted plant := by
    simp only [List.mem_flatMap, mem_entriesOf, reordering.mem_iff]
  payloads site type := by
    rw [payloads_entriesOf, payloads_entriesOf, reordering.filter_eq]

/-! ## Zone files -/

/-- The bytes are a text with these lines. -/
def HasLines (bytes : List UInt8) (texts : List String) : Prop :=
  readable (Text.byteLines bytes) = (texts, none)

theorem file_perform {σ : Type} [Store σ] {bytes : List UInt8} (h : HasLines bytes xs) (store : σ)
    {report : LoadReport} {after : σ} (hlines : (lines xs).perform store = (.ok report, after)) :
    (file bytes).perform store = (.ok report, after) := by
  unfold file
  rw [h]
  dsimp only
  rw [Change.perform_bind_ok hlines]
  rfl

/-- Responses that say the same: their headers and questions are equal, and their records are the
same but for the ASCII case of names, TTLs included. -/
structure SameResponse (m m' : Message) : Prop where
  header : m.header = m'.header
  question : m.question = m'.question
  answer : List.Forall₂ (fun r r' => r.SameAs r' ∧ r.ttl = r'.ttl) m.answer m'.answer
  authority : List.Forall₂ (fun r r' => r.SameAs r' ∧ r.ttl = r'.ttl) m.authority m'.authority
  additional : List.Forall₂ (fun r r' => r.SameAs r' ∧ r.ttl = r'.ttl) m.additional m'.additional

theorem sameResponse_of_peer {p : Peering} {m m' : Message} (h : Message.Peer p m m') :
    SameResponse m m' :=
  have hsame : ∀ r r', Record.Peer p r r' → r.SameAs r' ∧ r.ttl = r'.ttl :=
    fun _ _ hr => ⟨hr.sameAs, hr.ttl⟩
  ⟨h.header, h.question, h.answer.imp hsame, h.authority.imp hsame, h.additional.imp hsame⟩

/-- What two loads of the same lines in different places have in common. -/
structure SameLoad (reordering : Reordering xs ys) (report report' : LoadReport)
    (tree tree' : Tree) : Prop where
  /-- Only lines of the files are rejected. -/
  numbers : ∀ line fault, ⟨line, fault⟩ ∈ report.rejected → ∃ i : Fin xs.length,
    line = (i : Nat) + 1
  numbers' : ∀ line fault, ⟨line, fault⟩ ∈ report'.rejected → ∃ j : Fin ys.length,
    line = (j : Nat) + 1
  /-- A line is rejected where it stands in one when it is where it stands in the other. -/
  rejected : ∀ (i : Fin xs.length) fault, ⟨(i : Nat) + 1, fault⟩ ∈ report.rejected ↔
    ⟨(reordering.place i : Nat) + 1, fault⟩ ∈ report'.rejected
  responds : ∀ limit query, ∃ m m', Resolver.respond tree limit query = .ok m ∧
    Resolver.respond tree' limit query = .ok m' ∧ SameResponse m m'

theorem rejected_at (i : Fin xs.length) :
    ⟨(i : Nat) + 1, fault⟩ ∈ rejections 1 xs ↔ accepted xs[i] = .error fault := by
  rw [mem_rejections]
  constructor
  · rintro ⟨j, text, htext, hline, hfault⟩
    obtain rfl : (i : Nat) = j := by omega
    rw [List.getElem?_eq_getElem i.isLt, Option.some.injEq] at htext
    rw [← hfault, ← htext]
    rfl
  · intro hfault
    exact ⟨i, xs[i], List.getElem?_eq_getElem i.isLt, Nat.add_comm _ _, hfault⟩

theorem number_of_rejected {line : Nat} (h : ⟨line, fault⟩ ∈ rejections 1 xs) :
    ∃ i : Fin xs.length, line = (i : Nat) + 1 := by
  rcases mem_rejections.1 h with ⟨i, text, htext, hline, -⟩
  exact ⟨⟨i, (List.getElem?_eq_some_iff.1 htext).1⟩, hline.trans (Nat.add_comm _ _)⟩

/-- When lines change places, but not with others of the same owner and type, the same lines are
rejected, and every query gets the same response. -/
theorem file_reordered (reordering : Reordering xs ys) {bytes bytes' : List UInt8}
    (hbytes : HasLines bytes xs) (hbytes' : HasLines bytes' ys) (startedAt startedAt' : Timestamp) :
    ∃ report tree report' tree',
      (file bytes).perform (Tree.empty startedAt) = (.ok report, tree) ∧
      (file bytes').perform (Tree.empty startedAt') = (.ok report', tree') ∧
      SameLoad reordering report report' tree tree' := by
  rcases lines_shows startedAt xs with ⟨tree, hload, hshows⟩
  rcases lines_shows startedAt' ys with ⟨tree', hload', hshows'⟩
  refine ⟨_, tree, _, tree', file_perform hbytes _ hload, file_perform hbytes' _ hload', ?_⟩
  exact {
    numbers := fun _ _ => number_of_rejected
    numbers' := fun _ _ => number_of_rejected
    rejected := fun i fault => by
      rw [rejected_at, rejected_at, reordering.line]
    responds := fun limit query => by
      rcases hshows.responds hshows' reordering.sameEntries limit query with ⟨m, m', hm, hm', hpeer⟩
      exact ⟨m, m', hm, hm', sameResponse_of_peer hpeer⟩ }

/-- Lines with one owner in two spellings, an asterisk, and the third of them to be rejected. -/
def sampleLines : List String :=
  ["www.kin 60 A 10.0.0.1", "KIN 60 NS www.kin", "*. 60 A 10.0.0.2", "*.kin 60 A 10.0.0.3"]

def sampleFile (lines : List String) : List UInt8 :=
  Text.bytes ("\n".intercalate lines)

/-- The lines from the last to the first. -/
def reversal : Reordering sampleLines sampleLines.reverse where
  place := ⟨Fin.rev, Fin.rev, Fin.rev_rev, Fin.rev_rev⟩
  line := by decide
  keeps := by decide +kernel

/-- The load of the reversed lines makes `*.kin` before `kin` has a name server, rejects its second
line and not its third, and leads to the same responses. -/
theorem file_reordered_reversal :
    ∃ report tree report' tree',
      (file (sampleFile sampleLines)).perform (Tree.empty ⟨0, 0⟩) = (.ok report, tree) ∧
      (file (sampleFile sampleLines.reverse)).perform (Tree.empty ⟨0, 0⟩) = (.ok report', tree') ∧
      SameLoad reversal report report' tree tree' :=
  file_reordered reversal (by unfold HasLines; decide +kernel) (by unfold HasLines; decide +kernel)
    ⟨0, 0⟩ ⟨0, 0⟩

end Load
end Zone
end NameServer
