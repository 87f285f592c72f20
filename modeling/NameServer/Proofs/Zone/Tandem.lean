import NameServer.Proofs.Tree.Growth
import NameServer.Proofs.Zone.Mirrors

/-!
# Proofs.Zone.Tandem — the same changes of a tree and of rows

A tree and rows that mirror each other still do so after the same change of both, and what the
change yields is the same. Only numbers of records differ, which nobody gets to see, and the words
in which a zone is said to be in use.

* `Fault.Alike` — faults that differ at most in these words;
* `Change.Tandem` — two changes that yield related values, or faults that are alike, and mirrors;
* `Mirrors.adds` and its siblings — what each change makes of mirrors;
* `Admin.addName_tandem`, `Admin.addAt_tandem`, `Admin.deleteZone_tandem` — the administration of both.
-/

namespace NameServer

/-- Faults that are equal, or say that a zone is referred to, with or without saying how often. -/
inductive Fault.Alike : Fault → Fault → Prop
  | refl (fault : Fault) : Alike fault fault
  | inUse (zone : ZoneId) (count : Nat) : Alike (.isReferenced zone) (.hasReferenceCount zone count)

theorem Fault.Alike.kind {fault fault' : Fault} (h : fault.Alike fault') :
    fault.kind = fault'.kind := by
  cases h <;> rfl

namespace Zone

variable {held asked : Label → Prop} {tree next : Tree} {rows : Relations} {zone parent id : ZoneId}
variable {label : Label} {wildcard : Bool} {rdata : Rdata Name} {type : RecordType}

/-! ## Changes in tandem -/

/-- Two changes have yielded related values, or faults that are alike, and mirrors. -/
inductive Outcomes (held : Label → Prop) {α β : Type} (post : α → β → Prop) :
    Except Fault α × Tree → Except Fault β × Relations → Prop
  | ok {a : α} {b : β} {tree : Tree} {rows : Relations} : post a b → Mirrors held tree rows →
      Outcomes held post (.ok a, tree) (.ok b, rows)
  | error {fault fault' : Fault} {tree : Tree} {rows : Relations} : fault.Alike fault' →
      Mirrors held tree rows → Outcomes held post (.error fault, tree) (.error fault', rows)

namespace Change

variable {α β γ δ : Type} {post : α → β → Prop} {post' : γ → δ → Prop}

/-- From mirrors on, the changes yield related values, or faults that are alike, and mirrors. -/
def Tandem (held : Label → Prop) (post : α → β → Prop) (change : Change Tree α)
    (change' : Change Relations β) : Prop :=
  ∀ tree rows, Mirrors held tree rows →
    Outcomes held post (change.perform tree) (change'.perform rows)

namespace Tandem

theorem pure {a : α} {b : β} (h : post a b) :
    Tandem held post (Pure.pure a) (Pure.pure b) :=
  fun _ _ hmirrors => .ok h hmirrors

theorem throw (fault : Fault) :
    Tandem held post (MonadExcept.throw fault) (MonadExcept.throw fault) :=
  fun _ _ hmirrors => .error (.refl fault) hmirrors

theorem bind {change : Change Tree α} {change' : Change Relations β} {f : α → Change Tree γ}
    {g : β → Change Relations δ} (h : Tandem held post change change')
    (hnext : ∀ a b, post a b → Tandem held post' (f a) (g b)) :
    Tandem held post' (change >>= f) (change' >>= g) := by
  intro tree rows hmirrors
  rw [perform_bind, perform_bind]
  have hfirst := h tree rows hmirrors
  generalize change.perform tree = outcome at hfirst
  generalize change'.perform rows = outcome' at hfirst
  cases hfirst with
  | ok hpost hmirrors => exact hnext _ _ hpost _ _ hmirrors
  | error halike hmirrors => exact .error halike hmirrors

/-- Looks that agree. -/
theorem ask {f : Tree → Except Fault α} {g : Relations → Except Fault β}
    (h : ∀ tree rows, Mirrors held tree rows → Agree post (f tree) (g rows)) :
    Tandem held post (Change.ask f) (Change.ask g) := by
  intro tree rows hmirrors
  change Outcomes held post (f tree, tree) (g rows, rows)
  rcases agree_iff.1 (h tree rows hmirrors) with ⟨fault, hf, hg⟩ | ⟨a, b, hf, hg, hpost⟩
  · rw [hf, hg]
    exact .error (.refl fault) hmirrors
  · rw [hf, hg]
    exact .ok hpost hmirrors

/-- What steps do that both fail, or both happen. -/
inductive Both (held : Label → Prop) (post : α → β → Prop) :
    Except Fault (α × Tree) → Except Fault (β × Relations) → Prop
  | fail {fault fault' : Fault} : fault.Alike fault' → Both held post (.error fault) (.error fault')
  | happen {a : α} {b : β} {next : Tree} {next' : Relations} : post a b →
      Mirrors held next next' → Both held post (.ok (a, next)) (.ok (b, next'))

theorem Both.outcomes {f : Tree → Except Fault (α × Tree)}
    {g : Relations → Except Fault (β × Relations)} (h : Both held post (f tree) (g rows))
    (hmirrors : Mirrors held tree rows) :
    Outcomes held post ((Change.step f).perform tree) ((Change.step g).perform rows) := by
  generalize hf : f tree = result at h
  generalize hg : g rows = result' at h
  cases h with
  | fail halike =>
      rw [perform_step_error hf, perform_step_error hg]
      exact .error halike hmirrors
  | happen hpost hnext =>
      rw [perform_step_ok hf, perform_step_ok hg]
      exact .ok hpost hnext

theorem step {f : Tree → Except Fault (α × Tree)} {g : Relations → Except Fault (β × Relations)}
    (h : ∀ tree rows, Mirrors held tree rows → Both held post (f tree) (g rows)) :
    Tandem held post (Change.step f) (Change.step g) :=
  fun tree rows hmirrors => (h tree rows hmirrors).outcomes hmirrors

end Tandem
end Change

/-! ## What changes make of mirrors -/

namespace Mirrors

/-- A new node gets a row behind the others. -/
theorem adds (h : Mirrors held tree rows) (hlabel : held label)
    (hadds : tree.Adds parent label wildcard id next) :
    Mirrors held next { rows with
      zones := rows.zones ++ [⟨id, label, parent, wildcard⟩], lastZone := id } := by
  have hlt : ∀ row ∈ rows.zones, row.id < id := fun row hrow =>
    hadds.id_eq ▸ h.sound.id_lt row.id _ ((h.zones row).1 hrow)
  constructor
  case sound => exact h.sound.adds hadds
  case nextZone => exact hadds.nextZone
  case zones =>
    intro row
    rw [List.mem_append, List.mem_singleton, h.zones, hadds.node]
    by_cases hid : id = row.id
    · have hnew : tree.nodes[row.id]? = none := by
        rw [← hid, hadds.id_eq]
        exact h.sound.nodes_nextZone
      rcases row with ⟨_, _, _, _⟩
      subst hid
      simp [hnew, ZoneRow.toNode, eq_comm]
    · rw [if_neg hid]
      exact or_iff_left fun heq => hid (congrArg ZoneRow.id heq).symm
  case rises =>
    refine List.pairwise_append.2 ⟨h.rises, List.pairwise_singleton _ _, fun row hrow new hnew => ?_⟩
    rw [List.mem_singleton.1 hnew]
    exact hlt row hrow
  case labelled =>
    exact List.forall_mem_append.2 ⟨h.labelled, List.forall_mem_singleton.2 hlabel⟩
  case recordsAt =>
    exact fun zone => (hadds.recordsAt zone).trans (h.recordsAt zone)

/-- What changes records only leaves the nodes and their rows as they are. -/
theorem of_records {rows' : Relations} (h : Mirrors held tree rows) (hsound : next.Sound)
    (hnodes : next.nodes = tree.nodes) (hnext : next.nextZone = tree.nextZone)
    (hzones : rows'.zones = rows.zones) (hlast : rows'.lastZone = rows.lastZone)
    (hrecords : ∀ zone, next.recordsAt zone =
      (rows'.records.filter fun row => row.zone = zone).map RecordRow.rdata) :
    Mirrors held next rows' where
  sound := hsound
  zones row := by rw [hzones, hnodes, h.zones]
  rises := hzones ▸ h.rises
  nextZone := by rw [hnext, hlast, h.nextZone]
  labelled := hzones ▸ h.labelled
  recordsAt := hrecords

/-- A new record gets a row behind the others. -/
theorem records (h : Mirrors held tree rows) (hrecords : tree.Records zone rdata next)
    (number : Nat) (lastRecord : RecordKind → Nat) :
    Mirrors held next { rows with
      records := rows.records ++ [⟨number, zone, rdata.map Name.zoneId⟩], lastRecord } := by
  refine h.of_records (h.sound.records hrecords) hrecords.nodes hrecords.nextZone rfl rfl
    fun other => ?_
  rw [hrecords.recordsAt, List.filter_append, List.map_append]
  by_cases hzone : zone = other
  · subst hzone
    rw [if_pos rfl, h.recordsAt, List.filter_cons_of_pos (by simp)]
    rfl
  · rw [if_neg hzone, h.recordsAt, List.filter_cons_of_neg (by simpa using hzone)]
    exact (List.append_nil _).symm

/-- The rows of a type at a zone are taken away. -/
theorem clears (h : Mirrors held tree rows) (hclears : tree.Clears zone type next) :
    Mirrors held next (rows.deleteRecords zone type).2 := by
  refine h.of_records (h.sound.clears hclears) hclears.nodes hclears.nextZone rfl rfl fun other => ?_
  unfold Relations.deleteRecords
  rw [hclears.recordsAt, List.filter_filter]
  by_cases hzone : zone = other
  · subst hzone
    rw [if_pos rfl, h.recordsAt, List.filter_map, List.filter_filter]
    refine congrArg _ (List.filter_congr fun row _ => ?_)
    by_cases hrow : row.zone = zone
    · simp [hrow]
    · simp [hrow]
  · rw [if_neg hzone, h.recordsAt]
    refine congrArg _ (List.filter_congr fun row _ => ?_)
    by_cases hrow : row.zone = other
    · have hne : row.zone ≠ zone := fun heq => hzone (heq.symm.trans hrow)
      simp [hrow, hrow ▸ hne]
    · simp [hrow]

/-- The row of a marked node is changed where it stands. -/
theorem marks (h : Mirrors held tree rows) (hmarks : tree.Marks zone wildcard next) :
    Mirrors held next { rows with
      zones := rows.zones.map fun row => if row.id = zone then { row with wildcard } else row } := by
  rcases hmarks.node with ⟨marked, hmarked, hnode⟩
  constructor
  case sound => exact h.sound.marks hmarks
  case nextZone => exact hmarks.nextZone.trans h.nextZone
  case zones =>
    intro row
    rw [List.mem_map, hnode]
    constructor
    · rintro ⟨old, hold, rfl⟩
      have hthere := (h.zones old).1 hold
      by_cases hid : old.id = zone
      · subst hid
        rw [hthere, Option.some.injEq] at hmarked
        rw [if_pos rfl, if_pos rfl, ← hmarked]
        rfl
      · rw [if_neg hid, if_neg (Ne.symm hid)]
        exact hthere
    · intro hrow
      by_cases hid : zone = row.id
      · rw [if_pos hid, Option.some.injEq] at hrow
        refine ⟨marked.row zone, (h.zones (marked.row zone)).2 hmarked, (if_pos rfl).trans ?_⟩
        rcases row with ⟨_, _, _, _⟩
        cases hrow
        cases hid
        rfl
      · rw [if_neg hid] at hrow
        exact ⟨row, (h.zones row).2 hrow, if_neg (Ne.symm hid)⟩
  case rises =>
    refine List.pairwise_map.2 (h.rises.imp fun {row later} hlt => ?_)
    split <;> split <;> exact hlt
  case labelled =>
    refine List.forall_mem_map.2 fun row hrow => ?_
    split <;> exact h.labelled row hrow
  case recordsAt =>
    exact fun other => (hmarks.recordsAt other).trans (h.recordsAt other)

/-- The row of a node that is gone is taken away with those of its records. -/
theorem removes (h : Mirrors held tree rows) (hremoves : tree.Removes zone next) :
    Mirrors held next { rows with
      zones := rows.zones.filter fun row => row.id ≠ zone
      records := rows.records.filter fun row => row.zone ≠ zone } := by
  constructor
  case sound => exact h.sound.removes hremoves
  case nextZone => exact hremoves.nextZone.trans h.nextZone
  case zones =>
    intro row
    rw [List.mem_filter, h.zones, hremoves.node]
    by_cases hid : zone = row.id
    · simp [hid]
    · simp [hid, Ne.symm hid]
  case rises => exact h.rises.filter _
  case labelled => exact fun row hrow => h.labelled row (List.mem_of_mem_filter hrow)
  case recordsAt =>
    intro other
    rw [hremoves.recordsAt, List.filter_filter]
    by_cases hzone : zone = other
    · subst hzone
      simp
    · rw [if_neg hzone, h.recordsAt]
      refine congrArg _ (List.filter_congr fun row _ => ?_)
      by_cases hrow : row.zone = other
      · simp [hrow, Ne.symm hzone]
      · simp [hrow]

end Mirrors

/-! ## Calls in tandem -/

open Change (Tandem)

theorem addNode_tandem (hascii : Relations.ComparesAscii held asked) (hlabel : held label)
    (parent : ZoneId) (wildcard : Bool) :
    Tandem held Eq (Store.addNode parent label wildcard) (Store.addNode parent label wildcard) := by
  refine Tandem.step (f := fun tree : Tree => tree.addNode parent label wildcard)
    (g := fun rows : Relations => rows.addNode parent label wildcard) fun tree rows h => ?_
  have hchild := congrArg Option.isSome (h.child?_eq hascii (hascii.asked_of_held label hlabel) parent)
  rw [Option.isSome_map, Option.isSome_map] at hchild
  unfold Relations.addNode
  rw [h.hasZone_eq, hchild]
  cases hzone : tree.hasZone parent with
  | false =>
      have htree : tree.addNode parent label wildcard = .error (.noZone parent) := by
        unfold Tree.addNode
        rw [hzone]
        rfl
      rw [htree]
      exact .fail (.refl _)
  | true =>
      cases hid : tree.child? parent label with
      | some id =>
          have htree : tree.addNode parent label wildcard = .error (.labelTaken parent label) := by
            unfold Tree.addNode
            rw [hzone, hid]
            rfl
          rw [htree]
          exact .fail (.refl _)
      | none =>
          rcases Tree.exists_addNode hzone hid wildcard with ⟨id, next, htree, hadds⟩
          obtain rfl : id = rows.lastZone + 1 := hadds.id_eq.trans h.nextZone
          rw [htree]
          exact .happen rfl (h.adds hlabel hadds)

/-- Names that are resolved refer to their zones in both. -/
theorem mapM_reference (hfull : ∀ target ∈ rdata.references, target.isFullyResolved = true) :
    rdata.mapM Relations.reference = .ok (rdata.map Name.zoneId) := by
  have hone : ∀ target ∈ rdata.references, Relations.reference target = .ok target.zoneId :=
    fun target htarget => if_pos (hfull target htarget)
  cases rdata with
  | a | txt => rfl
  | ns _ name | cname _ name | mx _ _ name =>
      have hname := hone name List.mem_cons_self
      simp only [Rdata.mapM, hname]
      rfl
  | soa start =>
      have hmname := hone start.mname List.mem_cons_self
      have hrname := hone start.rname (List.mem_cons_of_mem _ List.mem_cons_self)
      simp only [Rdata.mapM, hmname, hrname]
      rfl

/-- The numbers that a record gets differ, but nothing else. -/
theorem addRecord_tandem (zone : ZoneId)
    (hfull : ∀ target ∈ rdata.references, target.isFullyResolved = true) :
    Tandem held (fun _ _ => True) (Store.addRecord zone rdata) (Store.addRecord zone rdata) := by
  refine Tandem.step (f := fun tree : Tree => tree.addRecord zone rdata)
    (g := fun rows : Relations => rows.addRecord zone rdata) fun tree rows h => ?_
  unfold Relations.addRecord
  rw [h.hasZone_eq]
  cases hzone : tree.hasZone zone with
  | false =>
      have htree : tree.addRecord zone rdata = .error (.noZone zone) := by
        unfold Tree.addRecord
        rw [hzone]
        rfl
      rw [htree]
      exact .fail (.refl _)
  | true =>
      rcases Tree.exists_addRecord hzone hfull with ⟨number, next, htree, hrecords⟩
      rw [htree, mapM_reference hfull]
      exact .happen trivial (h.records hrecords _ _)

theorem setWildcard_tandem (zone : ZoneId) (wildcard : Bool) :
    Tandem held (fun _ _ => True) (Store.setWildcard zone wildcard)
      (Store.setWildcard zone wildcard) := by
  refine Tandem.step (f := fun tree : Tree => tree.setWildcard zone wildcard)
    (g := fun rows : Relations => rows.setWildcard zone wildcard) fun tree rows h => ?_
  have hnone : (rows.row? zone).isNone = tree.nodes[zone]?.isNone := by
    rw [h.row?_eq, Option.isNone_map]
  unfold Relations.setWildcard
  rw [hnone]
  cases hnode : tree.nodes[zone]? with
  | none =>
      have htree : tree.setWildcard zone wildcard = .error (.noZone zone) := by
        unfold Tree.setWildcard
        rw [hnode]
      rw [htree]
      exact .fail (.refl _)
  | some node =>
      rcases Tree.exists_setWildcard hnode wildcard with ⟨next, htree, hmarks⟩
      rw [htree]
      exact .happen trivial (h.marks hmarks)

theorem deleteRecords_tandem (zone : ZoneId) (type : RecordType) :
    Tandem held Eq (Store.deleteRecords zone type) (Store.deleteRecords zone type) := by
  refine Tandem.step (f := fun tree : Tree => .ok (tree.deleteRecords zone type))
    (g := fun rows : Relations => .ok (rows.deleteRecords zone type)) fun tree rows h => ?_
  refine .happen ?_ (h.clears (Tree.clears_deleteRecords tree zone type))
  calc
    (tree.deleteRecords zone type).1 = (Tree.view.kept tree zone type).length :=
      tree.fst_deleteRecords zone type
    _ = (Relations.view.kept rows zone type).length := by rw [h.kept_eq]
    _ = (rows.recordRows zone type).length := List.length_map _

/-- A zone is referred to in both or in none. -/
theorem Mirrors.referenceCount_eq_zero (h : Mirrors held tree rows) :
    rows.referenceCount zone = 0 ↔ tree.isReferenced zone = false := by
  unfold Relations.referenceCount
  rw [List.countP_eq_zero, Tree.isReferenced_eq_false]
  constructor
  · intro hrows other hne rdata hrdata hmem
    rw [h.recordsAt, List.mem_map] at hrdata
    rcases hrdata with ⟨row, hrow, rfl⟩
    rcases List.mem_filter.1 hrow with ⟨hrow, hzone⟩
    have hzone : row.zone = other := of_decide_eq_true hzone
    exact hrows row hrow (decide_eq_true ⟨hzone ▸ hne, hmem⟩)
  · intro htree row hrow hrefers
    rcases of_decide_eq_true hrefers with ⟨hne, hmem⟩
    refine htree row.zone hne row.rdata ?_ hmem
    rw [h.recordsAt]
    exact List.mem_map_of_mem (List.mem_filter.2 ⟨hrow, decide_eq_true rfl⟩)

/-- A node without children is deleted from both, unless it is referred to. -/
theorem Mirrors.deleteNode (h : Mirrors held tree rows) (hroot : zone ≠ rootZone)
    (hchildless : tree.children zone = []) :
    Tandem.Both held (fun _ _ => True) (tree.deleteNode zone) (rows.deleteNode zone) := by
  have hchildren : rows.children zone = [] := (h.children_eq zone).symm.trans hchildless
  unfold Relations.deleteNode
  rw [if_neg hroot, hchildren, if_neg (by simp)]
  cases hreferenced : tree.isReferenced zone with
  | true =>
      have htree : tree.deleteNode zone = .error (.isReferenced zone) := by
        unfold Tree.deleteNode
        rw [if_neg hroot, hchildless, hreferenced]
        rfl
      have hcount : rows.referenceCount zone ≠ 0 := fun hzero => by
        rw [h.referenceCount_eq_zero.1 hzero] at hreferenced
        cases hreferenced
      rw [htree, if_pos hcount]
      exact .fail (.inUse zone _)
  | false =>
      rw [if_neg (not_not_intro (h.referenceCount_eq_zero.2 hreferenced)), h.row?_eq,
        Option.isNone_map]
      cases hnode : tree.nodes[zone]? with
      | none =>
          have htree : tree.deleteNode zone = .error (.noZone zone) := by
            unfold Tree.deleteNode
            rw [if_neg hroot, hchildless, hreferenced, hnode]
            rfl
          rw [htree]
          exact .fail (.refl _)
      | some node =>
          have htree : ∃ next, tree.deleteNode zone = .ok ((), next) := by
            unfold Tree.deleteNode
            rw [if_neg hroot, hchildless, hreferenced, hnode]
            exact ⟨_, rfl⟩
          rcases htree with ⟨next, htree⟩
          rw [htree]
          exact .happen trivial (h.removes (Tree.removes_of_deleteNode htree))

/-! ## The administration in tandem -/

/-- Names that are the same and fully resolved. -/
def Settles (added added' : Name) : Prop :=
  added = added' ∧ added.isFullyResolved = true

theorem attach_tandem {name : Name} {nodes : List ZoneNode}
    (hlength : nodes.length = name.labels.length) :
    Tandem held Settles (Admin.attach name nodes) (Admin.attach name nodes) := by
  refine Tandem.ask fun _ _ _ => ?_
  cases hresolve : name.resolve nodes with
  | error cause => rfl
  | ok added =>
      rcases Name.labels_of_resolve hresolve with ⟨hlabels, hform⟩
      exact ⟨rfl, Name.isFullyResolved_of_form hform (hlabels ▸ hlength)⟩

theorem addBelow_tandem (hascii : Relations.ComparesAscii held asked) (wildcard : Bool)
    {missing : List Label} (hmissing : ∀ label ∈ missing, held label) (parent : ZoneId) :
    Tandem held (fun nodes nodes' => nodes = nodes' ∧ nodes.length = missing.length)
      (Admin.addBelow parent wildcard missing) (Admin.addBelow parent wildcard missing) := by
  induction missing generalizing parent with
  | nil => exact Tandem.pure ⟨rfl, rfl⟩
  | cons label missing ih =>
      rw [List.forall_mem_cons] at hmissing
      unfold Admin.addBelow
      refine (addNode_tandem hascii hmissing.1 parent _).bind ?_
      rintro id _ rfl
      refine (ih hmissing.2 id).bind ?_
      rintro nodes _ ⟨rfl, hlength⟩
      exact Tandem.pure ⟨rfl, congrArg Nat.succ hlength⟩

theorem length_markLast (nodes : List ZoneNode) : (Admin.markLast nodes).length = nodes.length := by
  induction nodes with
  | nil => rfl
  | cons node nodes ih =>
      cases nodes with
      | nil => rfl
      | cons other nodes =>
          rw [Admin.markLast, List.length_cons, ih]
          · rfl
          · exact List.cons_ne_nil other nodes

/-- A name is resolved alike, with at most one node for each label. -/
theorem resolve_tandem (hascii : Relations.ComparesAscii held asked) {name : Name}
    (hname : name.Among held) :
    Tandem held (fun resolved resolved' => resolved = resolved' ∧
        resolved.labels = name.labels ∧ resolved.isResolved = true)
      (Change.ask fun store => Store.resolve store name)
      (Change.ask fun store => Store.resolve store name) := by
  refine Tandem.ask fun tree rows h => ?_
  change Agree _ (tree.resolve name) (rows.resolve name)
  rw [← h.resolve_eq hascii fun label hlabel => hascii.asked_of_held label (hname label hlabel)]
  rcases h.sound.resolve_total name with ⟨resolved, hresolve⟩
  rcases h.sound.resolve_eq_ok_iff.1 hresolve with ⟨hlabels, hform⟩
  rw [hresolve]
  refine ⟨rfl, hlabels, ?_⟩
  unfold Name.isResolved
  rw [hform]

/-- A name that is added is the same in both, with its nodes. -/
theorem addName_tandem (hascii : Relations.ComparesAscii held asked) {name : Name}
    (hname : name.Among held) (wildcard : Bool) :
    Tandem held Settles (Admin.addName name wildcard) (Admin.addName name wildcard) := by
  unfold Admin.addName
  split
  · rename_i hroot
    split
    · exact Tandem.throw _
    · exact attach_tandem (List.isEmpty_iff_length_eq_zero.1 hroot).symm
  · refine (resolve_tandem hascii hname).bind ?_
    rintro resolved _ ⟨rfl, hlabels, hresolved⟩
    have hcount : resolved.resolvedCount ≤ name.labels.length := hlabels ▸ resolved.nodes_fit.1
    dsimp only
    split
    · rename_i hmissing
      have hfull : resolved.resolvedCount = name.labels.length := by
        rw [List.isEmpty_iff_length_eq_zero, List.length_take] at hmissing
        omega
      split
      · refine (setWildcard_tandem resolved.zoneId true).bind fun _ _ _ => attach_tandem ?_
        rw [length_markLast]
        exact hfull
      · refine Tandem.pure ⟨rfl, ?_⟩
        unfold Name.isFullyResolved
        rw [hresolved, hfull, hlabels, beq_self_eq_true, Bool.and_self]
    · -- The labels that are missing and those with a node make up the name.
      refine (addBelow_tandem hascii wildcard (fun label hlabel => ?_) resolved.zoneId).bind ?_
      · exact hname label (List.mem_of_mem_take (List.mem_reverse.1 hlabel))
      · rintro nodes _ ⟨rfl, hlength⟩
        refine attach_tandem ?_
        rw [List.length_append, hlength, List.length_reverse, List.length_take]
        change resolved.resolvedCount + _ = _
        omega

/-- The names that a payload refers to are the same in both, with their nodes. -/
theorem addTargets_tandem (hascii : Relations.ComparesAscii held asked)
    (htargets : ∀ target ∈ rdata.references, target.Among held) :
    Tandem held (fun stored stored' => stored = stored' ∧
        ∀ target ∈ stored.references, target.isFullyResolved = true)
      (Admin.addTargets rdata) (Admin.addTargets rdata) := by
  have hadd := fun target htarget => addName_tandem hascii (htargets target htarget) false
  cases rdata with
  | a | txt => exact Tandem.pure ⟨rfl, nofun⟩
  | ns _ name | cname _ name | mx _ _ name =>
      refine (hadd name List.mem_cons_self).bind ?_
      rintro added _ ⟨rfl, hfull⟩
      exact Tandem.pure ⟨rfl, List.forall_mem_singleton.2 hfull⟩
  | soa start =>
      refine (hadd start.mname List.mem_cons_self).bind ?_
      rintro mname _ ⟨rfl, hmname⟩
      refine (hadd start.rname (List.mem_cons_of_mem _ List.mem_cons_self)).bind ?_
      rintro rname _ ⟨rfl, hrname⟩
      exact Tandem.pure ⟨rfl, List.forall_mem_cons.2 ⟨hmname, List.forall_mem_singleton.2 hrname⟩⟩

/-- A record is stored for the same name in both. -/
theorem addAt_tandem (hascii : Relations.ComparesAscii held asked) {name : Name}
    (hname : name.Among held) (wildcard : Bool)
    (htargets : ∀ target ∈ rdata.references, target.Among held) :
    Tandem held Eq (Admin.addAt name wildcard rdata) (Admin.addAt name wildcard rdata) := by
  unfold Admin.addAt
  refine (addName_tandem hascii hname wildcard).bind ?_
  rintro owner _ ⟨rfl, -⟩
  refine (addTargets_tandem hascii htargets).bind ?_
  rintro stored _ ⟨rfl, hfull⟩
  exact (addRecord_tandem owner.zoneId hfull).bind fun _ _ _ => Tandem.pure rfl

/-- The children are looked for first, so that they are never counted. -/
theorem deleteZone_tandem (zone : ZoneId) :
    Tandem held (fun _ _ => True) (Admin.deleteZone zone) (Admin.deleteZone zone) := by
  unfold Admin.deleteZone
  split
  · exact Tandem.throw _
  · rename_i hroot
    intro tree rows h
    change Outcomes held _
      ((if (tree.children zone).isEmpty then Store.deleteNode zone else throw (.hasChildren zone) :
        Change Tree Unit).perform tree)
      ((if (rows.children zone).isEmpty then Store.deleteNode zone else throw (.hasChildren zone) :
        Change Relations Unit).perform rows)
    rw [← h.children_eq]
    split
    · rename_i hchildless
      exact (h.deleteNode hroot (List.isEmpty_iff.1 hchildless)).outcomes h
    · exact .error (.refl _) h

end Zone
end NameServer
