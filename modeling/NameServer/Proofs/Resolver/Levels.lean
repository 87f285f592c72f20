import NameServer.Proofs.Lists
import NameServer.Proofs.Name.Ancestors
import NameServer.Proofs.Zone.View
import NameServer.Resolver

/-!
# Proofs.Resolver.Levels — climbing from the deepest node to the root

The resolver climbs twice, once for records and once for its authority. This file says where both
climbs stop, by depths: the root has depth 0, and the node of the last `n` labels of a name has
depth `n`.

* `View.zoneAt`, `Name.ending` — the zone at a depth and its name within the queried name;
* `View.Holds`, `View.Closest`, `View.Lists`, `View.Serves` — a zone has records of a type, none
  below it has any, and these are the first of them;
* `Resolver.ladder_of_climbs`, `ResolvesTo.levels` — the levels that are climbed are the depths from
  the deepest node to the root;
* `Resolver.firstOf_levels` — records come from the closest level that has any;
* `Resolver.isAuthoritative_levels` — the server speaks with authority when some start of authority
  has no name servers below it.
-/

namespace NameServer

/-! ## Names and depths -/

/-- The last `count` labels of a name, with nothing else. -/
def Name.ending (name : Name) (count : Nat) : Name where
  labels := name.labels.drop (name.labels.length - count)
  form := .plain
  size_le := by
    have hsize := name.size_le
    have hdrop := Name.literalSize_drop_le (name.labels.length - count) name.labels
    unfold Name.wireSize at *
    omega
  fits := trivial

theorem Name.ending_zero (name : Name) : name.ending 0 = Name.root := by
  apply Name.ext
  · simp [Name.ending, Name.root]
  · rfl

namespace Zone.View

variable {σ : Type} [Store σ] (view : View σ) (store : σ) (name : Name)

/-- The depth of the deepest node on the way to a name. -/
def depth : Nat :=
  (view.path store name).length

/-- Whether every label of a name has a node. -/
def Exists : Prop :=
  view.depth store name = name.labels.length

/-- Whether the deepest node on the way to a name is a wildcard. -/
def EndsInStar : Prop :=
  ∃ node, (view.path store name).getLast? = some node ∧ node.wildcard = true

/-- The zone at a depth on the way to a name. -/
def zoneAt : Nat → ZoneId
  | 0 => rootZone
  | depth + 1 =>
    match (view.path store name)[depth]? with
    | some node => node.id
    | none => rootZone

/-- Whether the zone at a depth has records of a type. -/
def Holds (type : RecordType) (depth : Nat) : Prop :=
  view.kept store (view.zoneAt store name depth) type ≠ []

/-- Whether a depth is the closest one to the name whose zone has records of a type. -/
structure Closest (type : RecordType) (depth : Nat) : Prop where
  le : depth ≤ view.depth store name
  holds : view.Holds store name type depth
  none_below : ∀ deeper, depth < deeper → deeper ≤ view.depth store name →
    ¬view.Holds store name type deeper

/-- Whether `records` are the first payloads of a type at a zone, at `owner` and in the order in
which they are kept. -/
def Lists (limit : Nat) (zone : ZoneId) (owner : Name) (type : RecordType)
    (records : List Record) : Prop :=
  ∃ payloads, ((view.kept store zone type).take limit).mapM (view.named store) = .ok payloads ∧
    records = payloads.map (Record.of owner)

/-- Whether `records` are the first records of a type at a depth, owned by the name that the zone
there has within `name`. -/
def Serves (limit : Nat) (type : RecordType) (depth : Nat) (records : List Record) : Prop :=
  ∃ payloads,
    ((view.kept store (view.zoneAt store name depth) type).take limit).mapM (view.named store) =
      .ok payloads ∧
    records = payloads.map (Record.of (name.ending depth))

end Zone.View

namespace Resolver

open Zone (Store View)

variable {σ : Type} [Store σ] {view : View σ} {store : σ} {name resolved : Name}
variable {limit depth : Nat} {zone : ZoneId} {owner : Name} {type : RecordType}
variable {records : List Record}

/-! ## Payloads that are served -/

theorem lists_of_recordsAt (h : recordsAt store limit zone owner type = .ok records) :
    view.Lists store limit zone owner type records := by
  unfold recordsAt at h
  rw [view.records_eq] at h
  rcases exists_of_bind h with ⟨payloads, hpayloads, hrecords⟩
  cases hrecords
  exact ⟨payloads, hpayloads, rfl⟩

/-- Nothing is listed exactly where nothing is kept. -/
theorem eq_nil_iff_of_lists (hlimit : 1 ≤ limit)
    (h : view.Lists store limit zone owner type records) :
    records = [] ↔ view.kept store zone type = [] := by
  rcases h with ⟨payloads, hpayloads, rfl⟩
  have hlength := (forall₂_of_mapM hpayloads).length_eq
  rw [List.length_take] at hlength
  rw [List.map_eq_nil_iff, ← List.length_eq_zero_iff, ← List.length_eq_zero_iff]
  omega

theorem type_of_lists (h : view.Lists store limit zone owner type records) :
    ∀ record ∈ records, record.type = type := by
  rcases h with ⟨payloads, hpayloads, rfl⟩
  intro record hrecord
  rcases List.mem_map.1 hrecord with ⟨payload, hpayload, rfl⟩
  rcases exists_of_mem_right (forall₂_of_mapM hpayloads) hpayload with ⟨rdata, hrdata, hnamed⟩
  calc
    (Record.of owner payload).type = payload.type := rfl
    _ = rdata.type := view.type_of_named hnamed
    _ = type := view.type_of_kept (List.mem_of_mem_take hrdata)

/-- At least one record is served of a zone that has any. -/
theorem eq_nil_iff_of_serves (hlimit : 1 ≤ limit)
    (h : view.Serves store name limit type depth records) :
    records = [] ↔ ¬view.Holds store name type depth :=
  (eq_nil_iff_of_lists hlimit h).trans not_not.symm

theorem type_of_serves (h : view.Serves store name limit type depth records) :
    ∀ record ∈ records, record.type = type :=
  type_of_lists h

/-- Looking for records at a depth serves the first ones there. -/
theorem serves_of_recordsAt
    (h : recordsAt store limit (view.zoneAt store name depth) (name.ending depth) type =
      .ok records) : view.Serves store name limit type depth records :=
  lists_of_recordsAt h

/-- Asking for one record tells whether there are any. -/
theorem holds_of_hasRecords {found : Bool}
    (h : hasRecords store (view.zoneAt store name depth) type = .ok found) :
    found = true ↔ view.Holds store name type depth := by
  unfold hasRecords at h
  rw [view.records_eq] at h
  rcases exists_of_bind h with ⟨payloads, hpayloads, hfound⟩
  cases hfound
  have hlength := (forall₂_of_mapM hpayloads).length_eq
  rw [List.length_take] at hlength
  unfold View.Holds
  rw [Bool.not_eq_true', ← Bool.not_eq_true, List.isEmpty_iff, ne_eq, not_iff_not,
    ← List.length_eq_zero_iff, ← List.length_eq_zero_iff]
  omega

/-! ## Resolved names -/

/-- The name that a store resolves another to: its labels with the nodes on the way to it. -/
structure ResolvesTo (view : View σ) (store : σ) (name resolved : Name) : Prop where
  labels : resolved.labels = name.labels
  form : resolved.form = .resolved (view.path store name)
  depth_le : view.depth store name ≤ name.labels.length

theorem resolvesTo_of_resolve (view : View σ) (h : Store.resolve store name = .ok resolved) :
    ResolvesTo view store name resolved := by
  rw [view.resolve_eq] at h
  cases hresolve : name.resolve (view.path store name) with
  | error e =>
      rw [hresolve] at h
      cases h
  | ok found =>
      rw [hresolve] at h
      cases h
      rcases Name.labels_of_resolve hresolve with ⟨hlabels, hform⟩
      exact ⟨hlabels, hform, Name.length_nodes_le hresolve⟩

namespace ResolvesTo

theorem nodes (h : ResolvesTo view store name resolved) :
    resolved.nodes = view.path store name := by
  unfold Name.nodes
  rw [h.form]

theorem resolvedCount (h : ResolvesTo view store name resolved) :
    resolved.resolvedCount = view.depth store name :=
  congrArg List.length h.nodes

theorem isFullyResolved (h : ResolvesTo view store name resolved) :
    resolved.isFullyResolved = true ↔ view.Exists store name := by
  unfold Name.isFullyResolved Name.isResolved View.Exists
  rw [h.form, h.resolvedCount, h.labels]
  simp

theorem isStar (h : ResolvesTo view store name resolved) :
    resolved.isStar = true ↔ view.EndsInStar store name := by
  unfold Name.isStar View.EndsInStar
  rw [h.nodes]
  cases (view.path store name).getLast? with
  | none => simp
  | some node => simp

theorem resolvedPart_toPlain (h : ResolvesTo view store name resolved) :
    resolved.resolvedPart.toPlain = name.ending (view.depth store name) := by
  apply Name.ext
  · show resolved.labels.drop (resolved.labels.length - resolved.resolvedCount) = _
    rw [h.resolvedCount, h.labels]
    rfl
  · rfl

end ResolvesTo

/-! ## The levels of a resolved name -/

/-- The levels from a depth up to the root. -/
def ladder (view : View σ) (store : σ) (name : Name) : Nat → List (Name × ZoneId)
  | 0 => [(.root, rootZone)]
  | depth + 1 =>
    (name.ending (depth + 1), view.zoneAt store name (depth + 1)) :: ladder view store name depth

/-- The zone of a tail is the one at the depth of its labels. -/
theorem zoneId_of_tail {tail : Name} (h : name.Tail (view.path store name) depth tail)
    (hdepth : depth ≤ view.depth store name) : tail.zoneId = view.zoneAt store name depth := by
  cases depth with
  | zero => exact h.tells.zoneId
  | succ depth =>
      rcases (h.deepest hdepth).2 with ⟨node, hnode, hzone⟩
      rw [hzone, View.zoneAt, hnode]

/-- Climbing through the tails of a name passes the levels from there on. -/
theorem ladder_of_climbs {levels : List (Name × ZoneId)}
    (h : name.Climbs (view.path store name) depth levels) :
    levels.map (fun level => (level.1.toPlain, level.2)) ++ [(.root, rootZone)] =
      ladder view store name depth := by
  induction h with
  | root => rfl
  | @node depth tail node levels htail _ hnode _ ih =>
      have hplain : tail.toPlain = name.ending (depth + 1) := Name.ext htail.labels rfl
      rw [List.map_cons, List.cons_append, ih, ladder, View.zoneAt, hnode, hplain]

namespace ResolvesTo

/-- Cut down to its deepest node, a resolved name is the tail at that depth. -/
theorem tail (h : ResolvesTo view store name resolved) :
    name.Tail (view.path store name) (view.depth store name) resolved.resolvedPart :=
  (Name.Tail.of_form h.labels h.form h.depth_le).resolvedPart h.depth_le

/-- The levels of a resolved name are those from its deepest node up to the root. -/
theorem levels (h : ResolvesTo view store name resolved) :
    Resolver.levels resolved = ladder view store name (view.depth store name) := by
  unfold Resolver.levels Name.ancestors
  rw [h.resolvedCount]
  exact ladder_of_climbs (h.tail.climbs (Nat.le_refl _))

theorem zoneId (h : ResolvesTo view store name resolved) :
    resolved.zoneId = view.zoneAt store name (view.depth store name) := by
  -- Cutting labels off that have no node leaves the deepest node as it is.
  change resolved.resolvedPart.zoneId = _
  exact zoneId_of_tail h.tail (Nat.le_refl _)

end ResolvesTo

/-! ## Where the climbs stop -/

/-- The first step of a climb for records of one type. -/
theorem firstOf_cons {owner : Name} {zone : ZoneId} {levels : List (Name × ZoneId)}
    (h : firstOf store limit [type] ((owner, zone) :: levels) = .ok records) :
    ∃ found, recordsAt store limit zone owner type = .ok found ∧
      (found = [] → firstOf store limit [type] levels = .ok records) ∧
      (found ≠ [] → records = found) := by
  unfold firstOf at h
  rcases exists_of_bind h with ⟨atLevel, hlevel, hrest⟩
  unfold firstOf.atLevel at hlevel
  rcases exists_of_bind hlevel with ⟨found, hfound, hnext⟩
  refine ⟨found, hfound, ?_, ?_⟩
  · intro hempty
    subst hempty
    cases hnext
    exact hrest
  · intro hne
    have hisEmpty : found.isEmpty = false := by simpa using hne
    rw [hisEmpty] at hnext
    cases hnext
    rw [hisEmpty] at hrest
    cases hrest
    rfl

/-- Where nothing is at a depth, what has nothing below it has nothing below it from there. -/
theorem none_below_succ {deepest : Nat} (hhere : ¬view.Holds store name type (deepest + 1))
    (hbelow : ∀ deeper, depth < deeper → deeper ≤ deepest → ¬view.Holds store name type deeper) :
    ∀ deeper, depth < deeper → deeper ≤ deepest + 1 → ¬view.Holds store name type deeper := by
  intro deeper hlt hdeepest
  rcases Nat.le_succ_iff.1 hdeepest with hle | rfl
  · exact hbelow deeper hlt hle
  · exact hhere

/-- A climb for records of one type stops at the closest depth that has any, or finds none. -/
theorem firstOf_ladder (hlimit : 1 ≤ limit) {deepest : Nat}
    (h : firstOf store limit [type] (ladder view store name deepest) = .ok records) :
    (∃ depth ≤ deepest, view.Holds store name type depth ∧
        (∀ deeper, depth < deeper → deeper ≤ deepest → ¬view.Holds store name type deeper) ∧
        view.Serves store name limit type depth records) ∨
      (records = [] ∧ ∀ depth ≤ deepest, ¬view.Holds store name type depth) := by
  induction deepest with
  | zero =>
      rcases firstOf_cons h with ⟨found, hfound, hnone, hsome⟩
      rw [← Name.ending_zero name] at hfound
      have hserves : view.Serves store name limit type 0 found := serves_of_recordsAt hfound
      by_cases hempty : found = []
      · right
        have hrecords := hnone hempty
        cases hrecords
        refine ⟨rfl, ?_⟩
        intro depth hdepth
        rw [Nat.le_zero.1 hdepth]
        exact (eq_nil_iff_of_serves hlimit hserves).1 hempty
      · left
        rw [hsome hempty]
        refine ⟨0, Nat.le_refl _, ?_, by omega, hserves⟩
        exact not_not.1 (mt (eq_nil_iff_of_serves hlimit hserves).2 hempty)
  | succ deepest ih =>
      rcases firstOf_cons h with ⟨found, hfound, hnone, hsome⟩
      have hserves : view.Serves store name limit type (deepest + 1) found :=
        serves_of_recordsAt hfound
      by_cases hempty : found = []
      · -- Nothing is at this depth, so the climb goes on one level up.
        have hhere := (eq_nil_iff_of_serves hlimit hserves).1 hempty
        rcases ih (hnone hempty) with ⟨depth, hle, hholds, hbelow, hfirst⟩ | ⟨hrecords, habove⟩
        · left
          exact ⟨depth, by omega, hholds, none_below_succ hhere hbelow, hfirst⟩
        · right
          refine ⟨hrecords, ?_⟩
          intro depth hdepth
          rcases Nat.le_succ_iff.1 hdepth with hle | rfl
          · exact habove depth hle
          · exact hhere
      · left
        rw [hsome hempty]
        refine ⟨deepest + 1, Nat.le_refl _, ?_, by omega, hserves⟩
        exact not_not.1 (mt (eq_nil_iff_of_serves hlimit hserves).2 hempty)

/-- The records of the closest level are the first ones of the closest depth; without any depth that
has some there are none. -/
theorem firstOf_levels (hlimit : 1 ≤ limit) (hresolved : ResolvesTo view store name resolved)
    (h : firstOf store limit [type] (levels resolved) = .ok records) :
    (∃ depth, view.Closest store name type depth ∧
        view.Serves store name limit type depth records) ∨
      (records = [] ∧ ∀ depth ≤ view.depth store name, ¬view.Holds store name type depth) := by
  rw [hresolved.levels] at h
  rcases firstOf_ladder hlimit h with ⟨depth, hle, hholds, hbelow, hserves⟩ | hnone
  · exact Or.inl ⟨depth, ⟨hle, hholds, hbelow⟩, hserves⟩
  · exact Or.inr hnone

/-- The first step of a climb for authority. -/
theorem isAuthority_cons {owner : Name} {levels : List (Name × ZoneId)} {authority : Bool}
    (h : isAuthority store ((owner, view.zoneAt store name depth) :: levels) = .ok authority) :
    (view.Holds store name .soa depth ∧ authority = true) ∨
      (¬view.Holds store name .soa depth ∧ view.Holds store name .ns depth ∧
        authority = false) ∨
      (¬view.Holds store name .soa depth ∧ ¬view.Holds store name .ns depth ∧
        isAuthority store levels = .ok authority) := by
  unfold isAuthority at h
  rcases exists_of_bind h with ⟨soa, hsoa, hrest⟩
  have hholds := holds_of_hasRecords hsoa
  cases soa with
  | true =>
      cases hrest
      exact Or.inl ⟨hholds.1 rfl, rfl⟩
  | false =>
      have hnone : ¬view.Holds store name .soa depth := mt hholds.2 Bool.false_ne_true
      rcases exists_of_bind hrest with ⟨ns, hns, hmore⟩
      have hservers := holds_of_hasRecords hns
      cases ns with
      | true =>
          cases hmore
          exact Or.inr (Or.inl ⟨hnone, hservers.1 rfl, rfl⟩)
      | false => exact Or.inr (Or.inr ⟨hnone, mt hservers.2 Bool.false_ne_true, hmore⟩)

/-- A climb for authority ends with it at a start of authority that no name servers stand below. -/
theorem isAuthority_ladder {deepest : Nat} {authority : Bool}
    (h : isAuthority store (ladder view store name deepest) = .ok authority) :
    authority = true ↔ ∃ depth ≤ deepest, view.Holds store name .soa depth ∧
      ∀ deeper, depth < deeper → deeper ≤ deepest → ¬view.Holds store name .ns deeper := by
  induction deepest with
  | zero =>
      have hroot : isAuthority store [(.root, view.zoneAt store name 0)] = .ok authority := h
      rcases isAuthority_cons hroot with ⟨hsoa, rfl⟩ | ⟨hnone, -, rfl⟩ | ⟨hnone, -, hend⟩
      · exact iff_of_true rfl ⟨0, Nat.le_refl _, hsoa, by omega⟩
      · refine iff_of_false Bool.false_ne_true ?_
        rintro ⟨depth, hdepth, hsoa, -⟩
        exact hnone (Nat.le_zero.1 hdepth ▸ hsoa)
      · cases hend
        refine iff_of_false Bool.false_ne_true ?_
        rintro ⟨depth, hdepth, hsoa, -⟩
        exact hnone (Nat.le_zero.1 hdepth ▸ hsoa)
  | succ deepest ih =>
      rcases isAuthority_cons h with ⟨hsoa, rfl⟩ | ⟨hnone, hservers, rfl⟩ | ⟨hnone, hnoServers, hup⟩
      · -- A start of authority at the deepest level decides, whatever name servers are beside it.
        exact iff_of_true rfl ⟨deepest + 1, Nat.le_refl _, hsoa, by omega⟩
      · -- These name servers stand below every start of authority that is left.
        refine iff_of_false Bool.false_ne_true ?_
        rintro ⟨depth, hdepth, hsoa, hbelow⟩
        rcases Nat.le_succ_iff.1 hdepth with hle | rfl
        · exact hbelow (deepest + 1) (by omega) (Nat.le_refl _) hservers
        · exact hnone hsoa
      · -- Nothing is at this level, so it neither gives nor takes away authority.
        rw [ih hup]
        constructor
        · rintro ⟨depth, hdepth, hsoa, hbelow⟩
          exact ⟨depth, by omega, hsoa, none_below_succ hnoServers hbelow⟩
        · rintro ⟨depth, hdepth, hsoa, hbelow⟩
          rcases Nat.le_succ_iff.1 hdepth with hle | rfl
          · exact ⟨depth, hle, hsoa, fun deeper hlt hdeepest => hbelow deeper hlt (by omega)⟩
          · exact absurd hsoa hnone

/-- The server speaks with authority when some start of authority on the way has no name servers
below it. -/
theorem isAuthoritative_levels (hresolved : ResolvesTo view store name resolved) {authority : Bool}
    (h : isAuthoritative store resolved = .ok authority) :
    authority = true ↔ ∃ depth ≤ view.depth store name, view.Holds store name .soa depth ∧
      ∀ deeper, depth < deeper → deeper ≤ view.depth store name →
        ¬view.Holds store name .ns deeper := by
  unfold isAuthoritative at h
  rw [hresolved.levels] at h
  exact isAuthority_ladder h

end Resolver

end NameServer
