import NameServer.Proofs.Resolver.Levels
import NameServer.Proofs.Resolver.Peers
import NameServer.Proofs.Resolver.Totality
import NameServer.Proofs.Tree.Growth
import NameServer.Proofs.Tree.References

/-!
# Proofs.Tree.Contents — what a tree holds of what was added to it

What a tree holds after entries were added to an empty one can be read off the entries. There are
zones at the sites of all names that occur in them, and above; those of wildcard entries have the
mark; and at each zone are the payloads of the entries with its name, in their order. The numbers of
zones and the spellings that came first do not show in this.

* `Tree.Shows` — the tree holds this, and no more;
* `Tree.Shows.stores` — one more entry;
* `Tree.Shows.peers` and `Tree.Shows.responds` — two trees that show the same resolve names and serve
  records that stand for each other, so that queries get responses that do.
-/

namespace NameServer
namespace Zone
namespace Tree

variable {tree tree' next : Tree} {zone zone' parent parent' id : ZoneId} {label : Label}
variable {site front : Site} {entry : ZoneEntry} {entries entries' : List ZoneEntry}
variable {startedAt startedAt' : Timestamp} {owner : Name} {stored : Rdata Name}

/-! ## Where nothing is -/

/-- There are no records at a zone that is not there. -/
theorem Sound.recordsAt_eq_nil (h : tree.Sound) (hzone : tree.hasZone zone = false) :
    tree.recordsAt zone = [] := by
  rw [List.eq_nil_iff_forall_not_mem]
  intro rdata hrdata
  have hmem : zone ∈ tree.records := by
    rw [Std.TreeMap.mem_iff_isSome_getElem?, getElem?_records_of_mem hrdata]
    rfl
  rw [h.hasZone_of_records zone hmem] at hzone
  cases hzone

theorem at_empty (hat : (empty startedAt).At zone site) : site = [] := by
  rcases hat with ⟨path, hclimb, rfl⟩
  cases hclimb with
  | root => rfl
  | node _ hnode =>
      rw [show (empty startedAt).nodes[zone]? = none from Std.TreeMap.getElem?_emptyc] at hnode
      cases hnode

/-! ## What is shown -/

/-- The sites that an entry plants: that of its owner, perhaps with the mark, and those of the names
that it refers to. -/
def planted (entry : ZoneEntry) : List (Site × Bool) :=
  (entry.name.folded, entry.wildcard) ::
    entry.rdata.references.map fun target => (target.folded, false)

/-- The payloads of the entries with an owner. -/
def payloads (entries : List ZoneEntry) (site : Site) : List (Rdata Name) :=
  (entries.filter fun entry => entry.name.folded = site).map ZoneEntry.rdata

/-- The tree is what the entries make of an empty one. -/
structure Shows (startedAt : Timestamp) (entries : List ZoneEntry) (tree : Tree) : Prop where
  plants : (empty startedAt).Plants (entries.flatMap planted) tree
  records : ∀ zone site, tree.At zone site →
    List.Forall₂ (Rdata.Peer fun zone name => tree.At zone name.folded) (tree.recordsAt zone)
      (payloads entries site)

theorem shows_empty (startedAt : Timestamp) : Shows startedAt [] (empty startedAt) where
  plants := Sound.plants_of_nodes (sound_empty startedAt) rfl
  records zone _ _ := by
    rw [show (empty startedAt).recordsAt zone = [] from Std.TreeMap.getD_emptyc]
    exact List.Forall₂.nil

namespace Shows

theorem sound (h : Shows startedAt entries tree) : tree.Sound :=
  h.plants.sound

/-- There is a zone at a site when the site ends a planted one. -/
theorem exists_at_iff (h : Shows startedAt entries tree) :
    (∃ zone, tree.At zone site) ↔
      site = [] ∨ ∃ plant ∈ entries.flatMap planted, site <:+ plant.1 := by
  constructor
  · rintro ⟨zone, hat⟩
    exact (h.plants.comes zone site hat).imp at_empty And.right
  · rintro (rfl | ⟨plant, hplant, hsuffix⟩)
    · exact ⟨rootZone, tree.at_root⟩
    · rcases h.plants.there plant hplant with ⟨zone, hat⟩
      exact hat.above hsuffix

theorem isWildcard_iff (h : Shows startedAt entries tree) (hat : tree.At zone site) :
    tree.isWildcard zone = true ↔ (site, true) ∈ entries.flatMap planted := by
  have hempty : (empty startedAt).isWildcard zone = false := by
    unfold isWildcard
    rw [show (empty startedAt).nodes[zone]? = none from Std.TreeMap.getElem?_emptyc]
  rw [h.plants.marked zone site hat, hempty]
  simp

/-- Planting moves no records, and there are none at new zones. -/
theorem records_of_plants {more : List (Site × Bool)} (h : Shows startedAt entries tree)
    (hplants : tree.Plants more next) (hat : next.At zone site) :
    List.Forall₂ (Rdata.Peer fun zone name => next.At zone name.folded) (tree.recordsAt zone)
      (payloads entries site) := by
  rcases hplants.comes zone site hat with hold | ⟨hnew, -⟩
  · refine (h.records zone site hold).imp fun _ _ hrdata => hrdata.imp fun other name hother => ?_
    exact hplants.stays other _ hother
  · -- An entry with this owner would have planted the site before.
    have hnone : payloads entries site = [] := by
      unfold payloads
      rw [List.map_eq_nil_iff, List.filter_eq_nil_iff]
      intro entry hentry hsite
      rcases h.plants.there (entry.name.folded, entry.wildcard)
        (List.mem_flatMap.2 ⟨entry, hentry, List.mem_cons_self⟩) with ⟨other, hother⟩
      rw [of_decide_eq_true hsite] at hother
      rw [hplants.sound.at_inj hat (hplants.stays other site hother), hother.hasZone] at hnew
      cases hnew
    rw [hnone, h.sound.recordsAt_eq_nil hnew]
    exact List.Forall₂.nil

/-- What is stored stands for the payload of the entry. -/
theorem stored_peer (hstores : tree.Stores entry.name entry.wildcard entry.rdata owner stored next) :
    Rdata.Peer (fun zone name => next.At zone name.folded) (stored.map Name.zoneId)
      entry.rdata := by
  refine (Rdata.Peer.of_map_eq hstores.plain).map_left fun target name htarget => ?_
  have hfolded : target.toPlain.folded = name.toPlain.folded := by rw [htarget.2]
  change target.folded = name.folded at hfolded
  rw [← hfolded]
  exact (hstores.references target htarget.1).at

/-- One more entry shows as one more payload behind the others with its owner. -/
theorem stores (h : Shows startedAt entries tree)
    (hstores : tree.Stores entry.name entry.wildcard entry.rdata owner stored next) :
    Shows startedAt (entries ++ [entry]) next where
  plants := by
    rw [List.flatMap_append, List.flatMap_singleton]
    exact h.plants.trans (sound_empty startedAt) hstores.plants
  records zone site hat := by
    have hold := h.records_of_plants hstores.plants hat
    have howner : next.At owner.zoneId entry.name.folded := by
      have hsettled := hstores.settled.at
      rwa [Name.folded, hstores.labels] at hsettled
    rw [hstores.recordsAt, payloads, List.filter_append, List.map_append]
    by_cases hzone : owner.zoneId = zone
    · subst hzone
      rw [if_pos rfl, List.filter_cons_of_pos (by simpa using howner.unique hat)]
      exact List.rel_append hold (List.Forall₂.cons (stored_peer hstores) List.Forall₂.nil)
    · have hsite : entry.name.folded ≠ site := fun heq =>
        hzone (hstores.plants.sound.at_inj howner (heq ▸ hat))
      rw [if_neg hzone, List.filter_cons_of_neg (by simpa using hsite), List.filter_nil,
        List.map_nil, List.append_nil]
      exact hold

/-- What is referred to has a name. -/
theorem grounded (h : Shows startedAt entries tree) : tree.Grounded := by
  intro zone rdata hrdata target htarget
  have hzone : tree.hasZone zone = true := by
    cases hzone : tree.hasZone zone with
    | true => rfl
    | false =>
        rw [h.sound.recordsAt_eq_nil hzone] at hrdata
        cases hrdata
  rcases h.sound.exists_at hzone with ⟨site, hat⟩
  rcases exists_of_mem_right (h.records zone site hat).flip hrdata with ⟨payload, -, hpeer⟩
  rcases Rdata.Peer.exists_of_mem hpeer htarget with ⟨name, hname⟩
  exact hname.hasName

theorem readsSucceed (h : Shows startedAt entries tree) : Resolver.ReadsSucceed tree where
  resolve := h.sound.resolve_total
  records := h.sound.records_succeed h.grounded

end Shows

/-! ## Trees that show the same -/

/-- Entries that plant the same and have the same payloads, for each owner and type in the same
order. -/
structure SameEntries (entries entries' : List ZoneEntry) : Prop where
  planted : ∀ plant, plant ∈ entries.flatMap planted ↔ plant ∈ entries'.flatMap planted
  payloads : ∀ site type, (payloads entries site).filter (fun rdata => rdata.type = type) =
    (payloads entries' site).filter fun rdata => rdata.type = type

/-- Zones of two trees stand for each other when they are at the same site. -/
def peering (tree tree' : Tree) : Peering where
  label := Label.SameAs
  zone zone zone' := ∃ site, tree.At zone site ∧ tree'.At zone' site
  sameAs h := h
  root := ⟨[], tree.at_root, tree'.at_root⟩

namespace Shows

/-- Walking down two trees leads through nodes that stand for each other. -/
theorem walk_peers (h : Shows startedAt entries tree) (h' : Shows startedAt' entries' tree')
    (hsame : SameEntries entries entries') (labels : List Label) (hat : tree.At parent front)
    (hat' : tree'.At parent' front) :
    List.Forall₂ (ZoneNode.Peer (peering tree tree')) (tree.walk parent labels)
      (tree'.walk parent' labels) := by
  induction labels generalizing parent parent' front with
  | nil => exact List.Forall₂.nil
  | cons label labels ih =>
      have hthere : (∃ id, tree.At id (label.folded :: front)) ↔
          ∃ id, tree'.At id (label.folded :: front) := by
        rw [h.exists_at_iff, h'.exists_at_iff]
        simp only [hsame.planted]
      cases hchild : tree.child? parent label with
      | none =>
          have hchild' : tree'.child? parent' label = none := by
            cases hsome : tree'.child? parent' label with
            | none => rfl
            | some id =>
                rcases hthere.2 ⟨id, (h'.sound.child?_eq_some_iff hat').1 hsome⟩ with ⟨other, hother⟩
                rw [(h.sound.child?_eq_some_iff hat).2 hother] at hchild
                cases hchild
          rw [walk_of_childless hchild, walk_of_childless hchild']
          exact List.Forall₂.nil
      | some id =>
          have hid := (h.sound.child?_eq_some_iff hat).1 hchild
          rcases hthere.1 ⟨id, hid⟩ with ⟨id', hid'⟩
          rw [walk_of_child? hchild, walk_of_child? ((h'.sound.child?_eq_some_iff hat').2 hid')]
          refine List.Forall₂.cons ⟨Exists.intro _ ⟨hid, hid'⟩, ?_⟩ (ih hid hid')
          rw [Bool.eq_iff_iff, h.isWildcard_iff hid, h'.isWildcard_iff hid', hsame.planted]

theorem resolve_peers (h : Shows startedAt entries tree) (h' : Shows startedAt' entries' tree')
    (hsame : SameEntries entries entries') (name : Name) :
    Agree (Name.Peer (peering tree tree')) (Store.resolve tree name) (Store.resolve tree' name) := by
  rcases h.sound.resolve_total name with ⟨resolved, hresolve⟩
  rcases h'.sound.resolve_total name with ⟨resolved', hresolve'⟩
  rcases h.sound.resolve_eq_ok_iff.1 hresolve with ⟨hlabels, hform⟩
  rcases h'.sound.resolve_eq_ok_iff.1 hresolve' with ⟨hlabels', hform'⟩
  change Agree _ (tree.resolve name) (tree'.resolve name)
  rw [hresolve, hresolve']
  refine ⟨?_, ?_⟩
  · rw [hlabels, hlabels']
    exact List.forall₂_same.2 fun label _ => Eq.refl label.folded
  · rw [hform, hform']
    exact .resolved (h.walk_peers h' hsame _ tree.at_root tree'.at_root)

/-- The name of a zone has the labels of its site, and the nodes on the way there. -/
theorem named (h : Shows startedAt entries tree) {name : Name} (hat : tree.At zone name.folded) :
    ∃ found, tree.nameOf? zone = some found ∧ found.folded = name.folded ∧
      found.form = .resolved (tree.walk rootZone name.labels.reverse) := by
  rcases h.sound.exists_nameOf? hat.hasName with ⟨found, hfound⟩
  rcases zoneId_of_nameOf? hfound with ⟨hfull, hzone⟩
  have hresolve := h.sound.resolve_of_nameOf? hfound
  have hfolded : found.folded = name.folded := by
    have hsettled := (h.sound.settled_of_resolve hresolve hfull).at
    rw [hzone] at hsettled
    exact hsettled.unique hat
  refine ⟨found, hfound, hfolded, ?_⟩
  rw [(h.sound.resolve_eq_ok_iff.1 hresolve).2]
  exact congrArg _ (tree.walk_congr rootZone (List.rel_reverse (Label.map_folded_eq.1 hfolded)))

/-- Zones at the site of a name have names that stand for each other. -/
theorem nameOf?_peers (h : Shows startedAt entries tree) (h' : Shows startedAt' entries' tree')
    (hsame : SameEntries entries entries') {name : Name} (hat : tree.At zone name.folded)
    (hat' : tree'.At zone' name.folded) :
    ∃ found found', tree.nameOf? zone = some found ∧ tree'.nameOf? zone' = some found' ∧
      Name.Served (peering tree tree') found found' := by
  rcases h.named hat with ⟨found, hfound, hfolded, hform⟩
  rcases h'.named hat' with ⟨found', hfound', hfolded', hform'⟩
  refine ⟨found, found', hfound, hfound', ⟨?_, ?_⟩, ?_⟩
  · exact Label.map_folded_eq.1 (hfolded.trans hfolded'.symm)
  · rw [hform, hform']
    exact .resolved (h.walk_peers h' hsame _ tree.at_root tree'.at_root)
  · unfold Name.isResolved
    rw [hform]

/-- Two trees that show the same have peers for each other's zones. -/
theorem peers (h : Shows startedAt entries tree) (h' : Shows startedAt' entries' tree')
    (hsame : SameEntries entries entries') : Resolver.Peers (peering tree tree') tree tree' where
  records := by
    rintro zone zone' ⟨site, hat, hat'⟩ type limit
    have hrows := Rdata.Peer.filter_type (h.records zone site hat) type
    have hrows' := Rdata.Peer.filter_type (h'.records zone' site hat') type
    rw [hsame.payloads] at hrows
    refine Agree.mapM (List.forall₂_take limit (forall₂_join hrows hrows')) ?_
    rintro stored stored' ⟨payload, hstored, hstored'⟩
    refine (hstored.join hstored').mapM ?_
    rintro target target' ⟨name, htarget, htarget'⟩
    rcases h.nameOf?_peers h' hsame htarget htarget' with ⟨found, found', hfound, hfound', hpeer⟩
    rw [hfound, hfound']
    exact hpeer
  isWildcard := by
    rintro zone zone' ⟨site, hat, hat'⟩
    change tree.isWildcard zone = tree'.isWildcard zone'
    rw [Bool.eq_iff_iff, h.isWildcard_iff hat, h'.isWildcard_iff hat', hsame.planted]

/-- A query gets responses from both trees, and these stand for each other. -/
theorem responds (h : Shows startedAt entries tree) (h' : Shows startedAt' entries' tree')
    (hsame : SameEntries entries entries') (limit : Nat) (query : Message) :
    ∃ m m', Resolver.respond tree limit query = .ok m ∧ Resolver.respond tree' limit query = .ok m' ∧
      Message.Peer (peering tree tree') m m' := by
  have hagree := Resolver.respond_peers (h.peers h' hsame) limit
    (h.resolve_peers h' hsame query.question.name)
    (List.forall₂_same.2 fun label _ => Eq.refl label.folded)
  rcases Resolver.respond_succeeds h.readsSucceed limit query with ⟨m, hm⟩
  rcases hagree.exists_of_ok hm with ⟨m', hm', hpeer⟩
  exact ⟨m, m', hm, hm', hpeer⟩

end Shows

end Tree
end Zone
end NameServer
