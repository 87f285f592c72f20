import NameServer.Message.Basic
import NameServer.Name.Ancestors
import NameServer.Proofs.Lists
import NameServer.Proofs.Name.Spelling

/-!
# Proofs.Name.Peer — names that stand for each other

Two stores may hold the same zones under other numbers and in other spellings. Names that they give
out then stand for each other: their labels do, one by one, and so do the nodes they carry.

* `Peering` — which labels and which zones stand for each other;
* `Name.Peer`, `Rdata.Peer`, `Record.Peer` — names, payloads and records that do;
* `Name.Peer.ancestors` — the levels above such names do too;
* `Record.Peer.sameAs_iff` — records are told apart in the same way on both sides;
* `Peering.same` — labels and zones that stand for themselves only, so that all else is equal.
-/

namespace NameServer

/-- Which labels and which zones of two stores stand for each other. -/
structure Peering where
  label : Label → Label → Prop
  zone : ZoneId → ZoneId → Prop
  sameAs : ∀ {a b}, label a b → a.SameAs b
  root : zone rootZone rootZone

/-- Nodes that stand for each other have the same mark. -/
structure ZoneNode.Peer (p : Peering) (a b : ZoneNode) : Prop where
  zone : p.zone a.id b.id
  wildcard : a.wildcard = b.wildcard

/-- Forms that stand for each other. -/
inductive Name.Form.Peer (p : Peering) : Name.Form → Name.Form → Prop
  | plain : Peer p .plain .plain
  | resolved {xs ys : List ZoneNode} :
      List.Forall₂ (ZoneNode.Peer p) xs ys → Peer p (.resolved xs) (.resolved ys)

namespace Name

/-- Names that stand for each other. -/
structure Peer (p : Peering) (a b : Name) : Prop where
  labels : List.Forall₂ p.label a.labels b.labels
  form : Form.Peer p a.form b.form

/-- Owners that stand for each other: they carry the same besides their labels. -/
structure Owners (p : Peering) (a b : Name) : Prop where
  labels : List.Forall₂ p.label a.labels b.labels
  form : a.form = b.form

variable {p : Peering} {a b c d : Name}

theorem folded_of_labels (h : List.Forall₂ p.label a.labels b.labels) : a.folded = b.folded :=
  Label.map_folded_eq.2 (h.imp fun _ _ => p.sameAs)

theorem Owners.folded (h : Owners p a b) : a.folded = b.folded :=
  folded_of_labels h.labels

theorem Owners.root (p : Peering) : Owners p .root .root :=
  ⟨List.Forall₂.nil, rfl⟩

namespace Peer

/-! ## What is the same -/

theorem folded (h : Peer p a b) : a.folded = b.folded :=
  folded_of_labels h.labels

theorem isRoot (h : Peer p a b) : a.isRoot = b.isRoot := by
  unfold Name.isRoot
  rw [Bool.eq_iff_iff, List.isEmpty_iff_length_eq_zero, List.isEmpty_iff_length_eq_zero,
    h.labels.length_eq]

theorem nodes (h : Peer p a b) : List.Forall₂ (ZoneNode.Peer p) a.nodes b.nodes := by
  have hform := h.form
  unfold Name.nodes
  revert hform
  generalize a.form = f
  generalize b.form = g
  rintro (_ | hnodes)
  · exact List.Forall₂.nil
  · exact hnodes

theorem isResolved (h : Peer p a b) : a.isResolved = b.isResolved := by
  have hform := h.form
  unfold Name.isResolved
  revert hform
  generalize a.form = f
  generalize b.form = g
  rintro (_ | _) <;> rfl

theorem resolvedCount (h : Peer p a b) : a.resolvedCount = b.resolvedCount :=
  h.nodes.length_eq

theorem isFullyResolved (h : Peer p a b) : a.isFullyResolved = b.isFullyResolved := by
  unfold Name.isFullyResolved
  rw [h.isResolved, h.resolvedCount, h.labels.length_eq]

/-- The deepest nodes stand for each other, if there are any. -/
theorem getLast? (h : Peer p a b) :
    (a.nodes.getLast? = none ∧ b.nodes.getLast? = none) ∨
      ∃ x y, a.nodes.getLast? = some x ∧ b.nodes.getLast? = some y ∧ ZoneNode.Peer p x y := by
  have hnodes := List.rel_reverse h.nodes
  rw [← List.head?_reverse, ← List.head?_reverse]
  generalize a.nodes.reverse = xs at hnodes
  generalize b.nodes.reverse = ys at hnodes
  cases hnodes with
  | nil => exact Or.inl ⟨rfl, rfl⟩
  | cons hfirst _ => exact Or.inr ⟨_, _, rfl, rfl, hfirst⟩

theorem zoneId (h : Peer p a b) : p.zone a.zoneId b.zoneId := by
  unfold Name.zoneId
  rcases h.getLast? with ⟨ha, hb⟩ | ⟨x, y, ha, hb, hnode⟩
  · rw [ha, hb]
    exact p.root
  · rw [ha, hb]
    exact hnode.zone

theorem isStar (h : Peer p a b) : a.isStar = b.isStar := by
  unfold Name.isStar
  rcases h.getLast? with ⟨ha, hb⟩ | ⟨x, y, ha, hb, hnode⟩
  · rw [ha, hb]
  · rw [ha, hb]
    exact hnode.wildcard

/-! ## What is cut -/

theorem toPlain (h : Peer p a b) : Owners p a.toPlain b.toPlain :=
  ⟨h.labels, rfl⟩

theorem resolvedPart (h : Peer p a b) : Peer p a.resolvedPart b.resolvedPart := by
  refine ⟨?_, Form.Peer.resolved h.nodes⟩
  change List.Forall₂ p.label (a.labels.drop _) (b.labels.drop _)
  rw [h.resolvedCount, h.labels.length_eq]
  exact List.forall₂_drop _ h.labels

theorem parent? (h : Peer p a b) :
    (a.parent? = none ∧ b.parent? = none) ∨
      ∃ up up', a.parent? = some up ∧ b.parent? = some up' ∧ Peer p up up' := by
  rcases a with ⟨labels, form, size_le, fits⟩
  rcases b with ⟨labels', form', size_le', fits'⟩
  rcases h with ⟨hlabels, hform⟩
  dsimp only at hlabels hform
  cases hlabels with
  | nil => exact Or.inl ⟨rfl, rfl⟩
  | cons hfirst hrest =>
      refine Or.inr ⟨_, _, rfl, rfl, hrest, ?_⟩
      dsimp only
      rw [hrest.length_eq]
      cases hform with
      | plain => exact Form.Peer.plain
      | resolved hnodes => exact Form.Peer.resolved (List.forall₂_take _ hnodes)

theorem climb (h : Peer p a b) (steps : Nat) :
    List.Forall₂ (fun level level' => Peer p level.1 level'.1 ∧ p.zone level.2 level'.2)
      (Name.climb steps a) (Name.climb steps b) := by
  -- Each step up drops the first labels, which leaves names that stand for each other.
  induction steps generalizing a b with
  | zero => exact List.Forall₂.nil
  | succ steps ih =>
      unfold Name.climb
      rcases h.parent? with ⟨ha, hb⟩ | ⟨up, up', ha, hb, hup⟩
      · rw [ha, hb]
        exact List.Forall₂.nil
      · rw [ha, hb]
        exact List.Forall₂.cons ⟨h, h.zoneId⟩ (ih hup)

theorem ancestors (h : Peer p a b) :
    List.Forall₂ (fun level level' => Peer p level.1 level'.1 ∧ p.zone level.2 level'.2)
      a.ancestors b.ancestors := by
  unfold Name.ancestors
  rw [← h.resolvedCount]
  exact h.resolvedPart.climb _

end Peer
end Name

/-! ## Payloads -/

/-- Payloads that are equal but for what they refer to, where one stands for the other. -/
inductive Rdata.Peer {ν μ : Type} (R : ν → μ → Prop) : Rdata ν → Rdata μ → Prop
  | a (ttl : UInt32) (address : IPv4) : Peer R (.a ttl address) (.a ttl address)
  | ns (ttl : UInt32) {x : ν} {y : μ} : R x y → Peer R (.ns ttl x) (.ns ttl y)
  | cname (ttl : UInt32) {x : ν} {y : μ} : R x y → Peer R (.cname ttl x) (.cname ttl y)
  | mx (ttl : UInt32) (preference : UInt16) {x : ν} {y : μ} : R x y →
      Peer R (.mx ttl preference x) (.mx ttl preference y)
  | soa {x x' : ν} {y y' : μ} (serial refresh retry expire minimum : UInt32) : R x y → R x' y' →
      Peer R (.soa ⟨x, x', serial, refresh, retry, expire, minimum⟩)
        (.soa ⟨y, y', serial, refresh, retry, expire, minimum⟩)
  | txt (ttl : UInt32) (text : String) : Peer R (.txt ttl text) (.txt ttl text)

namespace Rdata.Peer

variable {ν μ ν' μ' κ ε : Type} {R : ν → μ → Prop} {S : ν' → μ' → Prop} {r : Rdata ν} {s : Rdata μ}

theorem type (h : Peer R r s) : r.type = s.type := by
  cases h <;> rfl

theorem ttl (h : Peer R r s) : r.ttl = s.ttl := by
  cases h <;> rfl

/-- Payloads of a type stand for each other in their order. -/
theorem filter_type {rs : List (Rdata ν)} {ss : List (Rdata μ)} (h : List.Forall₂ (Peer R) rs ss)
    (type : RecordType) : List.Forall₂ (Peer R) (rs.filter fun r => r.type = type)
      (ss.filter fun s => s.type = type) := by
  induction h with
  | nil => exact List.Forall₂.nil
  | cons hfirst _ ih =>
      rw [List.filter_cons, List.filter_cons, hfirst.type]
      split
      · exact List.Forall₂.cons hfirst ih
      · exact ih

theorem targets (h : Peer R r s) : List.Forall₂ R r.targets s.targets := by
  cases h with
  | a | txt => exact List.Forall₂.nil
  | ns _ h | cname _ h | mx _ _ h | soa _ _ _ _ _ h => exact List.Forall₂.cons h List.Forall₂.nil

theorem exists_of_mem {x : ν} (h : Peer R r s) (hmem : x ∈ r.references) : ∃ y, R x y := by
  cases h with
  | a | txt => cases hmem
  | ns _ h | cname _ h | mx _ _ h => exact ⟨_, List.mem_singleton.1 hmem ▸ h⟩
  | soa _ _ _ _ _ hm hr =>
      rcases List.mem_cons.1 hmem with rfl | hmem
      · exact ⟨_, hm⟩
      · rw [List.mem_singleton] at hmem
        subst hmem
        exact ⟨_, hr⟩

theorem imp {R' : ν → μ → Prop} (h : Peer R r s) (himp : ∀ x y, R x y → R' x y) : Peer R' r s := by
  cases h with
  | a ttl address => exact .a ttl address
  | ns ttl h => exact .ns ttl (himp _ _ h)
  | cname ttl h => exact .cname ttl (himp _ _ h)
  | mx ttl preference h => exact .mx ttl preference (himp _ _ h)
  | soa _ _ _ _ _ hm hr => exact .soa _ _ _ _ _ (himp _ _ hm) (himp _ _ hr)
  | txt ttl text => exact .txt ttl text

/-- Two payloads that stand for a third one stand for each other. -/
theorem join {T : κ → μ → Prop} {t : Rdata κ} (h : Peer R r s) (ht : Peer T t s) :
    Peer (fun x z => ∃ y, R x y ∧ T z y) r t := by
  cases h <;> cases ht <;> constructor <;> exact ⟨_, ‹_›, ‹_›⟩

theorem mapM {f : ν → Except ε ν'} {g : μ → Except ε μ'} (h : Peer R r s)
    (hstep : ∀ x y, R x y → Agree S (f x) (g y)) : Agree (Peer S) (r.mapM f) (s.mapM g) := by
  cases h with
  | a ttl address => exact .a ttl address
  | txt ttl text => exact .txt ttl text
  | ns ttl h => exact (hstep _ _ h).bind fun _ _ => .ns ttl
  | cname ttl h => exact (hstep _ _ h).bind fun _ _ => .cname ttl
  | mx ttl preference h => exact (hstep _ _ h).bind fun _ _ => .mx ttl preference
  | soa _ _ _ _ _ hm hr =>
      exact (hstep _ _ hm).bind fun _ _ hm => (hstep _ _ hr).bind fun _ _ => .soa _ _ _ _ _ hm

/-- What a payload refers to stands for its image. -/
theorem self_map (f : ν → κ) (r : Rdata ν) :
    Peer (fun x y => x ∈ r.references ∧ f x = y) r (r.map f) := by
  cases r with
  | a ttl address => exact .a ttl address
  | txt ttl text => exact .txt ttl text
  | ns ttl x => exact .ns ttl ⟨List.mem_singleton_self x, rfl⟩
  | cname ttl x => exact .cname ttl ⟨List.mem_singleton_self x, rfl⟩
  | mx ttl preference x => exact .mx ttl preference ⟨List.mem_singleton_self x, rfl⟩
  | soa start =>
      exact .soa _ _ _ _ _ ⟨List.mem_cons_self, rfl⟩
        ⟨List.mem_cons_of_mem _ (List.mem_singleton_self _), rfl⟩

/-- Payloads with the same image stand for each other. -/
theorem of_map_eq {f : ν → κ} {g : μ → κ} (h : r.map f = s.map g) :
    Peer (fun x y => x ∈ r.references ∧ f x = g y) r s := by
  refine ((self_map f r).join (h ▸ self_map g s)).imp ?_
  rintro x y ⟨_, ⟨hmem, rfl⟩, _, heq⟩
  exact ⟨hmem, heq.symm⟩

theorem map_left {k : ν → ν'} {T : ν' → μ → Prop} (h : Peer R r s)
    (hmap : ∀ x y, R x y → T (k x) y) : Peer T (r.map k) s := by
  cases h with
  | a ttl address => exact .a ttl address
  | ns ttl h => exact .ns ttl (hmap _ _ h)
  | cname ttl h => exact .cname ttl (hmap _ _ h)
  | mx ttl preference h => exact .mx ttl preference (hmap _ _ h)
  | soa _ _ _ _ _ hm hr => exact .soa _ _ _ _ _ (hmap _ _ hm) (hmap _ _ hr)
  | txt ttl text => exact .txt ttl text

theorem map_eq {f : ν → κ} {g : μ → κ} (h : Peer R r s) (heq : ∀ x y, R x y → f x = g y) :
    r.map f = s.map g := by
  cases h with
  | a | txt => rfl
  | ns _ h | cname _ h | mx _ _ h => simp only [Rdata.map, heq _ _ h]
  | soa _ _ _ _ _ hm hr => simp only [Rdata.map, heq _ _ hm, heq _ _ hr]

end Rdata.Peer

/-! ## Records -/

/-- Names of a store that stand for each other; they are resolved. -/
def Name.Served (p : Peering) (a b : Name) : Prop :=
  Name.Peer p a b ∧ a.isResolved = true

/-- Records that stand for each other. -/
structure Record.Peer (p : Peering) (r s : Record) : Prop where
  name : Name.Owners p r.name s.name
  rdata : Rdata.Peer (Name.Served p) r.rdata s.rdata
  ttl : r.ttl = s.ttl

namespace Record

variable {p : Peering} {r r' s s' : Record} {records records' : List Record}

theorem Peer.sameAs (h : Peer p r s) : r.SameAs s :=
  ⟨h.name.folded, h.rdata.map_eq fun _ _ hserved => hserved.1.folded⟩

theorem Peer.sameAs_iff (h : Peer p r s) (h' : Peer p r' s') : r.SameAs r' ↔ s.SameAs s' := by
  rcases h.sameAs with ⟨hname, hrdata⟩
  rcases h'.sameAs with ⟨hname', hrdata'⟩
  exact and_congr (Eq.congr hname hname') (Eq.congr hrdata hrdata')

/-- Records that stand for each other one by one. -/
abbrev Peers (p : Peering) : List Record → List Record → Prop :=
  List.Forall₂ (Peer p)

theorem Peers.isEmpty (h : Peers p records records') : records.isEmpty = records'.isEmpty := by
  cases h <;> rfl

theorem Peers.any_sameAs (h : Peers p records records') (hr : Peer p r s) :
    (records.any fun other => other.SameAs r) = records'.any fun other => other.SameAs s := by
  induction h with
  | nil => rfl
  | cons hfirst _ ih =>
      rw [List.any_cons, List.any_cons, ih, decide_eq_decide.2 (hfirst.sameAs_iff hr)]

end Record

/-! ## What stands for itself -/

/-- Labels and zones stand for themselves only. -/
def Peering.same : Peering where
  label := Eq
  zone := Eq
  sameAs h := h ▸ rfl
  root := rfl

theorem Name.Form.Peer.eq {f g : Name.Form} (h : Name.Form.Peer .same f g) : f = g := by
  cases h with
  | plain => rfl
  | resolved hnodes =>
      rw [eq_of_forall₂ hnodes]
      rintro ⟨_, _⟩ ⟨_, _⟩ ⟨rfl, rfl⟩
      rfl

namespace Name

variable {a b : Name}

theorem Owners.eq (h : Owners .same a b) : a = b :=
  ext (eq_of_forall₂ h.labels fun _ _ => id) h.form

theorem Peer.eq (h : Peer .same a b) : a = b :=
  ext (eq_of_forall₂ h.labels fun _ _ => id) h.form.eq

/-- A resolved name stands for itself. -/
theorem peer_self (h : a.isResolved = true) : Peer .same a a := by
  refine ⟨List.forall₂_same.2 fun _ _ => rfl, ?_⟩
  unfold isResolved at h
  cases hform : a.form with
  | plain | compressed => rw [hform] at h; cases h
  | resolved nodes => exact .resolved (List.forall₂_same.2 fun _ _ => ⟨rfl, rfl⟩)

end Name

theorem Rdata.Peer.eq {ν : Type} {R : ν → ν → Prop} {r s : Rdata ν} (h : Rdata.Peer R r s)
    (heq : ∀ x y, R x y → x = y) : r = s := by
  cases h with
  | a | txt => rfl
  | ns _ h | cname _ h | mx _ _ h => rw [heq _ _ h]
  | soa _ _ _ _ _ hm hr => rw [heq _ _ hm, heq _ _ hr]

theorem Record.Peer.eq {r s : Record} (h : Record.Peer .same r s) : r = s := by
  rcases r with ⟨name, rdata, ttl⟩
  rcases s with ⟨name', rdata', ttl'⟩
  rcases h with ⟨hname, hrdata, httl⟩
  rw [Record.mk.injEq]
  exact ⟨hname.eq, hrdata.eq fun _ _ hserved => hserved.1.eq, httl⟩

end NameServer
