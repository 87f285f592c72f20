import NameServer.Proofs.Outcome
import NameServer.Rdata.Basic

/-!
# Proofs.Rdata — a step for each reference of a payload

Whatever its references become, a payload is built by its own constructor again.

* `Rdata.type_of_mapM`, `Rdata.map_of_mapM` — it keeps its type, and all of itself when the steps can
  be taken back;
* `Rdata.gives_mapM`, `Rdata.succeeds_mapM`, `Rdata.mapM_congr`, `Rdata.mapM_imp` — what is known of
  each step is known of the payload;
* `Rdata.succeeds_of_mapM` — every step of a payload that is got succeeded.
-/

namespace NameServer
namespace Rdata

variable {ν μ ε : Type} {f g : ν → Except ε μ} {rdata : Rdata ν} {found : Rdata μ}

theorem type_of_mapM (h : rdata.mapM f = .ok found) : found.type = rdata.type := by
  cases rdata with
  | a ttl address | txt ttl text =>
      cases h
      rfl
  | ns ttl name | cname ttl name | mx ttl preference name =>
      rcases exists_of_bind h with ⟨name', _, hfound⟩
      cases hfound
      rfl
  | soa start =>
      rcases exists_of_bind h with ⟨mname, _, hrest⟩
      rcases exists_of_bind hrest with ⟨rname, _, hfound⟩
      cases hfound
      rfl

/-- A payload whose references lead back to those that they were got from. -/
theorem map_of_mapM {back : μ → ν} (h : rdata.mapM f = .ok found)
    (hback : ∀ x y, f x = .ok y → back y = x) : found.map back = rdata := by
  cases rdata with
  | a ttl address | txt ttl text =>
      cases h
      rfl
  | ns ttl name | cname ttl name | mx ttl preference name =>
      rcases exists_of_bind h with ⟨name', hname, hfound⟩
      cases hfound
      rw [map, hback name name' hname]
  | soa start =>
      rcases exists_of_bind h with ⟨mname, hmname, hrest⟩
      rcases exists_of_bind hrest with ⟨rname, hrname, hfound⟩
      cases hfound
      rw [map, hback _ mname hmname, hback _ rname hrname]

/-- What an action gives for each reference is known of the references of the payload. -/
theorem gives_mapM {P : μ → Prop} (h : ∀ x, Gives P (f x)) (rdata : Rdata ν) :
    Gives (fun found => ∀ y ∈ found.references, P y) (rdata.mapM f) := by
  cases rdata with
  | a ttl address | txt ttl text => exact Gives.ok fun _ hn => absurd hn List.not_mem_nil
  | ns ttl name | cname ttl name | mx ttl preference name =>
      exact (h name).bind fun _ hname => Gives.ok (List.forall_mem_singleton.2 hname)
  | soa start =>
      refine (h start.mname).bind fun _ hmname => (h start.rname).bind fun _ hrname => ?_
      exact Gives.ok (List.forall_mem_cons.2 ⟨hmname, List.forall_mem_singleton.2 hrname⟩)

/-- A payload that is got was got by all of its references. -/
theorem succeeds_of_mapM (h : rdata.mapM f = .ok found) :
    ∀ target ∈ rdata.references, Succeeds (f target) := by
  cases rdata with
  | a ttl address | txt ttl text => exact fun _ hmem => absurd hmem List.not_mem_nil
  | ns ttl name | cname ttl name | mx ttl preference name =>
      rcases exists_of_bind h with ⟨name', hname, -⟩
      exact List.forall_mem_singleton.2 ⟨name', hname⟩
  | soa start =>
      rcases exists_of_bind h with ⟨mname, hmname, hrest⟩
      rcases exists_of_bind hrest with ⟨rname, hrname, -⟩
      exact List.forall_mem_cons.2 ⟨⟨mname, hmname⟩, List.forall_mem_singleton.2 ⟨rname, hrname⟩⟩

theorem succeeds_mapM (h : ∀ target ∈ rdata.references, Succeeds (f target)) :
    Succeeds (rdata.mapM f) := by
  cases rdata with
  | a ttl address | txt ttl text => exact Succeeds.ok _
  | ns ttl name | cname ttl name | mx ttl preference name =>
      exact (h name (List.mem_singleton_self name)).bind fun _ => Succeeds.ok _
  | soa start =>
      refine (h start.mname List.mem_cons_self).bind fun _ => ?_
      exact (h start.rname (List.mem_cons_of_mem _ (List.mem_singleton_self _))).bind fun _ =>
        Succeeds.ok _

/-- A payload is got alike from actions that agree on what it refers to. -/
theorem mapM_congr (h : ∀ target ∈ rdata.references, f target = g target) :
    rdata.mapM f = rdata.mapM g := by
  cases rdata with
  | a ttl address | txt ttl text => rfl
  | ns ttl target | cname ttl target | mx ttl preference target =>
      simp only [mapM, h target (List.mem_singleton_self target)]
  | soa start =>
      have hrname := h start.rname (List.mem_cons_of_mem _ (List.mem_singleton_self _))
      simp only [mapM, h start.mname List.mem_cons_self, hrname]

/-- A payload is got from another action that yields what the first one does. -/
theorem mapM_imp (hfg : ∀ x y, f x = .ok y → g x = .ok y) (h : rdata.mapM f = .ok found) :
    rdata.mapM g = .ok found := by
  cases rdata with
  | a ttl address | txt ttl text => exact h
  | ns ttl x | cname ttl x | mx ttl preference x =>
      rcases exists_of_bind h with ⟨y, hy, ⟨⟩⟩
      simp only [mapM, hfg x y hy]
      rfl
  | soa start =>
      rcases exists_of_bind h with ⟨mname, hmname, hrest⟩
      rcases exists_of_bind hrest with ⟨rname, hrname, ⟨⟩⟩
      simp only [mapM, hfg _ _ hmname, hfg _ _ hrname]
      rfl

end Rdata
end NameServer
