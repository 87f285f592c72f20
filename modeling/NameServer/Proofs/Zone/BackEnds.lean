import NameServer.Proofs.Zone.Tandem
import NameServer.Responder

/-!
# Proofs.Zone.BackEnds — a server does not show which store it has

A tree and rows that are empty at first, and then asked for the same things in the same order, give
the same replies all along, and at the end every packet gets the same reply from both.

* `Admin.Reply`, `Admin.Request.serve` and `Admin.serve` — what is replied to requests;
* `Admin.SameOutcome` — outcomes that differ at most in when the store was opened and in the words in
  which a zone is said to be in use;
* `Mirrors.serve_request`, `Mirrors.serve` — one request, and any number of them;
* `Mirrors.handle_eq` — one packet;
* `back_ends_agree` — both together, from empty stores on.
-/

namespace NameServer
namespace Zone

variable {held asked : Label → Prop} {tree : Tree} {rows : Relations}

/-! ## Requests and replies -/

namespace Admin

variable {σ : Type} [Store σ]

/-- What a request yields to the one who asked. -/
inductive Reply
  | name (name : Name)
  | record (record : Record)
  | children (children : List Child)
  | records (listed : List (RecordType × List (Rdata Name)))
  | statistics (stats : Statistics)
  | count (count : Nat)
  | done
  deriving DecidableEq

/-- What a request does to a store, with its reply. -/
def Request.serve : Request → Change σ Reply
  | addName name wildcard => do return .name (← Admin.addName name wildcard)
  | addRecord owner rdata => do return .record (← Admin.addRecord owner rdata)
  | addEntry entry => do return .record (← Admin.addEntry entry)
  | find name => do return .name (← Change.ask fun store => Admin.find store name)
  | findZone name => do return .name (← Change.ask fun store => Admin.findZone store name)
  | listChildren zone => do
    return .children (← Change.ask fun store => .ok (Store.children store zone))
  | listRecords zone types => do
    return .records (← Change.ask fun store => Admin.listRecords store zone types)
  | statistics => do return .statistics (← Change.ask fun store => Store.statistics store)
  | deleteRecords zone type => do return .count (← Admin.deleteRecords zone type)
  | deleteZone zone => do
    Admin.deleteZone zone
    return .done

/-- The outcomes of requests, one after the other, and the store behind them. -/
def serve : List Request → σ → List (Except Fault Reply) × σ
  | [], store => ([], store)
  | request :: requests, store =>
    let (outcome, next) := request.serve.perform store
    let (outcomes, last) := serve requests next
    (outcome :: outcomes, last)

/-- Serving a request does to a store what the request does. -/
theorem Request.perform_serve (request : Request) (store : σ) :
    (request.serve.perform store).2 = (request.change.perform store).2 := by
  have hreplied : ∀ {α β : Type} (change : Change σ α) (f : α → β),
      ((do return f (← change)).perform store).2 = (change.perform store).2 := by
    intro α β change f
    rw [Change.perform_bind]
    cases change.perform store with
    | mk outcome next => cases outcome <;> rfl
  cases request <;> unfold Request.serve Request.change <;> simp only [hreplied]

/-- The labels that a request adds are among those held, and those that it looks for among those
asked for. -/
def Request.Among (held asked : Label → Prop) : Request → Prop
  | addName name _ => name.Among held
  | addRecord owner rdata => owner.Among held ∧ ∀ target ∈ rdata.references, target.Among held
  | addEntry entry => entry.name.Among held ∧ ∀ target ∈ entry.rdata.references, target.Among held
  | find name => name.Among asked
  | findZone name => name.Among asked
  | listChildren _ => True
  | listRecords _ _ => True
  | statistics => True
  | deleteRecords _ _ => True
  | deleteZone _ => True

/-- Replies that differ at most in when the store was opened. -/
inductive Reply.Alike : Reply → Reply → Prop
  | refl (reply : Reply) : Alike reply reply
  | statistics (stats : Statistics) (startedAt : Timestamp) :
      Alike (.statistics stats) (.statistics { stats with startedAt })

/-- Replies, or faults, that are alike. -/
inductive SameOutcome : Except Fault Reply → Except Fault Reply → Prop
  | ok {reply reply' : Reply} : reply.Alike reply' → SameOutcome (.ok reply) (.ok reply')
  | error {fault fault' : Fault} : fault.Alike fault' → SameOutcome (.error fault) (.error fault')

end Admin

/-! ## Serving both -/

/-- Values that are equal get equal replies. -/
theorem Outcomes.replied {α : Type} {post : α → α → Prop} {change : Change Tree α}
    {change' : Change Relations α}
    (h : Outcomes held post (change.perform tree) (change'.perform rows))
    (hpost : ∀ a a', post a a' → a = a') (reply : α → Admin.Reply) :
    Outcomes held Admin.Reply.Alike ((do return reply (← change)).perform tree)
      ((do return reply (← change')).perform rows) := by
  rw [Change.perform_bind, Change.perform_bind]
  generalize change.perform tree = outcome at h
  generalize change'.perform rows = outcome' at h
  cases h with
  | ok hvalues hnext => exact .ok (hpost _ _ hvalues ▸ .refl _) hnext
  | error halike hnext => exact .error halike hnext

namespace Mirrors

theorem listRecords_eq (h : Mirrors held tree rows) (hgrounded : tree.Grounded) (zone : ZoneId)
    (types : List RecordType) :
    Admin.listRecords tree zone types = Admin.listRecords rows zone types := by
  unfold Admin.listRecords
  simp only [h.records_eq hgrounded]

/-- A look at something that is the same in both. -/
theorem look {α : Type} {f : Tree → Except Fault α} {g : Relations → Except Fault α}
    (h : Mirrors held tree rows) (hequal : f tree = g rows) :
    Outcomes held Eq ((Change.ask f).perform tree) ((Change.ask g).perform rows) := by
  change Outcomes held Eq (f tree, tree) (g rows, rows)
  rw [hequal]
  cases g rows with
  | ok a => exact .ok rfl h
  | error fault => exact .error (.refl fault) h

/-- A request yields the same from a tree and from rows that mirror it. -/
theorem serve_request (h : Mirrors held tree rows) (hascii : Relations.ComparesAscii held asked)
    (hgrounded : tree.Grounded) {request : Admin.Request} (hrequest : request.Among held asked) :
    Outcomes held Admin.Reply.Alike (request.serve.perform tree)
      (request.serve.perform rows) := by
  cases request with
  | addName name wildcard =>
      exact (addName_tandem hascii hrequest wildcard tree rows h).replied (fun _ _ => And.left) .name
  | addRecord owner rdata =>
      exact (addAt_tandem hascii hrequest.1 false hrequest.2 tree rows h).replied (fun _ _ => id)
        .record
  | addEntry entry =>
      exact (addAt_tandem hascii hrequest.1 entry.wildcard hrequest.2 tree rows h).replied
        (fun _ _ => id) .record
  | find name => exact (h.look (h.resolve_eq hascii hrequest)).replied (fun _ _ => id) .name
  | findZone name =>
      refine (h.look ?_).replied (fun _ _ => id) .name
      unfold Admin.findZone
      rw [show Store.resolve tree name = Store.resolve rows name from h.resolve_eq hascii hrequest]
  | listChildren zone =>
      exact (h.look (congrArg Except.ok (h.children_eq zone))).replied (fun _ _ => id) .children
  | listRecords zone types =>
      exact (h.look (h.listRecords_eq hgrounded zone types)).replied (fun _ _ => id) .records
  | statistics =>
      change Outcomes held _ (.ok (Admin.Reply.statistics tree.statistics), tree)
        (.ok (Admin.Reply.statistics rows.statistics), rows)
      rw [h.statistics_eq]
      exact .ok (.statistics _ _) h
  | deleteRecords zone type =>
      exact (deleteRecords_tandem zone type tree rows h).replied (fun _ _ => id) .count
  | deleteZone zone =>
      exact (deleteZone_tandem zone tree rows h).replied (fun _ _ _ => rfl) fun _ => .done

/-- Requests yield the same, one after the other, and leave mirrors. -/
theorem serve (h : Mirrors held tree rows) (hascii : Relations.ComparesAscii held asked)
    (hstanding : tree.Standing []) {requests : List Admin.Request}
    (hrequests : ∀ request ∈ requests, request.Among held asked) :
    List.Forall₂ Admin.SameOutcome (Admin.serve requests tree).1 (Admin.serve requests rows).1 ∧
      Mirrors held (Admin.serve requests tree).2 (Admin.serve requests rows).2 ∧
        (Admin.serve requests tree).2.Standing [] := by
  induction requests generalizing tree rows with
  | nil => exact ⟨List.Forall₂.nil, h, hstanding⟩
  | cons request requests ih =>
      rw [List.forall_mem_cons] at hrequests
      have houtcomes := h.serve_request hascii hstanding.grounded hrequests.1
      -- Later requests read records, whose references must still have names.
      have hafter := Tree.standing_after hstanding request
      rw [← request.perform_serve] at hafter
      unfold Admin.serve
      generalize request.serve.perform tree = outcome at houtcomes hafter
      generalize request.serve.perform rows = outcome' at houtcomes
      cases houtcomes with
      | ok halike hnext =>
          rcases ih hnext hafter hrequests.2 with ⟨hrest, hlast⟩
          exact ⟨List.Forall₂.cons (.ok halike) hrest, hlast⟩
      | error halike hnext =>
          rcases ih hnext hafter hrequests.2 with ⟨hrest, hlast⟩
          exact ⟨List.Forall₂.cons (.error halike) hrest, hlast⟩

/-! ## Packets -/

/-- A packet whose question has labels that may be asked for gets the same reply from both, cached or
not. -/
theorem handle_eq (h : Mirrors held tree rows) (hascii : Relations.ComparesAscii held asked)
    (hgrounded : tree.Grounded) {packet : Packet}
    (hpacket : ∀ query, Message.readQuery packet = .ok query →
      query.question.name.Among asked) (now : Nat) (responder : Responder) :
    Responder.handle tree now packet responder = Responder.handle rows now packet responder := by
  unfold Responder.handle
  cases hquery : Message.readQuery packet with
  | error cause => rfl
  | ok query =>
      have hresolve : ∀ limit, Responder.resolve tree limit query =
          Responder.resolve rows limit query := by
        intro limit
        unfold Responder.resolve
        rw [h.respond_eq hascii hgrounded limit (hpacket query hquery)]
      unfold Responder.answer
      simp only [hresolve]

end Mirrors

/-- Whatever is asked of a tree and of rows that are empty at first, in the same order, they give the
same replies, and at the end every packet gets the same reply from both. The rows must tell the
labels apart as the tree does. -/
theorem back_ends_agree (hascii : Relations.ComparesAscii held asked) {requests : List Admin.Request}
    (hrequests : ∀ request ∈ requests, request.Among held asked) (startedAt startedAt' : Timestamp) :
    List.Forall₂ Admin.SameOutcome (Admin.serve requests (Tree.empty startedAt)).1
        (Admin.serve requests (Relations.empty startedAt')).1 ∧
      ∀ packet, (∀ query, Message.readQuery packet = .ok query →
          query.question.name.Among asked) → ∀ now responder,
        Responder.handle (Admin.serve requests (Tree.empty startedAt)).2 now packet responder =
          Responder.handle (Admin.serve requests (Relations.empty startedAt')).2 now packet
            responder := by
  rcases (mirrors_empty held startedAt startedAt').serve hascii (Tree.standing_empty startedAt)
    hrequests with ⟨houtcomes, hmirrors, hstanding⟩
  exact ⟨houtcomes, fun _ => hmirrors.handle_eq hascii hstanding.grounded⟩

/-- The name `gate.kin.` -/
def sampleHost : Name :=
  ⟨[⟨"gate", by decide, by decide, by decide⟩, sampleLabel], .plain, by decide, trivial⟩

/-- A zone with a name server below it, which cannot be deleted as it is referred to. -/
def sampleRequests : List Admin.Request := [
  .addRecord sampleName.toPlain (.ns 60 sampleHost), .addRecord sampleHost (.a 60 ⟨10, 0, 0, 1⟩),
  .addName sampleName.toPlain true, .deleteZone 2, .statistics, .listRecords 1 []]

/-- The stores refuse the deletion in different words. No label that they hold has a zero byte, so
any packet may follow. -/
theorem back_ends_agree_sampleRequests :
    let served := Admin.serve sampleRequests (Tree.empty ⟨0, 0⟩)
    let served' := Admin.serve sampleRequests (Relations.empty ⟨1, 0⟩)
    served.1[3]? = some (.error (.isReferenced 2)) ∧
      served'.1[3]? = some (.error (.hasReferenceCount 2 1)) ∧
      List.Forall₂ Admin.SameOutcome served.1 served'.1 ∧
      ∀ packet now responder, Responder.handle served.2 now packet responder =
        Responder.handle served'.2 now packet responder := by
  have hrequests : ∀ request ∈ sampleRequests,
      request.Among (fun label => 0 ∉ label.folded) fun _ => True := by
    have hname : sampleName.toPlain.Among fun label => 0 ∉ label.folded := by
      unfold Name.Among
      decide
    have hhost : sampleHost.Among fun label => 0 ∉ label.folded := by
      unfold Name.Among
      decide
    simp only [sampleRequests, List.forall_mem_cons, Admin.Request.Among]
    exact ⟨⟨hname, List.forall_mem_singleton.2 hhost⟩, ⟨hhost, nofun⟩, hname, trivial, trivial,
      trivial, nofun⟩
  have hagree := back_ends_agree Relations.comparesAscii_of_no_zero hrequests ⟨0, 0⟩ ⟨1, 0⟩
  exact ⟨by decide +kernel, by decide +kernel, hagree.1,
    fun packet => hagree.2 packet fun _ _ _ _ => trivial⟩

end Zone
end NameServer
