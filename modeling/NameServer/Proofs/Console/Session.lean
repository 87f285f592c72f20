import NameServer.Console
import NameServer.Proofs.Name.Text
import NameServer.Proofs.Tree.Growth
import NameServer.Proofs.Tree.Listings

/-!
# Proofs.Console.Session — sessions stay where they are

A session inside a zone keeps the name that it entered with, nodes and marks included, while its own
commands change the tree. The name stays right because no command inside a zone marks or deletes a
node, and because the main mode, which does, keeps no name.

* `Console.Stands` — the invariant: the tree stands, and the name that a session keeps is settled;
* `Console.execute_stands` — every line keeps it;
* `Console.childLines`, `Console.payloadLines` — what is said of children and of payloads;
* `Console.Inside` — what the commands inside a zone say and do, told by the nodes and the records of
  the tree, and that it is the zone that the prompt names;
* `Console.inside_of_session` — every zone that a session is in is such a zone.
-/

namespace NameServer

open Zone (Change Child Store Tree)
open Zone.Change (Ensures)

namespace Zone.Admin

variable {σ : Type} [Store σ]

/-- What a store becomes by requests, one after the other, whether they succeed or fail. -/
def run (requests : List Request) (store : σ) : σ :=
  requests.foldl (fun store request => (request.change.perform store).2) store

end Zone.Admin

namespace Zone.Tree

variable {tree : Tree}

/-- A tree that is only administered stands. -/
theorem standing_run (h : tree.Standing []) (requests : List Admin.Request) :
    (Admin.run requests tree).Standing [] := by
  unfold Admin.run
  induction requests generalizing tree with
  | nil => exact h
  | cons request requests ih => exact ih (standing_after h request)

end Zone.Tree

namespace Console

variable {tree next : Tree} {mode : Mode} {zone name : Name} {text command verb : String}
variable {words : List String}

/-! ## The invariant -/

/-- The tree stands, and the name that the session keeps is settled in it. -/
structure Stands (mode : Mode) (tree : Tree) : Prop where
  standing : tree.Standing []
  settled : ∀ zone, mode = .zone zone → tree.Settled zone

theorem Stands.sound (h : Stands mode tree) : tree.Sound :=
  h.standing.sound

theorem stands_main (h : tree.Standing []) : Stands .main tree :=
  ⟨h, nofun⟩

theorem stands_zone (h : tree.Standing []) (hzone : tree.Settled zone) :
    Stands (.zone zone) tree :=
  ⟨h, fun _ heq => Mode.zone.inj heq ▸ hzone⟩

theorem settled_of_findZone (h : tree.Sound) (hfind : findZone tree text = .ok zone) :
    tree.Settled zone := by
  rcases exists_of_bind hfind with ⟨name, -, hname⟩
  rcases exists_of_bind hname with ⟨resolved, hresolve, hfull⟩
  split at hfull
  · rename_i hresolved
    cases hfull
    exact h.settled_of_resolve hresolve hresolved
  · cases hfull

/-- A zone that is found has the labels that were looked for. -/
theorem toPlain_of_findZone (h : tree.Sound) (hfind : findZone tree name.text = .ok zone) :
    zone.toPlain = name.toPlain := by
  unfold findZone Console.name at hfind
  rw [Name.ofText_text] at hfind
  change Zone.Admin.findZone tree name.toPlain = .ok zone at hfind
  rcases exists_of_bind hfind with ⟨resolved, hresolve, hfull⟩
  split at hfull
  · cases hfull
    exact Name.ext (h.resolve_eq_ok_iff.1 hresolve).1 rfl
  · cases hfull

/-- A settled name is found by its text. -/
theorem findZone_text (h : tree.Sound) (hzone : tree.Settled zone) :
    findZone tree zone.text = .ok zone := by
  unfold findZone Console.name
  rw [Name.ofText_text]
  change Zone.Admin.findZone tree zone.toPlain = .ok zone
  unfold Zone.Admin.findZone
  rw [show Store.resolve tree zone.toPlain = .ok zone from h.resolve_of_settled hzone rfl, ok_bind,
    if_pos hzone.isFullyResolved]
  rfl

/-! ## Commands -/

theorem enterZone_stands (mode : Mode) (text : String) :
    Ensures (Stands mode) (enterZone text : Change Tree Reaction)
      (fun reaction => Stands reaction.2) (Stands mode) := by
  have hfind : Ensures (Stands mode) (Change.ask fun tree : Tree => findZone tree text)
      (fun zone => Stands (.zone zone)) (Stands mode) :=
    Ensures.ask (fun _ _ h hfind => stands_zone h.standing (settled_of_findZone h.sound hfind))
      fun _ h => h
  exact hfind.bind fun zone => Ensures.pure _ fun _ h => h

theorem addName_stands (name : Name) (wildcard : Bool) :
    Ensures (Stands .main) (Zone.Admin.addName name wildcard)
      (fun zone => Stands (.zone zone)) (Stands .main) := by
  intro tree h
  have hstanding := Zone.Tree.addName_ensures name wildcard tree h.standing
  rcases h.sound.addName_cases name wildcard with ⟨added, next, hadd, hadds⟩ | hrefused
  · rw [hadd] at hstanding ⊢
    exact stands_zone (hstanding.mono (List.nil_subset _)) hadds.settled
  · rw [hrefused]
    exact h

theorem addZone_stands (text : String) :
    Ensures (Stands .main) (addZone text : Change Tree Reaction)
      (fun reaction => Stands reaction.2) (Stands .main) := by
  unfold addZone
  refine Ensures.bind (Ensures.look fun _ h => h) fun name => ?_
  refine Ensures.bind (addName_stands name _) fun zone => ?_
  exact Ensures.pure _ fun _ h => h

theorem deleteZone_stands (text : String) :
    Ensures (Stands .main) (deleteZone text : Change Tree Output)
      (fun _ => Stands .main) (Stands .main) := by
  unfold deleteZone
  refine Ensures.bind (Ensures.look fun _ h => h) fun zone => ?_
  have hdelete : Ensures (Stands .main) (Zone.Admin.deleteZone zone.zoneId)
      (fun _ => Stands .main) (Stands .main) :=
    ((Zone.Tree.deleteZone_ensures zone.zoneId).imp (fun _ h => Stands.standing h)
      fun _ => stands_main).imp_post fun _ _ => stands_main
  exact hdelete.bind fun _ => Ensures.pure _ fun _ h => h

/-- A payload that is added at a zone leaves it settled. -/
theorem settled_of_stores {rdata stored : Rdata Name} {owner : Name} (hzone : tree.Settled zone)
    (hstores : tree.Stores zone false rdata owner stored next) : next.Settled zone := by
  refine hzone.keeps (hstores.plants.keeps ?_)
  refine List.forall_mem_cons.2 ⟨rfl, fun plant hplant => ?_⟩
  rcases List.mem_map.1 hplant with ⟨target, -, rfl⟩
  rfl

theorem addRecord_stands (zone : Name) (word ttl : String) (arguments : List String) :
    Ensures (Stands (.zone zone)) (addRecord zone word ttl arguments : Change Tree Output)
      (fun _ => Stands (.zone zone)) (Stands (.zone zone)) := by
  unfold addRecord
  refine Ensures.bind (Ensures.look fun _ h => h) fun rdata => ?_
  have hadd : Ensures (Stands (.zone zone)) (Zone.Admin.addRecord zone rdata)
      (fun _ => Stands (.zone zone)) (Stands (.zone zone)) := by
    intro tree h
    have hstanding := Zone.Tree.addAt_ensures zone false rdata tree h.standing
    rcases h.sound.addRecord_stores zone rdata with ⟨owner, stored, next, hadd, hstores⟩
    rw [Zone.Admin.addRecord] at hadd ⊢
    rw [hadd] at hstanding ⊢
    exact stands_zone hstanding (settled_of_stores (h.settled zone rfl) hstores)
  exact hadd.bind fun _ => Ensures.pure _ fun _ h => h

theorem deleteRecords_stands (zone : Name) (word : String) :
    Ensures (Stands (.zone zone)) (deleteRecords zone word : Change Tree Output)
      (fun _ => Stands (.zone zone)) (Stands (.zone zone)) := by
  unfold deleteRecords
  refine Ensures.bind (Ensures.look fun _ h => h) fun kind => ?_
  have hdelete : Ensures (Stands (.zone zone)) (Zone.Admin.deleteRecords zone.zoneId kind.type)
      (fun _ => Stands (.zone zone)) (Stands (.zone zone)) := by
    intro tree h
    have hstanding := Zone.Tree.deleteRecords_ensures zone.zoneId kind.type tree h.standing
    have hclears := Zone.Tree.clears_deleteRecords tree zone.zoneId kind.type
    exact stands_zone hstanding ((h.settled zone rfl).keeps fun id node hnode =>
      (congrArg (·[id]?) hclears.nodes).trans hnode)
  exact hdelete.bind fun _ => Ensures.pure _ fun _ h => h

/-- What only says something keeps the mode and the tree. -/
theorem stay_stands {mode : Mode} {output : Change Tree Output}
    (h : Ensures (Stands mode) output (fun _ => Stands mode) (Stands mode)) :
    Ensures (Stands mode) (do return (← output, mode))
      (fun reaction => Stands reaction.2) (Stands mode) :=
  Ensures.bind h fun _ => Ensures.pure _ fun _ h => h

theorem mainCommand_stands (command verb : String) (arguments : List String) :
    Ensures (Stands .main) (mainCommand command verb arguments)
      (fun reaction => Stands reaction.2) (Stands .main) := by
  have hsay : ∀ output : Output, Ensures (Stands .main) (pure output) (fun _ => Stands .main)
      (Stands .main) := fun output => Ensures.pure output fun _ h => h
  unfold mainCommand
  split
  · exact stay_stands (hsay _)
  · exact enterZone_stands .main _
  · exact addZone_stands _
  · exact stay_stands (deleteZone_stands _)
  · exact stay_stands (Ensures.look fun _ h => h)
  · exact stay_stands (Ensures.look fun _ h => h)
  · exact stay_stands (Ensures.look fun _ h => h)
  · exact stay_stands (Ensures.look fun _ h => h)
  · exact stay_stands (Ensures.look fun _ h => h)
  · exact stay_stands (hsay _)
  · exact stay_stands (hsay _)
  · split <;> exact stay_stands (hsay _)

theorem zoneCommand_stands (zone : Name) (command verb : String) (arguments : List String) :
    Ensures (Stands (.zone zone)) (zoneCommand zone command verb arguments)
      (fun reaction => Stands reaction.2) (Stands (.zone zone)) := by
  have hsay : ∀ output : Output, Ensures (Stands (.zone zone)) (pure output)
      (fun _ => Stands (.zone zone)) (Stands (.zone zone)) :=
    fun output => Ensures.pure output fun _ h => h
  unfold zoneCommand
  split
  · exact stay_stands (hsay _)
  · exact Ensures.pure _ fun _ h => stands_main h.standing
  · exact enterZone_stands (.zone zone) _
  · exact stay_stands (Ensures.look fun _ h => h)
  · exact stay_stands (Ensures.look fun _ h => h)
  · exact stay_stands (deleteRecords_stands zone _)
  · exact stay_stands (addRecord_stands zone _ _ _)
  · split <;> exact stay_stands (hsay _)

/-- Every line keeps the invariant, whatever it says. -/
theorem execute_stands (h : Stands mode tree) (line : String) :
    Stands (execute mode line tree).2.1 (execute mode line tree).2.2 := by
  unfold execute
  split
  · exact h
  · rename_i command arguments _
    dsimp only
    cases mode with
    | main =>
        have hafter := mainCommand_stands command
          (String.ofList (command.toList.map Char.toLower)) arguments tree h
        dsimp only
        split <;> rename_i heq <;> rw [heq] at hafter <;> exact hafter
    | zone zone =>
        have hafter := zoneCommand_stands zone command
          (String.ofList (command.toList.map Char.toLower)) arguments tree h
        dsimp only
        split <;> rename_i heq <;> rw [heq] at hafter <;> exact hafter

/-! ## Sessions -/

/-- Where a session stands after some lines, and the store after them. -/
def session {σ : Type} [Store σ] (lines : List String) (store : σ) : Mode × σ :=
  lines.foldl (fun state line => (execute state.1 line state.2).2) (.main, store)

theorem session_stands (h : tree.Standing []) (lines : List String) :
    Stands (session lines tree).1 (session lines tree).2 := by
  suffices hfrom : ∀ state : Mode × Tree, Stands state.1 state.2 →
      Stands (lines.foldl (fun state line => (execute state.1 line state.2).2) state).1
        (lines.foldl (fun state line => (execute state.1 line state.2).2) state).2 from
    hfrom (.main, tree) (stands_main h)
  induction lines with
  | nil => exact fun _ h => h
  | cons line lines ih => exact fun state h => ih _ (execute_stands h line)

/-! ## Inside a zone -/

/-- The words of a line: a command, in letters of either case, and its arguments. -/
def Says (line verb : String) (arguments : List String) : Prop :=
  ∃ command, ZoneEntry.fields line.toList = command :: arguments ∧
    String.ofList (command.toList.map Char.toLower) = verb

/-- What is said of the children of a zone: the number, the name and the mark of each. -/
def childLines (zone : Name) : List Child → List String
  | [] => [s!"{zone.text} has no child zones"]
  | children => children.map fun child =>
    let rest := if zone.isRoot then "" else zone.text
    let star := if child.wildcard then " *" else ""
    s!"  {column child.id}  {child.label.text}.{rest}{star}"

/-- What is said of the payloads of a type, of which at most a thousand are listed. -/
def kindLines (payloads : List (Rdata Name)) (kind : RecordKind) : List String :=
  match (payloads.filter fun rdata => rdata.type = kind.type).take 1000 with
  | [] => []
  | listed => s!"{kind.type.text} records:" ::
    listed.map fun rdata => s!"     {rdata.ttl} {rdata.text}"

/-- The types that are listed: those that were asked for, or else all of them. -/
def listedKinds : List RecordKind → List RecordKind
  | [] => [.a, .ns, .cname, .mx, .soa, .txt]
  | kinds => kinds

/-- What is said of the payloads at a zone, type by type. -/
def payloadLines (zone : Name) (kinds : List RecordKind) (payloads : List (Rdata Name)) :
    List String :=
  match (listedKinds kinds).flatMap (kindLines payloads) with
  | [] => [s!"No records at {zone.text}"]
  | lines => lines

/-- The payload that the arguments of an addition spell. -/
def payload (word ttl : String) (arguments : List String) : Except Fault (Rdata Name) := do
  let kind ← kind word
  let ttl ← (Ttl.ofText ttl).mapError .entry
  (Payload.ofArguments kind.type ttl arguments).mapError .entry

/-- `next` is the tree with the payload at the zone, behind those that are there; what it refers to
has nodes. -/
structure Added (tree : Tree) (zone : Name) (rdata stored : Rdata Name) (next : Tree) : Prop where
  plain : stored.map Name.toPlain = rdata.map Name.toPlain
  references : ∀ target ∈ stored.references,
    Store.resolve next target.toPlain = .ok target ∧ target.isFullyResolved = true
  recordsAt : ∀ other, next.recordsAt other =
    if zone.zoneId = other then tree.recordsAt other ++ [stored.map Name.zoneId]
    else tree.recordsAt other

/-- How many records of a stored type are at a zone. -/
def removed (tree : Tree) (zone : Name) (kind : RecordKind) : Nat :=
  (tree.recordsAt zone.zoneId).countP fun rdata => rdata.type = kind.type

/-- The tree resolves the labels of the zone to the name with the nodes and marks that it carries,
and it is the children and the payloads of its node that are listed, added and deleted. -/
structure Inside (tree : Tree) (zone : Name) : Prop where
  resolve : Store.resolve tree zone.toPlain = .ok zone
  isFullyResolved : zone.isFullyResolved = true
  /-- It is the zone that the prompt names. -/
  named : findZone tree zone.text = .ok zone
  listsRecords : ∀ line words, Says line "lr" words →
    match words.mapM kind with
    | .error fault => execute (.zone zone) line tree =
        (say [s!"Error: {fault.message}"], .zone zone, tree)
    | .ok kinds => ∃ payloads, tree.HasPayloads zone.zoneId payloads ∧
        execute (.zone zone) line tree =
          (say (payloadLines zone kinds payloads), .zone zone, tree)
  listsZones : ∀ line, Says line "lz" [] →
    ∃ children, tree.HasChildren zone.zoneId children ∧
      execute (.zone zone) line tree = (say (childLines zone children), .zone zone, tree)
  adds : ∀ line word ttl argument arguments,
    Says line "add" (word :: ttl :: argument :: arguments) →
      match payload word ttl (argument :: arguments) with
      | .error fault => execute (.zone zone) line tree =
          (say [s!"Error: {fault.message}"], .zone zone, tree)
      | .ok rdata => ∃ stored next, execute (.zone zone) line tree =
          (say [s!"Record added: {(Record.of zone.toPlain stored).text}"], .zone zone, next) ∧
            Added tree zone rdata stored next
  deletes : ∀ line word, Says line "del" [word] →
    match kind word with
    | .error fault => execute (.zone zone) line tree =
        (say [s!"Error: {fault.message}"], .zone zone, tree)
    | .ok stored => ∃ next, execute (.zone zone) line tree =
        (say [s!"{removed tree zone stored} {stored.type.text} record(s) deleted"],
          .zone zone, next) ∧ tree.Clears zone.zoneId stored.type next

/-- A line inside a zone does what its command does. -/
theorem execute_zone {line : String} {arguments : List String} (h : Says line verb arguments)
    (zone : Name) (tree : Tree) :
    ∃ command, execute (.zone zone) line tree =
      match (zoneCommand zone command verb arguments : Change Tree Reaction).perform tree with
      | (.ok (output, mode), store) => (output, mode, store)
      | (.error fault, store) => (say [s!"Error: {fault.message}"], .zone zone, store) := by
  rcases h with ⟨command, hfields, rfl⟩
  refine ⟨command, ?_⟩
  unfold execute
  rw [hfields]
  dsimp only
  cases (zoneCommand zone command (String.ofList (command.toList.map Char.toLower))
      arguments : Change Tree Reaction).perform tree with
  | mk outcome next => cases outcome <;> rfl

/-- A look inside a zone says what is seen, and nothing changes. -/
theorem execute_look {line : String} {arguments : List String} (h : Says line verb arguments)
    {look : Tree → Except Fault Output}
    (hzone : ∀ command, zoneCommand zone command verb arguments =
      do return (← Change.ask look, .zone zone)) :
    execute (.zone zone) line tree =
      match look tree with
      | .ok output => (output, .zone zone, tree)
      | .error fault => (say [s!"Error: {fault.message}"], .zone zone, tree) := by
  rcases execute_zone h zone tree with ⟨command, hexecute⟩
  have hlook : (Change.ask look).perform tree = (look tree, tree) := rfl
  rw [hexecute, hzone, Zone.Change.perform_bind, hlook]
  cases look tree <;> rfl

/-! ### Listing -/

theorem listZones_eq (tree : Tree) (zone : Name) :
    listZones tree zone zone.zoneId = say (childLines zone (Store.children tree zone.zoneId)) := by
  unfold listZones
  cases Store.children tree zone.zoneId <;> rfl

theorem execute_listZones {line : String} (hline : Says line "lz" []) (zone : Name) (tree : Tree) :
    ∃ children, tree.HasChildren zone.zoneId children ∧
      execute (.zone zone) line tree = (say (childLines zone children), .zone zone, tree) := by
  refine ⟨_, tree.hasChildren zone.zoneId, ?_⟩
  rw [execute_look hline fun _ => rfl]
  dsimp only
  rw [listZones_eq]

/-- The payloads of each type, where all types are served from the same payloads. -/
theorem adminListRecords_eq {payloads : List (Rdata Name)}
    (hserved : ∀ type limit, Store.records tree zone.zoneId type limit =
      .ok ((payloads.filter fun rdata => rdata.type = type).take limit))
    (kinds : List RecordKind) :
    Zone.Admin.listRecords tree zone.zoneId (kinds.map RecordKind.type) =
      .ok (((listedKinds kinds).map fun kind => (kind.type,
        (payloads.filter fun rdata => rdata.type = kind.type).take 1000)).filter
          fun entry => !entry.2.isEmpty) := by
  have htypes : (if (kinds.map RecordKind.type).isEmpty then RecordKind.all.map RecordKind.type
      else kinds.map RecordKind.type) = (listedKinds kinds).map RecordKind.type := by
    cases kinds <;> rfl
  have hlisted : ((listedKinds kinds).map RecordKind.type).mapM (fun type => do
        return (type, ← Store.records tree zone.zoneId type Zone.Admin.listLimit)) =
      .ok ((listedKinds kinds).map fun kind => (kind.type,
        (payloads.filter fun rdata => rdata.type = kind.type).take 1000)) := by
    refine mapM_of_forall₂ (List.forall₂_map_left_iff.2 (List.forall₂_map_right_iff.2 ?_))
    refine List.forall₂_same.2 fun kind _ => ?_
    rw [hserved, ok_bind]
    rfl
  unfold Zone.Admin.listRecords
  dsimp only
  rw [htypes, hlisted, ok_bind]
  rfl

/-- What is said type by type is what is said of the types that have payloads. -/
theorem flatMap_listed (payloads : List (Rdata Name)) (kinds : List RecordKind) :
    ((kinds.map fun kind => (kind.type,
        (payloads.filter fun rdata => rdata.type = kind.type).take 1000)).filter
          fun entry => !entry.2.isEmpty).flatMap (fun entry =>
        s!"{entry.1.text} records:" ::
          entry.2.map fun rdata => s!"     {rdata.ttl} {rdata.text}") =
      kinds.flatMap (kindLines payloads) := by
  induction kinds with
  | nil => rfl
  | cons kind kinds ih =>
      rw [List.map_cons, List.flatMap_cons, ← ih, kindLines]
      cases List.take 1000 _ <;> rfl

theorem listRecords_eq {payloads : List (Rdata Name)}
    (hserved : ∀ type limit, Store.records tree zone.zoneId type limit =
      .ok ((payloads.filter fun rdata => rdata.type = type).take limit))
    {kinds : List RecordKind} (hkinds : words.mapM kind = .ok kinds) :
    listRecords tree zone words = .ok (say (payloadLines zone kinds payloads)) := by
  unfold listRecords payloadLines
  rw [hkinds, ok_bind, adminListRecords_eq hserved, ok_bind, ← flatMap_listed]
  cases List.filter _ _ <;> rfl

/-! ### Deleting -/

theorem removed_eq (tree : Tree) (zone : Name) (stored : RecordKind) :
    (tree.deleteRecords zone.zoneId stored.type).1 = removed tree zone stored :=
  (tree.fst_deleteRecords zone.zoneId stored.type).trans List.countP_eq_length_filter.symm

theorem execute_delete {line word : String} (hline : Says line "del" [word]) (zone : Name)
    (tree : Tree) :
    match kind word with
    | .error fault => execute (.zone zone) line tree =
        (say [s!"Error: {fault.message}"], .zone zone, tree)
    | .ok stored => ∃ next, execute (.zone zone) line tree =
        (say [s!"{removed tree zone stored} {stored.type.text} record(s) deleted"],
          .zone zone, next) ∧ tree.Clears zone.zoneId stored.type next := by
  rcases execute_zone hline zone tree with ⟨command, hexecute⟩
  have hcommand : (zoneCommand zone command "del" [word] : Change Tree Reaction) = do
      return (← deleteRecords zone word, .zone zone) := rfl
  have hask : (Change.ask fun _ => kind word : Change Tree RecordKind).perform tree =
      (kind word, tree) := rfl
  have hdelete : (deleteRecords zone word : Change Tree Output) = do
      let kind ← Change.ask fun _ => kind word
      let removed ← Zone.Admin.deleteRecords zone.zoneId kind.type
      return say [s!"{removed} {kind.type.text} record(s) deleted"] := rfl
  rw [hexecute, hcommand, Zone.Change.perform_bind, hdelete, Zone.Change.perform_bind, hask]
  cases kind word with
  | error fault => rfl
  | ok stored =>
      have hperform : (Zone.Admin.deleteRecords zone.zoneId stored.type : Change Tree Nat).perform
          tree = (.ok (removed tree zone stored),
            (tree.deleteRecords zone.zoneId stored.type).2) := by
        rw [← removed_eq]
        rfl
      refine ⟨_, ?_, Zone.Tree.clears_deleteRecords tree zone.zoneId stored.type⟩
      dsimp only
      rw [Zone.Change.perform_bind_ok hperform]
      rfl

namespace Stands

theorem listsRecords (h : Stands (.zone zone) tree) {line : String}
    (hline : Says line "lr" words) :
    match words.mapM kind with
    | .error fault => execute (.zone zone) line tree =
        (say [s!"Error: {fault.message}"], .zone zone, tree)
    | .ok kinds => ∃ payloads, tree.HasPayloads zone.zoneId payloads ∧
        execute (.zone zone) line tree =
          (say (payloadLines zone kinds payloads), .zone zone, tree) := by
  cases hkinds : words.mapM kind with
  | error fault =>
      rw [execute_look hline fun _ => rfl, listRecords, hkinds]
      rfl
  | ok kinds =>
      rcases h.sound.exists_payloads h.standing.grounded zone.zoneId with
        ⟨payloads, hpayloads, hserved⟩
      refine ⟨payloads, hpayloads, ?_⟩
      rw [execute_look hline fun _ => rfl, listRecords_eq hserved hkinds]

end Stands

/-! ### Adding -/

/-- A payload is stored at the zone whose name is settled. -/
theorem added_of_stores {rdata stored : Rdata Name} {owner : Name} (hzone : tree.Settled zone)
    (hstores : tree.Stores zone false rdata owner stored next) :
    owner = zone ∧ Added tree zone rdata stored next := by
  have hnext := hstores.plants.sound
  -- The labels of the zone resolve to what the payload is stored under, and to the zone as it was.
  have howner : owner = zone := by
    have hresolve := hnext.resolve_of_settled hstores.settled hstores.labels.symm
    rw [hnext.resolve_of_settled (settled_of_stores hzone hstores) rfl] at hresolve
    exact (Except.ok.inj hresolve).symm
  subst howner
  exact ⟨rfl, hstores.plain, fun target htarget =>
    ⟨hnext.resolve_of_settled (hstores.references target htarget) rfl,
      (hstores.references target htarget).isFullyResolved⟩, hstores.recordsAt⟩

/-- Every payload can be added at a zone whose name is settled. -/
theorem addRecord_added (h : tree.Sound) (hzone : tree.Settled zone) (rdata : Rdata Name) :
    ∃ stored next, (Zone.Admin.addRecord zone rdata).perform tree =
        (.ok (.of zone.toPlain stored), next) ∧ Added tree zone rdata stored next := by
  rcases h.addRecord_stores zone rdata with ⟨owner, stored, next, hperform, hstores⟩
  rcases added_of_stores hzone hstores with ⟨rfl, hadded⟩
  exact ⟨stored, next, hperform, hadded⟩

namespace Stands

theorem adds (h : Stands (.zone zone) tree) {line word ttl argument : String}
    {arguments : List String} (hline : Says line "add" (word :: ttl :: argument :: arguments)) :
    match payload word ttl (argument :: arguments) with
    | .error fault => execute (.zone zone) line tree =
        (say [s!"Error: {fault.message}"], .zone zone, tree)
    | .ok rdata => ∃ stored next, execute (.zone zone) line tree =
        (say [s!"Record added: {(Record.of zone.toPlain stored).text}"], .zone zone, next) ∧
          Added tree zone rdata stored next := by
  rcases execute_zone hline zone tree with ⟨command, hexecute⟩
  have hcommand : (zoneCommand zone command "add" (word :: ttl :: argument :: arguments) :
      Change Tree Reaction) = do return (← addRecord zone word ttl (argument :: arguments),
        .zone zone) := rfl
  have hask : (Change.ask fun _ => payload word ttl (argument :: arguments) :
      Change Tree (Rdata Name)).perform tree =
        (payload word ttl (argument :: arguments), tree) := rfl
  have hadd : (addRecord zone word ttl (argument :: arguments) : Change Tree Output) = do
      let rdata ← Change.ask fun _ => payload word ttl (argument :: arguments)
      let record ← Zone.Admin.addRecord zone rdata
      return say [s!"Record added: {record.text}"] := rfl
  rw [hexecute, hcommand, Zone.Change.perform_bind, hadd, Zone.Change.perform_bind, hask]
  cases payload word ttl (argument :: arguments) with
  | error fault => rfl
  | ok rdata =>
      rcases addRecord_added h.sound (h.settled zone rfl) rdata with ⟨stored, next, hperform, hadded⟩
      refine ⟨stored, next, ?_, hadded⟩
      dsimp only
      rw [Zone.Change.perform_bind_ok hperform]
      rfl

theorem inside (h : Stands (.zone zone) tree) : Inside tree zone where
  resolve := h.sound.resolve_of_settled (h.settled zone rfl) rfl
  isFullyResolved := (h.settled zone rfl).isFullyResolved
  named := findZone_text h.sound (h.settled zone rfl)
  listsRecords _ _ := h.listsRecords
  listsZones _ hline := execute_listZones hline zone tree
  adds _ _ _ _ _ := h.adds
  deletes _ _ hline := execute_delete hline zone tree

end Stands

/-- Whatever lines are given to a session over a tree that was administered before, a zone that it
is in is the one that the prompt names, and it is there that its commands act. -/
theorem inside_of_session (startedAt : Timestamp) (requests : List Zone.Admin.Request)
    (lines : List String)
    (h : (session lines (Zone.Admin.run requests (Tree.empty startedAt))).1 = .zone zone) :
    Inside (session lines (Zone.Admin.run requests (Tree.empty startedAt))).2 zone := by
  have hstands := session_stands
    (Zone.Tree.standing_run (Zone.Tree.standing_empty startedAt) requests) lines
  rw [h] at hstands
  exact hstands.inside

/-- A session that enters `kin`, whose address was stored before, and adds name servers to it. -/
theorem inside_of_session_sample :
    let requests := [.addRecord Zone.sampleName.toPlain (.a 60 ⟨10, 0, 0, 1⟩)]
    let stand := session ["zone kin", "add NS 1h ns.kin"]
      (Zone.Admin.run requests (Tree.empty ⟨0, 0⟩))
    stand.1 = .zone Zone.sampleName ∧ Inside stand.2 Zone.sampleName := by
  intro requests stand
  have hmode : stand.1 = .zone Zone.sampleName := by decide +kernel
  exact ⟨hmode, inside_of_session ⟨0, 0⟩ requests _ hmode⟩

end Console
end NameServer
