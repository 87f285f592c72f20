import NameServer.Proofs.Console.Session
import NameServer.Proofs.Zone.Administered
import NameServer.Proofs.Zone.Places

/-!
# Proofs.Console.Refusals — a line that is refused does nothing

Whatever a command has to read and to look up comes before its first effect, and behind this effect
nothing fails. So a line that fails leaves the store and the mode as they were, like a line that is
no command at all.

* `Console.Complains` — output that reports an error;
* `Console.Refuses` — the lines that fail, have wrong arguments or are unknown;
* `Console.Careful` — commands that complain only when they have done nothing;
* `Console.Alongside` — where a session can be while others administer the same store;
* `Console.refusal_atomic` — a line that is refused there does nothing.
-/

namespace NameServer

open Zone (Tree Change Store)
open Zone.Change (Ensures Reaches)

namespace Console

variable {tree : Tree} {mode : Mode} {zone : Name} {text word verb line : String}
variable {arguments : List String} {output : Output}

/-! ## Complaints -/

/-- How a line begins that reports an error. -/
def complaints : List String :=
  ["Error: ", "Wrong arguments for '", "Unknown command: "]

/-- The only line of the output reports an error. -/
def Complains (output : Output) : Prop :=
  ∃ line, output.lines = [line] ∧ ∃ opening ∈ complaints, opening.toList <+: line.toList

/-- A line with another opening is no complaint. -/
theorem not_complains_of_opening (opening : List Char) (h : opening <+: line.toList)
    (hother : ∀ complaint ∈ complaints,
      ¬complaint.toList <+: opening ∧ ¬opening <+: complaint.toList) : ¬Complains (say [line]) := by
  rintro ⟨said, hsaid, complaint, hmem, hprefix⟩
  obtain rfl : line = said := List.singleton_inj.1 hsaid
  rcases List.prefix_or_prefix_of_prefix h hprefix with hshorter | hlonger
  · exact (hother complaint hmem).2 hshorter
  · exact (hother complaint hmem).1 hlonger

theorem prefix_append {opening : List Char} (h : opening <+: line.toList) (rest : String) :
    opening <+: (line ++ rest).toList := by
  rw [String.toList_append]
  exact h.trans (List.prefix_append _ _)

/-- A number begins with a digit. -/
theorem exists_first_digit (n : Nat) :
    ∃ c, c.isDigit = true ∧ [c] <+: (toString n).toList := by
  change ∃ c, c.isDigit = true ∧ [c] <+: n.repr.toList
  rw [Nat.toList_repr]
  cases hdigits : Nat.toDigits 10 n with
  | nil => exact absurd hdigits Nat.toDigits_ne_nil
  | cons c digits =>
      refine ⟨c, ?_, List.prefix_append [c] digits⟩
      exact Nat.isDigit_of_mem_toDigits (Nat.succ_pos 9) (Nat.le_refl 10)
        (hdigits ▸ List.mem_cons_self)

theorem not_complains_count {n : Nat} (h : ∀ c, [c] <+: (toString n).toList → [c] <+: line.toList) :
    ¬Complains (say [line]) := by
  rcases exists_first_digit n with ⟨c, hdigit, hprefix⟩
  refine not_complains_of_opening [c] (h c hprefix) ?_
  simp only [complaints, List.forall_mem_cons]
  refine ⟨⟨by simp, ?_⟩, ⟨by simp, ?_⟩, ⟨by simp, ?_⟩, List.forall_mem_nil _⟩ <;>
    · rintro hc
      obtain rfl := (List.cons_prefix_cons.1 hc).1
      cases hdigit

/-! ## Careful commands -/

/-- A command that fails changes nothing, and one that succeeds with a complaint changes neither the
tree nor the mode. -/
def Careful (mode : Mode) (change : Change Tree Reaction) : Prop :=
  ∀ tree, tree.Sound → Ensures (· = tree) change
    (fun reaction next => Complains reaction.1 → reaction.2 = mode ∧ next = tree) (· = tree)

theorem careful_look (mode : Mode) (look : Tree → Except Fault Output) :
    Careful mode (do return (← Change.ask look, mode)) := fun _ _ =>
  Ensures.bind (Ensures.look fun _ h => h) fun _ => Ensures.pure _ fun _ h _ => ⟨rfl, h⟩

theorem careful_say (mode : Mode) (output : Output) :
    Careful mode (do return (← (pure output : Change Tree Output), mode)) :=
  fun _ _ => Ensures.pure _ fun _ h _ => ⟨rfl, h⟩

/-- What a command has to say does not matter if it is no complaint. -/
theorem careful_of_quiet (mode : Mode) {change : Change Tree Output}
    (h : ∀ tree, tree.Sound →
      Ensures (· = tree) change (fun output _ => ¬Complains output) (· = tree)) :
    Careful mode (do return (← change, mode)) := fun tree hsound =>
  (h tree hsound).bind fun _ => Ensures.pure _ fun _ hquiet hsaid => absurd hsaid hquiet

theorem enterZone_careful (mode : Mode) (text : String) : Careful mode (enterZone text) := by
  intro tree _
  unfold enterZone
  refine Ensures.bind (Ensures.look fun _ h => h) fun zone => Ensures.pure _ fun _ _ hsaid => ?_
  refine absurd hsaid (not_complains_of_opening "Entering zone ".toList ?_ (by decide))
  exact prefix_append (prefix_append (prefix_append (prefix_append List.prefix_rfl _) _) _) _

/-- A name that cannot be added is refused before anything is done. -/
theorem addName_careful (name : Name) (wildcard : Bool) (h : tree.Sound) :
    Ensures (· = tree) (Zone.Admin.addName name wildcard) (fun _ _ => True) (· = tree) := by
  rintro tree rfl
  rcases h.addName_cases name wildcard with ⟨added, next, hadd, -⟩ | hrefused
  · rw [hadd]
    trivial
  · rw [hrefused]

theorem addZone_careful (mode : Mode) (text : String) : Careful mode (addZone text) := by
  intro tree h
  unfold addZone
  refine Ensures.bind (Ensures.look fun _ htree => htree) fun name => ?_
  refine Ensures.bind (addName_careful name _ h) fun zone => Ensures.pure _ fun _ _ hsaid => ?_
  rcases hsaid with ⟨line, hlines, -⟩
  cases hlines

theorem deleteZone_careful (mode : Mode) (text : String) :
    Careful mode (do return (← deleteZone text, mode)) := by
  refine careful_of_quiet mode fun tree _ => ?_
  have hdelete (zone : ZoneId) : Ensures (· = tree) (Zone.Admin.deleteZone zone)
      (fun _ _ => True) (· = tree) := by
    unfold Zone.Admin.deleteZone
    split
    · exact Ensures.throw _ fun _ htree => htree
    · refine Ensures.bind (Ensures.look fun _ htree => htree) fun children => ?_
      split
      · exact Ensures.step (f := fun tree : Tree => tree.deleteNode zone)
          (fun _ _ _ _ _ => trivial) fun _ htree => htree
      · exact Ensures.throw _ fun _ htree => htree
  unfold deleteZone
  refine Ensures.bind (Ensures.look fun _ htree => htree) fun zone => ?_
  refine Ensures.bind (hdelete _) fun _ => Ensures.pure _ fun _ _ => ?_
  refine not_complains_of_opening "Zone ".toList ?_ (by decide)
  exact prefix_append (prefix_append List.prefix_rfl _) _

/-- Once the payload has been read, a record can be added at every name. -/
theorem addRecord_careful (mode : Mode) (zone : Name) (word ttl : String)
    (arguments : List String) :
    Careful mode (do return (← addRecord zone word ttl arguments, mode)) := by
  refine careful_of_quiet mode fun tree h => ?_
  have hadd (rdata : Rdata Name) : Ensures (· = tree) (Zone.Admin.addRecord zone rdata)
      (fun _ _ => True) (· = tree) := by
    rintro tree rfl
    rcases h.addRecord_stores zone rdata with ⟨owner, stored, next, hadd, -⟩
    rw [hadd]
    trivial
  unfold addRecord
  refine Ensures.bind (Ensures.look fun _ htree => htree) fun rdata => ?_
  refine Ensures.bind (hadd rdata) fun record => Ensures.pure _ fun _ _ => ?_
  refine not_complains_of_opening "Record added: ".toList ?_ (by decide)
  exact prefix_append List.prefix_rfl _

theorem deleteRecords_careful (mode : Mode) (zone : Name) (word : String) :
    Careful mode (do return (← deleteRecords zone word, mode)) := by
  refine careful_of_quiet mode fun tree _ => ?_
  have hdelete (kind : RecordKind) : Ensures (· = tree)
      (Zone.Admin.deleteRecords zone.zoneId kind.type) (fun _ _ => True) (· = tree) :=
    Ensures.step (f := fun tree : Tree => .ok (tree.deleteRecords zone.zoneId kind.type))
      (fun _ _ _ _ _ => trivial) fun _ htree => htree
  unfold deleteRecords
  refine Ensures.bind (Ensures.look fun _ htree => htree) fun kind => ?_
  refine Ensures.bind (hdelete kind) fun removed => Ensures.pure _ fun _ _ => ?_
  exact not_complains_count fun _ h => prefix_append (prefix_append (prefix_append h _) _) _

theorem mainCommand_careful (word verb : String) (arguments : List String) :
    Careful .main (mainCommand word verb arguments) := by
  unfold mainCommand
  split
  · exact careful_say _ _
  · exact enterZone_careful _ _
  · exact addZone_careful _ _
  · exact deleteZone_careful _ _
  · exact careful_look _ _
  · exact careful_look _ _
  · exact careful_look _ _
  · exact careful_look _ _
  · exact careful_look _ _
  · exact careful_say _ _
  · exact careful_say _ _
  · split <;> exact careful_say _ _

theorem zoneCommand_careful (zone : Name) (word verb : String) (arguments : List String) :
    Careful (.zone zone) (zoneCommand zone word verb arguments) := by
  unfold zoneCommand
  split
  · exact careful_say _ _
  · -- To go back has nothing to say.
    intro tree _
    refine Ensures.pure _ fun _ _ hsaid => ?_
    rcases hsaid with ⟨line, hlines, -⟩
    cases hlines
  · exact enterZone_careful _ _
  · exact careful_look _ _
  · exact careful_look _ _
  · exact deleteRecords_careful _ _ _
  · exact addRecord_careful _ _ _ _ _
  · split <;> exact careful_say _ _

/-! ## Refusals -/

/-- How many arguments a command takes; `verb` is the command word in lower case. -/
def arity : Mode → String → Option (Nat → Bool)
  | .main, verb =>
    match verb with
    | "help" | "quit" | "exit" => some fun _ => true
    | "zone" | "add" | "del" | "find" => some (· == 1)
    | "lz" => some (· ≤ 1)
    | "lr" => some (1 ≤ ·)
    | "stats" => some (· == 0)
    | _ => none
  | .zone _, verb =>
    match verb with
    | "help" | "lr" => some fun _ => true
    | "back" | "lz" => some (· == 0)
    | "zone" | "del" => some (· == 1)
    | "add" => some (3 ≤ ·)
    | _ => none

/-- A word in lower case. -/
def lowered (word : String) : String :=
  String.ofList (word.toList.map Char.toLower)

/-- The command that a word is in a mode. -/
def command {σ : Type} [Store σ] (mode : Mode) (word : String) (arguments : List String) :
    Change σ Reaction :=
  match mode with
  | .main => mainCommand word (lowered word) arguments
  | .zone zone => zoneCommand zone word (lowered word) arguments

/-- The lines that are refused, and what is said about them. -/
inductive Refuses (mode : Mode) (tree : Tree) (line : String) : Output → Prop
  | fails {word : String} {arguments : List String} {fault : Fault} {next : Tree}
      (words : ZoneEntry.fields line.toList = word :: arguments)
      (fails : (command mode word arguments).perform tree = (.error fault, next)) :
      Refuses mode tree line (say [s!"Error: {fault.message}"])
  | wrongArguments {word : String} {arguments : List String} {fits : Nat → Bool}
      (words : ZoneEntry.fields line.toList = word :: arguments)
      (known : arity mode (lowered word) = some fits) (misfits : fits arguments.length = false) :
      Refuses mode tree line (wrongArguments word)
  | unknown {word : String} {arguments : List String}
      (words : ZoneEntry.fields line.toList = word :: arguments)
      (unknown : arity mode (lowered word) = none) :
      Refuses mode tree line (unknownCommand word)

theorem mainCommand_unknown (h : arity .main verb = none) (word : String)
    (arguments : List String) : (mainCommand word verb arguments : Change Tree Reaction) =
      do return (← pure (unknownCommand word), .main) := by
  unfold mainCommand
  split
  any_goals cases h
  split
  · rename_i hmem
    simp only [List.mem_cons, List.not_mem_nil, or_false] at hmem
    rcases hmem with rfl | rfl | rfl | rfl | rfl | rfl | rfl <;> cases h
  · rfl

/-- A command that is known is not said to be unknown. -/
theorem mainCommand_misfits {fits : Nat → Bool} (h : arity .main verb = some fits)
    (hfits : fits arguments.length = false) (word : String) :
    (mainCommand word verb arguments : Change Tree Reaction) =
      do return (← pure (wrongArguments word), .main) := by
  unfold mainCommand
  split
  any_goals (cases h; simp at hfits)
  split
  · rfl
  · exfalso
    unfold arity at h
    dsimp only at h
    split at h <;> simp_all

theorem zoneCommand_unknown (h : arity (.zone zone) verb = none) (word : String)
    (arguments : List String) : (zoneCommand zone word verb arguments : Change Tree Reaction) =
      do return (← pure (unknownCommand word), .zone zone) := by
  unfold zoneCommand
  split
  any_goals cases h
  split
  · rename_i hmem
    simp only [List.mem_cons, List.not_mem_nil, or_false] at hmem
    rcases hmem with rfl | rfl | rfl | rfl | rfl <;> cases h
  · rfl

theorem zoneCommand_misfits {fits : Nat → Bool} (h : arity (.zone zone) verb = some fits)
    (hfits : fits arguments.length = false) (word : String) :
    (zoneCommand zone word verb arguments : Change Tree Reaction) =
      do return (← pure (wrongArguments word), .zone zone) := by
  unfold zoneCommand
  split
  any_goals (cases h; simp at hfits)
  split
  · rfl
  · exfalso
    unfold arity at h
    dsimp only at h
    split at h <;> simp_all

theorem command_careful (mode : Mode) (word : String) (arguments : List String) :
    Careful mode (command mode word arguments) := by
  cases mode with
  | main => exact mainCommand_careful _ _ _
  | zone zone => exact zoneCommand_careful _ _ _ _

theorem command_unknown (h : arity mode (lowered word) = none) (arguments : List String) :
    (command mode word arguments : Change Tree Reaction) =
      do return (← pure (unknownCommand word), mode) := by
  cases mode with
  | main => exact mainCommand_unknown h word arguments
  | zone zone => exact zoneCommand_unknown h word arguments

theorem command_misfits {fits : Nat → Bool} (h : arity mode (lowered word) = some fits)
    (hfits : fits arguments.length = false) :
    (command mode word arguments : Change Tree Reaction) =
      do return (← pure (wrongArguments word), mode) := by
  cases mode with
  | main => exact mainCommand_misfits h hfits word
  | zone zone => exact zoneCommand_misfits h hfits word

/-- A line does what its command does, and a fault is reported. -/
theorem execute_eq {σ : Type} [Store σ] (h : ZoneEntry.fields line.toList = word :: arguments)
    (mode : Mode) (store : σ) : execute mode line store =
      match (command mode word arguments).perform store with
      | (.ok (output, after), next) => (output, after, next)
      | (.error fault, next) => (say [s!"Error: {fault.message}"], mode, next) := by
  unfold execute command
  generalize ZoneEntry.fields line.toList = fields at h
  subst h
  cases mode <;> rfl

/-- On a sound tree a refused line says why and does nothing else. -/
theorem execute_of_refuses (hsound : tree.Sound) (h : Refuses mode tree line output) :
    execute mode line tree = (output, mode, tree) := by
  cases h with
  | @fails word arguments fault next hwords hfails =>
      have hafter := command_careful mode word arguments tree hsound tree rfl
      rw [hfails] at hafter
      obtain rfl : next = tree := hafter
      rw [execute_eq hwords, hfails]
  | wrongArguments hwords hknown hmisfits =>
      rw [execute_eq hwords, command_misfits hknown hmisfits]
      rfl
  | unknown hwords hunknown =>
      rw [execute_eq hwords, command_unknown hunknown]
      rfl

/-- A line that is answered with a complaint has done nothing. -/
theorem execute_of_complains (hsound : tree.Sound) (h : Complains (execute mode line tree).1) :
    (execute mode line tree).2 = (mode, tree) := by
  cases hwords : ZoneEntry.fields line.toList with
  | nil =>
      unfold execute
      rw [hwords]
  | cons word arguments =>
      have hafter := command_careful mode word arguments tree hsound tree rfl
      rw [execute_eq hwords] at h ⊢
      cases hperform : (command mode word arguments).perform tree with
      | mk outcome next =>
          rw [hperform] at hafter h
          cases outcome with
          | error fault =>
              obtain rfl : next = tree := hafter
              rfl
          | ok reaction =>
              rcases hafter h with ⟨hmode, rfl⟩
              exact Prod.ext hmode rfl

/-! ## Sessions beside other work -/

/-- Where a session can be, and what the store can be by then: lines of the session and requests
from elsewhere come in any order. -/
inductive Alongside {σ : Type} [Store σ] (start : σ) : Mode → σ → Prop
  | start : Alongside start .main start
  | request {mode : Mode} {store : σ} (request : Zone.Admin.Request) :
      Alongside start mode store → Alongside start mode (request.change.perform store).2
  | line {mode : Mode} {store : σ} (line : String) :
      Alongside start mode store →
        Alongside start (execute mode line store).2.1 (execute mode line store).2.2

section Reached

variable {σ : Type} [Store σ]

theorem enterZone_reaches (text : String) : Reaches (enterZone text : Change σ Reaction) :=
  (Reaches.ask _).bind fun _ => Reaches.pure _

theorem addZone_reaches (text : String) : Reaches (addZone text : Change σ Reaction) :=
  (Reaches.ask _).bind fun _ => (Zone.addName_reaches _ _).bind fun _ => Reaches.pure _

theorem deleteZone_reaches (text : String) : Reaches (deleteZone text : Change σ Output) :=
  (Reaches.ask _).bind fun zone =>
    Reaches.bind (Zone.request_reaches (.deleteZone zone.zoneId)) fun _ => Reaches.pure _

theorem addRecord_reaches (zone : Name) (word ttl : String) (arguments : List String) :
    Reaches (addRecord zone word ttl arguments : Change σ Output) :=
  (Reaches.ask _).bind fun _ => (Zone.addAt_reaches _ _ _).bind fun _ => Reaches.pure _

theorem deleteRecords_reaches (zone : Name) (word : String) :
    Reaches (deleteRecords zone word : Change σ Output) := by
  refine (Reaches.ask _).bind fun kind => ?_
  have hdelete : Reaches (Zone.Admin.deleteRecords zone.zoneId kind.type : Change σ Nat) :=
    fun _ _ => Zone.Reached.deleteRecords _ _
  exact hdelete.bind fun _ => Reaches.pure _

theorem stay_reaches (mode : Mode) {change : Change σ Output} (h : Reaches change) :
    Reaches (do return (← change, mode)) :=
  h.bind fun _ => Reaches.pure _

theorem command_reaches (mode : Mode) (word : String) (arguments : List String) :
    Reaches (command mode word arguments : Change σ Reaction) := by
  cases mode with
  | main =>
      unfold command
      dsimp only
      unfold mainCommand
      split
      · exact stay_reaches .main (Reaches.pure _)
      · exact enterZone_reaches _
      · exact addZone_reaches _
      · exact stay_reaches .main (deleteZone_reaches _)
      · exact stay_reaches .main (Reaches.ask _)
      · exact stay_reaches .main (Reaches.ask _)
      · exact stay_reaches .main (Reaches.ask _)
      · exact stay_reaches .main (Reaches.ask _)
      · exact stay_reaches .main (Reaches.ask _)
      · exact stay_reaches .main (Reaches.pure _)
      · exact stay_reaches .main (Reaches.pure _)
      · split <;> exact stay_reaches .main (Reaches.pure _)
  | zone zone =>
      unfold command
      dsimp only
      unfold zoneCommand
      split
      · exact stay_reaches (.zone zone) (Reaches.pure _)
      · exact Reaches.pure _
      · exact enterZone_reaches _
      · exact stay_reaches (.zone zone) (Reaches.ask _)
      · exact stay_reaches (.zone zone) (Reaches.ask _)
      · exact stay_reaches (.zone zone) (deleteRecords_reaches _ _)
      · exact stay_reaches (.zone zone) (addRecord_reaches _ _ _ _)
      · split <;> exact stay_reaches (.zone zone) (Reaches.pure _)

/-- Sessions, too, change a store by nothing but the changes that it offers. -/
theorem Alongside.reached {start store : σ} (h : Alongside start mode store) :
    Zone.Reached start store := by
  induction h with
  | start => exact Zone.Reached.start
  | request request _ ih => exact Zone.request_reaches request _ _ ih
  | @line mode store line _ ih =>
      cases hwords : ZoneEntry.fields line.toList with
      | nil =>
          unfold execute
          rw [hwords]
          exact ih
      | cons word arguments =>
          have hafter := command_reaches mode word arguments start store ih
          rw [execute_eq hwords]
          cases hperform : (command mode word arguments : Change σ Reaction).perform store with
          | mk outcome next =>
              rw [hperform] at hafter
              cases outcome <;> exact hafter

end Reached

theorem Alongside.sound {startedAt : Timestamp} (h : Alongside (Tree.empty startedAt) mode tree) :
    tree.Sound := by
  rcases h.reached.history with ⟨events, hevents⟩
  exact Zone.Tree.sound_of_history hevents

/-- However a session and others have worked on a store in memory so far: a line of the session that
fails, has wrong arguments or is unknown says so and changes neither the store nor the mode. The
same goes for every line that is answered with a complaint. -/
theorem refusal_atomic {startedAt : Timestamp} (h : Alongside (Tree.empty startedAt) mode tree)
    (line : String) :
    (∀ output, Refuses mode tree line output → execute mode line tree = (output, mode, tree)) ∧
      (Complains (execute mode line tree).1 → (execute mode line tree).2 = (mode, tree)) :=
  ⟨fun _ hrefuses => execute_of_refuses h.sound hrefuses, execute_of_complains h.sound⟩

/-- A store with an address at `kin`, and a session that has entered this zone. -/
def sampleStand : Mode × Tree :=
  session ["zone kin"]
    (Zone.Admin.run [.addRecord Zone.sampleName.toPlain (.a 60 ⟨10, 0, 0, 1⟩)] (Tree.empty ⟨0, 0⟩))

/-- Inside of `kin` an exchange without a name fails, name servers without a name are wrong
arguments, and a line of the main mode is unknown. -/
theorem refusal_atomic_sampleStand :
    sampleStand.1 = .zone Zone.sampleName ∧
    execute sampleStand.1 "add MX 60 10" sampleStand.2 =
      (say ["Error: Invalid record: MX takes 2 argument(s), got 1"], sampleStand) ∧
    execute sampleStand.1 "add NS 60" sampleStand.2 = (wrongArguments "add", sampleStand) ∧
    execute sampleStand.1 "find kin" sampleStand.2 = (unknownCommand "find", sampleStand) := by
  have hstand : Alongside (Tree.empty ⟨0, 0⟩) sampleStand.1 sampleStand.2 :=
    (Alongside.start.request (.addRecord Zone.sampleName.toPlain (.a 60 ⟨10, 0, 0, 1⟩))).line
      "zone kin"
  have hsaid : (execute sampleStand.1 "add MX 60 10" sampleStand.2).1 =
      say ["Error: Invalid record: MX takes 2 argument(s), got 1"] := by
    decide +kernel
  refine ⟨by decide +kernel, Prod.ext hsaid ?_, ?_, ?_⟩
  · refine (refusal_atomic hstand "add MX 60 10").2 ?_
    rw [hsaid]
    exact ⟨_, rfl, "Error: ", by decide, by decide⟩
  · have hwords : ZoneEntry.fields "add NS 60".toList = ["add", "NS", "60"] := by decide +kernel
    exact (refusal_atomic hstand "add NS 60").1 _ (.wrongArguments hwords rfl rfl)
  · have hwords : ZoneEntry.fields "find kin".toList = ["find", "kin"] := by decide +kernel
    exact (refusal_atomic hstand "find kin").1 _ (.unknown hwords rfl)

end Console
end NameServer
