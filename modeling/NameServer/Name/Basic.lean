import NameServer.Label
import NameServer.Text.Blank

/-!
# Name.Basic — domain names in their three forms

A name is a list of labels, the most specific one first. Besides its labels it may carry the zone
nodes of its root-ward labels (a resolved name) or the pointer that stands for its last labels on
the wire (a compressed name). Names keep their spelling and are compared by their folded labels,
whatever their form.
-/

namespace NameServer

/-! ## Zone nodes -/

/-- The number of a zone node. Nodes have positive numbers. A store keeps them in 64 bits with a sign
and gives out the next one for each new node; here they have no bound, so the next one is always
there. -/
abbrev ZoneId := Int

/-- The number of the root, which is above every node. -/
def rootZone : ZoneId := 0

/-- A node on the path from the root to a name. -/
structure ZoneNode where
  id : ZoneId
  wildcard : Bool
  deriving DecidableEq, Repr

/-! ## Names -/

/-- The largest number of labels of a name. -/
def maxLabels : Nat := 127

/-- The largest size of a name on the wire without compression, in bytes. -/
def maxNameSize : Nat := 255

namespace Name

/-- The bytes that labels take on the wire, each with its length byte, without an end. -/
def literalSize : List Label → Nat
  | [] => 0
  | label :: labels => label.size + 1 + literalSize labels

/-- The bytes that a name of these labels takes on the wire without compression. -/
def wireSize (labels : List Label) : Nat :=
  literalSize labels + 1

theorem literalSize_append (xs ys : List Label) :
    literalSize (xs ++ ys) = literalSize xs + literalSize ys := by
  induction xs with
  | nil => simp [literalSize]
  | cons x xs ih => simp [literalSize, ih]; omega

theorem wireSize_nil_le : wireSize [] ≤ maxNameSize := by
  decide

/-- One more label takes its bytes and its length byte. -/
theorem wireSize_append_le {labels : List Label} {label : Label}
    (h : wireSize labels + (label.size + 1) ≤ maxNameSize) :
    wireSize (labels ++ [label]) ≤ maxNameSize := by
  unfold wireSize at h ⊢
  rw [literalSize_append]
  simp only [literalSize]
  omega

theorem literalSize_drop_le (n : Nat) (labels : List Label) :
    literalSize (labels.drop n) ≤ literalSize labels := by
  have h := literalSize_append (labels.take n) (labels.drop n)
  rw [List.take_append_drop] at h
  omega

theorem two_mul_length_le (labels : List Label) : 2 * labels.length ≤ literalSize labels := by
  induction labels with
  | nil => simp [literalSize]
  | cons label labels ih =>
    have := label.size_pos
    simp only [List.length_cons, literalSize, Label.size]
    omega

/-- What a name carries besides its labels. -/
inductive Form
  | plain
  /-- The nodes of the last labels, the one next to the root first. -/
  | resolved (nodes : List ZoneNode)
  /-- The last `suffix` labels are written as a pointer. -/
  | compressed (pointer suffix : Nat)
  deriving DecidableEq, Repr

/-- Zone nodes fit a name of `count` labels when there is at most one per label and their numbers
are positive and distinct. -/
def NodesFit (count : Nat) (nodes : List ZoneNode) : Prop :=
  nodes.length ≤ count ∧ (∀ node ∈ nodes, rootZone < node.id) ∧ (nodes.map ZoneNode.id).Nodup

/-- Whether a form goes with a name of `count` labels. -/
def Form.Fits (count : Nat) : Form → Prop
  | .plain => True
  | .resolved nodes => NodesFit count nodes
  | .compressed _ _ => True

theorem NodesFit.take {count : Nat} {nodes : List ZoneNode} (h : NodesFit count nodes) (n : Nat) :
    NodesFit (min n count) (nodes.take n) := by
  refine ⟨?_, fun node hn => h.2.1 node (List.mem_of_mem_take hn), ?_⟩
  · have := h.1
    simp only [List.length_take]
    omega
  · rw [List.map_take]
    exact h.2.2.sublist (List.take_sublist n _)

end Name

/-- A domain name. -/
structure Name where
  labels : List Label
  form : Name.Form
  size_le : Name.wireSize labels ≤ maxNameSize
  fits : form.Fits labels.length
  deriving DecidableEq

namespace Name

@[ext] theorem ext {a b : Name} (hl : a.labels = b.labels) (hf : a.form = b.form) : a = b := by
  cases a; cases b; cases hl; cases hf; rfl

theorem length_labels_le (name : Name) : name.labels.length ≤ maxLabels := by
  have h₁ := name.size_le
  have h₂ := two_mul_length_le name.labels
  unfold wireSize maxNameSize at h₁
  unfold maxLabels
  omega

/-- The name of the root. -/
def root : Name :=
  ⟨[], .plain, wireSize_nil_le, trivial⟩

/-- Whether the name is the root's. -/
def isRoot (name : Name) : Bool :=
  name.labels.isEmpty

/-- The same labels with nothing else. -/
def toPlain (name : Name) : Name :=
  ⟨name.labels, .plain, name.size_le, trivial⟩

/-! ## Reading and showing -/

/-- The plain name of these labels. The number of labels is checked before their size. -/
def ofLabels (labels : List Label) : Except WireError Name :=
  if labels.length ≤ maxLabels then
    if h : wireSize labels ≤ maxNameSize then .ok ⟨labels, .plain, h, trivial⟩
    else .error (.longName (wireSize labels))
  else .error (.manyLabels labels.length)

/-- The characters of a dotted name without the dot that may end it. -/
def withoutFinalDot (cs : List Char) : List Char :=
  if cs.getLast? = some '.' then cs.dropLast else cs

/-- The plain name that a dotted text spells: labels with dots between them and at most one dot
after the last; a dot alone is the root. -/
def ofText (text : String) : Except WireError Name :=
  if text = "." then .ok root
  else
    let body := withoutFinalDot text.toList
    if body = [] then .error .emptyName
    else do
      let labels ← (Text.splitOn '.' body).mapM fun piece => Label.ofText (String.ofList piece)
      ofLabels labels

/-- The text of labels, with a dot after each. -/
def dotted (labels : List Label) : List Char :=
  labels.flatMap fun label => label.text.toList ++ ['.']

/-- The dotted text of the name. -/
def text (name : Name) : String :=
  if name.isRoot then "." else String.ofList (dotted name.labels)

/-! ## Sameness -/

/-- The folded labels of the name. -/
def folded (name : Name) : List (List UInt8) :=
  name.labels.map Label.folded

/-- Whether two names have the same labels, ASCII case aside. Their forms play no part. -/
def SameAs (a b : Name) : Prop :=
  a.folded = b.folded

instance (a b : Name) : Decidable (a.SameAs b) :=
  inferInstanceAs (Decidable (a.folded = b.folded))

/-! ## Resolved names -/

/-- The zone nodes of the name, the one next to the root first. -/
def nodes (name : Name) : List ZoneNode :=
  match name.form with
  | .resolved nodes => nodes
  | _ => []

/-- Whether the name is in the resolved form, with whatever number of nodes. -/
def isResolved (name : Name) : Bool :=
  match name.form with
  | .resolved _ => true
  | _ => false

/-- How many labels have a node. -/
def resolvedCount (name : Name) : Nat :=
  name.nodes.length

/-- Whether the name is resolved and every label has a node. -/
def isFullyResolved (name : Name) : Bool :=
  name.isResolved && name.resolvedCount == name.labels.length

/-- The number of the deepest node, or that of the root. -/
def zoneId (name : Name) : ZoneId :=
  match name.nodes.getLast? with
  | some node => node.id
  | none => rootZone

/-- Whether the deepest node is a wildcard. -/
def isStar (name : Name) : Bool :=
  match name.nodes.getLast? with
  | some node => node.wildcard
  | none => false

theorem nodes_fit (name : Name) : NodesFit name.labels.length name.nodes := by
  have h := name.fits
  unfold nodes
  split
  · rename_i nodes heq
    rw [heq] at h
    exact h
  · exact ⟨Nat.zero_le _, by simp, List.nodup_nil⟩

/-- The first node whose number is not positive or was seen before. -/
def badNode? : List ZoneId → List ZoneNode → Option ZoneId
  | _, [] => none
  | seen, node :: nodes =>
    if node.id ≤ rootZone ∨ node.id ∈ seen then some node.id
    else badNode? (node.id :: seen) nodes

theorem nodesFit_of_badNode? {seen : List ZoneId} {nodes : List ZoneNode}
    (h : badNode? seen nodes = none) :
    (∀ node ∈ nodes, rootZone < node.id) ∧ (nodes.map ZoneNode.id).Nodup ∧
      ∀ node ∈ nodes, node.id ∉ seen := by
  induction nodes generalizing seen with
  | nil => simp
  | cons node nodes ih =>
    unfold badNode? at h
    split at h
    · cases h
    · rename_i hgood
      obtain ⟨hpos, hdistinct, hnew⟩ := ih h
      have hid : rootZone < node.id := Int.not_le.1 fun hle => hgood (.inl hle)
      refine ⟨?_, ?_, ?_⟩
      · intro other hmem
        rcases List.mem_cons.1 hmem with rfl | hmem
        · exact hid
        · exact hpos other hmem
      · rw [List.map_cons, List.nodup_cons]
        refine ⟨?_, hdistinct⟩
        intro hmem
        obtain ⟨other, hother, heq⟩ := List.mem_map.1 hmem
        exact hnew other hother (heq ▸ List.mem_cons_self)
      · intro other hmem hseen
        rcases List.mem_cons.1 hmem with rfl | hmem
        · exact hgood (.inr hseen)
        · exact hnew other hmem (List.mem_cons_of_mem _ hseen)

/-- The name with these nodes at its last labels. More nodes than labels are refused first, then
numbers that are not positive or that are repeated. -/
def resolve (name : Name) (nodes : List ZoneNode) : Except WireError Name :=
  if hlen : nodes.length ≤ name.labels.length then
    match hbad : badNode? [] nodes with
    | some id => .error (.badNode id)
    | none =>
      have h := nodesFit_of_badNode? hbad
      .ok ⟨name.labels, .resolved nodes, name.size_le, hlen, h.1, h.2.1⟩
  else .error (.manyNodes nodes.length name.labels.length)

/-- The name cut down to its labels that have nodes. -/
def resolvedPart (name : Name) : Name where
  labels := name.labels.drop (name.labels.length - name.resolvedCount)
  form := .resolved name.nodes
  size_le := by
    have h₁ := name.size_le
    have h₂ := literalSize_drop_le (name.labels.length - name.resolvedCount) name.labels
    unfold wireSize at *
    omega
  fits := by
    have h := name.nodes_fit
    refine ⟨?_, h.2⟩
    have := h.1
    simp only [List.length_drop, resolvedCount]
    omega

/-! ## Parents -/

/-- The form that goes with one label less. -/
def Form.parent (count : Nat) : Form → Form
  | .resolved nodes => .resolved (nodes.take count)
  | _ => .plain

/-- The name without its most specific label. Nodes are kept for the labels that remain. -/
def parent? (name : Name) : Option Name :=
  match h : name.labels with
  | [] => none
  | label :: labels =>
    some {
      labels := labels
      form := name.form.parent labels.length
      size_le := by
        have hsize := name.size_le
        rw [h] at hsize
        unfold wireSize literalSize at hsize
        unfold wireSize
        omega
      fits := by
        have hfits := name.fits
        rw [h] at hfits
        unfold Form.parent
        split
        · rename_i nodes heq
          rw [heq] at hfits
          have := hfits.take labels.length
          rwa [Nat.min_eq_left (by simp)] at this
        · trivial }

/-- The names above `name`, nearest first; at most `steps` of them. -/
def above : Nat → Name → List Name
  | 0, _ => []
  | steps + 1, name =>
    match name.parent? with
    | none => []
    | some up => up :: above steps up

/-- All names above `name`, nearest first, up to the root. -/
def parents (name : Name) : List Name :=
  above name.labels.length name

/-! ## Compressed names -/

/-- The name with its last `suffix` labels written as a pointer. -/
def compressed (name : Name) (pointer suffix : Nat) : Name :=
  ⟨name.labels, .compressed pointer suffix, name.size_le, trivial⟩

/-- Whether the name is in the compressed form. -/
def isCompressed (name : Name) : Bool :=
  match name.form with
  | .compressed _ _ => true
  | _ => false

/-- The offset that the name's pointer points at. -/
def pointer? (name : Name) : Option Nat :=
  match name.form with
  | .compressed pointer _ => some pointer
  | _ => none

/-- How many labels are written as a pointer. -/
def compressedCount (name : Name) : Nat :=
  match name.form with
  | .compressed _ suffix => suffix
  | _ => 0

/-- The labels that are written out. -/
def literal (name : Name) : List Label :=
  name.labels.take (name.labels.length - name.compressedCount)

/-- The bytes that the name takes on the wire: its literal labels and a zero byte or a pointer. -/
def size (name : Name) : Nat :=
  literalSize name.literal + if name.isCompressed then 2 else 1

/-- The bytes that the name would take on the wire without compression. -/
def plainSize (name : Name) : Nat :=
  wireSize name.labels

end Name
end NameServer
