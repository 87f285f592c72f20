import NameServer.Proofs.Compression.Table

/-!
# Proofs.Compression.Chains — pointers that lead to pointers

A name that ends with a pointer may end another one, so a reader may follow several pointers for one
name. How many depends on the names alone: a suffix is written where the first name that ends with
it stands, and its pointers are those of that name.

* `Trail.hops` — the pointers of a name that is written behind others;
* `Compressor.Tracks` — a table agrees with the packet that is being written and with the names so
  far; `Compressor.Tracks.spelled` — a placed name is then spelled, through that many pointers, and
  `Compressor.Tracks.next` — the table after it agrees again.
-/

namespace NameServer

/-! ## Trails -/

/-- The folded labels of the names written so far, each with the pointers that are followed from its
beginning to its end. -/
abbrev Trail := List (List (List UInt8) × Nat)

namespace Trail

variable {trail : Trail} {key : List (List UInt8)}

/-- The pointers behind a suffix: those of the first name that ends with it. -/
def behind? (trail : Trail) (key : List (List UInt8)) : Option Nat :=
  (trail.find? fun entry => decide (key <:+ entry.1)).map Prod.snd

/-- The pointers of a name with these folded labels: none if no suffix of it is known, else the one
to its longest known suffix and those behind that. -/
def hops (trail : Trail) : List (List UInt8) → Nat
  | [] => 0
  | label :: labels =>
    match trail.behind? (label :: labels) with
    | some count => count + 1
    | none => hops trail labels

/-- The trail after one more name. -/
def push (trail : Trail) (name : Name) : Trail :=
  trail ++ [(name.folded, trail.hops name.folded)]

/-- The pointers of each of some names that are written behind others. -/
def pointers : Trail → List Name → List Nat
  | _, [] => []
  | trail, name :: names => trail.hops name.folded :: pointers (trail.push name) names

theorem hops_of_none {label : List UInt8} (h : trail.behind? (label :: key) = none) :
    trail.hops (label :: key) = trail.hops key := by
  simp only [hops, h]

theorem hops_of_some {count : Nat} (hne : key ≠ []) (h : trail.behind? key = some count) :
    trail.hops key = count + 1 := by
  cases key with
  | nil => exact absurd rfl hne
  | cons label key => simp only [hops, h]

theorem behind?_eq_none : trail.behind? key = none ↔ ∀ entry ∈ trail, ¬key <:+ entry.1 := by
  simp [behind?]

theorem behind?_push_of_some {name : Name} {count : Nat} (h : trail.behind? key = some count) :
    (trail.push name).behind? key = some count := by
  unfold behind? push at *
  rw [List.find?_append]
  rcases Option.map_eq_some_iff.1 h with ⟨entry, hfind, hcount⟩
  rw [hfind]
  exact congrArg some hcount

theorem behind?_push_of_none {name : Name} (h : trail.behind? key = none)
    (hkey : key <:+ name.folded) :
    (trail.push name).behind? key = some (trail.hops name.folded) := by
  unfold behind? push at *
  rw [List.find?_append, Option.map_eq_none_iff.1 h]
  simp [hkey]

theorem behind?_push {name : Name} {count : Nat} (h : (trail.push name).behind? key = some count) :
    trail.behind? key = some count ∨
      trail.behind? key = none ∧ key <:+ name.folded ∧ count = trail.hops name.folded := by
  cases hbehind : trail.behind? key with
  | some other =>
      rw [behind?_push_of_some hbehind] at h
      exact Or.inl h
  | none =>
      by_cases hkey : key <:+ name.folded
      · rw [behind?_push_of_none hbehind hkey] at h
        exact Or.inr ⟨rfl, hkey, (Option.some.inj h).symm⟩
      · rw [behind?_eq_none.2 ?_] at h
        · cases h
        · intro entry hmem
          rcases List.mem_append.1 hmem with hmem | hmem
          · exact behind?_eq_none.1 hbehind entry hmem
          · rw [List.mem_singleton.1 hmem]
            exact hkey

/-- No known suffix has more than `depth` pointers behind it. -/
def Within (trail : Trail) (depth : Nat) : Prop :=
  ∀ key count, trail.behind? key = some count → key ≠ [] → count ≤ depth

theorem hops_le {depth : Nat} (h : trail.Within depth) : trail.hops key ≤ depth + 1 := by
  induction key with
  | nil => exact Nat.zero_le _
  | cons label key ih =>
      cases hbehind : trail.behind? (label :: key) with
      | none =>
          rw [hops_of_none hbehind]
          exact ih
      | some count =>
          rw [hops_of_some (List.cons_ne_nil _ _) hbehind]
          exact Nat.succ_le_succ (h _ _ hbehind (List.cons_ne_nil _ _))

end Trail

namespace Compressor

open Name (Spelled labelWire literalSize)

variable {packet : Packet} {table after : Compressor} {trail : Trail} {offset limit : Nat}
variable {front rest : List Label} {name placed : Name}

/-! ## Tables and packets -/

/-- The packet spells an entry in front of `limit`, through as many pointers as the trail says. -/
def Spells (packet : Packet) (trail : Trail) (limit : Nat) (entry : List (List UInt8) × Nat) :
    Prop :=
  entry.2 ≤ maxPointer ∧ entry.2 < limit ∧
    ∃ labels hops next, labels.map Label.folded = entry.1 ∧ trail.behind? entry.1 = some hops ∧
      Spelled packet entry.2 labels hops next

/-- The table agrees with the packet and the names in front of `limit`: the packet spells what is
recorded, and every suffix of a name is recorded. -/
structure Tracks (packet : Packet) (table : Compressor) (trail : Trail) (limit : Nat) : Prop where
  spells : ∀ entry ∈ table.entries, Spells packet trail limit entry
  knows : ∀ entry ∈ trail, ∀ key, key ≠ [] → key <:+ entry.1 → table.Knows key

theorem tracks_empty : Tracks packet empty [] limit where
  spells := fun _ hmem => absurd hmem List.not_mem_nil
  knows := fun _ hmem => absurd hmem List.not_mem_nil

theorem Tracks.mono (h : Tracks packet table trail offset) (hle : offset ≤ limit) :
    Tracks packet table trail limit where
  spells := by
    intro entry hmem
    rcases h.spells entry hmem with ⟨hreach, hlt, hspelled⟩
    exact ⟨hreach, Nat.lt_of_lt_of_le hlt hle, hspelled⟩
  knows := h.knows

theorem Tracks.behind?_eq_none (h : Tracks packet table trail limit) {labels : List Label}
    (hne : labels ≠ []) (hfind : table.find? ⟨labels⟩ = none) :
    trail.behind? (labels.map Label.folded) = none := by
  rw [Trail.behind?_eq_none]
  -- A name that ended with these labels would have made them known.
  intro entry hmem hsuffix
  have hkey : labels.map Label.folded ≠ [] := by simpa using hne
  exact not_knows_of_find? hfind (h.knows entry hmem _ hkey hsuffix)

/-- A known suffix comes from a name that was written. -/
theorem Tracks.exists_source (h : Tracks packet table trail limit) {pointer : Nat}
    (hknown : table.find? ⟨rest⟩ = some pointer) :
    ∃ source ∈ trail, rest.map Label.folded <:+ source.1 := by
  rcases h.spells _ (knows_of_find? hknown) with ⟨-, -, -, hops, -, -, hbehind, -⟩
  unfold Trail.behind? at hbehind
  rcases Option.map_eq_some_iff.1 hbehind with ⟨source, hsource, -⟩
  have hends := List.find?_some hsource
  exact ⟨source, List.mem_of_find?_eq_some hsource, of_decide_eq_true hends⟩

/-- The front of a name plays no part in its pointers. -/
theorem Tracks.hops_fresh (h : Tracks packet table trail limit) (hfresh : table.Fresh front rest) :
    trail.hops ((front ++ rest).map Label.folded) = trail.hops (rest.map Label.folded) := by
  induction front with
  | nil => rfl
  | cons label front ih =>
      have hnone : trail.behind? ((label :: (front ++ rest)).map Label.folded) = none :=
        h.behind?_eq_none (List.cons_ne_nil _ _) hfresh.1
      rw [List.map_cons] at hnone
      rw [List.cons_append, List.map_cons, Trail.hops_of_none hnone]
      exact ih hfresh.2

/-- A known suffix is spelled where it is recorded, and pointing at it takes one pointer more. -/
theorem Tracks.hops_known (h : Tracks packet table trail limit) {pointer : Nat} (hne : rest ≠ [])
    (hknown : table.find? ⟨rest⟩ = some pointer) :
    pointer ≤ maxPointer ∧ pointer < limit ∧
      ∃ labels hops next, labels.map Label.folded = rest.map Label.folded ∧
        trail.hops (rest.map Label.folded) = hops + 1 ∧
          Spelled packet pointer labels hops next := by
  rcases h.spells _ (knows_of_find? hknown) with
    ⟨hreach, hlt, labels, hops, next, hlabels, hbehind, hspelled⟩
  refine ⟨hreach, hlt, labels, hops, next, hlabels, ?_, hspelled⟩
  have hkey : rest.map Label.folded ≠ [] := by simpa using hne
  exact Trail.hops_of_some hkey hbehind

/-! ## Placing a name -/

/-- The entries that are recorded for the front of a name are spelled, since its rest is. -/
theorem spells_recordAll {labels : List Label} {hops next : Nat} (hrest : Spelled packet
      (offset + literalSize front) labels hops next)
    (hlabels : labels.map Label.folded = rest.map Label.folded)
    (hfront : packet.HoldsAt offset (front.flatMap labelWire))
    (hlimit : offset + literalSize front < limit) (hreach : limit ≤ maxPointer)
    (hnew : ∀ back, back ≠ [] → back <:+ front →
      trail.behind? ((back ++ rest).map Label.folded) = some hops)
    (hold : ∀ entry ∈ table.entries, Spells packet trail limit entry) :
    ∀ entry ∈ (table.recordAll offset front rest).entries, Spells packet trail limit entry := by
  -- The table grows from the front, while the entries that are spelled stay spelled.
  induction front generalizing table offset with
  | nil => exact hold
  | cons label front ih =>
      have hwhole : Spelled packet offset (label :: front ++ labels) hops next :=
        Spelled.labels_append hfront hrest
      have hlen : (labelWire label).length = label.size + 1 := by
        simp [labelWire, Label.length_bytes]
      rw [List.flatMap_cons] at hfront
      have hback := hfront.right
      rw [hlen, ← Nat.add_assoc] at hback
      have hpos : offset + literalSize (label :: front) =
          offset + label.size + 1 + literalSize front := by
        simp only [literalSize]
        omega
      rw [hpos] at hrest hlimit
      refine ih hrest hback hlimit (fun back hne hsuffix => hnew back hne ?_) ?_
      · exact hsuffix.trans (List.suffix_cons label front)
      · intro entry hmem
        unfold record at hmem
        rw [if_pos (by omega)] at hmem
        rcases List.mem_cons.1 hmem with rfl | hmem
        · refine ⟨by omega, by omega, label :: front ++ labels, hops, next, ?_, ?_, hwhole⟩
          · simp [Suffix.folded, hlabels]
          · exact hnew (label :: front) (List.cons_ne_nil _ _) (List.suffix_refl _)
        · exact hold entry hmem

theorem Fresh.find? (h : table.Fresh front rest) {back : List Label} (hne : back ≠ [])
    (hsuffix : back <:+ front) : table.find? ⟨back ++ rest⟩ = none := by
  induction front with
  | nil => exact absurd (List.suffix_nil.1 hsuffix) hne
  | cons label front ih =>
      rcases List.suffix_cons_iff.1 hsuffix with rfl | hsuffix
      · exact h.1
      · exact ih h.2 hsuffix

/-- After a name is recorded the table agrees with what stands in front of `limit`. -/
theorem Tracks.recordAll (h : Tracks packet table trail offset) {labels : List Label} {next : Nat}
    (hname : name.labels = front ++ rest) (hfresh : table.Fresh front rest)
    (hknown : rest ≠ [] → ∃ pointer, table.find? ⟨rest⟩ = some pointer)
    (hrest : Spelled packet (offset + literalSize front) labels (trail.hops name.folded) next)
    (hlabels : labels.map Label.folded = rest.map Label.folded)
    (hfront : packet.HoldsAt offset (front.flatMap labelWire))
    (hlimit : offset + literalSize front < limit) (hreach : limit ≤ maxPointer) :
    Tracks packet (table.recordAll offset front rest) (trail.push name) limit := by
  have hfolded : name.folded = (front ++ rest).map Label.folded := congrArg _ hname
  constructor
  · -- Suffixes that begin in the front are new, so their pointers are those of this name.
    refine spells_recordAll hrest hlabels hfront hlimit hreach ?_ ?_
    · intro back hne hsuffix
      refine Trail.behind?_push_of_none (h.behind?_eq_none ?_ (hfresh.find? hne hsuffix)) ?_
      · simp [hne]
      · rcases hsuffix with ⟨before, rfl⟩
        rw [hfolded, List.append_assoc]
        exact (List.suffix_append before (back ++ rest)).map _
    · intro entry hmem
      rcases h.spells entry hmem with ⟨hle, hlt, labels, hops, next, hsame, hbehind, hspelled⟩
      exact ⟨hle, by omega, labels, hops, next, hsame, Trail.behind?_push_of_some hbehind,
        hspelled⟩
  · intro entry hmem key hne hsuffix
    rcases List.mem_append.1 hmem with hmem | hmem
    · exact (h.knows entry hmem key hne hsuffix).recordAll
    · rw [List.mem_singleton.1 hmem, hfolded] at hsuffix
      have hfits : offset + literalSize front ≤ maxPointer := by omega
      rcases knows_recordAll hfits hsuffix with hshort | hrecorded
      · -- A suffix of the known rest was recorded with the name that the rest comes from.
        have hrestNe : rest ≠ [] := by
          rintro rfl
          exact hne (List.suffix_nil.1 hshort)
        rcases hknown hrestNe with ⟨pointer, hpointer⟩
        rcases h.exists_source hpointer with ⟨source, hsource, hends⟩
        exact (h.knows source hsource key hne (hshort.trans hends)).recordAll
      · exact hrecorded

/-- A pointer behind the front of a name spells the rest of it. -/
theorem Tracks.spelled_pointer (h : Tracks packet table trail offset) {pointer : Nat}
    (hname : name.labels = front ++ rest) (hfresh : table.Fresh front rest) (hne : rest ≠ [])
    (hknown : table.find? ⟨rest⟩ = some pointer)
    (hbytes : packet.HoldsAt (offset + literalSize front) (Name.pointerWire pointer)) :
    ∃ labels, labels.map Label.folded = rest.map Label.folded ∧
      Spelled packet (offset + literalSize front) labels (trail.hops name.folded)
        (offset + literalSize front + 2) := by
  rcases h.hops_known hne hknown with ⟨hle, hlt, labels, hops, next, hlabels, hhops, hspelled⟩
  refine ⟨labels, hlabels, ?_⟩
  have htrail : trail.hops name.folded = hops + 1 := by
    rw [← hhops, ← h.hops_fresh hfresh, ← hname]
    rfl
  rw [htrail]
  exact Spelled.jump hbytes hle (by omega) hspelled

/-- A name of which nothing is known has no pointer. -/
theorem Tracks.hops_whole (h : Tracks packet table trail offset)
    (hfresh : table.Fresh name.labels []) : trail.hops name.folded = 0 := by
  have hhops := h.hops_fresh hfresh
  rw [List.append_nil] at hhops
  exact hhops

/-- A placed name is spelled where it is written, through the pointers that its trail says. -/
theorem Tracks.spelled (h : Tracks packet table trail offset)
    (hplaces : Places table offset name placed after) (hform : name.isCompressed = false)
    (hbytes : packet.HoldsAt offset placed.wire) :
    ∃ labels, labels.map Label.folded = name.folded ∧
      Spelled packet offset labels (trail.hops name.folded) (offset + placed.size) := by
  cases hplaces with
  | whole hfresh =>
      rw [h.hops_whole hfresh]
      exact ⟨name.labels, rfl, Name.spelled_wire hform hbytes⟩
  | @shared front rest pointer hname hfresh hne hknown =>
      rw [wire_shared hname] at hbytes
      have hpointer := hbytes.right
      rw [Name.length_flatMap_labelWire] at hpointer
      rcases h.spelled_pointer hname hfresh hne hknown hpointer with ⟨labels, hlabels, hspelled⟩
      refine ⟨front ++ labels, ?_, ?_⟩
      · simp [Name.folded, hname, hlabels]
      · rw [size_shared hname, ← Nat.add_assoc]
        exact Spelled.labels_append hbytes.left hspelled

/-- Behind a placed name the table agrees again, as far as pointers reach. -/
theorem Tracks.next (h : Tracks packet table trail offset)
    (hplaces : Places table offset name placed after) (hform : name.isCompressed = false)
    (hbytes : packet.HoldsAt offset placed.wire) (hreach : offset + placed.size ≤ maxPointer) :
    Tracks packet after (trail.push name) (offset + placed.size) := by
  cases hplaces with
  | whole hfresh =>
      -- The zero byte behind the labels is the rest of a name that is written out.
      have hend : packet[offset + literalSize name.labels]? = some 0 := by
        rw [Name.wire_eq_labels hform] at hbytes
        have hzero := hbytes.right.getElem?
        rwa [Name.length_flatMap_labelWire] at hzero
      have hstop := Spelled.stop hend
      rw [← h.hops_whole hfresh] at hstop
      rw [Name.wire_eq_labels hform] at hbytes
      rw [Name.size_eq_wireSize hform] at hreach ⊢
      have hname : name.labels = name.labels ++ [] := (List.append_nil _).symm
      refine h.recordAll hname hfresh (fun hne => absurd rfl hne) hstop rfl hbytes.left ?_ hreach
      unfold Name.wireSize
      omega
  | @shared front rest pointer hname hfresh hne hknown =>
      rw [wire_shared hname] at hbytes
      have hpointer := hbytes.right
      rw [Name.length_flatMap_labelWire] at hpointer
      rcases h.spelled_pointer hname hfresh hne hknown hpointer with ⟨labels, hlabels, hspelled⟩
      rw [size_shared hname] at hreach ⊢
      exact h.recordAll hname hfresh (fun _ => ⟨pointer, hknown⟩) hspelled hlabels hbytes.left
        (by omega) hreach

/-! ## What chains cost -/

/-- A suffix of a known suffix is known. -/
theorem Tracks.behind?_of_suffix (h : Tracks packet table trail offset) {pointer : Nat}
    {key : List (List UInt8)} (hknown : table.find? ⟨rest⟩ = some pointer)
    (hkey : key <:+ rest.map Label.folded) : trail.behind? key ≠ none := by
  rcases h.exists_source hknown with ⟨source, hsource, hends⟩
  intro hnone
  exact Trail.behind?_eq_none.1 hnone source hsource (hkey.trans hends)

/-- A name makes chains longer by one pointer at most, and only if it takes four bytes or more: a
label and a pointer. -/
theorem Tracks.within_push (h : Tracks packet table trail offset) {depth : Nat}
    (hplaces : Places table offset name placed after) (hwithin : trail.Within depth) :
    ∃ deeper, depth ≤ deeper ∧ deeper ≤ depth + 1 ∧ 4 * deeper ≤ 4 * depth + placed.size ∧
      (trail.push name).Within deeper := by
  cases hplaces with
  | whole hfresh =>
      refine ⟨depth, Nat.le_refl _, Nat.le_succ _, Nat.le_add_right _ _, ?_⟩
      intro key count hbehind hne
      rcases Trail.behind?_push hbehind with hold | ⟨-, -, rfl⟩
      · exact hwithin key count hold hne
      · rw [h.hops_whole hfresh]
        exact Nat.zero_le _
  | @shared front rest pointer hname hfresh hne hknown =>
      rw [size_shared hname]
      cases front with
      | nil =>
          refine ⟨depth, Nat.le_refl _, Nat.le_succ _, Nat.le_add_right _ _, ?_⟩
          intro key count hbehind hkey
          rcases Trail.behind?_push hbehind with hold | ⟨hnone, hsuffix, -⟩
          · exact hwithin key count hold hkey
          · -- The whole name was known, so none of its suffixes is new.
            have hfolded : name.folded = rest.map Label.folded := congrArg _ hname
            rw [hfolded] at hsuffix
            exact absurd hnone (h.behind?_of_suffix hknown hsuffix)
      | cons label front =>
          -- A label of one byte takes two, and so does the pointer behind it.
          have hpos : 0 < label.size := label.size_pos
          refine ⟨depth + 1, Nat.le_succ _, Nat.le_refl _, ?_, ?_⟩
          · simp only [literalSize]
            omega
          · intro key count hbehind hkey
            rcases Trail.behind?_push hbehind with hold | ⟨-, -, rfl⟩
            · exact Nat.le_succ_of_le (hwithin key count hold hkey)
            · exact Trail.hops_le hwithin

end Compressor
end NameServer
