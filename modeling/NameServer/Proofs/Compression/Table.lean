import NameServer.Proofs.Name.Spelling

/-!
# Proofs.Compression.Table — where a name is cut

Placing a name cuts its labels in two: the front is written out and recorded, the rest is the
longest suffix that the table knew, for which a pointer stands.

* `Compressor.Fresh table front rest` — no suffix that begins within `front` is known;
* `Compressor.recordAll` — what placing records;
* `Compressor.Places` — the name that is written, and the table after it, for such a cut;
* `Compressor.places_of_place` — placing a name is of this kind, and `Compressor.place_total` — it
  fails only outside the reach of pointers.
-/

namespace NameServer
namespace Compressor

variable {table : Compressor} {offset pointer : Nat} {front rest labels : List Label}

/-! ## Cutting a name -/

/-- No suffix of `front ++ rest` that begins within `front` is known. -/
def Fresh (table : Compressor) : List Label → List Label → Prop
  | [], _ => True
  | label :: front, rest =>
    table.find? ⟨label :: front ++ rest⟩ = none ∧ Fresh table front rest

/-- Records each suffix of `front ++ rest` that begins within `front`, as it is written at
`offset`. -/
def recordAll (table : Compressor) (offset : Nat) : List Label → List Label → Compressor
  | [], _ => table
  | label :: front, rest =>
    (table.record ⟨label :: front ++ rest⟩ offset).recordAll (offset + label.size + 1) front rest

/-- Recording a suffix does not make a shorter one known. -/
theorem find?_record {suffix other : Suffix} (h : other.labels.length ≠ suffix.labels.length) :
    (table.record suffix offset).find? other = table.find? other := by
  -- Suffixes of different lengths have different keys.
  have hne : other.folded ≠ suffix.folded := by
    intro heq
    have hlength := congrArg List.length heq
    simp only [Suffix.folded, List.length_map] at hlength
    exact h hlength
  unfold record
  split
  · simp [find?, List.lookup_cons, beq_false_of_ne hne]
  · rfl

theorem fresh_record {suffix : Suffix} (h : front.length + rest.length < suffix.labels.length) :
    Fresh (table.record suffix offset) front rest ↔ Fresh table front rest := by
  induction front with
  | nil => exact Iff.rfl
  | cons label front ih =>
      simp only [List.length_cons] at h
      have hlength : (label :: front ++ rest).length ≠ suffix.labels.length := by
        simp only [List.cons_append, List.length_cons, List.length_append]
        omega
      unfold Fresh
      rw [find?_record hlength, ih (by omega)]

/-- The rest of a name of which `front` is written out: nothing, or a suffix that is known. -/
def Rest (table : Compressor) (rest : List Label) : Option (Nat × Nat) → Prop
  | none => rest = []
  | some (pointer, count) => rest ≠ [] ∧ rest.length = count ∧ table.find? ⟨rest⟩ = some pointer

theorem lay_split (table : Compressor) (offset : Nat) (labels : List Label) :
    ∃ front rest, labels = front ++ rest ∧ table.Fresh front rest ∧
      (table.lay offset labels).1 = table.recordAll offset front rest ∧
        table.Rest rest (table.lay offset labels).2 := by
  induction labels generalizing table offset with
  | nil => exact ⟨[], [], rfl, trivial, rfl, rfl⟩
  | cons label labels ih =>
      cases hfind : table.find? ⟨label :: labels⟩ with
      | some pointer =>
          refine ⟨[], label :: labels, rfl, trivial, ?_, ?_⟩
          · simp only [lay, hfind, recordAll]
          · simp only [lay, hfind, Rest, List.length_cons, and_true]
            simp
      | none =>
          rcases ih (table.record ⟨label :: labels⟩ offset) (offset + label.size + 1) with
            ⟨front, rest, hlabels, hfresh, htable, hrest⟩
          subst hlabels
          -- The suffixes looked up from here on are shorter than the one just recorded.
          rw [fresh_record (by simp)] at hfresh
          refine ⟨label :: front, rest, rfl, ⟨hfind, hfresh⟩, ?_, ?_⟩
          · simp only [lay, hfind, htable, recordAll, List.cons_append]
          · simp only [lay, hfind]
            revert hrest
            cases (lay _ _ (front ++ rest)).2 with
            | none => exact id
            | some found =>
                rintro ⟨hne, hcount, hknown⟩
                rw [find?_record (by simp only [List.length_cons, List.length_append]; omega)]
                  at hknown
                exact ⟨hne, hcount, hknown⟩

theorem lay_of_known (hne : labels ≠ []) (h : table.find? ⟨labels⟩ = some pointer) :
    table.lay offset labels = (table, some (pointer, labels.length)) := by
  cases labels with
  | nil => exact absurd rfl hne
  | cons label labels => simp only [lay, h, List.length_cons]

/-! ## What is known -/

/-- An offset is recorded for a suffix with these folded labels. -/
def Knows (table : Compressor) (key : List (List UInt8)) : Prop :=
  ∃ entry ∈ table.entries, entry.1 = key

theorem knows_of_find? {suffix : Suffix} (h : table.find? suffix = some pointer) :
    (suffix.folded, pointer) ∈ table.entries := by
  unfold find? at h
  rcases List.lookup_eq_some_iff.1 h with ⟨before, behind, hentries, -⟩
  rw [hentries]
  simp

theorem not_knows_of_find? {suffix : Suffix} (h : table.find? suffix = none) :
    ¬table.Knows suffix.folded := by
  rintro ⟨entry, hmem, hkey⟩
  have hne := List.lookup_eq_none_iff.1 h entry hmem
  simp [hkey] at hne

theorem Knows.record {key : List (List UInt8)} {suffix : Suffix} (h : table.Knows key) :
    (table.record suffix offset).Knows key := by
  rcases h with ⟨entry, hmem, hkey⟩
  unfold Compressor.record
  split
  · exact ⟨entry, List.mem_cons_of_mem _ hmem, hkey⟩
  · exact ⟨entry, hmem, hkey⟩

theorem Knows.recordAll {key : List (List UInt8)} (h : table.Knows key) :
    (table.recordAll offset front rest).Knows key := by
  induction front generalizing table offset with
  | nil => exact h
  | cons label front ih => exact ih h.record

theorem exists_of_knows {suffix : Suffix} (h : table.Knows suffix.folded) :
    ∃ pointer, table.find? suffix = some pointer := by
  cases hfind : table.find? suffix with
  | none => exact absurd h (not_knows_of_find? hfind)
  | some pointer => exact ⟨pointer, rfl⟩

/-- What is recorded for a name does not depend on its case. -/
theorem recordAll_congr {other : List Label}
    (h : front.map Label.folded = other.map Label.folded) :
    table.recordAll offset front rest = table.recordAll offset other rest := by
  have hsame := Label.map_folded_eq.1 h
  clear h
  induction hsame generalizing table offset with
  | nil => rfl
  | @cons x y xs ys hfirst hmore ih =>
      have hfolded : Suffix.folded ⟨x :: xs ++ rest⟩ = Suffix.folded ⟨y :: ys ++ rest⟩ := by
        have hx : x.folded = y.folded := hfirst
        have hxs : xs.map Label.folded = ys.map Label.folded := Label.map_folded_eq.2 hmore
        simp [Suffix.folded, hx, hxs]
      have hrecord : table.record ⟨x :: xs ++ rest⟩ offset =
          table.record ⟨y :: ys ++ rest⟩ offset := by
        unfold record
        rw [hfolded]
      unfold recordAll
      rw [hrecord, hfirst.size_eq, ih]

/-- Within the reach of pointers every suffix that begins in the front becomes known. -/
theorem knows_recordAll {key : List (List UInt8)}
    (hreach : offset + Name.literalSize front ≤ maxPointer)
    (hkey : key <:+ (front ++ rest).map Label.folded) :
    key <:+ rest.map Label.folded ∨ (table.recordAll offset front rest).Knows key := by
  induction front generalizing table offset with
  | nil => exact Or.inl hkey
  | cons label front ih =>
      simp only [Name.literalSize] at hreach
      rcases List.suffix_cons_iff.1 hkey with hwhole | hshorter
      · -- The whole of what is left is recorded here and stays known behind.
        right
        have hone : (table.record ⟨label :: front ++ rest⟩ offset).Knows key := by
          unfold record
          rw [if_pos (by omega)]
          exact ⟨_, List.mem_cons_self, hwhole.symm⟩
        exact hone.recordAll
      · exact ih (by omega) hshorter

/-! ## Placing a name -/

/-- How a name is placed at `offset`: either no suffix of it is known and it is written out, or it
is cut before its longest known suffix. -/
inductive Places (table : Compressor) (offset : Nat) (name : Name) : Name → Compressor → Prop where
  | whole :
      table.Fresh name.labels [] →
        Places table offset name name (table.recordAll offset name.labels [])
  | shared {front rest : List Label} {pointer : Nat} :
      name.labels = front ++ rest → table.Fresh front rest → rest ≠ [] →
        table.find? ⟨rest⟩ = some pointer →
          Places table offset name (name.compressed pointer rest.length)
            (table.recordAll offset front rest)

variable {name placed : Name} {after : Compressor}

/-- A name is placed, unless it stands where no pointer reaches. -/
theorem place_total (hlow : headerSize ≤ offset) (hhigh : offset ≤ maxPointer) :
    ∃ placed after, table.place name offset = .ok (placed, after) ∧
      Places table offset name placed after := by
  rcases lay_split table offset name.labels with ⟨front, rest, hlabels, hfresh, htable, hrest⟩
  unfold place
  rw [if_pos ⟨hlow, hhigh⟩]
  -- The facts about the result of laying out follow it into the cases.
  revert htable hrest
  rcases table.lay offset name.labels with ⟨after, found⟩
  intro htable hrest
  cases found with
  | none =>
      cases htable
      cases hrest
      rw [List.append_nil] at hlabels
      subst hlabels
      exact ⟨_, _, rfl, Places.whole hfresh⟩
  | some found =>
      rcases found with ⟨pointer, count⟩
      rcases hrest with ⟨hne, rfl, hknown⟩
      cases htable
      exact ⟨_, _, rfl, Places.shared hlabels hfresh hne hknown⟩

theorem place_error (h : ¬(headerSize ≤ offset ∧ offset ≤ maxPointer)) :
    table.place name offset = .error (.placeOutside offset) := by
  unfold place
  rw [if_neg h]

theorem places_of_place (h : table.place name offset = .ok (placed, after)) :
    offset ≤ maxPointer ∧ Places table offset name placed after := by
  by_cases hreach : headerSize ≤ offset ∧ offset ≤ maxPointer
  · rcases place_total hreach.1 hreach.2 with ⟨placed', after', hplace, hplaces⟩
    rw [h] at hplace
    cases hplace
    exact ⟨hreach.2, hplaces⟩
  · rw [place_error hreach] at h
    cases h

/-! ## The placed name -/

theorem literal_shared (h : name.labels = front ++ rest) :
    (name.compressed pointer rest.length).literal = front := by
  simp [Name.literal, Name.compressed, Name.compressedCount, h]

theorem size_shared (h : name.labels = front ++ rest) :
    (name.compressed pointer rest.length).size = Name.literalSize front + 2 := by
  unfold Name.size
  rw [literal_shared h]
  simp [Name.isCompressed, Name.compressed]

theorem wire_shared (h : name.labels = front ++ rest) :
    (name.compressed pointer rest.length).wire =
      front.flatMap Name.labelWire ++ Name.pointerWire pointer := by
  unfold Name.wire
  rw [literal_shared h]
  rfl

/-- Placing a name never lengthens it: the suffix that a pointer stands for has a label. -/
theorem Places.size_le (h : Places table offset name placed after)
    (hform : name.isCompressed = false) : placed.size ≤ name.size := by
  cases h with
  | whole => exact Nat.le_refl _
  | @shared front rest pointer hlabels _ hne _ =>
      -- A label takes at least two bytes, which is what the pointer takes.
      have htwo : 2 ≤ Name.literalSize rest := by
        have hlength := Name.two_mul_length_le rest
        have hpos := List.length_pos_iff.2 hne
        omega
      rw [size_shared hlabels, Name.size_eq_wireSize hform, hlabels]
      unfold Name.wireSize
      rw [Name.literalSize_append]
      omega

/-- When nothing is known a name is left as it is and recorded as a whole. -/
theorem Places.of_empty (h : Places empty offset name placed after) :
    placed = name ∧ after = empty.recordAll offset name.labels [] := by
  cases h with
  | whole => exact ⟨rfl, rfl⟩
  | shared _ _ _ hknown => cases hknown

theorem Places.labels_eq (h : Places table offset name placed after) :
    placed.labels = name.labels := by
  cases h <;> rfl

end Compressor
end NameServer
