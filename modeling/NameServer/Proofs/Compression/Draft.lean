import NameServer.Proofs.Compression.Table

/-!
# Proofs.Compression.Draft — names written one after the other

A draft is a buffer that grows at its end, with the table of the suffixes that stand in it. Every
name is placed at the offset where it is then written; other bytes may stand between names.

* `Draft.Grounded` — the invariant: every recorded offset fits a pointer, and from there the buffer
  spells the suffix, however many pointers that takes;
* `Draft.Grounded.add` — one more piece keeps it, wherever a name is cut and even where it runs past
  the reach of pointers;
* `Compressor.Shortens` — what placing makes of a name: a pointer stands for its longest known suffix;
* `Draft.names_stay_spelled` — all of this along a whole run of pieces.
-/

namespace NameServer
namespace Compressor

open Name (Spelled labelWire literalSize pointerWire)

variable {table after : Compressor} {offset : Nat} {front rest : List Label} {packet : Packet}
variable {entry : List (List UInt8) × Nat} {name placed : Name}

/-! ## What is recorded for a name -/

theorem suffix_record (table : Compressor) (suffix : Suffix) (offset : Nat) :
    table.entries <:+ (table.record suffix offset).entries := by
  unfold record
  split
  · exact List.suffix_cons _ _
  · exact List.suffix_refl _

/-- Recording leaves the entries that are there as they are. -/
theorem suffix_recordAll : table.entries <:+ (table.recordAll offset front rest).entries := by
  induction front generalizing table offset with
  | nil => exact List.suffix_refl _
  | cons label front ih => exact (table.suffix_record _ _).trans ih

/-- A new entry is for a suffix that begins in the front, at the offset where it is written. -/
theorem mem_recordAll (h : entry ∈ (table.recordAll offset front rest).entries) :
    entry ∈ table.entries ∨ ∃ before back, front = before ++ back ∧
      offset + literalSize before ≤ maxPointer ∧
        entry = ((back ++ rest).map Label.folded, offset + literalSize before) := by
  induction front generalizing table offset with
  | nil => exact Or.inl h
  | cons label front ih =>
      rcases ih h with hone | ⟨before, back, rfl, hreach, hentry⟩
      · unfold record at hone
        split at hone
        · rename_i hle
          rcases List.mem_cons.1 hone with hnew | hold
          · exact Or.inr ⟨[], label :: front, rfl, hle, hnew⟩
          · exact Or.inl hold
        · exact Or.inl hone
      · -- What is recorded behind the first label stands that much further on.
        have hpos : offset + literalSize (label :: before) =
            offset + label.size + 1 + literalSize before := by
          simp only [literalSize]
          omega
        refine Or.inr ⟨label :: before, back, rfl, ?_, ?_⟩
        · rw [hpos]
          exact hreach
        · rw [hpos]
          exact hentry

/-- Suffixes that are not known do not come to be recorded twice. -/
theorem nodup_recordAll (hfresh : table.Fresh front rest)
    (h : (table.entries.map Prod.fst).Nodup) :
    ((table.recordAll offset front rest).entries.map Prod.fst).Nodup := by
  induction front generalizing table offset with
  | nil => exact h
  | cons label front ih =>
      rcases hfresh with ⟨hnew, hmore⟩
      apply ih
      · exact (fresh_record (by simp)).2 hmore
      · unfold record
        split
        · rw [List.map_cons, List.nodup_cons]
          refine ⟨?_, h⟩
          intro hmem
          rcases List.mem_map.1 hmem with ⟨other, hother, hkey⟩
          exact not_knows_of_find? hnew ⟨other, hother, hkey⟩
        · exact h

/-- As long as no suffix is recorded twice, an entry that stays is still the one that is found. -/
theorem find?_of_suffix {suffix : Suffix} {pointer : Nat}
    (hentries : table.entries <:+ after.entries) (hdistinct : (after.entries.map Prod.fst).Nodup)
    (h : table.find? suffix = some pointer) : after.find? suffix = some pointer := by
  rcases hentries with ⟨newer, hnewer⟩
  have hmem : suffix.folded ∈ table.entries.map Prod.fst :=
    List.mem_map.2 ⟨_, knows_of_find? h, rfl⟩
  rw [← hnewer, List.map_append, List.nodup_append] at hdistinct
  have hnone : newer.lookup suffix.folded = none := by
    apply List.lookup_eq_none_iff.2
    intro other hother
    have hne := hdistinct.2.2 other.1 (List.mem_map.2 ⟨other, hother, rfl⟩) _ hmem
    exact bne_iff_ne.2 hne.symm
  unfold find? at h ⊢
  rw [← hnewer, List.lookup_append, hnone, Option.none_or]
  exact h

/-! ## What is spelled -/

/-- The offset of an entry fits a pointer, and from there the packet spells its suffix. -/
def Anchored (packet : Packet) (entry : List (List UInt8) × Nat) : Prop :=
  headerSize ≤ entry.2 ∧ entry.2 ≤ maxPointer ∧ ∃ labels hops next,
    labels.map Label.folded = entry.1 ∧ Spelled packet entry.2 labels hops next

theorem Anchored.append (h : Anchored packet entry) (more : Packet) :
    Anchored (packet ++ more) entry := by
  rcases h with ⟨hlow, hhigh, labels, hops, next, hlabels, hspelled⟩
  exact ⟨hlow, hhigh, labels, hops, next, hlabels, hspelled.append more⟩

/-- The suffixes that are recorded for a name are spelled, since what its front ends with is. -/
theorem anchored_recordAll {labels : List Label} {hops next : Nat} (hlow : headerSize ≤ offset)
    (hfront : packet.HoldsAt offset (front.flatMap labelWire))
    (hrest : Spelled packet (offset + literalSize front) labels hops next)
    (hlabels : labels.map Label.folded = rest.map Label.folded)
    (hold : ∀ entry ∈ table.entries, Anchored packet entry) :
    ∀ entry ∈ (table.recordAll offset front rest).entries, Anchored packet entry := by
  intro entry hmem
  rcases mem_recordAll hmem with hknown | ⟨before, back, rfl, hreach, rfl⟩
  · exact hold entry hknown
  · rw [List.flatMap_append] at hfront
    have hback := hfront.right
    rw [Name.length_flatMap_labelWire] at hback
    rw [Name.literalSize_append, ← Nat.add_assoc] at hrest
    refine ⟨by omega, hreach, back ++ labels, hops, next, ?_, Spelled.labels_append hback hrest⟩
    rw [List.map_append, List.map_append, hlabels]

/-! ## What becomes of a name -/

/-- `placed` is how `name` is written when the table knows some of its suffixes: the longest of them
is left to a pointer, which leads to where it is recorded. If none is known the name is written in
full. -/
def Shortens (table : Compressor) (name placed : Name) : Prop :=
  ∃ front rest, name.labels = front ++ rest ∧
    (∀ longer, longer <:+ name.labels → rest.length < longer.length →
      table.find? ⟨longer⟩ = none) ∧
    ((rest = [] ∧ placed = name ∧ placed.wire = front.flatMap labelWire ++ [0]) ∨
      ∃ pointer, rest ≠ [] ∧ table.find? ⟨rest⟩ = some pointer ∧
        placed = name.compressed pointer rest.length ∧
          placed.wire = front.flatMap labelWire ++ pointerWire pointer)

/-- A suffix that is longer than the rest begins in the front. -/
theorem Fresh.find?_longer (h : table.Fresh front rest) {longer : List Label}
    (hsuffix : longer <:+ front ++ rest) (hlength : rest.length < longer.length) :
    table.find? ⟨longer⟩ = none := by
  induction front with
  | nil =>
      have hle := hsuffix.length_le
      rw [List.nil_append] at hle
      omega
  | cons label front ih =>
      rcases List.suffix_cons_iff.1 hsuffix with hwhole | hshorter
      · rw [hwhole]
        exact h.1
      · exact ih h.2 hshorter

theorem Places.shortens (h : Places table offset name placed after)
    (hform : name.isCompressed = false) : table.Shortens name placed := by
  cases h with
  | whole hfresh =>
      refine ⟨name.labels, [], (List.append_nil _).symm, ?_, Or.inl ⟨rfl, rfl, ?_⟩⟩
      · intro longer hsuffix hlength
        exact hfresh.find?_longer (by simpa using hsuffix) hlength
      · exact Name.wire_eq_labels hform
  | @shared front rest pointer hname hfresh hne hknown =>
      refine ⟨front, rest, hname, ?_, Or.inr ⟨pointer, hne, hknown, rfl, wire_shared hname⟩⟩
      intro longer hsuffix hlength
      rw [hname] at hsuffix
      exact hfresh.find?_longer hsuffix hlength

theorem Places.suffix (h : Places table offset name placed after) :
    table.entries <:+ after.entries := by
  cases h with
  | whole => exact suffix_recordAll
  | shared => exact suffix_recordAll

theorem Places.nodup (h : Places table offset name placed after)
    (hdistinct : (table.entries.map Prod.fst).Nodup) :
    (after.entries.map Prod.fst).Nodup := by
  cases h with
  | whole hfresh => exact nodup_recordAll hfresh hdistinct
  | shared _ hfresh => exact nodup_recordAll hfresh hdistinct

/-- What a placed name ends with is spelled behind its front: nothing, or a known suffix, to which
the pointer leads back. -/
theorem Places.spelled_rest (h : Places table offset name placed after)
    (hform : name.isCompressed = false) (hbytes : packet.HoldsAt offset placed.wire)
    (hold : ∀ entry ∈ table.entries, Anchored packet entry ∧ entry.2 < offset) :
    ∃ front rest labels hops next, after = table.recordAll offset front rest ∧
      packet.HoldsAt offset (front.flatMap labelWire) ∧
        labels.map Label.folded = rest.map Label.folded ∧
          Spelled packet (offset + literalSize front) labels hops next := by
  cases h with
  | whole hfresh =>
      rw [Name.wire_eq_labels hform] at hbytes
      have hend := hbytes.right.getElem?
      rw [Name.length_flatMap_labelWire] at hend
      exact ⟨name.labels, [], [], 0, _, rfl, hbytes.left, rfl, Spelled.stop hend⟩
  | @shared front rest pointer hname hfresh hne hknown =>
      rcases hold _ (knows_of_find? hknown) with
        ⟨⟨-, hhigh, labels, hops, next, hlabels, hspelled⟩, hback⟩
      rw [wire_shared hname] at hbytes
      have hpointer := hbytes.right
      rw [Name.length_flatMap_labelWire] at hpointer
      have hjump := Spelled.jump hpointer hhigh (Nat.lt_add_right _ hback) hspelled
      exact ⟨front, rest, labels, _, _, rfl, hbytes.left, hlabels, hjump⟩

/-! ## Drafts -/

/-- What comes next in a draft: a name, or bytes that are no part of one. -/
inductive Piece
  | bytes (bs : List UInt8)
  | name (name : Name)

/-- A buffer that is being written, and the suffixes that are recorded for it. -/
structure Draft where
  buffer : List UInt8
  table : Compressor

namespace Draft

/-- Nothing is written yet. -/
def blank : Draft := ⟨[], empty⟩

/-- Whether the next name stands within the reach of pointers. -/
def InReach (draft : Draft) : Prop :=
  headerSize ≤ draft.buffer.length ∧ draft.buffer.length ≤ maxPointer

/-- The draft with one more piece. A name is placed at the end of the buffer and written there; one
that cannot be placed is left out. -/
def add (draft : Draft) : Piece → Draft
  | .bytes bs => ⟨draft.buffer ++ bs, draft.table⟩
  | .name name =>
    match draft.table.place name draft.buffer.length with
    | .ok (placed, table) => ⟨draft.buffer ++ placed.wire, table⟩
    | .error _ => draft

/-- The draft with more pieces. -/
def addAll (draft : Draft) (pieces : List Piece) : Draft :=
  pieces.foldl add draft

/-- The names among pieces have no pointers of their own. -/
def Uncompressed (pieces : List Piece) : Prop :=
  ∀ name, .name name ∈ pieces → name.isCompressed = false

/-- Every recorded suffix stands in the buffer at its offset, and none is recorded twice. -/
structure Grounded (draft : Draft) : Prop where
  anchored : ∀ entry ∈ draft.table.entries, Anchored draft.buffer.toArray entry
  distinct : (draft.table.entries.map Prod.fst).Nodup

variable {draft : Draft} {piece : Piece} {pieces : List Piece}

theorem Uncompressed.head (h : Uncompressed (piece :: pieces)) : Uncompressed [piece] :=
  fun name hmem => h name (List.mem_singleton.1 hmem ▸ List.mem_cons_self)

theorem Uncompressed.tail (h : Uncompressed (piece :: pieces)) : Uncompressed pieces :=
  fun name hmem => h name (List.mem_cons_of_mem _ hmem)

theorem grounded_blank : blank.Grounded where
  anchored := fun _ hmem => absurd hmem List.not_mem_nil
  distinct := List.nodup_nil

/-- A name is placed and written, or the draft stays as it is. -/
theorem add_name (draft : Draft) (name : Name) :
    (draft.InReach ∧ ∃ placed after,
      draft.table.place name draft.buffer.length = .ok (placed, after) ∧
        draft.table.Places draft.buffer.length name placed after ∧
          draft.add (.name name) = ⟨draft.buffer ++ placed.wire, after⟩) ∨
    (¬draft.InReach ∧
      draft.table.place name draft.buffer.length = .error (.placeOutside draft.buffer.length) ∧
        draft.add (.name name) = draft) := by
  by_cases hreach : draft.InReach
  · rcases place_total hreach.1 hreach.2 with ⟨placed, after, hplace, hplaces⟩
    exact Or.inl ⟨hreach, placed, after, hplace, hplaces, by simp only [add, hplace]⟩
  · have herror : draft.table.place name draft.buffer.length =
        .error (.placeOutside draft.buffer.length) := place_error hreach
    exact Or.inr ⟨hreach, herror, by simp only [add, herror]⟩

/-! ## One more piece -/

theorem Grounded.bytes (h : draft.Grounded) (bs : List UInt8) : (draft.add (.bytes bs)).Grounded where
  anchored := by
    intro entry hmem
    have hgrown := (h.anchored entry hmem).append bs.toArray
    rwa [List.append_toArray] at hgrown
  distinct := h.distinct

/-- A name that is written behind a grounded draft leaves it grounded. -/
theorem Grounded.written (h : draft.Grounded) (hform : name.isCompressed = false)
    (hlow : headerSize ≤ draft.buffer.length)
    (hplaces : draft.table.Places draft.buffer.length name placed after) :
    Grounded ⟨draft.buffer ++ placed.wire, after⟩ where
  anchored := by
    have hbytes : Packet.HoldsAt (draft.buffer ++ placed.wire).toArray draft.buffer.length
        placed.wire := by
      simp [Packet.HoldsAt]
    -- What is spelled in the buffer so far ends in front of the new name.
    have hold : ∀ entry ∈ draft.table.entries,
        Anchored (draft.buffer ++ placed.wire).toArray entry ∧ entry.2 < draft.buffer.length := by
      intro entry hmem
      have hanchored := h.anchored entry hmem
      have hgrown := hanchored.append placed.wire.toArray
      rw [List.append_toArray] at hgrown
      rcases hanchored with ⟨-, -, labels, hops, next, -, hspelled⟩
      have hbounds := hspelled.bounds
      rw [List.size_toArray] at hbounds
      exact ⟨hgrown, by omega⟩
    rcases hplaces.spelled_rest hform hbytes hold with
      ⟨front, rest, labels, hops, next, rfl, hfront, hlabels, hrest⟩
    exact anchored_recordAll hlow hfront hrest hlabels fun entry hmem => (hold entry hmem).1
  distinct := hplaces.nodup h.distinct

theorem Grounded.add (h : draft.Grounded) (hform : Uncompressed [piece]) :
    (draft.add piece).Grounded := by
  cases piece with
  | bytes bs => exact h.bytes bs
  | name name =>
      rcases draft.add_name name with ⟨hreach, placed, after, -, hplaces, hadd⟩ | ⟨-, -, hadd⟩
      · rw [hadd]
        exact h.written (hform name List.mem_cons_self) hreach.1 hplaces
      · rw [hadd]
        exact h

/-- The next piece leaves the entries that are there as they are. -/
theorem suffix_add (draft : Draft) (piece : Piece) :
    draft.table.entries <:+ (draft.add piece).table.entries := by
  cases piece with
  | bytes bs => exact List.suffix_refl _
  | name name =>
      rcases draft.add_name name with ⟨-, placed, after, -, hplaces, hadd⟩ | ⟨-, -, hadd⟩
      · rw [hadd]
        exact hplaces.suffix
      · exact ⟨[], congrArg (fun draft => draft.table.entries) hadd.symm⟩

/-! ## A run of pieces -/

theorem Grounded.addAll (h : draft.Grounded) (hform : Uncompressed pieces) :
    (draft.addAll pieces).Grounded := by
  induction pieces generalizing draft with
  | nil => exact h
  | cons piece pieces ih => exact ih (h.add hform.head) hform.tail

/-- However a draft goes on, a suffix keeps the offset that it has. -/
theorem Grounded.find?_addAll (h : draft.Grounded) (hform : Uncompressed pieces) {suffix : Suffix}
    {pointer : Nat} (hknown : draft.table.find? suffix = some pointer) :
    (draft.addAll pieces).table.find? suffix = some pointer := by
  induction pieces generalizing draft with
  | nil => exact hknown
  | cons piece pieces ih =>
      -- An entry could be hidden by a newer one of its suffix, which a grounded draft has not.
      have hnext := h.add hform.head
      exact ih hnext hform.tail (find?_of_suffix (draft.suffix_add piece) hnext.distinct hknown)

/-- What becomes of the next name of a draft. Within the reach of pointers it is written, with a
pointer in the place of its longest known suffix and in no more bytes than without one; elsewhere it
is refused, and the draft with its table stays as it is. -/
structure Takes (draft : Draft) (name : Name) : Prop where
  written : draft.InReach → ∃ placed after,
    draft.table.place name draft.buffer.length = .ok (placed, after) ∧
      draft.add (.name name) = ⟨draft.buffer ++ placed.wire, after⟩ ∧
        draft.table.Shortens name placed ∧ placed.wire.length ≤ name.plainSize
  refused : ¬draft.InReach →
    draft.table.place name draft.buffer.length = .error (.placeOutside draft.buffer.length) ∧
      draft.add (.name name) = draft

theorem takes (draft : Draft) (hform : name.isCompressed = false) : draft.Takes name where
  written := by
    intro hreach
    rcases draft.add_name name with ⟨-, placed, after, hplace, hplaces, hadd⟩ | ⟨hnot, -, -⟩
    · have hsize : placed.wire.length ≤ name.plainSize := by
        calc
          placed.wire.length = placed.size := Name.length_wire placed
          _ ≤ name.size := hplaces.size_le hform
          _ = name.plainSize := Name.size_eq_wireSize hform
      exact ⟨placed, after, hplace, hadd, hplaces.shortens hform, hsize⟩
    · exact absurd hreach hnot
  refused := by
    intro hnot
    rcases draft.add_name name with ⟨hreach, -⟩ | ⟨-, hplace, hadd⟩
    · exact absurd hreach hnot
    · exact ⟨hplace, hadd⟩

/-- Along every run of names, each placed where it is then written, the table agrees with the buffer:
each recorded suffix has one offset, which a pointer can hold and from which the buffer spells it
through pointers that lead back; and it keeps that offset whatever follows. -/
theorem names_stay_spelled (pieces : List Piece) (hform : Uncompressed pieces) :
    (blank.addAll pieces).Grounded ∧
      (∀ more, Uncompressed more → ∀ suffix pointer,
        (blank.addAll pieces).table.find? suffix = some pointer →
          (blank.addAll (pieces ++ more)).table.find? suffix = some pointer) ∧
      ∀ name : Name, name.isCompressed = false → (blank.addAll pieces).Takes name := by
  have hgrounded : (blank.addAll pieces).Grounded := grounded_blank.addAll hform
  refine ⟨hgrounded, ?_, fun name hname => (blank.addAll pieces).takes hname⟩
  intro more hmore suffix pointer hknown
  have hsplit : blank.addAll (pieces ++ more) = (blank.addAll pieces).addAll more :=
    List.foldl_append
  rw [hsplit]
  exact hgrounded.find?_addAll hmore hknown

/-- Room for a header, the name `x.y`, two more bytes and the name `z.Y`, which ends like the first. -/
def samplePieces : List Piece :=
  let x : Label := ⟨"x", by decide, by decide, by decide⟩
  let y : Label := ⟨"y", by decide, by decide, by decide⟩
  let z : Label := ⟨"z", by decide, by decide, by decide⟩
  let capital : Label := ⟨"Y", by decide, by decide, by decide⟩
  [.bytes (List.replicate headerSize 0), .name ⟨[x, y], .plain, by decide, trivial⟩, .bytes [7, 7],
    .name ⟨[z, capital], .plain, by decide, trivial⟩]

theorem uncompressed_samplePieces : Uncompressed samplePieces := by
  intro name hmem
  simp only [samplePieces, List.mem_cons, Piece.name.injEq, reduceCtorEq, List.not_mem_nil,
    false_or, or_false] at hmem
  rcases hmem with rfl | rfl <;> rfl

theorem names_stay_spelled_samplePieces :
    Uncompressed samplePieces ∧ (blank.addAll samplePieces).Grounded ∧
      (blank.addAll samplePieces).buffer.drop headerSize =
        [1, 120, 1, 121, 0, 7, 7, 1, 122, 0xC0, 14] :=
  ⟨uncompressed_samplePieces, (names_stay_spelled samplePieces uncompressed_samplePieces).1,
    by decide +kernel⟩

end Draft
end Compressor
end NameServer
