import NameServer.Proofs.Message.Laying
import NameServer.Proofs.Name.Twin

/-!
# Proofs.Message.Twin — messages about one question in two spellings

* `Record.Twin key r r'` — records with the same payload and TTL, whose owners are the same or
  twins;
* `Message.Twin m m'` — messages whose questions are twins and whose records are, by the name of the
  question;
* `Record.lay_twin` — behind the question twin records are laid out to the same bytes, since an
  owner that is spelled differently has become a pointer;
* `Message.compress_twin` — twin messages are compressed to bytes that differ in the header and the
  question only.
-/

namespace NameServer

/-! ## Records -/

/-- Two owners that are the same or twins. -/
def Name.Alike (key : List (List UInt8)) (m m' : Name) : Prop :=
  m = m' ∨ Name.Twin key m m'

theorem Name.Alike.folded {key : List (List UInt8)} {m m' : Name} (h : Name.Alike key m m') :
    m.folded = m'.folded := by
  rcases h with rfl | htwin
  · rfl
  · exact htwin.folded

theorem Name.Alike.size {key : List (List UInt8)} {m m' : Name} (h : Name.Alike key m m') :
    m.size = m'.size := by
  rcases h with rfl | htwin
  · rfl
  · exact htwin.size

namespace Record

/-- Records with the same payload and TTL, whose owners are the same or twins. -/
structure Twin (key : List (List UInt8)) (r r' : Record) : Prop where
  name : Name.Alike key r.name r'.name
  rdata : r.rdata = r'.rdata
  ttl : r.ttl = r'.ttl

variable {key : List (List UInt8)} {r r' s s' : Record}
variable {records records' found found' : List Record}

theorem Twin.refl (r : Record) : Twin key r r :=
  ⟨Or.inl rfl, rfl, rfl⟩

theorem Twin.sameAs_iff (h : Twin key r r') (h' : Twin key s s') :
    r.SameAs s ↔ r'.SameAs s' := by
  unfold SameAs Name.SameAs
  rw [h.name.folded, h'.name.folded, h.rdata, h'.rdata]

/-- Records that are twins one by one. -/
abbrev Twins (key : List (List UInt8)) : List Record → List Record → Prop :=
  List.Forall₂ (Twin key)

theorem Twins.refl (records : List Record) : Twins key records records :=
  List.forall₂_same.2 fun record _ => Twin.refl record

theorem Twins.isEmpty (h : Twins key records records') : records.isEmpty = records'.isEmpty := by
  cases h <;> rfl

theorem Twins.any_sameAs (h : Twins key records records') (hr : Twin key r r') :
    (records.any fun other => other.SameAs r) = records'.any fun other => other.SameAs r' := by
  induction h with
  | nil => rfl
  | @cons first first' rest rest' hfirst _ ih =>
      rw [List.any_cons, List.any_cons, ih, decide_eq_decide.2 (hfirst.sameAs_iff hr)]

end Record

open Record (Twins)

/-- Two messages whose headers differ in the identifier and the wish for recursion at most, whose
questions are in two spellings, and whose records are twins. -/
structure Message.Twin (m m' : Message) : Prop where
  header : m'.header = { m.header with
    id := m'.header.id, recursionDesired := m'.header.recursionDesired }
  name : Name.Twin m.question.name.folded m.question.name m'.question.name
  type : m.question.type = m'.question.type
  answer : Twins m.question.name.folded m.answer m'.answer
  authority : Twins m.question.name.folded m.authority m'.authority
  additional : Twins m.question.name.folded m.additional m'.additional

/-! ## Layouts that know a name -/

/-- Every suffix of `key` is known. -/
def Compressor.KnowsAll (table : Compressor) (key : List (List UInt8)) : Prop :=
  ∀ part, part ≠ [] → part <:+ key → table.Knows part

section Layouts

open Slot (layAll)

variable {key : List (List UInt8)} {layout after : Layout} {m m' : Name}

/-- What is known stays known while slots are laid out. -/
theorem Slot.knowsAll_layAll {slots laid : List Slot}
    (h : layAll slots layout = .ok (laid, after)) (hknows : layout.table.KnowsAll key) :
    after.table.KnowsAll key := by
  induction slots generalizing layout laid with
  | nil =>
      cases h
      exact hknows
  | cons slot slots ih =>
      cases slot with
      | gap count =>
          rcases exists_of_bind h with ⟨⟨rest, last⟩, hrest, heq⟩
          cases heq
          have hbehind := ih hrest hknows
          exact hbehind
      | name n =>
          rcases exists_of_bind h with ⟨⟨placed, next⟩, hplace, h⟩
          rcases exists_of_bind h with ⟨⟨rest, last⟩, hrest, heq⟩
          cases heq
          -- Placing a name only adds to the table, whether it is written out or cut.
          refine ih hrest fun part hne hpart => ?_
          have hplaces := (Layout.placeName_places hplace).2.1
          revert hplaces
          generalize next.table = table
          rintro (_ | _) <;> exact (hknows part hne hpart).recordAll

theorem Lays.knowsAll {α : Type} {slots : List Slot} {p : α → List Slot → Prop} {x : Laying α}
    (h : Lays slots p x) (hknows : layout.table.KnowsAll key) {a : α}
    (hx : x layout = .ok (a, after)) : after.table.KnowsAll key := by
  have hlays := h layout
  rw [hx] at hlays
  rcases hlays with ⟨laid, hlaid, -⟩
  exact Slot.knowsAll_layAll hlaid hknows

/-- Behind a name that has all suffixes of `key`, twins take the same bytes: either they are the
root, or each is a pointer to the same place. -/
theorem Layout.placeName_twin (h : Name.Alike key m m') (hknows : layout.table.KnowsAll key) :
    Agree (fun out out' => out.1.wire = out'.1.wire ∧ out.2 = out'.2)
      (Layout.placeName m layout) (Layout.placeName m' layout) := by
  rcases h with rfl | htwin
  · exact Agree.refl (fun _ => ⟨rfl, rfl⟩) _
  · cases hlabels : m.labels with
    | nil =>
        have hlabels' : m'.labels = [] := by
          have hlength := htwin.length_labels
          rw [hlabels] at hlength
          exact List.length_eq_zero_iff.1 hlength.symm
        have hsame : m = m' := Name.ext (hlabels.trans hlabels'.symm) htwin.form
        rw [hsame]
        exact Agree.refl (fun _ => ⟨rfl, rfl⟩) _
    | cons label labels =>
        -- Both spellings are looked up by the same key, which is known, so neither is written out.
        have hne : m.labels ≠ [] := hlabels ▸ List.cons_ne_nil _ _
        have hfolded : m.folded ≠ [] := by simpa [Name.folded] using hne
        have hknown : layout.table.Knows (Suffix.folded ⟨m.labels⟩) :=
          hknows m.folded hfolded htwin.suffix
        rcases Compressor.exists_of_knows hknown with ⟨pointer, hfind⟩
        have hfind' : layout.table.find? ⟨m'.labels⟩ = some pointer := by
          rw [← hfind]
          exact congrArg (List.lookup · layout.table.entries) htwin.folded.symm
        have hne' : m'.labels ≠ [] := by
          rintro hnil
          have hlength := htwin.length_labels
          rw [hnil] at hlength
          exact hne (List.length_eq_zero_iff.1 hlength)
        unfold Layout.placeName Compressor.place
        rw [Compressor.lay_of_known hne hfind, Compressor.lay_of_known hne' hfind']
        by_cases hreach : headerSize ≤ layout.offset ∧ layout.offset ≤ maxPointer
        · rw [if_pos hreach, if_pos hreach]
          have hwire : ∀ n : Name, (n.compressed pointer n.labels.length).wire =
              Name.pointerWire pointer := fun n =>
            Compressor.wire_shared (List.nil_append n.labels).symm
          have hsize : ∀ n : Name, (n.compressed pointer n.labels.length).size = 2 := fun n =>
            Compressor.size_shared (List.nil_append n.labels).symm
          refine ⟨?_, ?_⟩
          · simp only [hwire]
          · simp only [hsize]
        · rw [if_neg hreach, if_neg hreach]
          rfl

end Layouts

/-! ## Records behind the question -/

namespace Record

variable {key : List (List UInt8)} {r r' : Record} {records records' : List Record}
variable {layout : Layout}

/-- Behind the question twin records are laid out to the same bytes. -/
theorem lay_twin (h : Twin key r r') (hknows : layout.table.KnowsAll key) :
    Agree (fun out out' => (out.1.wire = out'.1.wire ∧ out.2 = out'.2) ∧
        out.2.table.KnowsAll key) (r.lay layout) (r'.lay layout) := by
  suffices hsame : Agree (fun out out' => out.1.wire = out'.1.wire ∧ out.2 = out'.2)
      (r.lay layout) (r'.lay layout) from
    hsame.values.imp fun out out' hpost => ⟨hpost.1, r.lay_slots.knowsAll hknows hpost.2.1⟩
  refine (Layout.placeName_twin h.name hknows).bind ?_
  rintro ⟨name, next⟩ ⟨name', next'⟩ ⟨hwire, hnext⟩
  change name.wire = name'.wire at hwire
  change next = next' at hnext
  subst hnext
  -- Behind the owner the layouts are the same and so are the payloads.
  let fixed : Layout := { next with offset := next.offset + fixedSize }
  change Agree _
    (r.rdata.lay fixed >>= fun out => .ok (({ r with name, rdata := out.1 } : Record), out.2))
    (r'.rdata.lay fixed >>= fun out =>
      .ok (({ r' with name := name', rdata := out.1 } : Record), out.2))
  rw [← h.rdata]
  refine Agree.bind_same _ fun out => ⟨?_, rfl⟩
  simp only [wire, type, hwire, h.ttl]

theorem mapM_lay_twin (h : Twins key records records') (hknows : layout.table.KnowsAll key) :
    Agree (fun out out' => (out.1.map wire = out'.1.map wire ∧ out.2 = out'.2) ∧
        out.2.table.KnowsAll key) (records.mapM lay layout) (records'.mapM lay layout) := by
  induction h generalizing layout with
  | nil => exact ⟨⟨rfl, rfl⟩, hknows⟩
  | @cons first first' rest rest' hfirst _ ih =>
      rw [List.mapM_cons, List.mapM_cons]
      refine (lay_twin hfirst hknows).bind ?_
      rintro ⟨laid, next⟩ ⟨laid', next'⟩ ⟨⟨hwire, hnext⟩, hnextKnows⟩
      change next = next' at hnext
      subst hnext
      refine (ih hnextKnows).bind ?_
      rintro ⟨others, last⟩ ⟨others', last'⟩ ⟨⟨hothers, hlast⟩, hlastKnows⟩
      refine ⟨⟨?_, hlast⟩, hlastKnows⟩
      change wire laid = wire laid' at hwire
      change others.map wire = others'.map wire at hothers
      simp only [List.map_cons, hwire, hothers]

end Record

/-! ## Messages -/

theorem Question.lay_start (question : Question) :
    question.lay Layout.start = .ok (question, ⟨headerSize + question.name.size + 4,
      Compressor.empty.recordAll headerSize question.name.labels []⟩) := by
  have hlow : headerSize ≤ Layout.start.offset := Nat.le_refl _
  have hhigh : Layout.start.offset ≤ maxPointer := by decide
  rcases Layout.placeName_total hlow hhigh with ⟨placed, next, hplace⟩
  rcases Layout.placeName_places hplace with ⟨-, hplaces, hnext⟩
  rcases hplaces.of_empty with ⟨rfl, htable⟩
  have hlayout : next = ⟨headerSize + question.name.size,
      Compressor.empty.recordAll headerSize question.name.labels []⟩ := by
    rcases next with ⟨offset, table⟩
    change offset = _ at hnext
    change table = _ at htable
    rw [hnext, htable]
    rfl
  rw [hlayout] at hplace
  change (Layout.placeName question.name Layout.start >>= fun out =>
    .ok (({ question with name := out.1 } : Question),
      ({ out.2 with offset := out.2.offset + 4 } : Layout))) = _
  rw [hplace]
  rfl

/-- Behind the question all suffixes of its name are known. -/
theorem Name.knowsAll_start (name : Name) :
    (Compressor.empty.recordAll headerSize name.labels []).KnowsAll name.folded := by
  intro part hne hpart
  have hreach : headerSize + Name.literalSize name.labels ≤ maxPointer := by
    have hsize := name.size_le
    unfold Name.wireSize maxNameSize at hsize
    unfold headerSize maxPointer
    omega
  have hkey : part <:+ (name.labels ++ []).map Label.folded := by
    rw [List.append_nil]
    exact hpart
  rcases Compressor.knows_recordAll hreach hkey with hnil | hknows
  · exact absurd (List.suffix_nil.1 hnil) hne
  · exact hknows

namespace Message

variable {m m' : Message}

/-- Twin messages are compressed to the same bytes behind the question. -/
theorem compress_twin (h : m.Twin m') :
    Agree (fun c c' => c.answer.map Record.wire = c'.answer.map Record.wire ∧
        c.authority.map Record.wire = c'.authority.map Record.wire ∧
          c.additional.map Record.wire = c'.additional.map Record.wire) m.compress m'.compress := by
  have hquestion := Question.lay_start m.question
  have hquestion' := Question.lay_start m'.question
  -- The layouts behind the two spellings of the question are the same.
  rw [← h.name.size, ← Compressor.recordAll_congr h.name.folded] at hquestion'
  have hknows := Name.knowsAll_start m.question.name
  refine Agree.map (R := fun out out' => out.1.answer.map Record.wire =
      out'.1.answer.map Record.wire ∧
        out.1.authority.map Record.wire = out'.1.authority.map Record.wire ∧
          out.1.additional.map Record.wire = out'.1.additional.map Record.wire) ?_
    fun _ _ hpost => hpost
  change Agree _ (m.question.lay Layout.start >>= _) (m'.question.lay Layout.start >>= _)
  rw [hquestion, hquestion']
  refine (Record.mapM_lay_twin h.answer hknows).bind ?_
  rintro ⟨answer, next⟩ ⟨answer', next'⟩ ⟨⟨hanswer, hnext⟩, hknows⟩
  change next = next' at hnext
  subst hnext
  refine (Record.mapM_lay_twin h.authority hknows).bind ?_
  rintro ⟨authority, next⟩ ⟨authority', next'⟩ ⟨⟨hauthority, hnext⟩, hknows⟩
  change next = next' at hnext
  subst hnext
  refine (Record.mapM_lay_twin h.additional hknows).bind ?_
  rintro ⟨additional, next⟩ ⟨additional', next'⟩ ⟨⟨hadditional, hnext⟩, hknows⟩
  exact ⟨hanswer, hauthority, hadditional⟩

end Message

end NameServer
