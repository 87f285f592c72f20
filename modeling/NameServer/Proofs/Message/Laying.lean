import NameServer.Proofs.Compression.Chains
import NameServer.Proofs.Message.Reading

/-!
# Proofs.Message.Laying — a message is laid out slot by slot

Laying a message out goes through its parts, but what it does to the layout depends on the slots
alone.

* `Slot.layAll` — laying slots out one behind the other;
* `Lays slots p x` — the step `x` does to the layout what laying `slots` out does, and its result
  goes with the laid slots;
* `Message.lay_slots` — laying a message out is laying its slots out;
* `Message.compress_total` — a message that ends within the reach of pointers can be compressed.
-/

namespace NameServer

open Slot (totalSize)

/-! ## Slots -/

namespace Layout

variable {layout next : Layout} {n placed : Name}

theorem placeName_places (h : placeName n layout = .ok (placed, next)) :
    layout.offset ≤ maxPointer ∧
      Compressor.Places layout.table layout.offset n placed next.table ∧
        next.offset = layout.offset + placed.size := by
  unfold placeName at h
  split at h
  · rename_i out table hout
    cases h
    exact ⟨(Compressor.places_of_place hout).1, (Compressor.places_of_place hout).2, rfl⟩
  · cases h

theorem placeName_total (hlow : headerSize ≤ layout.offset) (hhigh : layout.offset ≤ maxPointer) :
    ∃ placed next, placeName n layout = .ok (placed, next) := by
  have hplace : ∃ placed after, layout.table.place n layout.offset = .ok (placed, after) ∧
      Compressor.Places layout.table layout.offset n placed after :=
    Compressor.place_total hlow hhigh
  rcases hplace with ⟨placed, after, hplace, -⟩
  refine ⟨placed, ⟨layout.offset + placed.size, after⟩, ?_⟩
  unfold placeName
  rw [hplace]

end Layout

namespace Slot

/-- Lays slots out one behind the other. -/
def layAll : List Slot → Layout → Except WireError (List Slot × Layout)
  | [], layout => .ok ([], layout)
  | .gap count :: slots, layout => do
    let (laid, after) ← layAll slots { layout with offset := layout.offset + count }
    return (.gap count :: laid, after)
  | .name n :: slots, layout => do
    let (placed, next) ← Layout.placeName n layout
    let (laid, after) ← layAll slots next
    return (.name placed :: laid, after)

theorem layAll_append (xs ys : List Slot) (layout : Layout) :
    layAll (xs ++ ys) layout = do
      let (front, next) ← layAll xs layout
      let (back, after) ← layAll ys next
      return (front ++ back, after) := by
  induction xs generalizing layout with
  | nil =>
      simp only [List.nil_append, layAll, ok_bind]
      exact (bind_pure _).symm
  | cons slot xs ih =>
      cases slot with
      | gap count => simp only [List.cons_append, layAll, ih, bind_assoc, pure_bind]
      | name n => simp only [List.cons_append, layAll, ih, bind_assoc, pure_bind]

/-- Laid slots are no longer than the slots with their names written out. -/
theorem totalSize_laid {slots laid : List Slot} {layout after : Layout}
    (h : layAll slots layout = .ok (laid, after))
    (hform : ∀ n ∈ names slots, n.isCompressed = false) : totalSize laid ≤ totalSize slots := by
  induction slots generalizing layout laid with
  | nil =>
      cases h
      exact Nat.le_refl _
  | cons slot slots ih =>
      cases slot with
      | gap count =>
          rcases exists_of_bind h with ⟨⟨rest, last⟩, hrest, heq⟩
          cases heq
          have hle := ih hrest hform
          simp only [totalSize_gap]
          omega
      | name n =>
          rcases exists_of_bind h with ⟨⟨placed, next⟩, hplace, h⟩
          rcases exists_of_bind h with ⟨⟨rest, last⟩, hrest, heq⟩
          cases heq
          have hle := ih hrest fun m hmem => hform m (List.mem_cons_of_mem n hmem)
          have hplaces := (Layout.placeName_places hplace).2.1
          have hsize := hplaces.size_le (hform n List.mem_cons_self)
          simp only [totalSize_name]
          omega

/-- Slots that end within the reach of pointers can be laid out. -/
theorem layAll_total {slots : List Slot} {layout : Layout} (hlow : headerSize ≤ layout.offset)
    (hhigh : layout.offset + totalSize slots ≤ maxPointer)
    (hform : ∀ n ∈ names slots, n.isCompressed = false) :
    ∃ laid after, layAll slots layout = .ok (laid, after) := by
  induction slots generalizing layout with
  | nil => exact ⟨[], layout, rfl⟩
  | cons slot slots ih =>
      cases slot with
      | gap count =>
          rw [totalSize_gap] at hhigh
          let next : Layout := { layout with offset := layout.offset + count }
          have hnext : next.offset = layout.offset + count := rfl
          rcases @ih next (by omega) (by omega) hform with ⟨laid, after, hlaid⟩
          refine ⟨.gap count :: laid, after, ?_⟩
          simp only [layAll]
          rw [hlaid]
          rfl
      | name n =>
          rw [totalSize_name] at hhigh
          rcases Layout.placeName_total (n := n) hlow (by omega) with ⟨placed, next, hplace⟩
          rcases Layout.placeName_places hplace with ⟨-, hplaces, hnext⟩
          have hsize := hplaces.size_le (hform n List.mem_cons_self)
          have hmore := fun m hmem => hform m (List.mem_cons_of_mem n hmem)
          rcases @ih next (by omega) (by omega) hmore with ⟨laid, after, hlaid⟩
          refine ⟨.name placed :: laid, after, ?_⟩
          simp only [layAll, hplace, ok_bind, hlaid]
          rfl

end Slot

open Slot (layAll)

/-! ## Steps that lay slots out -/

section Lays

variable {α β : Type} {s t : List Slot} {p : α → List Slot → Prop}
variable {q : β → List Slot → Prop} {x : Laying α}

/-- The step does to the layout what laying `slots` out does, whether it fails or not, and its
result is related by `p` to the slots that were laid. -/
def Lays (slots : List Slot) (p : α → List Slot → Prop) (x : Laying α) : Prop :=
  ∀ layout, match x layout with
    | .ok (a, after) => ∃ laid, layAll slots layout = .ok (laid, after) ∧ p a laid
    | .error e => layAll slots layout = .error e

theorem Lays.pure {a : α} (h : p a []) : Lays [] p (pure a) :=
  fun _ => ⟨[], rfl, h⟩

theorem Lays.bind {f : α → Laying β} (hx : Lays s p x)
    (hf : ∀ a front, p a front → Lays t (fun b back => q b (front ++ back)) (f a)) :
    Lays (s ++ t) q (x >>= f) := by
  intro layout
  have hfirst := hx layout
  change match (x layout >>= fun out => f out.1 out.2) with
    | .ok (b, after) => ∃ laid, layAll (s ++ t) layout = .ok (laid, after) ∧ q b laid
    | .error e => layAll (s ++ t) layout = .error e
  rw [Slot.layAll_append]
  revert hfirst
  cases x layout with
  | error e =>
      intro hfirst
      change layAll s layout = .error e at hfirst
      rw [hfirst]
      rfl
  | ok out =>
      rintro ⟨front, hfront, hpost⟩
      have hsecond := hf out.1 front hpost out.2
      simp only [hfront, ok_bind]
      revert hsecond
      cases f out.1 out.2 with
      | error e =>
          intro hsecond
          change layAll t out.2 = .error e at hsecond
          simp only [hsecond]
          rfl
      | ok last =>
          rintro ⟨back, hback, hlast⟩
          simp only [hback]
          exact ⟨front ++ back, rfl, hlast⟩

theorem Layout.skip_lays (count : Nat) :
    Lays [.gap count] (fun _ laid => laid = [.gap count]) (Layout.skip count) :=
  fun _ => ⟨[.gap count], rfl, rfl⟩

end Lays

/-! ## Names, payloads and records -/

/-- `placed` is `n` as it is laid out: it has the same labels and is no longer than `n` written
out. -/
def Name.LaidAs (placed n : Name) : Prop :=
  placed.labels = n.labels ∧ (n.isCompressed = false → placed.size ≤ n.size)

theorem Layout.placeName_lays (n : Name) :
    Lays [.name n] (fun placed laid => laid = [.name placed] ∧ placed.LaidAs n)
      (Layout.placeName n) := by
  intro layout
  simp only [layAll]
  -- Placing a name is what laying its slot out does, so only the post-condition is left.
  cases hplace : Layout.placeName n layout with
  | error e => rfl
  | ok placed =>
      refine ⟨[.name placed.1], rfl, rfl, ?_⟩
      have hplaces := (Layout.placeName_places hplace).2.1
      exact ⟨hplaces.labels_eq, hplaces.size_le⟩

namespace Rdata

/-- `placed` is the payload as it is laid out. -/
def LaidAs (placed rdata : Rdata Name) : Prop :=
  placed.map Name.labels = rdata.map Name.labels ∧
    ((∀ n ∈ rdata.references, n.isCompressed = false) → placed.size ≤ rdata.size)

theorem lay_slots (rdata : Rdata Name) :
    Lays rdata.slots (fun placed laid => laid = placed.slots ∧ placed.LaidAs rdata) rdata.lay := by
  cases rdata with
  | a ttl address =>
      refine (Layout.skip_lays 4).bind (t := []) ?_
      rintro _ _ rfl
      exact Lays.pure ⟨rfl, rfl, fun _ => Nat.le_refl _⟩
  | ns ttl server =>
      refine (Layout.placeName_lays server).bind (t := []) ?_
      rintro placed _ ⟨rfl, hlabels, hsize⟩
      refine Lays.pure ⟨rfl, congrArg (ns ttl) hlabels, fun hform => ?_⟩
      exact hsize (hform server (by simp [references, targets]))
  | cname ttl target =>
      refine (Layout.placeName_lays target).bind (t := []) ?_
      rintro placed _ ⟨rfl, hlabels, hsize⟩
      refine Lays.pure ⟨rfl, congrArg (cname ttl) hlabels, fun hform => ?_⟩
      exact hsize (hform target (by simp [references, targets]))
  | mx ttl preference exchange =>
      refine (Layout.skip_lays 2).bind (t := [.name exchange]) ?_
      rintro _ _ rfl
      refine (Layout.placeName_lays exchange).bind (t := []) ?_
      rintro placed _ ⟨rfl, hlabels, hsize⟩
      refine Lays.pure ⟨rfl, congrArg (mx ttl preference) hlabels, fun hform => ?_⟩
      have hle := hsize (hform exchange (by simp [references, targets]))
      simp only [size]
      omega
  | soa s =>
      refine (Layout.placeName_lays s.mname).bind (t := [.name s.rname, .gap 20]) ?_
      rintro mname _ ⟨rfl, hm, hmsize⟩
      refine (Layout.placeName_lays s.rname).bind (t := [.gap 20]) ?_
      rintro rname _ ⟨rfl, hr, hrsize⟩
      refine (Layout.skip_lays 20).bind (t := []) ?_
      rintro _ _ rfl
      refine Lays.pure ⟨rfl, by simp only [map, hm, hr], fun hform => ?_⟩
      have hmle := hmsize (hform s.mname (by simp [references]))
      have hrle := hrsize (hform s.rname (by simp [references]))
      simp only [size]
      omega
  | txt ttl text =>
      refine (Layout.skip_lays (txt ttl text).size).bind (t := []) ?_
      rintro _ _ rfl
      exact Lays.pure ⟨rfl, rfl, fun _ => Nat.le_refl _⟩

end Rdata

namespace Record

/-- `placed` is the record as it is laid out. -/
def LaidAs (placed record : Record) : Prop :=
  placed.through Name.labels = record.through Name.labels ∧
    ((∀ n ∈ record.names, n.isCompressed = false) → placed.rdata.size ≤ record.rdata.size)

theorem lay_slots (record : Record) :
    Lays record.slots (fun placed laid => laid = placed.slots ∧ placed.LaidAs record)
      record.lay := by
  refine (Layout.placeName_lays record.name).bind
    (t := .gap fixedSize :: record.rdata.slots) ?_
  rintro name _ ⟨rfl, hname, -⟩
  refine (Layout.skip_lays fixedSize).bind (t := record.rdata.slots) ?_
  rintro _ _ rfl
  have hbody := record.rdata.lay_slots.bind (t := [])
    (q := fun (placed : Record) laid =>
      .name name :: .gap fixedSize :: laid = placed.slots ∧ placed.LaidAs record)
    (f := fun rdata => pure { record with name, rdata })
  rw [List.append_nil] at hbody
  refine hbody ?_
  rintro rdata _ ⟨rfl, hrdata, hsize⟩
  refine Lays.pure ⟨by simp [slots], by simp only [through, hname, hrdata], fun hform => ?_⟩
  exact hsize fun n hmem => hform n (List.mem_cons_of_mem _ hmem)

theorem mapM_lay_slots (records : List Record) :
    Lays (records.flatMap slots)
      (fun placed laid => laid = placed.flatMap slots ∧ List.Forall₂ LaidAs placed records)
      (records.mapM lay) := by
  induction records with
  | nil => exact Lays.pure ⟨rfl, List.Forall₂.nil⟩
  | cons record records ih =>
      rw [List.mapM_cons, List.flatMap_cons]
      refine record.lay_slots.bind ?_
      rintro first _ ⟨rfl, hfirst⟩
      rw [← List.append_nil (records.flatMap slots)]
      refine ih.bind ?_
      rintro rest _ ⟨rfl, hrest⟩
      exact Lays.pure ⟨by simp, List.Forall₂.cons hfirst hrest⟩

end Record

/-! ## Messages -/

namespace Question

theorem lay_slots (question : Question) :
    Lays question.slots
      (fun placed laid => laid = placed.slots ∧ placed.name.labels = question.name.labels ∧
        placed.type = question.type) question.lay := by
  refine (Layout.placeName_lays question.name).bind (t := [.gap 4]) ?_
  rintro name _ ⟨rfl, hname, -⟩
  refine (Layout.skip_lays 4).bind (t := []) ?_
  rintro _ _ rfl
  exact Lays.pure ⟨rfl, hname, rfl⟩

end Question

namespace Message

/-- `placed` is the message as it is laid out. -/
structure LaidAs (placed message : Message) : Prop where
  header : placed.header = message.header
  question : placed.question.name.labels = message.question.name.labels
  type : placed.question.type = message.question.type
  answer : List.Forall₂ Record.LaidAs placed.answer message.answer
  authority : List.Forall₂ Record.LaidAs placed.authority message.authority
  additional : List.Forall₂ Record.LaidAs placed.additional message.additional

/-- Laying a message out is laying its slots out. -/
theorem lay_slots (message : Message) :
    Lays message.slots (fun placed laid => laid = placed.slots ∧ placed.LaidAs message)
      message.lay := by
  -- The steps are bound to the right, and the slots have to be split in the same way.
  have hslots : message.slots = message.question.slots ++ (message.answer.flatMap Record.slots ++
      (message.authority.flatMap Record.slots ++
        (message.additional.flatMap Record.slots ++ []))) := by
    simp [slots, records]
  rw [hslots]
  refine message.question.lay_slots.bind ?_
  rintro question _ ⟨rfl, hname, htype⟩
  refine (Record.mapM_lay_slots message.answer).bind ?_
  rintro answer _ ⟨rfl, hanswer⟩
  refine (Record.mapM_lay_slots message.authority).bind ?_
  rintro authority _ ⟨rfl, hauthority⟩
  refine (Record.mapM_lay_slots message.additional).bind ?_
  rintro additional _ ⟨rfl, hadditional⟩
  exact Lays.pure ⟨by simp [slots, records], rfl, hname, htype, hanswer, hauthority, hadditional⟩

variable {message placed : Message}

theorem laidAs_of_compress (h : message.compress = .ok placed) :
    (∃ after, layAll message.slots Layout.start = .ok (placed.slots, after)) ∧
      placed.LaidAs message := by
  have hlay := message.lay_slots Layout.start
  change (message.lay Layout.start).map Prod.fst = .ok placed at h
  revert hlay h
  cases message.lay Layout.start with
  | error e =>
      intro _ h
      cases h
  | ok out =>
      rintro ⟨_, hlaid, rfl, hlaidAs⟩ h
      cases h
      exact ⟨⟨out.2, hlaid⟩, hlaidAs⟩

theorem compress_of_layAll {laid : List Slot} {after : Layout}
    (h : layAll message.slots Layout.start = .ok (laid, after)) :
    ∃ placed, message.compress = .ok placed := by
  have hlay := message.lay_slots Layout.start
  change ∃ placed, (message.lay Layout.start).map Prod.fst = .ok placed
  revert hlay
  cases message.lay Layout.start with
  | error e =>
      intro hlay
      change layAll message.slots Layout.start = .error e at hlay
      rw [h] at hlay
      cases hlay
  | ok out => exact fun _ => ⟨out.1, rfl⟩

/-- Nothing is known in front of the question, so its name is written out. -/
theorem question_compress (h : message.compress = .ok placed) :
    placed.question = message.question := by
  rcases laidAs_of_compress h with ⟨⟨after, hlaid⟩, hlaidAs⟩
  -- The first slot is the name of the question, which is placed with an empty table.
  rcases exists_of_bind hlaid with ⟨⟨name, next⟩, hplace, hlaid⟩
  rcases exists_of_bind hlaid with ⟨⟨rest, last⟩, -, heq⟩
  have hname : name = placed.question.name := by
    simp only [slots, Question.slots, List.cons_append] at heq
    cases heq
    rfl
  have hwhole : name = message.question.name :=
    (Layout.placeName_places hplace).2.1.of_empty.1
  have hsame : placed.question.name = message.question.name := hname ▸ hwhole
  rcases placed with ⟨header, ⟨n, t⟩, answer, authority, additional⟩
  have htype := hlaidAs.type
  simp only at hsame htype
  rw [hsame, htype]

/-- Compressing never lengthens a message. -/
theorem size_compress_le (h : message.compress = .ok placed)
    (hform : ∀ n ∈ message.names, n.isCompressed = false) : placed.size ≤ message.size := by
  rcases (laidAs_of_compress h).1 with ⟨after, hlaid⟩
  rw [← names_slots] at hform
  have hle := Slot.totalSize_laid hlaid hform
  rw [size_eq_totalSize, size_eq_totalSize]
  omega

/-- A message that ends within the reach of pointers can be compressed. -/
theorem compress_total (hsize : message.size ≤ maxPointer)
    (hform : ∀ n ∈ message.names, n.isCompressed = false) :
    ∃ placed, message.compress = .ok placed := by
  rw [size_eq_totalSize] at hsize
  rw [← names_slots] at hform
  have hlow : headerSize ≤ Layout.start.offset := Nat.le_refl _
  rcases Slot.layAll_total hlow hsize hform with ⟨laid, after, hlaid⟩
  exact compress_of_layAll hlaid

end Message

end NameServer
