import NameServer.Message.Layout
import NameServer.Proofs.Compression.Table
import NameServer.Proofs.Message.RoundTrip

/-!
# Proofs.Message.Recompression — compressing twice is compressing once

A name that was placed has a pointer of its own. When it is placed again nothing is looked up but
its labels, so the table grows as it did the first time, and the pointer that is put in is the one
that is already there.

* `Compressor.place_placed` — placing a placed name again changes neither it nor the table;
* `Steady lay` — laying out what `lay` has laid out yields it again and leaves the same layout;
* `Message.lay_steady` — laying a message out is steady, since it is so part by part;
* `Message.compress_idempotent` — a compressed message is compressed to itself.
-/

namespace NameServer

/-! ## Names -/

/-- Placing looks at the labels of a name alone, so what was placed is placed as it is. -/
theorem Compressor.place_placed {table after : Compressor} {name placed : Name} {offset : Nat}
    (h : table.place name offset = .ok (placed, after)) :
    table.place placed offset = .ok (placed, after) := by
  have hreach : headerSize ≤ offset ∧ offset ≤ maxPointer := by
    by_contra hnot
    rw [place_error hnot] at h
    cases h
  unfold place at h ⊢
  rw [if_pos hreach] at h ⊢
  -- Whether a suffix was found is the same for both names, as they have the same labels.
  cases hlay : table.lay offset name.labels with
  | mk table' found =>
      simp only [hlay] at h
      cases found with
      | none =>
          cases h
          simp only [hlay]
      | some found =>
          cases h
          simp only [Name.compressed, hlay]

/-! ## Steps in sequence -/

namespace Laying

variable {α β : Type} {layout after : Layout}

theorem bind_eq_ok {x : Laying α} {f : α → Laying β} {b : β} :
    (x >>= f) layout = .ok (b, after) ↔
      ∃ a next, x layout = .ok (a, next) ∧ f a next = .ok (b, after) := by
  constructor
  · intro h
    rcases exists_of_bind (x := x layout) h with ⟨⟨a, next⟩, hx, hf⟩
    exact ⟨a, next, hx, hf⟩
  · rintro ⟨a, next, hx, hf⟩
    change (x layout >>= fun out => f out.1 out.2) = .ok (b, after)
    rw [hx]
    exact hf

theorem pure_eq_ok {a b : α} :
    (pure a : Laying α) layout = .ok (b, after) ↔ b = a ∧ after = layout := by
  constructor
  · intro h
    cases h
    exact ⟨rfl, rfl⟩
  · rintro ⟨rfl, rfl⟩
    rfl

end Laying

open Laying (bind_eq_ok pure_eq_ok)

/-- What was laid out is laid out as it is when it is laid out again at the same place. -/
def Steady {α : Type} (lay : α → Laying α) : Prop :=
  ∀ ⦃a layout b after⦄, lay a layout = .ok (b, after) → lay b layout = .ok (b, after)

theorem Layout.placeName_steady : Steady placeName := by
  intro name layout placed after h
  unfold placeName at h ⊢
  split at h
  · rename_i out table hplace
    cases h
    rw [Compressor.place_placed hplace]
  · cases h

theorem Steady.mapM {α : Type} {lay : α → Laying α} (h : Steady lay) :
    Steady fun parts : List α => parts.mapM lay := by
  intro parts
  induction parts with
  | nil =>
      intro layout laid after hlaid
      rcases pure_eq_ok.1 hlaid with ⟨rfl, rfl⟩
      rfl
  | cons part parts ih =>
      intro layout laid after hlaid
      simp only [List.mapM_cons, bind_eq_ok, pure_eq_ok] at hlaid
      rcases hlaid with ⟨first, next, hfirst, rest, _, hrest, rfl, rfl⟩
      simp only [List.mapM_cons, bind_eq_ok, pure_eq_ok]
      -- The first part leaves the same layout both times, so the rest begins from the same one.
      exact ⟨_, _, h hfirst, _, _, ih hrest, rfl, rfl⟩

/-! ## The parts of a message -/

/-- The space left for the fields of a payload does not depend on its names. -/
theorem Rdata.lay_steady : Steady Rdata.lay := by
  intro rdata layout placed after h
  cases rdata with
  | a ttl address =>
      have hsame := h
      simp only [lay, bind_eq_ok, pure_eq_ok] at hsame
      rcases hsame with ⟨_, _, -, rfl, -⟩
      exact h
  | ns ttl server =>
      simp only [lay, bind_eq_ok, pure_eq_ok] at h
      rcases h with ⟨name, next, hname, rfl, rfl⟩
      simp only [lay, bind_eq_ok, pure_eq_ok]
      exact ⟨_, _, Layout.placeName_steady hname, rfl, rfl⟩
  | cname ttl target =>
      simp only [lay, bind_eq_ok, pure_eq_ok] at h
      rcases h with ⟨name, next, hname, rfl, rfl⟩
      simp only [lay, bind_eq_ok, pure_eq_ok]
      exact ⟨_, _, Layout.placeName_steady hname, rfl, rfl⟩
  | mx ttl preference exchange =>
      simp only [lay, bind_eq_ok, pure_eq_ok] at h
      rcases h with ⟨_, next, hskip, name, last, hname, rfl, rfl⟩
      simp only [lay, bind_eq_ok, pure_eq_ok]
      exact ⟨_, _, hskip, _, _, Layout.placeName_steady hname, rfl, rfl⟩
  | soa s =>
      simp only [lay, bind_eq_ok, pure_eq_ok] at h
      rcases h with ⟨mname, _, hmname, rname, _, hrname, _, _, hskip, rfl, rfl⟩
      simp only [lay, bind_eq_ok, pure_eq_ok]
      exact ⟨_, _, Layout.placeName_steady hmname, _, _, Layout.placeName_steady hrname,
        _, _, hskip, rfl, rfl⟩
  | txt ttl text =>
      have hsame := h
      simp only [lay, bind_eq_ok, pure_eq_ok] at hsame
      rcases hsame with ⟨_, _, -, rfl, -⟩
      exact h

theorem Question.lay_steady : Steady Question.lay := by
  intro question layout placed after h
  simp only [lay, bind_eq_ok, pure_eq_ok] at h
  rcases h with ⟨name, _, hname, _, _, hskip, rfl, rfl⟩
  simp only [lay, bind_eq_ok, pure_eq_ok]
  exact ⟨_, _, Layout.placeName_steady hname, _, _, hskip, rfl, rfl⟩

theorem Record.lay_steady : Steady Record.lay := by
  intro record layout placed after h
  simp only [lay, bind_eq_ok, pure_eq_ok] at h
  rcases h with ⟨name, _, hname, _, _, hskip, rdata, _, hrdata, rfl, rfl⟩
  simp only [lay, bind_eq_ok, pure_eq_ok]
  exact ⟨_, _, Layout.placeName_steady hname, _, _, hskip, _, _, Rdata.lay_steady hrdata,
    rfl, rfl⟩

/-! ## Messages -/

namespace Message

theorem lay_steady : Steady Message.lay := by
  intro message layout placed after h
  simp only [lay, bind_eq_ok, pure_eq_ok] at h
  rcases h with ⟨question, _, hquestion, answer, _, hanswer, authority, _, hauthority,
    additional, _, hadditional, rfl, rfl⟩
  simp only [lay, bind_eq_ok, pure_eq_ok]
  exact ⟨_, _, Question.lay_steady hquestion, _, _, Record.lay_steady.mapM hanswer,
    _, _, Record.lay_steady.mapM hauthority, _, _, Record.lay_steady.mapM hadditional, rfl, rfl⟩

variable {message placed : Message}

theorem compress_eq_ok :
    message.compress = .ok placed ↔ ∃ after, message.lay Layout.start = .ok (placed, after) := by
  change (message.lay Layout.start).map Prod.fst = .ok placed ↔ _
  cases message.lay Layout.start with
  | error e => simp [Except.map]
  | ok out => simp [Except.map, Prod.ext_iff]

/-- A compressed message is compressed to itself: the same names with the same pointers, so the same
bytes. -/
theorem compress_idempotent (h : message.compress = .ok placed) :
    placed.compress = .ok placed := by
  rcases compress_eq_ok.1 h with ⟨after, hlaid⟩
  exact compress_eq_ok.2 ⟨after, lay_steady hlaid⟩

/-- The names behind the question of the sample have become pointers, and they stay as they are. -/
theorem compress_idempotent_sampleReply :
    ∃ placed, sampleReply.compress = .ok placed ∧
      placed.names.map Name.isCompressed = [false, true, true, true, true, true, true] ∧
        placed.compress = .ok placed := by
  have hnames : (sampleReply.compress.toOption.map fun placed =>
      placed.names.map Name.isCompressed) =
        some [false, true, true, true, true, true, true] := by decide
  cases h : sampleReply.compress with
  | error e =>
      rw [h] at hnames
      cases hnames
  | ok placed =>
      rw [h] at hnames
      exact ⟨placed, rfl, Option.some.inj hnames, compress_idempotent h⟩

end Message

end NameServer
