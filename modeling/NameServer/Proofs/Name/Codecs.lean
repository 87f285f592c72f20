import Mathlib.Algebra.Order.Ring.Nat
import NameServer.Proofs.Name.Spelling
import NameServer.Proofs.Name.Text

/-!
# Proofs.Name.Codecs — names as text and as bytes

A name can be shown as text and written as bytes, and both can be read. The text reader, the reader
of packets and the type of names each check the limits in their own way; they admit the same names.

* `Name.Valid` — lists of texts that can be the labels of a name, and `Name.valid_iff`;
* `Name.readWithin` — the reader when only some pointers are left to it; with none left it refuses
  every pointer;
* `Name.readWithin_zero_iff` — it then accepts nothing but the bytes of the name that it yields;
* `Name.codecs` — text and bytes give back the name, whatever stands around the bytes.
-/

namespace NameServer

/-! ## Limits -/

namespace Label

/-- What can be the text of a label. -/
structure Valid (text : String) : Prop where
  size_pos : 0 < text.utf8ByteSize
  size_le : text.utf8ByteSize ≤ 63
  noDot : '.' ∉ text.toList

theorem valid_iff {text : String} : Valid text ↔ ∃ label : Label, label.text = text :=
  ⟨fun h => ⟨⟨text, h.size_pos, h.size_le, h.noDot⟩, rfl⟩,
    fun ⟨label, h⟩ => h ▸ ⟨label.size_pos, label.size_le, label.noDot⟩⟩

end Label

namespace Name

/-- What can be the texts of the labels of a name: each is a label, there are not too many, and they
are not too long together, with a length byte for each and one byte for the end. -/
structure Valid (texts : List String) : Prop where
  label : ∀ text ∈ texts, Label.Valid text
  length_le : texts.length ≤ 127
  size_le : (texts.map fun text => text.utf8ByteSize + 1).sum + 1 ≤ 255

variable {packet : Packet} {start pos next : Nat} {name : Name} {labels : List Label}

theorem literalSize_eq_sum (labels : List Label) :
    literalSize labels = ((labels.map Label.text).map fun text => text.utf8ByteSize + 1).sum := by
  induction labels with
  | nil => rfl
  | cons label labels ih => simp [literalSize, Label.size, ih]

/-- The names are the lists of labels within the limits. -/
theorem valid_iff {texts : List String} :
    Valid texts ↔ ∃ name : Name, name.labels.map Label.text = texts := by
  constructor
  · intro h
    -- Each text is a label, so the texts are those of a list of labels.
    have hlabels : ∃ labels : List Label, labels.map Label.text = texts := by
      have hall := h.label
      clear h
      induction texts with
      | nil => exact ⟨[], rfl⟩
      | cons text texts ih =>
          rcases List.forall_mem_cons.1 hall with ⟨hfirst, hrest⟩
          rcases Label.valid_iff.1 hfirst with ⟨label, rfl⟩
          rcases ih hrest with ⟨labels, rfl⟩
          exact ⟨label :: labels, rfl⟩
    rcases hlabels with ⟨labels, rfl⟩
    have hsize : wireSize labels ≤ maxNameSize := by
      simpa [wireSize, literalSize_eq_sum, maxNameSize] using h.size_le
    exact ⟨⟨labels, .plain, hsize, trivial⟩, rfl⟩
  · rintro ⟨name, rfl⟩
    have hsize := name.size_le
    refine ⟨?_, ?_, ?_⟩
    · simpa using fun label _ => Label.valid_iff.2 ⟨label, rfl⟩
    · simpa [maxLabels] using name.length_labels_le
    · simpa [wireSize, literalSize_eq_sum, maxNameSize] using hsize

/-! ## Reading without pointers -/

/-- The name at `start` and the offset behind it, read with at most `hops` pointers: the reader is
told that it has followed all others already. -/
def readWithin (hops : Nat) (packet : Packet) (start : Nat) : Except WireError (Name × Nat) :=
  readFrom packet start start (maxHops - hops) ⟨[], wireSize_nil_le⟩ none

theorem readWithin_maxHops (packet : Packet) (start : Nat) :
    readWithin maxHops packet start = Name.read packet start :=
  rfl

/-- A name is read where it is spelled through no more pointers than are left. -/
theorem readWithin_eq_ok_iff {hops : Nat} (h : hops ≤ maxHops) :
    readWithin hops packet pos = .ok (name, next) ↔
      name.form = .plain ∧ ∃ n, n ≤ hops ∧ Spelled packet pos name.labels n next := by
  have hleft : maxHops - hops ≤ maxHops := Nat.sub_le _ _
  constructor
  · intro hread
    rcases spelled_of_readFrom hleft hread with ⟨labels, n, last, hname, hspelled, hhops, rfl⟩
    rw [List.nil_append] at hname
    exact ⟨readFrom_form hread, n, by omega, hname ▸ hspelled⟩
  · rintro ⟨hform, n, hn, hspelled⟩
    have hread : readWithin hops packet pos =
        if maxHops - hops + n ≤ maxHops then
          .ok (⟨[] ++ name.labels, .plain, name.size_le, trivial⟩, next)
        else .error .manyPointers :=
      readFrom_of_spelled hspelled (maxHops - hops) ⟨[], wireSize_nil_le⟩ none name.size_le hleft
    rw [hread, if_pos (by omega)]
    exact congrArg (fun read => Except.ok (read, next)) (Name.ext rfl hform.symm)

/-- What is read with few pointers is read alike with more. -/
theorem readWithin_mono {hops more : Nat} (hle : hops ≤ more) (hmore : more ≤ maxHops)
    (h : readWithin hops packet pos = .ok (name, next)) :
    readWithin more packet pos = .ok (name, next) := by
  rcases (readWithin_eq_ok_iff (hle.trans hmore)).1 h with ⟨hform, n, hn, hspelled⟩
  exact (readWithin_eq_ok_iff hmore).2 ⟨hform, n, hn.trans hle, hspelled⟩

/-- What is spelled without a pointer stands there label by label. -/
theorem Spelled.holdsAt {hops : Nat} (h : Spelled packet pos labels hops next) (hzero : hops = 0) :
    packet.HoldsAt pos (labels.flatMap labelWire ++ [0]) ∧ next = pos + wireSize labels := by
  induction h with
  | stop hstop =>
      refine ⟨?_, rfl⟩
      exact Packet.holdsAt_cons.2 ⟨hstop, List.nil_prefix⟩
  | @label pos hops next label labels hlabel _ ih =>
      rcases ih hzero with ⟨hrest, hnext⟩
      have hlength : (labelWire label).length = 1 + label.size := by
        simp [labelWire, Label.length_bytes, Nat.add_comm]
      constructor
      · rw [List.flatMap_cons, List.append_assoc]
        refine Packet.holdsAt_append.2 ⟨hlabel, ?_⟩
        rwa [hlength, ← Nat.add_assoc]
      · simp only [wireSize, literalSize] at hnext ⊢
        omega
  | jump => omega

/-- Without a pointer to follow, the reader accepts the bytes of the name that it yields, and
nothing else. -/
theorem readWithin_zero_iff :
    readWithin 0 packet pos = .ok (name, next) ↔
      name.form = .plain ∧ packet.HoldsAt pos name.wire ∧ next = pos + name.size := by
  rw [readWithin_eq_ok_iff (Nat.zero_le _)]
  refine and_congr_right fun hform => ?_
  have hplain : name.isCompressed = false := isCompressed_of_form hform
  constructor
  · rintro ⟨n, hn, hspelled⟩
    rw [wire_eq_labels hplain, size_eq_wireSize hplain]
    exact hspelled.holdsAt (Nat.le_zero.1 hn)
  · rintro ⟨hwire, rfl⟩
    exact ⟨0, Nat.le_refl 0, spelled_wire hplain hwire⟩

/-- The bytes between two offsets, when it is known what stands there. -/
theorem extract_of_holdsAt {bs : List UInt8} (h : packet.HoldsAt pos bs) :
    (packet.extract pos (pos + bs.length)).toList = bs := by
  rcases h with ⟨rest, hrest⟩
  simp [Array.toList_extract, List.extract_eq_take_drop, ← hrest]

/-! ## The codecs -/

/-- Any bytes may stand in front of a name and behind it. -/
theorem read_framed (hform : name.isCompressed = false) (front back : List UInt8) :
    Name.read (front ++ name.wire ++ back).toArray front.length =
      .ok (name.toPlain, front.length + name.size) := by
  refine read_wire hform ?_
  simp [Packet.HoldsAt]

/-- What is read is read alike when more bytes follow. -/
theorem read_append {result : Name × Nat} (h : Name.read packet pos = .ok result)
    (more : Packet) : Name.read (packet ++ more) pos = .ok result := by
  rcases read_eq_ok_iff.1 h with ⟨hform, hops, hhops, hspelled⟩
  exact read_eq_ok_iff.2 ⟨hform, hops, hhops, hspelled.append more⟩

/-- Names are the lists of labels within the limits. The text of a name is read as the name, and so
are its bytes, whatever stands in front of them and behind them. A reader that follows no pointer
has read the bytes of the name, and what is read at all is read alike when more bytes follow. -/
theorem codecs :
    (∀ texts : List String, Valid texts ↔ ∃ name : Name, name.labels.map Label.text = texts) ∧
    (∀ name : Name, Name.ofText name.text = .ok name.toPlain) ∧
    (∀ name : Name, name.isCompressed = false → ∀ front back : List UInt8,
      Name.read (front ++ name.wire ++ back).toArray front.length =
        .ok (name.toPlain, front.length + name.size)) ∧
    (∀ (packet : Packet) (start : Nat) (name : Name) (next : Nat),
      readWithin 0 packet start = .ok (name, next) →
        Name.read packet start = .ok (name, next) ∧
          (packet.extract start next).toList = name.wire) ∧
    (∀ (packet more : Packet) (start : Nat) (result : Name × Nat),
      Name.read packet start = .ok result → Name.read (packet ++ more) start = .ok result) := by
  refine ⟨fun _ => valid_iff, ofText_text, fun _ hform => read_framed hform, ?_,
    fun _ more _ _ h => read_append h more⟩
  intro packet start name next h
  have hread : Name.read packet start = .ok (name, next) := by
    rw [← readWithin_maxHops]
    exact readWithin_mono (Nat.zero_le _) (Nat.le_refl _) h
  rcases readWithin_zero_iff.1 h with ⟨-, hwire, rfl⟩
  refine ⟨hread, ?_⟩
  rw [← length_wire]
  exact extract_of_holdsAt hwire

/-- A name of as many labels and bytes as a name may have. -/
def longest : Name :=
  ⟨List.replicate 127 ⟨"b", by decide, by decide, by decide⟩, .plain, by decide +kernel, trivial⟩

/-- The longest name is read from its text and from its bytes between others, and again when the
packet grows. -/
theorem codecs_longest :
    let packet : Packet := ([1, 98] ++ longest.wire ++ [0xC0]).toArray
    Name.ofText longest.text = .ok longest ∧ Name.read packet 2 = .ok (longest, 257) ∧
      (packet.extract 2 257).toList = longest.wire ∧
      Name.read (packet ++ #[0]) 2 = .ok (longest, 257) := by
  intro packet
  have hplain : longest.toPlain = longest := rfl
  have hcount : ([1, 98] : List UInt8).length = 2 := rfl
  have hnext : 2 + longest.size = 257 := by decide +kernel
  have hread : Name.read packet 2 = .ok (longest, 257) := by
    have hframed := codecs.2.2.1 longest rfl [1, 98] [0xC0]
    rwa [hplain, hcount, hnext] at hframed
  have hwithin : readWithin 0 packet 2 = .ok (longest, 257) :=
    readWithin_zero_iff.2 ⟨rfl, by simp [packet, Packet.HoldsAt], hnext.symm⟩
  exact ⟨codecs.2.1 longest, hread, (codecs.2.2.2.1 packet 2 longest 257 hwithin).2,
    codecs.2.2.2.2 packet #[0] 2 (longest, 257) hread⟩

end Name
end NameServer
