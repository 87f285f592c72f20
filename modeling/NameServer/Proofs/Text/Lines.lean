import NameServer.Proofs.Lists
import NameServer.Proofs.Name.Text
import NameServer.Text.Lines
import NameServer.Text.Utf8

/-!
# Proofs.Text.Lines — the lines of a text and of its bytes

A file is cut into lines before it is read as a text. A line feed and a carriage return are bytes
that no other character has among its own, so this does not tear a character apart.

* `Text.splitOn_append_piece` — characters in front of the first separator;
* `Text.byteLines_bytes` — the lines of the bytes of a text are the bytes of its lines;
* `Text.clear` — a text without what stands on some of its lines;
* `Text.linesOf_clear` — its other lines are what they were, in the same order.
-/

namespace NameServer
namespace Text

variable {α : Type} [DecidableEq α] {feed ret separator : α} {piece rest : List α} {c : Char}
variable {cs : List Char} {numbers : List Nat}

/-! ## Pieces -/

theorem splitOn_ne_nil (separator : α) (as : List α) : splitOn separator as ≠ [] := by
  cases as with
  | nil => exact List.cons_ne_nil _ _
  | cons a as =>
      rw [splitOn]
      split
      · exact List.cons_ne_nil _ _
      · split <;> exact List.cons_ne_nil _ _

/-- What has no separator belongs to the first piece of what follows it. -/
theorem splitOn_append_piece (h : separator ∉ piece) {first : List α} {others : List (List α)}
    (hrest : splitOn separator rest = first :: others) :
    splitOn separator (piece ++ rest) = (piece ++ first) :: others := by
  induction piece with
  | nil => exact hrest
  | cons a piece ih =>
      rw [List.mem_cons, not_or] at h
      rw [List.cons_append, splitOn, if_neg (Ne.symm h.1), ih h.2]
      rfl

/-- The lines, when it is known which piece is the last. -/
theorem linesBy_of_splitOn {as : List α} {front : List (List α)} {last : List α}
    (h : splitOn feed as = front ++ [last]) :
    linesBy feed ret as = front.map (withoutReturn ret) ++ [last].filter (· ≠ []) := by
  unfold linesBy
  dsimp only
  rw [h, List.dropLast_concat, List.getLast?_concat]
  rfl

theorem exists_front (feed : α) (as : List α) :
    ∃ front last, splitOn feed as = front ++ [last] :=
  ⟨_, _, (List.dropLast_concat_getLast (splitOn_ne_nil feed as)).symm⟩

/-! ## Bytes -/

/-- A byte of ASCII among the bytes of a character is the character itself. -/
theorem toNat_of_mem_utf8EncodeChar {b : UInt8} (hb : b.toNat ≤ 127)
    (h : b ∈ String.utf8EncodeChar c) : c.toNat = b.toNat := by
  have hmod : ∀ n : Nat, (UInt8.ofNat n).toNat = n % 256 := fun n => UInt8.toNat_ofNat'
  change c.val.toNat = b.toNat
  unfold String.utf8EncodeChar at h
  dsimp only at h
  split at h
  · rw [List.mem_singleton.1 h, hmod]
    omega
  · -- The other bytes have their highest bit set.
    exfalso
    split at h
    · simp only [List.mem_cons, List.not_mem_nil, or_false] at h
      rcases h with rfl | rfl <;> rw [hmod] at hb <;> omega
    · split at h <;> simp only [List.mem_cons, List.not_mem_nil, or_false] at h
      · rcases h with rfl | rfl | rfl <;> rw [hmod] at hb <;> omega
      · rcases h with rfl | rfl | rfl | rfl <;> rw [hmod] at hb <;> omega

/-- The bytes of characters. -/
def utf8 (cs : List Char) : List UInt8 :=
  cs.flatMap String.utf8EncodeChar

theorem bytes_ofList (cs : List Char) : bytes (String.ofList cs) = utf8 cs := by
  unfold bytes utf8
  rw [String.toByteArray_ofList, List.utf8Encode, List.toList_data_toByteArray]

theorem feed_not_mem (h : c ≠ '\n') : 0x0A ∉ String.utf8EncodeChar c := fun hmem =>
  h (Char.toNat_inj.1 (toNat_of_mem_utf8EncodeChar (by decide) hmem))

theorem return_not_mem (h : c ≠ '\r') : 0x0D ∉ String.utf8EncodeChar c := fun hmem =>
  h (Char.toNat_inj.1 (toNat_of_mem_utf8EncodeChar (by decide) hmem))

theorem splitOn_utf8 (cs : List Char) :
    splitOn 0x0A (utf8 cs) = (splitOn '\n' cs).map utf8 := by
  induction cs with
  | nil => rfl
  | cons c cs ih =>
      rw [utf8, List.flatMap_cons]
      change splitOn 0x0A (String.utf8EncodeChar c ++ utf8 cs) = _
      by_cases hfeed : c = '\n'
      · subst hfeed
        rw [splitOn, if_pos rfl, List.map_cons, ← ih]
        rfl
      · cases hpieces : splitOn '\n' cs with
        | nil => exact absurd hpieces (splitOn_ne_nil _ _)
        | cons first others =>
            rw [hpieces, List.map_cons] at ih
            rw [splitOn_append_piece (feed_not_mem hfeed) ih, splitOn, if_neg hfeed, hpieces]
            rfl

theorem withoutReturn_utf8 (cs : List Char) :
    withoutReturn 0x0D (utf8 cs) = utf8 (withoutReturn '\r' cs) := by
  rcases List.eq_nil_or_concat' cs with rfl | ⟨front, c, rfl⟩
  · rfl
  · have hsplit : utf8 (front ++ [c]) = utf8 front ++ String.utf8EncodeChar c := by
      unfold utf8
      rw [List.flatMap_append, List.flatMap_singleton]
    unfold withoutReturn
    rw [hsplit, List.getLast?_concat, List.dropLast_concat]
    by_cases hret : c = '\r'
    · subst hret
      rw [if_pos rfl]
      exact (if_pos List.getLast?_concat).trans List.dropLast_concat
    · have hlast : (utf8 front ++ String.utf8EncodeChar c).getLast? ≠ some 0x0D := by
        rw [List.getLast?_append_of_ne_nil _ String.utf8EncodeChar_ne_nil]
        exact fun hlast => return_not_mem hret (List.mem_of_getLast? hlast)
      rw [if_neg hlast, if_neg fun h => hret (Option.some.inj h), hsplit]

theorem utf8_eq_nil : utf8 cs = [] ↔ cs = [] := by
  unfold utf8
  rw [List.flatMap_eq_nil_iff]
  constructor
  · intro h
    cases cs with
    | nil => rfl
    | cons c cs => exact absurd (h c List.mem_cons_self) String.utf8EncodeChar_ne_nil
  · rintro rfl c hc
    cases hc

/-- The lines of a text, as texts. -/
def linesOf (s : String) : List String :=
  (lines s.toList).map String.ofList

/-- The lines of the bytes of a text are the bytes of its lines. -/
theorem byteLines_bytes (s : String) : byteLines (bytes s) = (linesOf s).map bytes := by
  rcases exists_front '\n' s.toList with ⟨front, last, hpieces⟩
  have hbytes : splitOn 0x0A (utf8 s.toList) = front.map utf8 ++ [utf8 last] := by
    rw [splitOn_utf8, hpieces, List.map_append, List.map_singleton]
  have hlast : [utf8 last].filter (· ≠ []) = ([last].filter (· ≠ [])).map utf8 := by
    by_cases hnil : last = []
    · subst hnil
      rfl
    · simp [hnil, utf8_eq_nil]
  have hfront : (front.map utf8).map (withoutReturn 0x0D) =
      (front.map (withoutReturn '\r')).map utf8 := by
    rw [List.map_map, List.map_map]
    exact List.map_congr_left fun cs _ => withoutReturn_utf8 cs
  rw [← String.ofList_toList (s := s), bytes_ofList]
  unfold byteLines linesOf lines
  rw [String.toList_ofList, linesBy_of_splitOn hbytes, linesBy_of_splitOn hpieces, hlast, hfront,
    ← List.map_append, List.map_map, (funext bytes_ofList : bytes ∘ String.ofList = utf8)]

theorem linesOf_of_not_mem {s : String} (hne : s ≠ "") (h : '\n' ∉ s.toList) : linesOf s = [s] := by
  unfold linesOf lines
  have hpieces : splitOn '\n' s.toList = [] ++ [s.toList] := splitOn_of_not_mem h
  rw [linesBy_of_splitOn hpieces]
  have hlist : s.toList ≠ [] := fun hnil => hne (String.toList_eq_nil_iff.1 hnil)
  simp [hlist]

/-! ## Cleared lines -/

/-- Characters without those on the lines with some numbers; the first line has the number
`number`. -/
def clearFrom (numbers : List Nat) (number : Nat) : List Char → List Char
  | [] => []
  | c :: cs =>
    if c = '\n' then c :: clearFrom numbers (number + 1) cs
    else if number ∈ numbers then clearFrom numbers number cs
    else c :: clearFrom numbers number cs

/-- A text without what stands on the lines with some numbers. The line feeds stay. -/
def clear (numbers : List Nat) (s : String) : String :=
  String.ofList (clearFrom numbers 1 s.toList)

/-- The characters that a line keeps. -/
def kept (numbers : List Nat) (number : Nat) (line : List Char) : List Char :=
  if number ∈ numbers then [] else line

theorem splitOn_clearFrom (numbers : List Nat) (number : Nat) (cs : List Char) :
    splitOn '\n' (clearFrom numbers number cs) =
      (splitOn '\n' cs).mapIdx fun i piece => kept numbers (number + i) piece := by
  induction cs generalizing number with
  | nil => simp [clearFrom, splitOn, kept]
  | cons c cs ih =>
      by_cases hfeed : c = '\n'
      · rw [clearFrom, if_pos hfeed, splitOn, if_pos hfeed, splitOn, if_pos hfeed, ih,
          List.mapIdx_cons]
        simp only [Nat.add_assoc, Nat.add_comm 1]
        simp [kept]
      · cases hpieces : splitOn '\n' cs with
        | nil => exact absurd hpieces (splitOn_ne_nil _ _)
        | cons first others =>
            have hsplit := ih number
            rw [hpieces, List.mapIdx_cons, Nat.add_zero] at hsplit
            rw [clearFrom, if_neg hfeed, splitOn, if_neg hfeed, hpieces, List.mapIdx_cons,
              Nat.add_zero]
            by_cases hnumber : number ∈ numbers
            · rw [if_pos hnumber, hsplit, kept, if_pos hnumber, kept, if_pos hnumber]
            · rw [if_neg hnumber, splitOn, if_neg hfeed, hsplit, kept, if_neg hnumber, kept,
                if_neg hnumber]

theorem withoutReturn_kept (numbers : List Nat) (number : Nat) (line : List Char) :
    withoutReturn '\r' (kept numbers number line) =
      kept numbers number (withoutReturn '\r' line) := by
  unfold kept
  split <;> rfl

/-- Which lines that are not empty a cleared text has. The last line of the text is none of them if
it has been cleared, and then it is not even an empty one. -/
theorem filter_lines_clearFrom (numbers : List Nat) (cs : List Char) :
    (lines (clearFrom numbers 1 cs)).filter (· ≠ []) =
      ((lines cs).mapIdx fun i line => kept numbers (1 + i) line).filter (· ≠ []) := by
  rcases exists_front '\n' cs with ⟨front, last, hpieces⟩
  have hcleared := splitOn_clearFrom numbers 1 cs
  rw [hpieces, List.mapIdx_append, List.mapIdx_singleton, Nat.zero_add] at hcleared
  have hfront : (front.mapIdx fun i line => kept numbers (1 + i) line).map (withoutReturn '\r') =
      (front.map (withoutReturn '\r')).mapIdx fun i line => kept numbers (1 + i) line :=
    map_mapIdx (fun i => withoutReturn_kept numbers (1 + i)) front
  unfold lines
  rw [linesBy_of_splitOn hpieces, linesBy_of_splitOn hcleared, List.mapIdx_append, hfront,
    List.filter_append, List.filter_append, List.length_map]
  congr 1
  by_cases hnil : last = []
  · subst hnil
    simp [kept]
  · simp [hnil]

theorem linesOf_clear (numbers : List Nat) (s : String) :
    (linesOf (clear numbers s)).filter (· ≠ "") =
      ((linesOf s).mapIdx fun i text => if i + 1 ∈ numbers then "" else text).filter (· ≠ "") := by
  have hfilter : ∀ lines : List (List Char), (lines.map String.ofList).filter (· ≠ "") =
      (lines.filter (· ≠ [])).map String.ofList := by
    intro lines
    rw [List.filter_map]
    congr 2
    funext line
    simp
  have hkept : ((lines s.toList).map String.ofList).mapIdx
      (fun i text => if i + 1 ∈ numbers then "" else text) =
      ((lines s.toList).mapIdx fun i line => kept numbers (1 + i) line).map String.ofList := by
    refine (map_mapIdx (fun i line => ?_) _).symm
    unfold kept
    rw [Nat.add_comm]
    split <;> rfl
  unfold linesOf clear
  rw [String.toList_ofList, hfilter, filter_lines_clearFrom, hkept, hfilter]

end Text
end NameServer
