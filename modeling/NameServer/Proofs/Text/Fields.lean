import Mathlib.Data.List.Basic
import NameServer.Text.Blank

/-!
# Proofs.Text.Fields — white space around and between fields

A text is white space, what is left of it when it is trimmed, and white space again. The fields of
a line are the words of what is left, and what follows some of them is the rest of it.

* `Text.exists_trim` — the three parts of a text;
* `Text.trim_append` — the middle part is what is left when the text is trimmed;
* `Text.fields_word_append` — a word in front of white space is a field;
* `Text.dropField_word_append` — and what stands behind both is what follows this field.
-/

namespace NameServer
namespace Text

variable {c separator : Char} {cs front core back word rest : List Char}

/-! ## Trimming -/

/-- Nothing but white space. -/
def Blank (cs : List Char) : Prop :=
  ∀ c ∈ cs, isBlank c = true

/-- Without white space at either end. -/
structure Trimmed (cs : List Char) : Prop where
  head : ∀ c ∈ cs.head?, isBlank c = false
  last : ∀ c ∈ cs.getLast?, isBlank c = false

theorem dropBlank_append (h : Blank front) : dropBlank (front ++ cs) = dropBlank cs :=
  List.dropWhile_append_of_pos h

theorem dropBlank_of_head (h : ∀ c ∈ cs.head?, isBlank c = false) : dropBlank cs = cs := by
  cases cs with
  | nil => rfl
  | cons c cs => exact List.dropWhile_cons_of_neg (Bool.eq_false_iff.1 (h c rfl))

theorem exists_dropBlank (cs : List Char) :
    ∃ front, cs = front ++ dropBlank cs ∧ Blank front ∧
      ∀ c ∈ (dropBlank cs).head?, isBlank c = false := by
  induction cs with
  | nil => exact ⟨[], rfl, fun _ h => (List.not_mem_nil h).elim, fun _ h => nomatch h⟩
  | cons c cs ih =>
      cases hblank : isBlank c with
      | false =>
          have hhead : ∀ d ∈ (c :: cs).head?, isBlank d = false := by
            rintro d ⟨⟩
            exact hblank
          refine ⟨[], ?_, fun _ h => (List.not_mem_nil h).elim, ?_⟩ <;>
            rw [dropBlank_of_head hhead]
          · rfl
          · exact hhead
      | true =>
          rcases ih with ⟨front, hcs, hfront, hhead⟩
          have hdrop : dropBlank (c :: cs) = dropBlank cs := List.dropWhile_cons_of_pos hblank
          refine ⟨c :: front, ?_, List.forall_mem_cons.2 ⟨hblank, hfront⟩, ?_⟩ <;> rw [hdrop]
          · rw [List.cons_append, ← hcs]
          · exact hhead

/-- Of white space, a text without white space at its ends and white space again, trimming leaves
the text in the middle. -/
theorem trim_append (hfront : Blank front) (hcore : Trimmed core) (hback : Blank back) :
    trim (front ++ core ++ back) = core := by
  have hreverse : Blank back.reverse := fun c hc => hback c (List.mem_reverse.1 hc)
  have hlast : ∀ c ∈ core.reverse.head?, isBlank c = false := by
    rw [List.head?_reverse]
    exact hcore.last
  unfold trim
  rw [List.append_assoc, dropBlank_append hfront]
  cases core with
  | nil =>
      rw [List.nil_append, ← List.append_nil back, dropBlank_append hback]
      rfl
  | cons c core =>
      have hhead : ∀ d ∈ (c :: core ++ back).head?, isBlank d = false := hcore.head
      rw [dropBlank_of_head hhead, List.reverse_append, dropBlank_append hreverse,
        dropBlank_of_head hlast, List.reverse_reverse]

theorem exists_trim (cs : List Char) :
    ∃ front back, cs = front ++ trim cs ++ back ∧ Blank front ∧ Trimmed (trim cs) ∧ Blank back := by
  rcases exists_dropBlank cs with ⟨front, hcs, hfront, hhead⟩
  rcases exists_dropBlank (dropBlank cs).reverse with ⟨back, hrest, hback, hlast⟩
  have hsplit : dropBlank cs = trim cs ++ back.reverse := by
    rw [← List.reverse_reverse (dropBlank cs), hrest, List.reverse_append]
    rfl
  refine ⟨front, back.reverse, ?_, hfront, ⟨?_, ?_⟩, fun c hc => hback c (List.mem_reverse.1 hc)⟩
  · rw [List.append_assoc, ← hsplit, ← hcs]
  · intro c hc
    refine hhead c ?_
    rw [hsplit]
    exact Option.mem_def.2 (List.head?_append.trans (by rw [Option.mem_def.1 hc]; rfl))
  · unfold trim
    rw [List.getLast?_reverse]
    exact hlast

theorem Trimmed.find? (h : Trimmed cs) : cs.find? (fun c => !isBlank c) = cs.head? := by
  cases cs with
  | nil => rfl
  | cons c cs => exact List.find?_cons_of_pos (by rw [h.head c rfl]; rfl)

/-- A trimmed text begins with the first character that is not blank. -/
theorem head?_trim (cs : List Char) : (trim cs).head? = cs.find? fun c => !isBlank c := by
  rcases exists_trim cs with ⟨front, back, hcs, hfront, htrim, hback⟩
  have hnone : ∀ {blank : List Char}, Blank blank → blank.find? (fun c => !isBlank c) = none :=
    fun h => List.find?_eq_none.2 fun c hc => by rw [h c hc]; decide
  conv => rhs; rw [hcs]
  rw [List.find?_append, List.find?_append, hnone hfront, hnone hback, Option.or_none,
    Option.none_or, htrim.find?]

/-! ## Fields -/

/-- What can be a field. -/
structure Word (cs : List Char) : Prop where
  ne : cs ≠ []
  solid : ∀ c ∈ cs, isBlank c = false

instance (cs : List Char) : Decidable (Word cs) :=
  decidable_of_iff (cs ≠ [] ∧ cs.any isBlank = false)
    ⟨fun h => ⟨h.1, fun c hc => by simpa using List.any_eq_false.1 h.2 c hc⟩,
      fun h => ⟨h.ne, List.any_eq_false.2 fun c hc => by simpa using h.solid c hc⟩⟩

theorem Word.tail {d : Char} (h : Word (c :: d :: cs)) : Word (d :: cs) :=
  ⟨List.cons_ne_nil _ _, fun e he => h.solid e (List.mem_cons_of_mem _ he)⟩

theorem fields_blank_cons (h : isBlank c = true) : fields (c :: cs) = fields cs := by
  rw [fields.eq_def]
  exact if_pos h

theorem fields_blank_append (h : Blank front) : fields (front ++ cs) = fields cs := by
  induction front with
  | nil => rfl
  | cons c front ih =>
      rcases List.forall_mem_cons.1 h with ⟨hc, hfront⟩
      rw [List.cons_append, fields_blank_cons hc, ih hfront]

theorem fields_solid_cons (h : isBlank c = false) (cs : List Char) :
    fields (c :: cs) = match cs, fields cs with
      | [], _ => [[c]]
      | d :: _, rest =>
        if isBlank d then [c] :: rest
        else match rest with
          | [] => [[c]]
          | word :: words => (c :: word) :: words := by
  rw [fields.eq_def]
  exact if_neg (Bool.eq_false_iff.1 h)

/-- A character in front of a word is part of it. -/
theorem fields_cons_of_fields {words : List (List Char)} {d : Char} (hc : isBlank c = false)
    (hd : isBlank d = false) (h : fields (d :: cs) = word :: words) :
    fields (c :: d :: cs) = (c :: word) :: words := by
  rw [fields_solid_cons hc, h]
  exact if_neg (Bool.eq_false_iff.1 hd)

/-- A character that is not blank is the end of its word, or the word goes on behind it. -/
theorem fields_cons_cases (hc : isBlank c = false) (cs : List Char) :
    (fields (c :: cs) = [c] :: fields cs ∧ ∀ d ∈ cs.head?, isBlank d = true) ∨
    ∃ d ds word words, cs = d :: ds ∧ isBlank d = false ∧ fields cs = word :: words ∧
      fields (c :: cs) = (c :: word) :: words := by
  cases cs with
  | nil =>
      refine Or.inl ⟨?_, fun _ h => nomatch h⟩
      exact fields_solid_cons hc []
  | cons d cs =>
      cases hd : isBlank d with
      | true =>
          refine Or.inl ⟨?_, ?_⟩
          · rw [fields_solid_cons hc]
            exact if_pos hd
          · rintro e ⟨⟩
            exact hd
      | false =>
          have hne : fields (d :: cs) ≠ [] := by
            rw [fields_solid_cons hd]
            split
            · exact List.cons_ne_nil _ _
            · split
              · exact List.cons_ne_nil _ _
              · split <;> exact List.cons_ne_nil _ _
          rcases List.exists_cons_of_ne_nil hne with ⟨word, words, hfields⟩
          exact Or.inr ⟨d, cs, word, words, rfl, hd, hfields, fields_cons_of_fields hc hd hfields⟩

theorem fields_word_append (h : Word word) (hseparator : isBlank separator = true) :
    fields (word ++ separator :: rest) = word :: fields rest := by
  induction word with
  | nil => exact absurd rfl h.ne
  | cons c word ih =>
      have hc := h.solid c List.mem_cons_self
      cases word with
      | nil =>
          rw [List.singleton_append, fields_solid_cons hc, fields_blank_cons hseparator]
          exact if_pos hseparator
      | cons d word =>
          exact fields_cons_of_fields hc (h.tail.solid d List.mem_cons_self) (ih h.tail)

/-- White space at the end belongs to no field. -/
theorem fields_append_blank (h : Blank back) (cs : List Char) :
    fields (cs ++ back) = fields cs := by
  induction cs with
  | nil => rw [List.nil_append, ← List.append_nil back, fields_blank_append h]
  | cons c cs ih =>
      cases hc : isBlank c with
      | true => rw [List.cons_append, fields_blank_cons hc, fields_blank_cons hc, ih]
      | false =>
          rw [List.cons_append]
          rcases fields_cons_cases hc cs with
            ⟨hend, hhead⟩ | ⟨d, ds, word, words, rfl, hd, hcs, hgoes⟩
          · rcases fields_cons_cases hc (cs ++ back) with ⟨hend', -⟩ | ⟨d, ds, -, -, hcs, hd, -⟩
            · rw [hend, hend', ih]
            · -- What follows is blank, in the text or behind it.
              exfalso
              cases cs with
              | nil =>
                  rw [List.nil_append] at hcs
                  rw [h d (hcs ▸ List.mem_cons_self)] at hd
                  cases hd
              | cons e cs =>
                  obtain rfl : e = d := (List.cons.inj hcs).1
                  rw [hhead e rfl] at hd
                  cases hd
          · rw [hgoes]
            exact fields_cons_of_fields hc hd (ih.trans hcs)

theorem fields_trim (cs : List Char) : fields (trim cs) = fields cs := by
  rcases exists_trim cs with ⟨front, back, hcs, hfront, -, hback⟩
  conv => rhs; rw [hcs]
  rw [List.append_assoc, fields_blank_append hfront, fields_append_blank hback]

theorem word_of_mem_fields (h : word ∈ fields cs) : Word word := by
  induction cs generalizing word with
  | nil => cases h
  | cons c cs ih =>
      cases hc : isBlank c with
      | true =>
          rw [fields_blank_cons hc] at h
          exact ih h
      | false =>
          rcases fields_cons_cases hc cs with ⟨hend, -⟩ | ⟨d, ds, first, words, -, -, hcs, hgoes⟩
          · rw [hend, List.mem_cons] at h
            rcases h with rfl | h
            · exact ⟨List.cons_ne_nil _ _, List.forall_mem_singleton.2 hc⟩
            · exact ih h
          · rw [hgoes, List.mem_cons] at h
            rw [hcs] at ih
            rcases h with rfl | h
            · exact ⟨List.cons_ne_nil _ _,
                List.forall_mem_cons.2 ⟨hc, (ih List.mem_cons_self).solid⟩⟩
            · exact ih (List.mem_cons_of_mem _ h)

/-- The characters that are not blank. -/
def solid (cs : List Char) : List Char :=
  cs.filter fun c => !isBlank c

theorem flatten_fields (cs : List Char) : (fields cs).flatten = solid cs := by
  induction cs with
  | nil => rfl
  | cons c cs ih =>
      cases hc : isBlank c with
      | true =>
          rw [fields_blank_cons hc, ih]
          exact (List.filter_cons_of_neg (by rw [hc]; decide)).symm
      | false =>
          have hsolid : solid (c :: cs) = c :: solid cs :=
            List.filter_cons_of_pos (by rw [hc]; rfl)
          rw [hsolid, ← ih]
          rcases fields_cons_cases hc cs with ⟨hend, -⟩ | ⟨d, ds, word, words, -, -, hcs, hgoes⟩
          · rw [hend]
            rfl
          · rw [hgoes, hcs]
            rfl

/-! ## The rest of a line -/

theorem dropBlank_word_append (h : Word word) (rest : List Char) :
    dropBlank (word ++ rest) = word ++ rest := by
  refine dropBlank_of_head fun c hc => ?_
  cases word with
  | nil => exact absurd rfl h.ne
  | cons d word =>
      cases hc
      exact h.solid c List.mem_cons_self

/-- Behind its first field, a text goes on with what is not blank. -/
theorem dropField_word_append (h : Word word) (hseparator : isBlank separator = true)
    (rest : List Char) : dropField (word ++ separator :: rest) = dropBlank rest := by
  have hword : ∀ c ∈ word, (!isBlank c) = true := fun c hc => by rw [h.solid c hc]; rfl
  unfold dropField
  rw [List.dropWhile_append_of_pos hword, List.dropWhile_cons_of_neg (by rw [hseparator]; decide)]
  exact List.dropWhile_cons_of_pos hseparator

theorem afterFields_word_append (h : Word word) (hseparator : isBlank separator = true)
    (count : Nat) (rest : List Char) : afterFields (count + 1) (word ++ separator :: rest) =
      afterFields count (dropBlank rest) := by
  rw [afterFields, dropBlank_word_append h, dropField_word_append h hseparator]

/-! ## Characters that are not blank -/

theorem solid_append (as bs : List Char) : solid (as ++ bs) = solid as ++ solid bs :=
  List.filter_append ..

theorem solid_of_blank (h : Blank cs) : solid cs = [] :=
  List.filter_eq_nil_iff.2 fun c hc => by rw [h c hc]; decide

theorem Word.solid_eq (h : Word word) : Text.solid word = word :=
  List.filter_eq_self.2 fun c hc => by rw [h.solid c hc]; rfl

theorem solid_trim (cs : List Char) : solid (trim cs) = solid cs := by
  rcases exists_trim cs with ⟨front, back, hcs, hfront, -, hback⟩
  conv => rhs; rw [hcs]
  rw [solid_append, solid_append, solid_of_blank hfront, solid_of_blank hback, List.nil_append,
    List.append_nil]

theorem Trimmed.head?_solid (h : Trimmed cs) : (solid cs).head? = cs.head? := by
  unfold solid
  rw [List.head?_filter, h.find?]

theorem Trimmed.reverse (h : Trimmed cs) : Trimmed cs.reverse where
  head := by
    rw [List.head?_reverse]
    exact h.last
  last := by
    rw [List.getLast?_reverse]
    exact h.head

theorem Trimmed.getLast?_solid (h : Trimmed cs) : (solid cs).getLast? = cs.getLast? := by
  have hreverse := h.reverse.head?_solid
  unfold solid at hreverse ⊢
  rwa [List.filter_reverse, List.head?_reverse, List.head?_reverse] at hreverse

theorem Word.trimmed (h : Word word) : Trimmed word :=
  ⟨fun c hc => h.solid c (List.mem_of_head? hc), fun c hc => h.solid c (List.mem_of_getLast? hc)⟩

theorem Trimmed.append (hfront : Trimmed front) (hback : Trimmed back) (hne : front ≠ [])
    (hne' : back ≠ []) (rest : List Char) : Trimmed (front ++ rest ++ back) where
  head := by
    rw [List.append_assoc, List.head?_append_of_ne_nil _ hne]
    exact hfront.head
  last := by
    rw [List.getLast?_append_of_ne_nil _ hne']
    exact hback.last

theorem intercalate_ne_nil (h : Word word) (words : List (List Char)) :
    [' '].intercalate (word :: words) ≠ [] := by
  cases words with
  | nil =>
      rw [List.intercalate_singleton]
      exact h.ne
  | cons other words =>
      rw [List.intercalate_cons_cons, List.append_assoc]
      exact List.append_ne_nil_of_left_ne_nil h.ne _

/-- Words with spaces between them have white space at neither end. -/
theorem trimmed_intercalate {words : List (List Char)} (h : ∀ word ∈ words, Word word) :
    Trimmed ([' '].intercalate words) := by
  induction words with
  | nil => exact ⟨nofun, nofun⟩
  | cons word words ih =>
      rcases List.forall_mem_cons.1 h with ⟨hword, hwords⟩
      cases words with
      | nil =>
          rw [List.intercalate_singleton]
          exact hword.trimmed
      | cons other words =>
          rw [List.intercalate_cons_cons]
          exact hword.trimmed.append (ih hwords) hword.ne
            (intercalate_ne_nil (hwords other List.mem_cons_self) words) [' ']

theorem solid_intercalate {words : List (List Char)} (h : ∀ word ∈ words, Word word) :
    solid ([' '].intercalate words) = words.flatten := by
  induction words with
  | nil => rfl
  | cons word words ih =>
      rcases List.forall_mem_cons.1 h with ⟨hword, hwords⟩
      cases words with
      | nil => rw [List.intercalate_singleton, hword.solid_eq, List.flatten_singleton]
      | cons other words =>
          have hspace : solid [' '] = [] := rfl
          rw [List.intercalate_cons_cons, solid_append, solid_append, hword.solid_eq, hspace,
            List.append_nil, ih hwords]
          rfl

/-- The fields of a text with single spaces between them. -/
def respaced (cs : List Char) : List Char :=
  [' '].intercalate (fields cs)

theorem trimmed_respaced (cs : List Char) : Trimmed (respaced cs) :=
  trimmed_intercalate fun _ => word_of_mem_fields

theorem solid_respaced (cs : List Char) : solid (respaced cs) = solid cs :=
  (solid_intercalate fun _ => word_of_mem_fields).trans (flatten_fields cs)

end Text
end NameServer
