import Mathlib.Data.List.Basic
import Mathlib.Data.List.DropRight
import Mathlib.Tactic.Common

set_option relaxedAutoImplicit false
set_option autoImplicit false

/-!
# Items with separators

A text is put together from pieces: an item with a separator and blanks behind it, or blanks alone.
What stands between the separators, without the blanks around it, are the items again, wherever the
blanks were put in.

## Main definitions

* `Separated.insertPiece` — a piece is put in at an index.
* `Separated.Pieces` — the pieces of a text, and the items in them.
* `Separated.fields` — what stands between the separators.

## Main results

* `Separated.Pieces.insertPiece` — blanks may be put in anywhere.
* `Separated.Pieces.fields` — the fields of a text are its items.
* `Separated.Pieces.exists_field` — an item that is no field starts one.
-/

namespace Separated

variable {α : Type}

/-- `l.insert(k, x)`: `x` is put in front of what stands at `k`, or at the end. -/
def insertPiece (l : List α) (k : ℕ) (x : α) : List α := l.take k ++ x :: l.drop k

section Blanks

variable (blank : α → Bool)

/-- All of the text is blank. -/
def Blank (s : List α) : Prop := ∀ c ∈ s, blank c = true

/-- The text without the blanks at both ends. -/
def core (s : List α) : List α := (s.dropWhile blank).rdropWhile blank

/-- There is no blank at the ends of the text. -/
def Solid (s : List α) : Prop :=
  (∀ c ∈ s.head?, blank c = false) ∧ ∀ c ∈ s.getLast?, blank c = false

variable {blank} {b s : List α} {c : α}

/-- Two blank texts behind each other are blank. -/
lemma Blank.append {b' : List α} (h : Blank blank b) (h' : Blank blank b') :
    Blank blank (b ++ b') := by
  intro c hc
  rcases List.mem_append.mp hc with hc | hc
  · exact h c hc
  · exact h' c hc

/-- Blanks in front of a text do not count. -/
lemma dropWhile_blank_append (h : Blank blank b) :
    (b ++ s).dropWhile blank = s.dropWhile blank := by
  rw [List.dropWhile_append, List.dropWhile_eq_nil_iff.mpr h]
  rfl

/-- Nothing is left of a blank text. -/
lemma core_blank (h : Blank blank b) : core blank b = [] := by
  rw [core, List.dropWhile_eq_nil_iff.mpr h]
  rfl

/-- The core of a text behind blanks. -/
lemma core_solid (h : Blank blank b) (hs : Solid blank s) : core blank (b ++ s) = s := by
  rw [core, dropWhile_blank_append h]
  cases s with
  | nil => rfl
  | cons c s =>
    have hc : ¬ blank c = true := by simp [hs.1 c rfl]
    rw [List.dropWhile_cons_of_neg hc, List.rdropWhile_eq_self_iff]
    intro hne
    simpa using hs.2 _ (List.getLast?_eq_some_getLast hne)

/-- The core starts with the first character that is no blank. -/
lemma core_head (h : Blank blank b) (hc : blank c = false) :
    ∃ s', core blank (b ++ c :: s) = c :: s' := by
  have hc' : ¬ blank c = true := by simp [hc]
  rw [core, dropWhile_blank_append h, List.dropWhile_cons_of_neg hc']
  obtain ⟨r, hr⟩ := List.rdropWhile_prefix blank (l := c :: s)
  cases hcore : (c :: s).rdropWhile blank with
  | nil =>
    rw [List.rdropWhile_eq_nil_iff] at hcore
    rw [hcore c List.mem_cons_self] at hc
    cases hc
  | cons c' s' =>
    rw [hcore] at hr
    obtain ⟨rfl, -⟩ := List.cons.inj hr
    exact ⟨s', rfl⟩

end Blanks

section Pieces

variable (sep : α) (blank : α → Bool)

/-- The pieces of a text, and the items in them. -/
inductive Pieces : List (List α) → List (List α) → Prop
  | nil : Pieces [] []
  | gap {b : List α} {xs ps : List (List α)} : Blank blank b → Pieces xs ps → Pieces xs (b :: ps)
  | item {x b : List α} {xs ps : List (List α)} : Blank blank b → Pieces xs ps →
      Pieces (x :: xs) ((x ++ sep :: b) :: ps)

variable {sep blank} {xs ps : List (List α)} {b : List α}

/-- **Blanks may be put in anywhere.** -/
lemma Pieces.insertPiece (h : Pieces sep blank xs ps) (hb : Blank blank b) (k : ℕ) :
    Pieces sep blank xs (insertPiece ps k b) := by
  induction h generalizing k with
  | nil =>
    rw [Separated.insertPiece, List.take_nil, List.drop_nil]
    exact .gap hb .nil
  | gap hb' h ih =>
    cases k with
    | zero => exact .gap hb (.gap hb' h)
    | succ k => exact .gap hb' (ih k)
  | item hb' h ih =>
    cases k with
    | zero => exact .gap hb (.item hb' h)
    | succ k => exact .item hb' (ih k)

/-- The pieces of items that all have the same blanks behind their separator. -/
lemma pieces_map (hb : Blank blank b) (xs : List (List α)) :
    Pieces sep blank xs (xs.map fun x => x ++ sep :: b) := by
  induction xs with
  | nil => exact .nil
  | cons x xs ih => exact .item hb ih

/-- There is no separator in a blank text, where the separator is no blank. -/
lemma Blank.sep_notMem (h : Blank blank b) (hsep : blank sep = false) : sep ∉ b := by
  intro hmem
  rw [h sep hmem] at hsep
  cases hsep

end Pieces

section Fields

variable [DecidableEq α] (sep : α) (blank : α → Bool)

/-- What stands between the separators, without the blanks around it. -/
def fields (s : List α) : List (List α) := (s.splitOn sep).map (core blank)

variable {sep blank} {xs ps : List (List α)} {b : List α}

/-- The fields in front of a separator, and those behind it. -/
lemma fields_append_cons (s s' : List α) :
    fields sep blank (s ++ sep :: s') = fields sep blank s ++ fields sep blank s' := by
  rw [fields, List.splitOn_append_cons_self, List.map_append, fields, fields]

/-- A text without a separator is one field. -/
lemma fields_single {s : List α} (h : sep ∉ s) : fields sep blank s = [core blank s] := by
  rw [fields, List.splitOn_eq_singleton h, List.map_singleton]

/-- **The fields are the items**, and nothing behind the last separator. The items have no blanks at
their ends and no separator in them.

**Proof sketch.** By induction on the pieces, with the blanks that stand in front of them. -/
theorem Pieces.fields (h : Pieces sep blank xs ps) (hsep : blank sep = false)
    (hxs : ∀ x ∈ xs, sep ∉ x ∧ Solid blank x) (hb : Blank blank b) :
    fields sep blank (b ++ ps.flatten) = xs ++ [[]] := by
  induction h generalizing b with
  | nil =>
    rw [List.flatten_nil, List.append_nil, fields_single (hb.sep_notMem hsep), core_blank hb]
    rfl
  | gap hb' _ ih =>
    rw [List.flatten_cons, ← List.append_assoc]
    exact ih hxs (hb.append hb')
  | @item x b' xs ps hb' _ ih =>
    obtain ⟨hx, hsolid⟩ := hxs x List.mem_cons_self
    have hnot : sep ∉ b ++ x := by
      rw [List.mem_append]
      exact not_or.mpr ⟨hb.sep_notMem hsep, hx⟩
    have htext : b ++ ((x ++ sep :: b') :: ps).flatten = (b ++ x) ++ sep :: (b' ++ ps.flatten) := by
      simp
    rw [htext, fields_append_cons, fields_single hnot, core_solid hb hsolid,
      ih (fun y hy => hxs y (List.mem_cons_of_mem x hy)) hb']
    rfl

/-- A text whose first character behind blanks is no separator: the first field starts with it. -/
lemma fields_head {c : α} {s : List α} (hsep : blank sep = false) (hb : Blank blank b)
    (hc : blank c = false) (hne : c ≠ sep) :
    ∃ s' fs, fields sep blank (b ++ c :: s) = (c :: s') :: fs := by
  have hfirst : ∀ r, sep ∉ r → sep ∉ b ++ c :: r := by
    intro r hr
    rw [List.mem_append, List.mem_cons]
    rintro (h | rfl | h)
    · exact hb.sep_notMem hsep h
    · exact hne rfl
    · exact hr h
  by_cases hin : sep ∈ s
  · -- the field ends with the first separator
    obtain ⟨r, s', rfl, hr⟩ := List.eq_append_cons_of_mem hin
    obtain ⟨f, hf⟩ := core_head (s := r) hb hc
    refine ⟨f, fields sep blank s', ?_⟩
    have htext : b ++ c :: (r ++ sep :: s') = (b ++ c :: r) ++ sep :: s' := by simp
    rw [htext, fields_append_cons, fields_single (hfirst r hr), hf]
    rfl
  · obtain ⟨f, hf⟩ := core_head (s := s) hb hc
    exact ⟨f, [], by rw [fields_single (hfirst s hin), hf]⟩

/-- **An item starts a field**, whatever is in it. -/
theorem Pieces.exists_field (h : Pieces sep blank xs ps) (hsep : blank sep = false)
    (hb : Blank blank b) {c : α} {s : List α} (hmem : c :: s ∈ xs) (hc : blank c = false)
    (hne : c ≠ sep) : ∃ s', c :: s' ∈ Separated.fields sep blank (b ++ ps.flatten) := by
  induction h generalizing b with
  | nil => cases hmem
  | gap hb' _ ih =>
    rw [List.flatten_cons, ← List.append_assoc]
    exact ih (hb.append hb') hmem
  | @item x b' xs ps hb' _ ih =>
    have htext : b ++ ((x ++ sep :: b') :: ps).flatten = (b ++ x) ++ sep :: (b' ++ ps.flatten) := by
      simp
    rw [htext, fields_append_cons]
    rcases List.mem_cons.mp hmem with rfl | hmem
    · obtain ⟨s', fs, hfields⟩ := fields_head (s := s) hsep hb hc hne
      refine ⟨s', List.mem_append_left _ ?_⟩
      rw [hfields]
      exact List.mem_cons_self
    · obtain ⟨s', hs'⟩ := ih hb' hmem
      exact ⟨s', List.mem_append_right _ hs'⟩

end Fields

end Separated
