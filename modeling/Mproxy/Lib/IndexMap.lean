import Mathlib.Data.List.AList

set_option relaxedAutoImplicit false
set_option autoImplicit false

/-!
# Maps with an inserting index operator

A map in which `operator[]` on a key that is not there inserts the key with a default value, as
`std::unordered_map` does. A map is only looked at through `find`: the lemmas say what each
operation does to `find`.

## Main definitions

* `IndexMap` — finite maps.
* `IndexMap.find`, `IndexMap.index`, `IndexMap.set`, `IndexMap.erase`, `IndexMap.isEmpty` — their
  operations.
* `IndexMap.Agree` — maps that are the same but for one key.

## Main results

* `IndexMap.find_index`, `IndexMap.find_set`, `IndexMap.find_erase` — what is found behind them.
* `IndexMap.isEmpty_iff` — a map is empty if nothing is found in it.
* `IndexMap.Agree.index`, `IndexMap.Agree.set`, `IndexMap.Agree.erase` — the operations keep maps
  the same but for the key.
-/

/-- A finite map. -/
abbrev IndexMap (κ ω : Type) : Type := AList fun _ : κ => ω

namespace IndexMap

variable {κ ω : Type} [DecidableEq κ]

/-- `m.find(k)`, with `none` for `m.end()` -/
def find (m : IndexMap κ ω) (k : κ) : Option ω := AList.lookup k m

/-- `m[k]`: the map behind it, and the value. -/
def index (m : IndexMap κ ω) (k : κ) (default : ω) : IndexMap κ ω × ω :=
  match m.find k with
  | some v => (m, v)
  | none => (AList.insert k default m, default)

/-- `m[k] = v` -/
def set (m : IndexMap κ ω) (k : κ) (v : ω) : IndexMap κ ω := AList.insert k v m

/-- `m.erase(k)` -/
def erase (m : IndexMap κ ω) (k : κ) : IndexMap κ ω := AList.erase k m

/-- `m.size() == 0` -/
def isEmpty (m : IndexMap κ ω) : Bool := m.entries.isEmpty

variable (m : IndexMap κ ω) (k j : κ)

/-- Nothing is found in the empty map. -/
@[simp] lemma find_empty : find (∅ : IndexMap κ ω) k = none := AList.lookup_empty k

/-- Behind an assignment the key has the value, and the other keys what they had. -/
@[simp] lemma find_set (v : ω) : (m.set k v).find j = if j = k then some v else m.find j := by
  unfold find set
  split_ifs with h
  · rw [h, AList.lookup_insert]
  · exact AList.lookup_insert_ne h

/-- Behind an `erase` the key is not there, and the other keys have what they had. -/
@[simp] lemma find_erase : (m.erase k).find j = if j = k then none else m.find j := by
  unfold find erase
  split_ifs with h
  · rw [h, AList.lookup_erase]
  · exact AList.lookup_erase_ne h

/-- The index operator finds what is there, or else the default. -/
@[simp] lemma index_snd (d : ω) : (m.index k d).2 = (m.find k).getD d := by
  unfold index
  cases m.find k <;> rfl

/-- Behind the index operator the key is there. -/
@[simp] lemma find_index (d : ω) :
    (m.index k d).1.find j = if j = k then some ((m.find k).getD d) else m.find j := by
  unfold index
  cases h : m.find k with
  | some v =>
    split_ifs with hj
    · rw [hj]
      exact h
    · rfl
  | none => exact find_set m k j d

/-- A map is empty if nothing is found in it. -/
lemma isEmpty_iff : m.isEmpty = true ↔ ∀ k, m.find k = none := by
  unfold isEmpty find
  rw [List.isEmpty_iff]
  constructor
  · intro h k
    rw [AList.lookup_eq_none, AList.mem_keys, AList.keys, h]
    exact List.not_mem_nil
  · intro h
    rw [List.eq_nil_iff_forall_not_mem]
    intro e he
    refine AList.lookup_eq_none.mp (h e.1) ?_
    rw [AList.mem_keys, AList.keys]
    exact List.mem_map_of_mem he

/-! ## Maps that agree but for one key -/

/-- The same is found in both maps, except that the key `k` may be there with the default in one of
them, and not in the other one. -/
structure Agree (k : κ) (d : ω) (m n : IndexMap κ ω) : Prop where
  found : (m.find k).getD d = (n.find k).getD d
  other : ∀ j, j ≠ k → m.find j = n.find j

namespace Agree

variable {d : ω} {k j : κ} {m n : IndexMap κ ω}

/-- A map agrees with itself. -/
lemma refl (m : IndexMap κ ω) : Agree k d m m := ⟨rfl, fun _ _ => rfl⟩

variable (h : Agree k d m n)

include h

/-- The maps may be exchanged. -/
lemma symm : Agree k d n m := ⟨h.found.symm, fun j hj => (h.other j hj).symm⟩

/-- The index operator finds the same in both maps. -/
lemma getD (j : κ) : (m.find j).getD d = (n.find j).getD d := by
  by_cases hj : j = k
  · rw [hj]
    exact h.found
  · rw [h.other j hj]

/-- Where something else than the default is found in one map, it is found in the other one. -/
lemma find_iff {v : ω} (hv : v ≠ d) : m.find j = some v ↔ n.find j = some v := by
  have hsome : ∀ o : Option ω, o = some v ↔ o.getD d = v := by
    intro o
    cases o with
    | none => exact iff_of_false (by simp) hv.symm
    | some w => simp
  rw [hsome, hsome, h.getD]

/-- The index operator keeps maps the same but for the key. -/
lemma index (j : κ) : Agree k d (m.index j d).1 (n.index j d).1 where
  found := by
    rw [find_index, find_index]
    split_ifs
    · rw [h.getD]
    · exact h.found
  other i hi := by
    rw [find_index, find_index, h.getD, h.other i hi]

/-- The index operator on one map only: on the key that does not matter, or on one that is there. -/
lemma index_right (hj : j = k ∨ (n.find j).isSome) : Agree k d m (n.index j d).1 where
  found := by
    rw [find_index]
    split_ifs with hk
    · rw [Option.getD_some, h.found, hk]
    · exact h.found
  other i hi := by
    rw [find_index]
    split_ifs with hij
    · obtain ⟨v, hv⟩ := Option.isSome_iff_exists.mp (hj.resolve_left fun hjk => hi (hij.trans hjk))
      rw [h.other i hi, hij, hv, Option.getD_some]
    · exact h.other i hi

/-- An assignment to any key keeps maps the same but for the key. -/
lemma set (j : κ) (v : ω) : Agree k d (m.set j v) (n.set j v) where
  found := by
    rw [find_set, find_set]
    split_ifs
    · rfl
    · exact h.found
  other i hi := by
    rw [find_set, find_set, h.other i hi]

/-- An `erase` of any key keeps maps the same but for the key. -/
lemma erase (j : κ) : Agree k d (m.erase j) (n.erase j) where
  found := by
    rw [find_erase, find_erase]
    split_ifs
    · rfl
    · exact h.found
  other i hi := by
    rw [find_erase, find_erase, h.other i hi]

/-- Without the key both maps are empty, or none is. -/
lemma isEmpty_erase : (m.erase k).isEmpty = (n.erase k).isEmpty := by
  rw [Bool.eq_iff_iff, isEmpty_iff, isEmpty_iff]
  refine forall_congr' fun j => ?_
  rw [find_erase, find_erase]
  split_ifs with hj
  · rfl
  · rw [h.other j hj]

end Agree

end IndexMap
