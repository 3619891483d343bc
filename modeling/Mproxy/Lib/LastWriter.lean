import Mathlib.Data.List.Basic
import Mathlib.Data.List.Induction
import Mathlib.Tactic.Common

set_option relaxedAutoImplicit false
set_option autoImplicit false

/-!
# Overlapping writes

A write gives one value to a set of cells. What a cell holds after a sequence of writes is the value
of the last one that covers it, or what it held before if there is none.

## Main definitions

* `LastWriter.write` — one write.
* `LastWriter.lastWrite` — the last write of a sequence that covers a cell.

## Main results

* `LastWriter.foldl_write` — last writer wins: a sequence of writes leaves the value of the last one
  in every cell.
-/

namespace LastWriter

variable {κ ι α : Type} (covers : ι → κ → Prop) [∀ i k, Decidable (covers i k)] (val : ι → α)

/-- The cells after the write `i`. -/
def write (f : κ → α) (i : ι) : κ → α := fun k => if covers i k then val i else f k

/-- The last write of the sequence that covers the cell. -/
def lastWrite (is : List ι) (k : κ) : Option ι := is.reverse.find? fun i => covers i k

/-- The last write is the one at the end, if it covers the cell. -/
lemma lastWrite_concat (is : List ι) (i : ι) (k : κ) :
    lastWrite covers (is ++ [i]) k = if covers i k then some i else lastWrite covers is k := by
  unfold lastWrite
  rw [List.reverse_append, List.reverse_singleton, List.singleton_append, List.find?_cons]
  by_cases h : covers i k <;> simp [h]

/-- The last write is one of the writes, and covers the key. -/
lemma lastWrite_mem {is : List ι} {k : κ} {i : ι} (h : lastWrite covers is k = some i) :
    i ∈ is ∧ covers i k := by
  have hcov := List.find?_some h
  exact ⟨List.mem_reverse.mp (List.mem_of_find?_eq_some h), by simpa using hcov⟩

/-- **Last writer wins.** -/
theorem foldl_write (f : κ → α) (is : List ι) (k : κ) :
    is.foldl (write covers val) f k = ((lastWrite covers is k).map val).getD (f k) := by
  induction is using List.reverseRecOn with
  | nil => rfl
  | append_singleton is i ih =>
    rw [List.foldl_append, List.foldl_cons, List.foldl_nil, write, lastWrite_concat, ih]
    split_ifs <;> rfl

end LastWriter
