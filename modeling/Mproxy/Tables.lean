import Mathlib.Data.Fin.Basic
import Mathlib.Tactic.Common
import Mproxy.Lib.Runs
import Mproxy.Stream

set_option relaxedAutoImplicit false
set_option autoImplicit false

/-!
# The attack tables

`attack.h`: the two tables of the attacker, with a row for every OpenFlow version and a column for
every message type, and the lookups `action_inject` makes in them.

## Main definitions

* `Mproxy.Tables` — `atk_drop_action_table` and `atk_dup_action_table`.
* `Mproxy.tableGet` — a lookup, at any index the code may compute.
* `Mproxy.isValidOfpHeader` — the header check that stands before the lookups.

## Main results

* `Mproxy.tableGet_eq_error` — a lookup faults exactly when an index is out of range.
* `Mproxy.versionRow_lt_iff` — the row of a version byte is in range exactly for versions `1`
  to `5`.
-/

namespace Mproxy

/-- `OFP_VER_MAX` -/
def ofpVerMax : ℕ := 5

/-- `OFP_MSG_TYPE_MAX` -/
def ofpMsgTypeMax : ℕ := 34

/-- `atk_drop_action_table` (of `char`, which is signed) and `atk_dup_action_table` (of
`counter_t`, an unsigned `char`). -/
structure Tables where
  drop : Fin 5 → Fin 35 → Int8
  dup : Fin 5 → Fin 35 → UInt8

/-- The tables as the program starts: globals are zeroed. -/
def Tables.zero : Tables where
  drop := fun _ _ => 0
  dup := fun _ _ => 0

/-- Drop cells are percentages. -/
def Tables.Percent (T : Tables) : Prop :=
  ∀ v t, 0 ≤ (T.drop v t).toInt ∧ (T.drop v t).toInt ≤ 100

/-- `table[i][j]`, read. -/
def tableGet {α : Type} (t : Fin 5 → Fin 35 → α) (i j : ℕ) : Except Fault α :=
  if h : i < 5 ∧ j < 35 then .ok (t ⟨i, h.1⟩ ⟨j, h.2⟩) else .error .tableIndex

/-- `is_valid_ofp_header`. The arguments are `unsigned int`, so only the upper bounds are
checked. -/
def isValidOfpHeader (v t : ℕ) : Bool := decide (v ≤ ofpVerMax) && decide (t ≤ ofpMsgTypeMax)

/-- The row `v - 1` for a version `v` of type `unsigned int`: the difference wraps at `0`. -/
def versionRow (v : ℕ) : ℕ := (v + 4294967295) % 4294967296

/-! ## Lookups in range -/

/-- A read inside of a table gives the cell. -/
@[simp] lemma tableGet_fin {α : Type} (t : Fin 5 → Fin 35 → α) (i : Fin 5) (j : Fin 35) :
    tableGet t i j = .ok (t i j) := dif_pos ⟨i.isLt, j.isLt⟩

/-- A lookup faults exactly when an index is out of range. -/
lemma tableGet_eq_error {α : Type} (t : Fin 5 → Fin 35 → α) (i j : ℕ) :
    tableGet t i j = .error .tableIndex ↔ ¬ (i < 5 ∧ j < 35) := by
  unfold tableGet
  split_ifs with h <;> simp [h]

/-- The row of a version is the one before it, from version `1` on. -/
lemma versionRow_of_pos {v : ℕ} (h : 0 < v) (hv : v ≤ 5) : versionRow v = v - 1 := by
  unfold versionRow
  rw [show v + 4294967295 = (v - 1) + 4294967296 by omega, Nat.add_mod_right,
    Nat.mod_eq_of_lt (by omega)]

/-- Among the version bytes that pass the header check, version `0` alone has no row. -/
lemma versionRow_lt_iff {v : ℕ} (hv : v ≤ 5) : versionRow v < 5 ↔ 0 < v := by
  rcases Nat.eq_zero_or_pos v with rfl | h
  · decide
  · rw [versionRow_of_pos h hv]; omega

/-- Which headers are valid: version `0` is among them. -/
lemma isValidOfpHeader_iff {v t : ℕ} : isValidOfpHeader v t = true ↔ v ≤ 5 ∧ t < 35 := by
  unfold isValidOfpHeader ofpVerMax ofpMsgTypeMax
  rw [Bool.and_eq_true, decide_eq_true_iff, decide_eq_true_iff]
  omega

end Mproxy
