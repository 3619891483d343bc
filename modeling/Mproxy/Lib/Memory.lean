import Mathlib.Data.List.Basic
import Mathlib.Data.List.TakeWhile
import Mathlib.Tactic.Common

set_option relaxedAutoImplicit false
set_option autoImplicit false

/-!
# A region of byte memory

The memory a piece of pointer code works on is a region: a list of bytes, and pointers into it are
indices. An access outside the region gives `none`. The strings in it are those of C: they start at
a pointer and end before the first zero byte.

Two kinds of lemma carry proofs about code that scans a region. Where the region is written out as
what lies before the pointer, at it and behind it, an access is at the seam of an append
(`load_seam`, `store_seam`). And an access that succeeds in a region succeeds in every larger one
(`load_frame`, `store_frame`), so that code that stays inside a region does the same wherever the
region lies.

## Main definitions

* `Memory.load`, `Memory.loadBefore`, `Memory.store`, `Memory.copy` — the accesses.
* `Memory.cstring` — the string at a pointer.

## Main results

* `Memory.cstring_seam` — the string at the seam of an append.
* `Memory.cstring_eq_some_iff` — where a string is the one at a pointer.
* `Memory.getElem?_copy` — what a copy leaves in every place.
* `Memory.load_frame`, `Memory.store_frame`, `Memory.cstring_frame` — the frame rules.
-/

namespace Memory

/-- `*p` -/
def load (m : List UInt8) (p : ℕ) : Option UInt8 := m[p]?

/-- `*(p - 1)`; the byte before the region's first one is outside it. -/
def loadBefore (m : List UInt8) : ℕ → Option UInt8
  | 0 => none
  | p + 1 => load m p

/-- `*p = b` -/
def store (m : List UInt8) (p : ℕ) (b : UInt8) : Option (List UInt8) :=
  if p < m.length then some (m.set p b) else none

/-- `memcpy(p, s, n)`, where `n` bytes can be read at `s`. -/
def copy (m : List UInt8) (p : ℕ) (s : List UInt8) : Option (List UInt8) :=
  if p + s.length ≤ m.length then some (m.take p ++ (s ++ m.drop (p + s.length))) else none

/-- The C string at `p`: the bytes before the first zero byte, which is inside the region. -/
def cstring (m : List UInt8) (p : ℕ) : Option (List UInt8) :=
  if 0 ∈ m.drop p then some ((m.drop p).takeWhile (· ≠ 0)) else none

/-! ## Accesses at a seam -/

section Seam

variable {A B : List UInt8} {b c : UInt8} {p : ℕ}

/-- A read at the seam gives the first byte behind it. -/
lemma load_seam (hp : A.length = p) : load (A ++ b :: B) p = some b := by
  subst hp
  simp [load]

/-- A read just behind a byte gives this byte. -/
lemma loadBefore_seam (hp : A.length + 1 = p) : loadBefore (A ++ b :: B) p = some b := by
  subst hp
  exact load_seam rfl

/-- A write at the seam changes the first byte behind it. -/
lemma store_seam (hp : A.length = p) : store (A ++ b :: B) p c = some (A ++ c :: B) := by
  subst hp
  simp [store]

/-- The string at a seam ends before the first zero byte behind it. -/
lemma cstring_seam {s : List UInt8} (hp : A.length = p) :
    cstring (A ++ (s ++ 0 :: B)) p = some (s.takeWhile (· ≠ 0)) := by
  subst hp
  have hmem : (0 : UInt8) ∈ s ++ 0 :: B := by simp
  unfold cstring
  rw [List.drop_left, if_pos hmem, Option.some.injEq]
  induction s with
  | nil => simp
  | cons a s ih =>
    by_cases ha : a = 0
    · simp [ha]
    · simpa [ha] using ih (by simp)

/-- A string that is followed by a zero byte is the string at its start. -/
lemma cstring_of_not_mem {s : List UInt8} (hs : 0 ∉ s) (hp : A.length = p) :
    cstring (A ++ (s ++ 0 :: B)) p = some s := by
  rw [cstring_seam hp, List.takeWhile_eq_self_iff.mpr]
  intro a ha
  simp only [ne_eq, decide_not, Bool.not_eq_eq_eq_not, Bool.not_true, decide_eq_false_iff_not]
  rintro rfl
  exact hs ha

/-- Where the string at a pointer lies. -/
lemma cstring_split {m s : List UInt8} (h : cstring m p = some s) :
    0 ∉ s ∧ ∃ A B, m = A ++ (s ++ 0 :: B) ∧ A.length = p := by
  unfold cstring at h
  split_ifs at h with hmem
  obtain ⟨t, u, htu, ht⟩ := List.eq_append_cons_of_mem hmem
  have hp : p ≤ m.length := by
    by_contra hlt
    rw [List.drop_eq_nil_of_le (by omega)] at hmem
    exact absurd hmem List.not_mem_nil
  have hs : s = t := by
    rw [← Option.some.inj h, htu, List.takeWhile_append_of_pos,
      List.takeWhile_cons_of_neg (by simp), List.append_nil]
    intro a ha
    simp only [ne_eq, decide_not, Bool.not_eq_eq_eq_not, Bool.not_true, decide_eq_false_iff_not]
    rintro rfl
    exact ht ha
  refine ⟨hs ▸ ht, m.take p, u, ?_, List.length_take_of_le hp⟩
  rw [hs, ← htu, List.take_append_drop]

/-- Where a string is the one at a pointer: its bytes are there, with a zero byte behind them. -/
lemma cstring_eq_some_iff {m s : List UInt8} (hs : 0 ∉ s) :
    cstring m p = some s ↔ (∀ i < s.length, m[p + i]? = s[i]?) ∧ m[p + s.length]? = some 0 := by
  constructor
  · intro h
    obtain ⟨-, A, B, rfl, rfl⟩ := cstring_split h
    refine ⟨fun i hi => ?_, ?_⟩
    · rw [List.getElem?_append_right (Nat.le_add_right _ _), Nat.add_sub_cancel_left,
        List.getElem?_append_left hi]
    · rw [List.getElem?_append_right (Nat.le_add_right _ _), Nat.add_sub_cancel_left]
      simp
  · rintro ⟨hbytes, hzero⟩
    have hp : p + s.length < m.length := (List.getElem?_eq_some_iff.mp hzero).1
    have hdrop : m.drop p = s ++ 0 :: m.drop (p + s.length + 1) := by
      apply List.ext_getElem?
      intro i
      rw [List.getElem?_drop]
      rcases Nat.lt_trichotomy i s.length with hi | rfl | hi
      · rw [List.getElem?_append_left hi, hbytes i hi]
      · simp [hzero]
      · obtain ⟨k, rfl⟩ := Nat.exists_eq_add_of_lt hi
        rw [List.getElem?_append_right (by omega)]
        simp only [show s.length + k + 1 - s.length = k + 1 by omega, List.getElem?_cons_succ,
          List.getElem?_drop]
        congr 1
        omega
    rw [← List.take_append_drop p m, hdrop]
    exact cstring_of_not_mem hs (List.length_take_of_le (by omega))

end Seam

/-! ## Copies -/

section Copy

variable {m m' s : List UInt8} {p : ℕ}

/-- A `memcpy` leaves the length of the region. -/
lemma length_copy (h : copy m p s = some m') : m'.length = m.length := by
  unfold copy at h
  split_ifs at h with hle
  obtain rfl := Option.some.inj h
  simp only [List.length_append, List.length_take, List.length_drop]
  omega

/-- A copy changes the bytes it covers, and leaves all others. -/
lemma getElem?_copy (h : copy m p s = some m') (i : ℕ) :
    m'[i]? = if p ≤ i ∧ i < p + s.length then s[i - p]? else m[i]? := by
  unfold copy at h
  split_ifs at h with hle
  obtain rfl := Option.some.inj h
  have htake : (m.take p).length = p := List.length_take_of_le (by omega)
  by_cases hp : i < p
  · rw [if_neg (by omega), List.getElem?_append_left (by omega), List.getElem?_take_of_lt hp]
  · rw [List.getElem?_append_right (by omega), htake]
    by_cases hs : i < p + s.length
    · rw [if_pos ⟨by omega, hs⟩, List.getElem?_append_left (by omega)]
    · rw [if_neg (by omega), List.getElem?_append_right (by omega), List.getElem?_drop]
      congr 1
      omega

end Copy

/-! ## Larger regions -/

section Frame

variable {m m' : List UInt8} {p : ℕ} {b : UInt8} {s : List UInt8} (pre post : List UInt8)

/-- What is read inside a region is read in every larger one. -/
lemma load_frame (h : load m p = some b) :
    load (pre ++ (m ++ post)) (pre.length + p) = some b := by
  have hp : p < m.length := (List.getElem?_eq_some_iff.mp h).1
  unfold load at h ⊢
  rw [List.getElem?_append_right (Nat.le_add_right _ _), Nat.add_sub_cancel_left,
    List.getElem?_append_left hp, h]

/-- What is written inside a region is written there in every larger one, and nothing else is. -/
lemma store_frame (h : store m p b = some m') :
    store (pre ++ (m ++ post)) (pre.length + p) b = some (pre ++ (m' ++ post)) := by
  unfold store at h ⊢
  split_ifs at h with hp
  obtain rfl := Option.some.inj h
  have hlt : pre.length + p < (pre ++ (m ++ post)).length := by
    rw [List.length_append, List.length_append]; omega
  rw [if_pos hlt, List.set_append_right _ _ (Nat.le_add_right _ _), Nat.add_sub_cancel_left,
    List.set_append_left _ _ hp]

/-- A string inside a region is the same string in every larger one. -/
lemma cstring_frame (h : cstring m p = some s) :
    cstring (pre ++ (m ++ post)) (pre.length + p) = some s := by
  unfold cstring at h
  split_ifs at h with hmem
  obtain ⟨t, u, htu⟩ := List.append_of_mem hmem
  have hp : p ≤ m.length := by
    by_contra hlt
    rw [List.drop_eq_nil_of_le (by omega)] at hmem
    exact absurd hmem List.not_mem_nil
  have hm : m = m.take p ++ (t ++ 0 :: u) := by rw [← htu, List.take_append_drop]
  have hs : cstring (m.take p ++ (t ++ 0 :: u)) p = some (t.takeWhile (· ≠ 0)) :=
    cstring_seam (List.length_take_of_le hp)
  have hs' : some ((m.drop p).takeWhile (· ≠ 0)) = some (t.takeWhile (· ≠ 0)) := by
    rw [← hs, ← hm, cstring, if_pos hmem]
  rw [← h, hs', hm]
  have : pre ++ (m.take p ++ (t ++ 0 :: u) ++ post) =
      (pre ++ m.take p) ++ (t ++ 0 :: (u ++ post)) := by simp
  rw [this]
  exact cstring_seam (by rw [List.length_append, List.length_take_of_le hp])

/-- A write leaves the length of the region. -/
lemma length_store (h : store m p b = some m') : m'.length = m.length := by
  unfold store at h
  split_ifs at h
  obtain rfl := Option.some.inj h
  exact List.length_set

/-- What is read lies in the region. -/
lemma load_lt (h : load m p = some b) : p < m.length := (List.getElem?_eq_some_iff.mp h).1

end Frame

end Memory
