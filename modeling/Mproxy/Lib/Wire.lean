import Mathlib.Data.List.Basic
import Mathlib.Data.List.TakeDrop
import Mathlib.Order.Nat
import Mathlib.Tactic.Common

set_option relaxedAutoImplicit false
set_option autoImplicit false

/-!
# Validators of wire formats

Objects of a wire format lie one behind the other in a block of bytes. An object has a fixed length,
or it announces its length in two of its bytes; a number in it may choose between formats that are
more specific, and it may hold a list of objects. A validator gets a pointer into the block and the
number of bytes that may be read from there. It rejects what it finds, or accepts it and says how
long the object is.

A format carries the language that its validator checks, and the proof that it does: from a block
that is long enough nothing outside is read, the validator ends, and it accepts an object exactly if
its bytes are in the language. So every validator that is put together from the ones here is
correct.

## Main definitions

* `Wire.Outcome`, `Wire.load` — what a validator answers, and its checked access to the block.
* `Wire.Format`, `Wire.Sized` — formats, and those of objects that announce their length.
* `Wire.Listing`, `Wire.many`, `Wire.Repeats` — lists of objects.
* `Wire.Body` — what is checked of an object behind its length.
* `Wire.Format.fixed`, `Wire.Sized.fixed`, `Wire.Sized.object`, `Wire.Body.plain`, `Wire.Body.rest`,
  `Wire.Body.counted`, `Wire.Body.switch` — the ways to make them.

## Main results

* `Wire.many_accepts`, `Wire.many_inside` — a list is accepted exactly if it consists of objects.
* `Wire.Format.validate_take` — a validator depends on the bytes it may read only.
* `Wire.Repeats.unique` — a list is made of objects in one way only.
-/

namespace Wire

/-- What a validator answers. A fault is an access outside the block, or a loop that did not end. -/
inductive Outcome
  | fault
  | rejected
  | accepted (len : ℕ)
  deriving DecidableEq

/-- The number in the `width` bytes from `off` on, the highest one first. -/
def number (data : List UInt8) (off width : ℕ) : ℕ :=
  ((data.drop off).take width).foldl (fun n c => 256 * n + c.toNat) 0

/-- The number is read, if it lies in the block. -/
def load (data : List UInt8) (off width : ℕ) (k : ℕ → Outcome) : Outcome :=
  if off + width ≤ data.length then k (number data off width) else .fault

/-- A number does not depend on what stands behind it. -/
lemma number_take {data : List UInt8} {off width n : ℕ} (h : off + width ≤ n) :
    number (data.take n) off width = number data off width := by
  rw [number, number, List.drop_take, List.take_take, Nat.min_eq_left (by omega)]

/-- The number in one byte. -/
lemma number_one {data : List UInt8} {off : ℕ} (h : off < data.length) :
    number data off 1 = (data.getD off 0).toNat := by
  rw [number, List.drop_eq_getElem_cons h, List.take_succ_cons, List.take_zero,
    List.getD_eq_getElem?_getD, List.getElem?_eq_getElem h]
  simp

/-- The number in two bytes, the high one first. -/
lemma number_two {data : List UInt8} {off : ℕ} (h : off + 2 ≤ data.length) :
    number data off 2 = 256 * (data.getD off 0).toNat + (data.getD (off + 1) 0).toNat := by
  have h₀ : off < data.length := by omega
  have h₁ : off + 1 < data.length := by omega
  rw [number, List.drop_eq_getElem_cons h₀, List.take_succ_cons, List.drop_eq_getElem_cons h₁,
    List.take_succ_cons, List.take_zero]
  simp only [List.getD_eq_getElem?_getD, List.getElem?_eq_getElem h₀, List.getElem?_eq_getElem h₁]
  simp

/-- A number inside of the block is read. -/
lemma load_of_le {data : List UInt8} {off width : ℕ} (h : off + width ≤ data.length)
    (k : ℕ → Outcome) : load data off width k = k (number data off width) := if_pos h

/-! ## Formats -/

/-- A format: a validator, the encodings of its objects, and the proof that the validator accepts
these only, wherever one stands at the start of the block. -/
structure Format where
  validate : List UInt8 → ℕ → Outcome
  Encodes : List UInt8 → Prop
  nonempty : ∀ {b}, Encodes b → b ≠ []
  inside : ∀ {data len}, len ≤ data.length → validate data len ≠ .fault
  accepts : ∀ {data len k}, len ≤ data.length →
    (validate data len = .accepted k ↔ k ≤ len ∧ Encodes (data.take k))

/-- A format of objects that announce their length in the two bytes from `pos` on. -/
structure Sized (pos : ℕ) extends Format where
  announced : ∀ {b}, Encodes b → pos + 2 ≤ b.length ∧ number b pos 2 = b.length

namespace Format

variable (F : Format)

/-- The validator ends with an answer. -/
lemma answers {data : List UInt8} {len : ℕ} (h : len ≤ data.length) :
    F.validate data len = .rejected ∨ ∃ k, F.validate data len = .accepted k := by
  cases hval : F.validate data len with
  | fault => exact absurd hval (F.inside h)
  | rejected => exact Or.inl rfl
  | accepted k => exact Or.inr ⟨k, rfl⟩

/-- An accepted object has a byte, and is in the block. -/
lemma accepted_bounds {data : List UInt8} {len k : ℕ} (h : len ≤ data.length)
    (hk : F.validate data len = .accepted k) : 0 < k ∧ k ≤ len := by
  obtain ⟨hle, henc⟩ := (F.accepts h).mp hk
  refine ⟨Nat.pos_of_ne_zero ?_, hle⟩
  rintro rfl
  exact F.nonempty henc rfl

/-- **A validator depends on the bytes that it may read only.** -/
theorem validate_take {data : List UInt8} {len : ℕ} (h : len ≤ data.length) :
    F.validate (data.take len) len = F.validate data len := by
  have hlen : len ≤ (data.take len).length := (List.length_take_of_le h).ge
  have hiff : ∀ k, F.validate (data.take len) len = .accepted k ↔
      F.validate data len = .accepted k := by
    intro k
    rw [F.accepts hlen, F.accepts h]
    refine and_congr_right fun hk => ?_
    rw [List.take_take, Nat.min_eq_left hk]
  rcases F.answers h with hrej | ⟨k, hk⟩
  · rcases F.answers hlen with hrej' | ⟨k, hk⟩
    · rw [hrej, hrej']
    · rw [(hiff k).mp hk] at hrej
      cases hrej
  · rw [hk, (hiff k).mpr hk]

/-- No encoding is the start of another one. -/
lemma prefix_free {b c : List UInt8} (hb : F.Encodes b) (hc : F.Encodes c) (h : b <+: c) :
    b = c := by
  have hb' : F.validate c c.length = .accepted b.length :=
    (F.accepts le_rfl).mpr ⟨h.length_le, by rwa [← List.prefix_iff_eq_take.mp h]⟩
  have hc' : F.validate c c.length = .accepted c.length :=
    (F.accepts le_rfl).mpr ⟨le_rfl, by rwa [List.take_length]⟩
  exact h.eq_of_length (Outcome.accepted.inj (hb'.symm.trans hc'))

/-- Objects of one length. -/
def fixed (n : ℕ) (hn : 0 < n) : Format where
  validate _ len := if len < n then .rejected else .accepted n
  Encodes b := b.length = n
  nonempty := by
    rintro b hb rfl
    rw [List.length_nil] at hb
    omega
  inside := by
    intro data len _
    split_ifs <;> simp
  accepts := by
    intro data len k h
    split_ifs with hlen
    · simp only [false_iff, not_and, List.length_take]
      omega
    · simp only [Outcome.accepted.injEq, List.length_take]
      omega

end Format

/-! ## Lists -/

/-- The loop of the validator of a list: it is left at the end of the bytes, or with an object that
is rejected. -/
def manyLoop (F : Format) : ℕ → List UInt8 → ℕ → Outcome
  | 0, _, len => if len = 0 then .accepted 0 else .fault
  | fuel + 1, data, len =>
    if len = 0 then .accepted 0
    else
      match F.validate data len with
      | .accepted k => manyLoop F fuel (data.drop k) (len - k)
      | o => o

/-- The validator of a list of `len` bytes; every object has at least one of them. -/
def many (F : Format) (data : List UInt8) (len : ℕ) : Outcome := manyLoop F len data len

/-- A list of objects. -/
structure Listing where
  element : Format

/-- The validator of the list. -/
def Listing.validate (L : Listing) : List UInt8 → ℕ → Outcome := many L.element

/-- The bytes are those of objects, one behind the other. -/
def Repeats (F : Format) (b : List UInt8) : Prop :=
  ∃ ps : List (List UInt8), b = ps.flatten ∧ ∀ p ∈ ps, F.Encodes p

section Many

variable {F : Format}

/-- An empty block is a list of no objects. -/
lemma repeats_nil (F : Format) : Repeats F [] := ⟨[], rfl, fun _ h => absurd h List.not_mem_nil⟩

/-- The first object of a list that is not empty. -/
lemma repeats_iff {b : List UInt8} (hb : b ≠ []) :
    Repeats F b ↔ ∃ k ≤ b.length, F.Encodes (b.take k) ∧ Repeats F (b.drop k) := by
  constructor
  · rintro ⟨_ | ⟨p, ps⟩, rfl, hps⟩
    · exact absurd rfl hb
    · refine ⟨p.length, by simp, ?_, ps, ?_, fun q hq => hps q (List.mem_cons_of_mem p hq)⟩
      · rw [List.flatten_cons, List.take_left]
        exact hps p List.mem_cons_self
      · rw [List.flatten_cons, List.drop_left]
  · rintro ⟨k, -, hk, ps, hps, hall⟩
    refine ⟨b.take k :: ps, ?_, ?_⟩
    · rw [List.flatten_cons, ← hps, List.take_append_drop]
    · intro q hq
      rcases List.mem_cons.mp hq with rfl | hq
      · exact hk
      · exact hall q hq

/-- The loop, if there is enough fuel: it ends, and accepts exactly the lists of objects. -/
lemma manyLoop_spec {fuel : ℕ} {data : List UInt8} {len : ℕ} (hfuel : len ≤ fuel)
    (h : len ≤ data.length) :
    manyLoop F fuel data len = .accepted 0 ∧ Repeats F (data.take len) ∨
      manyLoop F fuel data len = .rejected ∧ ¬ Repeats F (data.take len) := by
  induction fuel generalizing data len with
  | zero =>
    obtain rfl := Nat.le_zero.mp hfuel
    exact Or.inl ⟨rfl, repeats_nil F⟩
  | succ fuel ih =>
    rw [manyLoop]
    by_cases hzero : len = 0
    · subst hzero
      exact Or.inl ⟨if_pos rfl, repeats_nil F⟩
    · have hlen : (data.take len).length = len := List.length_take_of_le h
      have hne : data.take len ≠ [] := by
        intro hnil
        rw [hnil] at hlen
        exact hzero hlen.symm
      have hfirst : ∀ {k}, k ≤ len → (data.take len).take k = data.take k := fun hk => by
        rw [List.take_take, Nat.min_eq_left hk]
      rw [if_neg hzero, repeats_iff hne, hlen]
      rcases F.answers h with hrej | ⟨k, hk⟩
      · -- no object stands here
        rw [hrej]
        refine Or.inr ⟨rfl, ?_⟩
        rintro ⟨k, hle, henc, -⟩
        rw [hfirst hle] at henc
        rw [(F.accepts h).mpr ⟨hle, henc⟩] at hrej
        cases hrej
      · -- the object that stands here is the only one
        obtain ⟨hpos, hle⟩ := F.accepted_bounds h hk
        have hrest : (data.take len).drop k = (data.drop k).take (len - k) := List.drop_take ..
        have hiff : (∃ j ≤ len, F.Encodes ((data.take len).take j) ∧
            Repeats F ((data.take len).drop j)) ↔ Repeats F ((data.drop k).take (len - k)) := by
          constructor
          · rintro ⟨j, hj, henc, hreps⟩
            rw [hfirst hj] at henc
            obtain rfl := Outcome.accepted.inj (((F.accepts h).mpr ⟨hj, henc⟩).symm.trans hk)
            rwa [hrest] at hreps
          · intro hreps
            refine ⟨k, hle, ?_, by rwa [hrest]⟩
            rw [hfirst hle]
            exact ((F.accepts h).mp hk).2
        rw [hiff, hk]
        exact ih (by omega) (by rw [List.length_drop]; omega)

/-- **The validator of a list ends and reads nothing outside.** -/
theorem many_inside {data : List UInt8} {len : ℕ} (h : len ≤ data.length) :
    many F data len ≠ .fault := by
  rcases manyLoop_spec (F := F) le_rfl h with ⟨hval, -⟩ | ⟨hval, -⟩ <;>
    rw [many, hval] <;> simp

/-- **It accepts exactly the lists of objects.** -/
theorem many_accepts {data : List UInt8} {len : ℕ} (h : len ≤ data.length) :
    many F data len = .accepted 0 ↔ Repeats F (data.take len) := by
  rcases manyLoop_spec (F := F) le_rfl h with ⟨hval, hreps⟩ | ⟨hval, hreps⟩
  · exact iff_of_true hval hreps
  · refine iff_of_false ?_ hreps
    rw [many, hval]
    simp

/-- An accepted list leaves nothing behind. -/
lemma many_cases {data : List UInt8} {len : ℕ} (h : len ≤ data.length) :
    many F data len = .rejected ∨ many F data len = .accepted 0 := by
  rcases manyLoop_spec (F := F) le_rfl h with ⟨hval, -⟩ | ⟨hval, -⟩
  · exact Or.inr hval
  · exact Or.inl hval

/-- **A list is made of objects in one way only.** -/
theorem Repeats.unique {ps qs : List (List UInt8)} (hps : ∀ p ∈ ps, F.Encodes p)
    (hqs : ∀ q ∈ qs, F.Encodes q) (h : ps.flatten = qs.flatten) : ps = qs := by
  induction ps generalizing qs with
  | nil =>
    cases qs with
    | nil => rfl
    | cons q qs =>
      rw [List.flatten_nil, List.flatten_cons] at h
      exact absurd (List.append_eq_nil_iff.mp h.symm).1 (F.nonempty (hqs q List.mem_cons_self))
  | cons p ps ih =>
    cases qs with
    | nil =>
      rw [List.flatten_nil, List.flatten_cons] at h
      exact absurd (List.append_eq_nil_iff.mp h).1 (F.nonempty (hps p List.mem_cons_self))
    | cons q qs =>
      rw [List.flatten_cons, List.flatten_cons] at h
      have hpre : p <+: q ∨ q <+: p :=
        List.prefix_or_prefix_of_prefix ⟨ps.flatten, rfl⟩ ⟨qs.flatten, h.symm⟩
      have hp := hps p List.mem_cons_self
      have hq := hqs q List.mem_cons_self
      obtain rfl : p = q := hpre.elim (F.prefix_free hp hq) fun hpre =>
        (F.prefix_free hq hp hpre).symm
      rw [ih (fun r hr => hps r (List.mem_cons_of_mem p hr))
        (fun r hr => hqs r (List.mem_cons_of_mem p hr)) (List.append_cancel_left h)]

/-- The bytes are those of parts with the property, one behind the other, in one way only. -/
def ListOf (P : List UInt8 → Prop) (b : List UInt8) : Prop :=
  ∃! ps : List (List UInt8), b = ps.flatten ∧ ∀ p ∈ ps, P p

/-- What the validator of a list accepts, in terms of what its objects are. -/
lemma repeats_iff_listOf {P : List UInt8 → Prop} (hP : ∀ p, F.Encodes p ↔ P p) {b : List UInt8} :
    Repeats F b ↔ ListOf P b := by
  simp only [ListOf, ← hP]
  constructor
  · rintro ⟨ps, rfl, hps⟩
    refine ⟨ps, ⟨rfl, hps⟩, ?_⟩
    rintro qs ⟨hflat, hqs⟩
    exact Repeats.unique hqs hps hflat.symm
  · rintro ⟨ps, hps, -⟩
    exact ⟨ps, hps⟩

/-- A list of objects of one length. -/
lemma repeats_fixed_iff {n : ℕ} (hn : 0 < n) {b : List UInt8} :
    Repeats (.fixed n hn) b ↔ n ∣ b.length := by
  constructor
  · rintro ⟨ps, rfl, hps⟩
    induction ps with
    | nil => exact Nat.dvd_zero n
    | cons p ps ih =>
      have hp : p.length = n := hps p List.mem_cons_self
      rw [List.flatten_cons, List.length_append, hp]
      exact Nat.dvd_add (Nat.dvd_refl n) (ih fun q hq => hps q (List.mem_cons_of_mem p hq))
  · rintro ⟨m, hm⟩
    induction m generalizing b with
    | zero =>
      obtain rfl := List.length_eq_zero_iff.mp hm
      exact repeats_nil _
    | succ m ih =>
      rw [Nat.mul_succ] at hm
      have hne : b ≠ [] := by
        rintro rfl
        rw [List.length_nil] at hm
        omega
      refine (repeats_iff hne).mpr ⟨n, by omega, ?_, ih ?_⟩
      · exact List.length_take_of_le (by omega)
      · rw [List.length_drop]
        omega

end Many

/-! ## Objects that announce their length -/

/-- What is checked of an object that is long enough and announces its length. It is accepted as a
whole, or rejected. -/
structure Body (min pos : ℕ) where
  check : List UInt8 → ℕ → Outcome
  Holds : List UInt8 → Prop
  inside : ∀ {data len}, min ≤ len → len ≤ data.length → check data len ≠ .fault
  accepts : ∀ {data len k}, min ≤ len → len ≤ data.length → number data pos 2 = len →
    (check data len = .accepted k ↔ k = len ∧ Holds (data.take len))

namespace Body

variable {min pos : ℕ}

/-- Nothing more is checked. -/
def plain : Body min pos where
  check _ len := .accepted len
  Holds _ := True
  inside _ _ := by simp
  accepts := by
    intro data len k _ _ _
    rw [and_true, Outcome.accepted.injEq, eq_comm]

/-- The answer for an object of `len` bytes with a list in it. -/
def withList (o : Outcome) (len : ℕ) : Outcome :=
  match o with
  | .accepted _ => .accepted len
  | o => o

/-- A list behind the fixed part adds no fault. -/
lemma withList_ne_fault {o : Outcome} (h : o ≠ .fault) (len : ℕ) : withList o len ≠ .fault := by
  cases o with
  | fault => exact absurd rfl h
  | rejected => exact h
  | accepted k => simp [withList]

/-- An object with a list behind its fixed part is accepted as a whole, if the list is one. -/
lemma withList_many {L : Listing} {data : List UInt8} {n len k : ℕ} (h : n ≤ data.length) :
    withList (L.validate data n) len = .accepted k ↔ k = len ∧ Repeats L.element (data.take n) := by
  rw [Listing.validate, ← many_accepts h]
  rcases many_cases (F := L.element) h with hval | hval
  · simp [hval, withList]
  · simp [hval, withList, eq_comm]

/-- Behind `off` bytes the rest of the object is a list. -/
def rest (off : ℕ) (L : Listing) (h : off ≤ min) : Body min pos where
  check data len := withList (L.validate (data.drop off) (len - off)) len
  Holds b := Repeats L.element (b.drop off)
  inside := by
    intro data len hmin hlen
    exact withList_ne_fault (many_inside (by rw [List.length_drop]; omega)) len
  accepts := by
    intro data len k hmin hlen _
    rw [withList_many (by rw [List.length_drop]; omega), List.drop_take]

/-- Behind `off` bytes there is a list, whose length is announced in the two bytes from `lenPos` on.
-/
def counted (lenPos off : ℕ) (L : Listing) (hpos : lenPos + 2 ≤ min) (hoff : off ≤ min) :
    Body min pos where
  check data len := load data lenPos 2 fun n =>
    if off + n > len then .rejected else withList (L.validate (data.drop off) n) len
  Holds b := off + number b lenPos 2 ≤ b.length ∧
    Repeats L.element ((b.drop off).take (number b lenPos 2))
  inside := by
    intro data len hmin hlen
    rw [load_of_le (by omega)]
    split_ifs with hout
    · simp
    · exact withList_ne_fault (many_inside (by rw [List.length_drop]; omega)) len
  accepts := by
    intro data len k hmin hlen _
    rw [load_of_le (by omega), number_take (by omega), List.length_take_of_le hlen]
    split_ifs with hout
    · simp only [false_iff, not_and]
      omega
    · rw [withList_many (by rw [List.length_drop]; omega), List.drop_take, List.take_take,
        Nat.min_eq_left (by omega)]
      exact and_congr_right fun _ => (and_iff_right (by omega)).symm

/-- The number at `off` chooses a format that is more specific; if it chooses none, the check goes
on with `B`. -/
def switch (off width : ℕ) (cases : List (ℕ × Sized pos)) (B : Body min pos)
    (h : off + width ≤ min) : Body min pos where
  check data len := load data off width fun t =>
    match cases.lookup t with
    | some F => F.validate data len
    | none => B.check data len
  Holds b :=
    match cases.lookup (number b off width) with
    | some F => F.Encodes b
    | none => B.Holds b
  inside := by
    intro data len hmin hlen
    rw [load_of_le (by omega)]
    cases cases.lookup (number data off width) with
    | none => exact B.inside hmin hlen
    | some F => exact F.inside hlen
  accepts := by
    intro data len k hmin hlen hann
    rw [load_of_le (by omega), number_take (by omega)]
    cases cases.lookup (number data off width) with
    | none => exact B.accepts hmin hlen hann
    | some F =>
      -- the length of the object is the one that was read before
      have hk : F.Encodes (data.take k) → k ≤ len → k = len := by
        intro henc hle
        obtain ⟨hpos, hnum⟩ := F.announced henc
        rw [List.length_take_of_le (by omega)] at hpos hnum
        rw [number_take hpos] at hnum
        exact hnum.symm.trans hann
      simp only
      rw [F.accepts hlen]
      constructor
      · rintro ⟨hle, henc⟩
        obtain rfl := hk henc hle
        exact ⟨rfl, henc⟩
      · rintro ⟨rfl, henc⟩
        exact ⟨le_rfl, henc⟩

/-- A switch whose formats all check what is checked without one. -/
lemma switch_holds {off width : ℕ} {cases : List (ℕ × Sized pos)} {B : Body min pos}
    {h : off + width ≤ min} {b : List UInt8} (hcases : ∀ c ∈ cases, (c.2.Encodes b ↔ B.Holds b)) :
    (switch off width cases B h).Holds b ↔ B.Holds b := by
  simp only [switch]
  cases hlook : cases.lookup (number b off width) with
  | none => exact Iff.rfl
  | some F =>
    obtain ⟨l₁, l₂, rfl, -⟩ := List.lookup_eq_some_iff.mp hlook
    exact hcases (number b off width, F) (by simp)

end Body

namespace Sized

variable {pos : ℕ}

/-- Objects of one length that announce it. -/
def fixed (n pos : ℕ) (h : pos + 2 ≤ n) : Sized pos where
  validate data len :=
    if len < n then .rejected
    else load data pos 2 fun w => if w > n ∨ w < n then .rejected else .accepted n
  Encodes b := b.length = n ∧ number b pos 2 = n
  nonempty := by
    rintro b ⟨hb, -⟩ rfl
    rw [List.length_nil] at hb
    omega
  inside := by
    intro data len hlen
    split_ifs with hshort
    · simp
    · rw [load_of_le (by omega)]
      split_ifs <;> simp
  accepts := by
    intro data len k hlen
    split_ifs with hshort
    · simp only [false_iff, not_and, List.length_take]
      omega
    · rw [load_of_le (by omega), List.length_take]
      constructor
      · intro hval
        split_ifs at hval with hw
        obtain rfl := Outcome.accepted.inj hval
        refine ⟨by omega, by omega, ?_⟩
        rw [number_take h]
        omega
      · rintro ⟨hle, hk, hnum⟩
        obtain rfl : k = n := by omega
        rw [number_take h] at hnum
        rw [if_neg (by omega)]
  announced := by
    rintro b ⟨hb, hnum⟩
    omega

/-- Objects that announce their length, of at least `min` bytes. -/
def object (min pos : ℕ) (h : pos + 2 ≤ min) (B : Body min pos) : Sized pos where
  validate data len :=
    if len < min then .rejected
    else load data pos 2 fun w => if w > len ∨ w < min then .rejected else B.check data w
  Encodes b := min ≤ b.length ∧ number b pos 2 = b.length ∧ B.Holds b
  nonempty := by
    rintro b ⟨hb, -⟩ rfl
    rw [List.length_nil] at hb
    omega
  inside := by
    intro data len hlen
    split_ifs with hshort
    · simp
    · rw [load_of_le (by omega)]
      split_ifs with hw
      · simp
      · exact B.inside (by omega) (by omega)
  accepts := by
    intro data len k hlen
    split_ifs with hshort
    · simp only [false_iff, not_and, List.length_take]
      omega
    · rw [load_of_le (by omega)]
      constructor
      · intro hval
        split_ifs at hval with hw
        obtain ⟨rfl, hholds⟩ := (B.accepts (by omega) (by omega) rfl).mp hval
        have hlenk : (data.take (number data pos 2)).length = number data pos 2 :=
          List.length_take_of_le (by omega)
        exact ⟨by omega, by omega, by rw [number_take (by omega), hlenk], hholds⟩
      · rintro ⟨hle, hmin, hnum, hholds⟩
        rw [List.length_take_of_le (by omega)] at hmin hnum
        rw [number_take (by omega)] at hnum
        rw [hnum, if_neg (by omega)]
        exact (B.accepts hmin (by omega) hnum).mpr ⟨rfl, hholds⟩
  announced := by
    rintro b ⟨hb, hnum, -⟩
    exact ⟨by omega, hnum⟩

end Sized

end Wire
