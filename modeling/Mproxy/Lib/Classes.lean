import Mathlib.Algebra.Order.Ring.Nat
import Mathlib.Data.List.Induction
import Mproxy.Lib.Wire

set_option relaxedAutoImplicit false
set_option autoImplicit false

/-!
# The classes of objects

An object of a wire format is of a class, and numbers at fixed places say of which one: the tags of
the class. They are written when an object is made, and a tree of switches reads them to find the
class again. The switches are made without a check that the numbers are there; a validator has
checked the object before, with a tree of switches of its own.

## Main definitions

* `Wire.bytes`, `Wire.put`, `Wire.push` — numbers are written.
* `Wire.Picker` — functions that find the class of an object.
* `Wire.Picker.Fits` — the class that is found has the format and the tags of the object.
* `Wire.Picker.Finds` — the tags of a class lead to it.

## Main results

* `Wire.push_eq_iff` — writing tags changes nothing exactly if they were there.
* `Wire.Picker.fits_switch`, `Wire.Picker.finds_switch` — both are passed on by switches.
-/

namespace Wire

/-! ## Numbers are written -/

/-- The `width` bytes of a number, the highest one first. -/
def bytes : ℕ → ℕ → List UInt8
  | 0, _ => []
  | width + 1, v => bytes width (v / 256) ++ [UInt8.ofNat v]

/-- The number is written to the `width` bytes from `off` on. -/
def put (data : List UInt8) (off width v : ℕ) : List UInt8 :=
  data.take off ++ bytes width v ++ data.drop (off + width)

/-- A number at a place: its offset and its width, and the number. -/
abbrev Tag : Type := (ℕ × ℕ) × ℕ

/-- The tag is there. -/
def Tag.In (c : Tag) (data : List UInt8) : Prop := number data c.1.1 c.1.2 = c.2

/-- The tags are written, one after the other. -/
def push (tags : List Tag) (data : List UInt8) : List UInt8 :=
  tags.foldl (fun data c => put data c.1.1 c.1.2 c.2) data

/-- The place of the tag is in the first `n` bytes, and wide enough. -/
def Tag.Ok (n : ℕ) (c : Tag) : Prop := c.1.1 + c.1.2 ≤ n ∧ c.2 < 256 ^ c.1.2

/-- Two tags do not overlap. -/
def Tag.Apart (c d : Tag) : Prop := c.1.1 + c.1.2 ≤ d.1.1 ∨ d.1.1 + d.1.2 ≤ c.1.1

instance (n : ℕ) (c : Tag) : Decidable (c.Ok n) := inferInstanceAs (Decidable (_ ∧ _))

instance (c d : Tag) : Decidable (c.Apart d) := inferInstanceAs (Decidable (_ ∨ _))

section Put

variable {data : List UInt8} {off width v : ℕ}

/-- A number of `width` bytes has so many. -/
@[simp] lemma length_bytes (width v : ℕ) : (bytes width v).length = width := by
  induction width generalizing v with
  | zero => rfl
  | succ width ih => rw [bytes, List.length_append, ih, List.length_singleton]

/-- The number that bytes are. -/
def value (b : List UInt8) : ℕ := b.foldl (fun n c => 256 * n + c.toNat) 0

/-- A byte more makes a number 256 times as large, and adds its own value. -/
lemma value_concat (b : List UInt8) (c : UInt8) : value (b ++ [c]) = 256 * value b + c.toNat := by
  rw [value, List.foldl_append, List.foldl_cons, List.foldl_nil, value]

/-- The number at a place is the value of the bytes there. -/
lemma number_eq : number data off width = value ((data.drop off).take width) := rfl

/-- The bytes of a number that fits have its value. -/
lemma value_bytes (h : v < 256 ^ width) : value (bytes width v) = v := by
  induction width generalizing v with
  | zero =>
    rw [Nat.pow_zero] at h
    obtain rfl : v = 0 := by omega
    rfl
  | succ width ih =>
    rw [Nat.pow_succ] at h
    rw [bytes, value_concat, ih (by omega), UInt8.toNat_ofNat']
    omega

/-- Bytes are those of the number that they are. -/
lemma bytes_value (b : List UInt8) : bytes b.length (value b) = b := by
  induction b using List.reverseRecOn with
  | nil => rfl
  | append_singleton b c ih =>
    have hc := c.toNat_lt
    have hdiv : (256 * value b + c.toNat) / 256 = value b := by omega
    have hlast : UInt8.ofNat (256 * value b + c.toNat) = c := by
      rw [← UInt8.toNat_inj, UInt8.toNat_ofNat']
      omega
    rw [List.length_append, List.length_singleton, bytes, value_concat, hdiv, ih, hlast]

/-- A number that is written inside of the data leaves its length. -/
lemma length_put (h : off + width ≤ data.length) : (put data off width v).length = data.length := by
  simp only [put, List.length_append, List.length_take, List.length_drop, length_bytes]
  omega

/-- What was written is read. -/
lemma number_put (h : off + width ≤ data.length) (hv : v < 256 ^ width) :
    number (put data off width v) off width = v := by
  have hoff : (data.take off).length = off := List.length_take_of_le (by omega)
  have hbytes : (((put data off width v).drop off).take width) = bytes width v := by
    rw [put, List.append_assoc, List.drop_left' hoff, List.take_left' (length_bytes width v)]
  rw [number_eq, hbytes, value_bytes hv]

/-- Writing what is there changes nothing. -/
lemma put_number (h : off + width ≤ data.length) :
    put data off width (number data off width) = data := by
  have hlen : ((data.drop off).take width).length = width := by
    rw [List.length_take, List.length_drop]
    omega
  have hbytes : bytes width (number data off width) = (data.drop off).take width := by
    have hval := bytes_value ((data.drop off).take width)
    rwa [hlen] at hval
  rw [put, hbytes, List.append_assoc, ← List.drop_drop, List.take_append_drop,
    List.take_append_drop]

/-- Elsewhere everything stays. -/
lemma getElem?_put {k : ℕ} (h : off + width ≤ data.length) (hk : k < off ∨ off + width ≤ k) :
    (put data off width v)[k]? = data[k]? := by
  have hoff : (data.take off).length = off := List.length_take_of_le (by omega)
  have hhead : (data.take off ++ bytes width v).length = off + width := by
    rw [List.length_append, hoff, length_bytes]
  rcases hk with hk | hk
  · rw [put, List.append_assoc, List.getElem?_append_left (by omega), List.getElem?_take_of_lt hk]
  · rw [put, List.getElem?_append_right (by omega), hhead, List.getElem?_drop]
    congr 1
    omega

/-- A number is not changed by one that is written beside it. -/
lemma number_put_apart {off' width' : ℕ} (h : off + width ≤ data.length)
    (hapart : off + width ≤ off' ∨ off' + width' ≤ off) :
    number (put data off width v) off' width' = number data off' width' := by
  rw [number_eq, number_eq]
  congr 1
  apply List.ext_getElem?
  intro i
  by_cases hi : i < width'
  · rw [List.getElem?_take_of_lt hi, List.getElem?_take_of_lt hi, List.getElem?_drop,
      List.getElem?_drop]
    exact getElem?_put h (by omega)
  · rw [List.getElem?_take_eq_none (by omega), List.getElem?_take_eq_none (by omega)]

end Put

/-! ## Tags are written -/

section Push

variable {tags : List Tag} {data : List UInt8} {n : ℕ}

/-- Tags that are written inside of the data leave its length. -/
lemma length_push (hok : ∀ c ∈ tags, c.Ok data.length) : (push tags data).length = data.length := by
  induction tags generalizing data with
  | nil => rfl
  | cons c tags ih =>
    have hlen := length_put (v := c.2) (hok c List.mem_cons_self).1
    rw [push, List.foldl_cons]
    refine (ih ?_).trans hlen
    intro d hd
    rw [hlen]
    exact hok d (List.mem_cons_of_mem c hd)

/-- A tag that is apart from those that are written stays. -/
lemma in_push_iff {c : Tag} (hok : ∀ d ∈ tags, d.Ok data.length) (hapart : ∀ d ∈ tags, d.Apart c) :
    c.In (push tags data) ↔ c.In data := by
  induction tags generalizing data with
  | nil => exact Iff.rfl
  | cons d tags ih =>
    have hd := (hok d List.mem_cons_self).1
    rw [push, List.foldl_cons]
    refine (ih ?_ fun e he => hapart e (List.mem_cons_of_mem d he)).trans ?_
    · intro e he
      rw [length_put hd]
      exact hok e (List.mem_cons_of_mem d he)
    · rw [Tag.In, Tag.In, number_put_apart hd (hapart d List.mem_cons_self)]

/-- **Tags that were written are there.** -/
theorem in_push (hok : ∀ c ∈ tags, c.Ok data.length) (hapart : tags.Pairwise fun c d => d.Apart c)
    {c : Tag} (hc : c ∈ tags) : c.In (push tags data) := by
  induction tags generalizing data with
  | nil => cases hc
  | cons d tags ih =>
    obtain ⟨hd, htags⟩ := List.pairwise_cons.mp hapart
    obtain ⟨hle, hlt⟩ := hok d List.mem_cons_self
    have hok' : ∀ e ∈ tags, e.Ok (put data d.1.1 d.1.2 d.2).length := by
      intro e he
      rw [length_put hle]
      exact hok e (List.mem_cons_of_mem d he)
    rw [push, List.foldl_cons]
    rcases List.mem_cons.mp hc with rfl | hc
    · exact (in_push_iff hok' hd).mpr (number_put hle hlt)
    · exact ih hok' htags hc

/-- **Writing tags changes nothing exactly if they were there.** -/
theorem push_eq_iff (hok : ∀ c ∈ tags, c.Ok data.length)
    (hapart : tags.Pairwise fun c d => d.Apart c) :
    push tags data = data ↔ ∀ c ∈ tags, c.In data := by
  constructor
  · intro h c hc
    rw [← h]
    exact in_push hok hapart hc
  · intro h
    induction tags with
    | nil => rfl
    | cons d tags ih =>
      have hd : put data d.1.1 d.1.2 d.2 = data := by
        have hin : number data d.1.1 d.1.2 = d.2 := h d List.mem_cons_self
        rw [← hin]
        exact put_number (hok d List.mem_cons_self).1
      rw [push, List.foldl_cons, hd]
      exact ih (fun c hc => hok c (List.mem_cons_of_mem d hc)) (List.pairwise_cons.mp hapart).2
        fun c hc => h c (List.mem_cons_of_mem d hc)

end Push

/-! ## The class is found -/

/-- A function that finds out of which class an object is. It finds nothing if it would have to read
outside the block, and what it finds does not depend on what is behind the bytes it needs. -/
structure Picker (ι : Type) where
  pick : List UInt8 → Option ι
  stable : ∀ {data n i}, pick (data.take n) = some i → pick data = some i

namespace Picker

variable {ι : Type} {pos : ℕ}

/-- All objects are of one class. -/
def leaf (i : ι) : Picker ι where
  pick _ := some i
  stable h := h

/-- The number at `off` chooses a class, or a function that finds it; if it chooses none, the object
is of the class `d`. -/
def switch (off width : ℕ) (cases : List (ℕ × Picker ι)) (d : ι) : Picker ι where
  pick data :=
    if off + width ≤ data.length then
      match cases.lookup (number data off width) with
      | some P => P.pick data
      | none => some d
    else none
  stable := by
    intro data n i h
    split_ifs at h with hin
    have hn : off + width ≤ n ∧ off + width ≤ data.length := by
      rw [List.length_take] at hin
      omega
    rw [number_take hn.1] at h
    rw [if_pos hn.2]
    cases hlook : cases.lookup (number data off width) with
    | none =>
      rw [hlook] at h
      exact h
    | some P =>
      rw [hlook] at h
      exact P.stable h

/-- The classes have formats and tags of their own; a class that is only a name for others has no
tags. For an object of the format `F` that has the tags `pre` a class is found, and the object has
the format and the tags of this class. -/
def Fits (V : ι → Sized pos) (T : ι → Option (List Tag)) (pre : List Tag) (P : Picker ι)
    (F : Sized pos) : Prop :=
  ∀ b, F.Encodes b → (∀ c ∈ pre, c.In b) →
    ∃ i, P.pick b = some i ∧ (V i).Encodes b ∧ ∀ tags ∈ T i, ∀ c ∈ tags, c.In b

/-- The tags lead to the class, in every block that they are in and that is long enough. -/
def Finds (tags : List Tag) (j : ι) (P : Picker ι) : Prop :=
  ∀ b, (∀ c ∈ tags, c.In b) → (∀ c ∈ tags, c.1.1 + c.1.2 ≤ b.length) → P.pick b = some j

variable {V : ι → Sized pos} {T : ι → Option (List Tag)} {pre tags : List Tag}

/-- A class fits where its tags are known already. -/
lemma fits_leaf {i : ι} (h : ∀ tags ∈ T i, tags ⊆ pre) : Fits V T pre (leaf i) (V i) :=
  fun _ henc hpre => ⟨i, rfl, henc, fun tags htags c hc => hpre c (h tags htags hc)⟩

/-- A class is found where no more choice is made. -/
lemma finds_leaf (tags : List Tag) (j : ι) : Finds tags j (leaf j) := fun _ _ _ => rfl

/-- **A switch over the classes fits a switch over the formats**, if each case of it fits the format
that the same number chooses there. There may be more formats, and the cases may stand in another
order. -/
theorem fits_switch {off width min : ℕ} {formats : List (ℕ × Sized pos)} {B : Body min pos}
    {hpos : pos + 2 ≤ min} {hoff : off + width ≤ min} {cases : List (ℕ × Picker ι)} {d : ι}
    (hd : V d = .object min pos hpos (.switch off width formats B hoff))
    (htags : ∀ tags ∈ T d, tags ⊆ pre)
    (hcases : ∀ c ∈ cases, ∃ F, formats.lookup c.1 = some F ∧
      Fits V T (((off, width), c.1) :: pre) c.2 F) :
    Fits V T pre (switch off width cases d)
      (.object min pos hpos (.switch off width formats B hoff)) := by
  intro b hb hpre
  obtain ⟨hmin, -, hholds⟩ := id hb
  have hin : off + width ≤ b.length := by omega
  simp only [switch, if_pos hin]
  cases hlook : cases.lookup (number b off width) with
  | none => exact ⟨d, rfl, by rwa [hd], fun tags ht c hc => hpre c (htags tags ht hc)⟩
  | some P =>
    obtain ⟨l₁, l₂, rfl, -⟩ := List.lookup_eq_some_iff.mp hlook
    obtain ⟨F, hF, hfits⟩ := hcases (number b off width, P) (by simp)
    simp only [Body.switch, hF] at hholds
    refine hfits b hholds fun c hc => ?_
    rcases List.mem_cons.mp hc with rfl | hc
    · rfl
    · exact hpre c hc

/-- **A switch leads to a class**, if it is made on a tag of it and the case for this tag does. -/
theorem finds_switch {off width t : ℕ} {cases : List (ℕ × Picker ι)} {d j : ι} {P : Picker ι}
    (htag : tags.lookup (off, width) = some t) (hcase : cases.lookup t = some P)
    (h : Finds tags j P) : Finds tags j (switch off width cases d) := by
  intro b hin hlen
  obtain ⟨l₁, l₂, htags, -⟩ := List.lookup_eq_some_iff.mp htag
  have hmem : ((off, width), t) ∈ tags := by simp [htags]
  have hnum : number b off width = t := hin _ hmem
  have hle : off + width ≤ b.length := hlen _ hmem
  simp only [switch, if_pos hle, hnum, hcase]
  exact h b hin hlen

end Picker

end Wire
