import Mathlib.Algebra.Group.Nat.Even
import Mathlib.Data.List.DropRight
import Mproxy.Rules.Csv
import Mproxy.Rules.Libc

set_option relaxedAutoImplicit false
set_option autoImplicit false

/-!
# Backslash escapes

`csv_unescape` of `csv.c`. It is meant to take the backslashes off an escaped string in place. The
byte behind a backslash is copied over the backslash, but it is not taken out of where it was: there
is one position for reading and writing, so that the string stays as long as it is. Behind the
backslash that is the last byte of a string the terminator is what is copied and stepped over.

## Main definitions

* `Mproxy.escape` — a backslash before every byte of a kind, and before every backslash.
* `Mproxy.csvUnescape` — `csv_unescape`.
* `Mproxy.unescaped`, `Mproxy.EndsAlone` — what it makes of a string, and where it does not stop.

## Main results

* `Mproxy.csvUnescape_eq` — what it makes of a string behind whose end it does not read.
* `Mproxy.csvUnescapeLoop_none` — every other string is read behind its end.
* `Mproxy.csvUnescape_iff` — which strings it gives back, and in which it stays.
-/

namespace Mproxy

open Memory

/-- A byte that is escaped: a backslash, or one of `quotes`. -/
def Special (quotes : List UInt8) (c : UInt8) : Prop := c ∈ quotes ∨ c = backslash

instance (quotes : List UInt8) (c : UInt8) : Decidable (Special quotes c) :=
  inferInstanceAs (Decidable (_ ∨ _))

/-- A string with a backslash before every byte of `quotes` and every backslash. -/
def escape (quotes : List UInt8) : List UInt8 → List UInt8
  | [] => []
  | c :: s => if Special quotes c then backslash :: c :: escape quotes s else c :: escape quotes s

/-- `while (*data != '\0')` of `csv_unescape`. The first argument bounds the number of rounds; every
round that is followed by another one moves `data` towards the end of the region. -/
def csvUnescapeLoop : ℕ → List UInt8 → ℕ → Option (List UInt8)
  | 0, _, _ => none
  | fuel + 1, m, data => do
    let c ← load m data
    if c = nul then some m
    else if c = backslash then do
      let next ← load m (data + 1)
      let m ← store m data next
      csvUnescapeLoop fuel m (data + 2)
    else csvUnescapeLoop fuel m (data + 1)

/-- `csv_unescape`: the memory behind the call. -/
def csvUnescape (m : List UInt8) (data : ℕ) : Option (List UInt8) :=
  csvUnescapeLoop (m.length + 1) m data

/-- What becomes of a string: every byte behind a backslash is there twice. -/
def unescaped : List UInt8 → List UInt8
  | [] => []
  | [c] => [c]
  | c :: d :: s => if c = backslash then d :: d :: unescaped s else c :: unescaped (d :: s)

/-- The last byte is a backslash that does not stand behind a backslash of its own. -/
def EndsAlone : List UInt8 → Prop
  | [] => False
  | [c] => c = backslash
  | c :: d :: s => if c = backslash then EndsAlone s else EndsAlone (d :: s)

/-! ## Strings -/

/-- Escaping adds no terminator. -/
lemma nul_notMem_escape {quotes s : List UInt8} (hs : nul ∉ s) : nul ∉ escape quotes s := by
  induction s with
  | nil => exact List.not_mem_nil
  | cons c s ih =>
    rw [List.mem_cons, not_or] at hs
    have hb : nul ≠ backslash := by decide
    rw [escape]
    split_ifs <;> simp [hb, hs.1, ih hs.2]

/-- The last byte of a string is the last byte of the escaped string. -/
lemma getLast?_escape (quotes s : List UInt8) : (escape quotes s).getLast? = s.getLast? := by
  induction s with
  | nil => rfl
  | cons c s ih =>
    rw [escape]
    cases s with
    | nil => split_ifs <;> rfl
    | cons d s =>
      have hne : escape quotes (d :: s) ≠ [] := by
        rw [escape]
        split_ifs <;> simp
      split_ifs
      · rw [List.getLast?_cons_cons, List.getLast?_cons_of_ne_nil hne, ih,
          List.getLast?_cons_cons]
      · rw [List.getLast?_cons_of_ne_nil hne, ih, List.getLast?_cons_cons]

/-- Every backslash of an escaped string has the byte that it escapes behind it. -/
lemma not_endsAlone_escape (quotes s : List UInt8) : ¬ EndsAlone (escape quotes s) := by
  induction s with
  | nil => simp [escape, EndsAlone]
  | cons c s ih =>
    rw [escape]
    split_ifs with hc
    · rwa [EndsAlone, if_pos rfl]
    · have hne : c ≠ backslash := fun h => hc (Or.inr h)
      cases hs : escape quotes s with
      | nil => simpa [EndsAlone] using hne
      | cons d t =>
        rw [EndsAlone, if_neg hne, ← hs]
        exact ih

/-- What becomes of an escaped string: every escaped byte is there twice. -/
lemma unescaped_escape (quotes s : List UInt8) : unescaped (escape quotes s) =
    s.flatMap fun c => if Special quotes c then [c, c] else [c] := by
  induction s with
  | nil => rfl
  | cons c s ih =>
    rw [escape, List.flatMap_cons, ← ih]
    split_ifs with hc
    · rw [unescaped, if_pos rfl]
      rfl
    · have hne : c ≠ backslash := fun h => hc (Or.inr h)
      cases hs : escape quotes s with
      | nil => rfl
      | cons d t => rw [unescaped, if_neg hne, List.singleton_append]

/-- A string whose escaped bytes are doubled is longer, unless it has none. -/
lemma flatMap_double_eq_iff (quotes s : List UInt8) :
    (s.flatMap fun c => if Special quotes c then [c, c] else [c]) = s ↔
      ∀ c ∈ s, ¬ Special quotes c := by
  have hlen : ∀ s : List UInt8, s.length ≤
      (s.flatMap fun c => if Special quotes c then [c, c] else [c]).length := by
    intro s
    induction s with
    | nil => exact le_rfl
    | cons c s ih =>
      rw [List.flatMap_cons, List.length_append, List.length_cons]
      split_ifs <;> simp only [List.length_cons, List.length_nil] <;> omega
  induction s with
  | nil => simp
  | cons c s ih =>
    rw [List.flatMap_cons, List.forall_mem_cons]
    by_cases hc : Special quotes c
    · rw [if_pos hc]
      refine iff_of_false (fun h => ?_) fun h => h.1 hc
      have hl := congrArg List.length h
      have := hlen s
      simp only [List.length_append, List.length_cons, List.length_nil] at hl
      omega
    · rw [if_neg hc, List.singleton_append]
      exact ⟨fun h => ⟨hc, ih.mp (List.cons.inj h).2⟩, fun h => by rw [ih.mpr h.2]⟩

/-- The backslashes at the end of a string. -/
def lastBackslashes (t : List UInt8) : List UInt8 := t.rtakeWhile (· = backslash)

/-- Of backslashes alone the last one stands alone if their number is odd. -/
lemma endsAlone_replicate (n : ℕ) : EndsAlone (List.replicate n backslash) ↔ Odd n := by
  induction n using Nat.twoStepInduction with
  | zero => simp [EndsAlone]
  | one => simp [EndsAlone]
  | more n ih _ =>
    rw [List.replicate_succ, List.replicate_succ, EndsAlone, if_pos rfl, ih, Nat.odd_add]
    simp

/-- What stands before the backslashes at the end does not matter. -/
lemma endsAlone_append {u : List UInt8} (hu : ∀ c ∈ u.getLast?, c ≠ backslash) (n : ℕ) :
    EndsAlone (u ++ List.replicate n backslash) ↔ Odd n := by
  induction u using EndsAlone.induct with
  | case1 => exact endsAlone_replicate n
  | case2 c =>
    have hc : c ≠ backslash := hu c rfl
    rw [← endsAlone_replicate n, List.singleton_append]
    cases n with
    | zero => simp [EndsAlone, hc]
    | succ n => rw [List.replicate_succ, EndsAlone, if_neg hc]
  | case3 d s ih =>
    rw [List.cons_append, List.cons_append, EndsAlone, if_pos rfl]
    cases s with
    | nil => exact endsAlone_replicate n
    | cons x s => exact ih fun c hc => hu c (by simpa using hc)
  | case4 c d s hc ih =>
    rw [List.cons_append, List.cons_append, EndsAlone, if_neg hc]
    exact ih fun c hc => hu c (by simpa using hc)

/-- A string ends in a backslash that stands alone if the number of backslashes at its end is odd.
-/
lemma endsAlone_iff (t : List UInt8) : EndsAlone t ↔ Odd (lastBackslashes t).length := by
  have hall : lastBackslashes t = List.replicate (lastBackslashes t).length backslash := by
    refine List.eq_replicate_iff.mpr ⟨rfl, fun c hc => ?_⟩
    simpa using List.mem_rtakeWhile_imp hc
  have ht : t = t.rdropWhile (· = backslash) ++
      List.replicate (lastBackslashes t).length backslash := by
    rw [← hall]
    exact List.rdropWhile_append_rtakeWhile.symm
  conv_lhs => rw [ht]
  refine endsAlone_append (fun c hc => ?_) _
  have hne : t.rdropWhile (· = backslash) ≠ [] := by
    intro h
    rw [h] at hc
    cases hc
  have hlast := List.rdropWhile_last_not (fun x => decide (x = backslash)) t hne
  rw [List.getLast?_eq_some_getLast hne, Option.mem_some_iff] at hc
  subst hc
  simpa using hlast

/-! ## The loop -/

section Loop

variable {A B : List UInt8}

/-- A round at a backslash copies the byte behind it over it. -/
lemma csvUnescapeLoop_escaped (fuel : ℕ) (d : UInt8) :
    csvUnescapeLoop (fuel + 1) (A ++ backslash :: d :: B) A.length =
      csvUnescapeLoop fuel ((A ++ [d, d]) ++ B) (A ++ [d, d]).length := by
  have hb : backslash ≠ nul := by decide
  have hnext : load (A ++ backslash :: d :: B) (A.length + 1) = some d := by
    rw [List.append_cons]
    exact load_seam (by simp)
  rw [csvUnescapeLoop, load_seam rfl]
  simp only [Option.bind_eq_bind, Option.bind_some, if_neg hb, if_true, hnext]
  rw [store_seam rfl, Option.bind_some, List.length_append, List.append_assoc]
  rfl

/-- A round at another byte steps over it. -/
lemma csvUnescapeLoop_plain (fuel : ℕ) {c : UInt8} (hnul : c ≠ nul) (hc : c ≠ backslash) :
    csvUnescapeLoop (fuel + 1) (A ++ c :: B) A.length =
      csvUnescapeLoop fuel ((A ++ [c]) ++ B) (A ++ [c]).length := by
  rw [csvUnescapeLoop, load_seam rfl]
  simp only [Option.bind_eq_bind, Option.bind_some, if_neg hnul, if_neg hc]
  rw [List.length_append, List.append_assoc]
  rfl

/-- The loop ends at the terminator. -/
lemma csvUnescapeLoop_nul (fuel : ℕ) :
    csvUnescapeLoop (fuel + 1) (A ++ nul :: B) A.length = some (A ++ nul :: B) := by
  rw [csvUnescapeLoop, load_seam rfl, Option.bind_eq_bind, Option.bind_some, if_pos rfl]

/-- **What becomes of a string** whose last byte is no backslash that stands alone, wherever it
lies.

**Proof sketch.** Induction along the string, a backslash together with the byte behind it. -/
lemma csvUnescapeLoop_eq {t : List UInt8} (ht : nul ∉ t) (hend : ¬ EndsAlone t) {fuel : ℕ}
    (hfuel : t.length < fuel) :
    csvUnescapeLoop fuel (A ++ (t ++ nul :: B)) A.length =
      some (A ++ (unescaped t ++ nul :: B)) := by
  obtain ⟨fuel, rfl⟩ : ∃ k, fuel = k + 1 := ⟨fuel - 1, by omega⟩
  induction t using EndsAlone.induct generalizing A fuel with
  | case1 => exact csvUnescapeLoop_nul fuel
  | case2 c =>
    have hnul : c ≠ nul := fun h => ht (by simp [h])
    obtain ⟨fuel, rfl⟩ : ∃ k, fuel = k + 1 := ⟨fuel - 1, by simp at hfuel; omega⟩
    rw [List.singleton_append, csvUnescapeLoop_plain _ hnul hend, csvUnescapeLoop_nul]
    simp [unescaped]
  | case3 d s ih =>
    rw [EndsAlone, if_pos rfl] at hend
    simp only [List.length_cons] at hfuel
    obtain ⟨fuel, rfl⟩ : ∃ k, fuel = k + 1 := ⟨fuel - 1, by omega⟩
    rw [List.cons_append, List.cons_append, csvUnescapeLoop_escaped,
      ih (fun h => ht (by simp [h])) hend fuel (by omega), unescaped, if_pos rfl]
    simp
  | case4 c d s hc ih =>
    have hnul : c ≠ nul := fun h => ht (by simp [h])
    rw [EndsAlone, if_neg hc] at hend
    rw [List.length_cons] at hfuel
    obtain ⟨fuel, rfl⟩ : ∃ k, fuel = k + 1 := ⟨fuel - 1, by omega⟩
    rw [List.cons_append, csvUnescapeLoop_plain _ hnul hc,
      ih (fun h => ht (List.mem_cons_of_mem c h)) hend fuel (by omega), unescaped, if_neg hc]
    simp

/-- Where the last byte is a backslash that stands alone, the terminator is stepped over. -/
lemma csvUnescapeLoop_none {t : List UInt8} (ht : nul ∉ t) (hend : EndsAlone t) (fuel : ℕ) :
    csvUnescapeLoop fuel (A ++ (t ++ [nul])) A.length = none := by
  induction t using EndsAlone.induct generalizing A fuel with
  | case1 => cases hend
  | case2 c =>
    obtain rfl : c = backslash := hend
    cases fuel with
    | zero => rfl
    | succ fuel =>
      -- the next round is behind the region
      rw [List.singleton_append, csvUnescapeLoop_escaped, List.append_nil]
      cases fuel with
      | zero => rfl
      | succ fuel =>
        have hload : load (A ++ [nul, nul]) (A ++ [nul, nul]).length = none :=
          List.getElem?_eq_none le_rfl
        rw [csvUnescapeLoop, hload]
        rfl
  | case3 d s ih =>
    cases fuel with
    | zero => rfl
    | succ fuel =>
      rw [EndsAlone, if_pos rfl] at hend
      rw [List.cons_append, List.cons_append, csvUnescapeLoop_escaped]
      exact ih (fun h => ht (by simp [h])) hend fuel
  | case4 c d s hc ih =>
    cases fuel with
    | zero => rfl
    | succ fuel =>
      have hnul : c ≠ nul := fun h => ht (by simp [h])
      rw [EndsAlone, if_neg hc] at hend
      rw [List.cons_append, csvUnescapeLoop_plain _ hnul hc]
      exact ih (fun h => ht (List.mem_cons_of_mem c h)) hend fuel

end Loop

/-- The rounds of the loop are bounded by what is left of the region. -/
lemma csvUnescapeLoop_fuel {m : List UInt8} {data fuel fuel' : ℕ} (h : m.length < data + fuel)
    (h' : m.length < data + fuel') :
    csvUnescapeLoop fuel m data = csvUnescapeLoop fuel' m data := by
  induction fuel generalizing fuel' m data with
  | zero =>
    cases fuel' with
    | zero => rfl
    | succ fuel' =>
      have hload : load m data = none := List.getElem?_eq_none (by omega)
      rw [csvUnescapeLoop, csvUnescapeLoop, hload]
      rfl
  | succ fuel ih =>
    cases hload : load m data with
    | none =>
      cases fuel' with
      | zero => rw [csvUnescapeLoop, csvUnescapeLoop, hload]; rfl
      | succ fuel' => rw [csvUnescapeLoop, csvUnescapeLoop, hload]; rfl
    | some c =>
      have hlt := load_lt hload
      obtain ⟨fuel', rfl⟩ : ∃ k, fuel' = k + 1 := ⟨fuel' - 1, by omega⟩
      simp only [csvUnescapeLoop, hload, Option.bind_eq_bind, Option.bind_some]
      split_ifs with hnul hb
      · rfl
      · cases load m (data + 1) with
        | none => rfl
        | some next =>
          cases hstore : store m data next with
          | none => simp [hstore]
          | some m' =>
            have hlen := length_store hstore
            simp only [Option.bind_some, hstore]
            exact ih (by omega) (by omega)
      · exact ih (by omega) (by omega)

/-! ## The function -/

variable {A B : List UInt8}

/-- What `csv_unescape` makes of a string, wherever it lies. -/
theorem csvUnescape_eq {t : List UInt8} (ht : nul ∉ t) (hend : ¬ EndsAlone t) :
    csvUnescape (A ++ (t ++ nul :: B)) A.length = some (A ++ (unescaped t ++ nul :: B)) :=
  csvUnescapeLoop_eq ht hend (by simp only [List.length_append, List.length_cons]; omega)

/-- **Which strings `csv_unescape` gives back, and in which it stays.** For every string that is
escaped with a backslash before some kinds of bytes and before every backslash: the result is the
string exactly if there was nothing to escape in it. And for every string, in a memory that ends
with its terminator: `csv_unescape` stops at the terminator exactly if the number of backslashes at
the end of the string is even; otherwise no number of rounds gets to the end without a read behind
it.

**Proof sketch.** A backslash and the byte behind it become that byte twice (`csvUnescapeLoop_eq`),
and in an escaped string every escaped byte is behind a backslash (`unescaped_escape`). Behind a
backslash that stands alone at the end the terminator is copied and stepped over
(`csvUnescapeLoop_none`). -/
theorem csvUnescape_iff (quotes A B : List UInt8) :
    (∀ s, nul ∉ s →
      ((csvUnescape (A ++ (escape quotes s ++ nul :: B)) A.length >>= fun m => cstring m A.length) =
        some s ↔ ∀ c ∈ s, c ∉ quotes ∧ c ≠ backslash)) ∧
    ∀ t, nul ∉ t →
      ((csvUnescape (A ++ (t ++ [nul])) A.length).isSome ↔ Even (lastBackslashes t).length) ∧
      ∀ fuel > (A ++ (t ++ [nul])).length, csvUnescapeLoop fuel (A ++ (t ++ [nul])) A.length =
        csvUnescape (A ++ (t ++ [nul])) A.length := by
  refine ⟨fun s hs => ?_, fun t ht => ⟨?_, fun fuel hfuel => ?_⟩⟩
  · rw [csvUnescape_eq (nul_notMem_escape hs) (not_endsAlone_escape quotes s), unescaped_escape]
    have hdouble : (0 : UInt8) ∉ s.flatMap fun c => if Special quotes c then [c, c] else [c] := by
      intro h
      obtain ⟨c, hc, hmem⟩ := List.mem_flatMap.mp h
      split_ifs at hmem
      · obtain rfl : 0 = c := by simpa using hmem
        exact hs hc
      · obtain rfl : 0 = c := by simpa using hmem
        exact hs hc
    rw [Option.bind_eq_bind, Option.bind_some, nul, cstring_of_not_mem hdouble rfl,
      Option.some.injEq, flatMap_double_eq_iff]
    simp only [Special, not_or]
  · by_cases hend : EndsAlone t
    · refine iff_of_false ?_ (Nat.not_even_iff_odd.mpr ((endsAlone_iff t).mp hend))
      rw [csvUnescape, csvUnescapeLoop_none ht hend]
      exact Bool.false_ne_true
    · refine iff_of_true ?_ (Nat.not_odd_iff_even.mp (mt (endsAlone_iff t).mpr hend))
      rw [csvUnescape_eq ht hend]
      rfl
  · exact csvUnescapeLoop_fuel (by omega) (by omega)

/-- A greeting without quotes, and a string that ends with two backslashes. -/
theorem csvUnescape_hello :
    (csvUnescape (cstr "hello" ++ [nul]) 0 >>= fun m => cstring m 0) = some (cstr "hello") ∧
      (csvUnescape (cstr "ab\\\\" ++ [nul]) 0).isSome := by
  have h := csvUnescape_iff [doubleQuote] [] []
  have hescape : escape [doubleQuote] (cstr "hello") = cstr "hello" := by decide +kernel
  have hhello := (h.1 (cstr "hello") (by decide +kernel)).mpr (by decide +kernel)
  rw [hescape] at hhello
  exact ⟨hhello, ((h.2 (cstr "ab\\\\") (by decide +kernel)).1).mpr (by decide +kernel)⟩

/-- The example of `csv.h` keeps its length, and a single backslash makes `csv_unescape` read behind
the terminator. -/
theorem csvUnescape_not_inverse :
    (csvUnescape (escape [doubleQuote] (cstr "hello \"world\"") ++ [nul]) 0 >>=
        fun m => cstring m 0) = some (cstr "hello \"\"world\"\"") ∧
      csvUnescape ([backslash] ++ [nul]) 0 = none := by
  constructor <;> decide +kernel

end Mproxy
