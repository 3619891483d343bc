import Mathlib.Data.List.DropRight
import Mproxy.Lib.Memory

set_option relaxedAutoImplicit false
set_option autoImplicit false

/-!
# Splitting a row

`csv.c`: a row is split in place. Commas become terminators, blanks before a field are skipped,
blanks behind a field are overwritten backwards from the comma. All accesses are to a region of
memory (`Memory`); `none` is an access outside it.

## Main definitions

* `Mproxy.csvFindNextComma`, `Mproxy.csvParse` — the functions of `csv.c`.
* `Mproxy.fieldText` — what becomes of a field without quotes.

## Main results

* `Mproxy.csvParse_unquoted` — a row without quoted fields is split at its commas, whatever lies
  before and behind it.
-/

namespace Mproxy

open Memory

/-- `'\0'` -/
def nul : UInt8 := 0

/-- `','` -/
def comma : UInt8 := 44

/-- `'"'` -/
def doubleQuote : UInt8 := 34

/-- `'\''` -/
def singleQuote : UInt8 := 39

/-- `'\\'` -/
def backslash : UInt8 := 92

/-- `is_whitespace`: a tab or a space. -/
def isWhitespace (c : UInt8) : Bool := c == 9 || c == 32

/-- `back = data - 1; while (is_whitespace(*back)) { *back = '\0'; --back; }` -/
def csvTrimBack (m : List UInt8) : ℕ → Option (List UInt8)
  | 0 => none
  | back + 1 => do
    let c ← load m back
    if isWhitespace c then
      let m ← store m back nul
      csvTrimBack m back
    else some m

/-- `csv_find_next_comma`: the memory behind the call, and the position of the comma unless `NULL`
is returned. -/
def csvFindNextComma : List UInt8 → ℕ → ℕ → UInt8 → Option (List UInt8 × Option ℕ)
  | m, _, 0, _ => some (m, none)
  | m, data, maxlen + 1, quote => do
    let c ← load m data
    if quote = nul ∧ c = comma then
      let m ← store m data nul
      let m ← csvTrimBack m data
      some (m, some data)
    else if quote ≠ nul ∧ c = quote then
      let before ← loadBefore m data
      if before ≠ backslash then
        let m ← store m data nul
        csvFindNextComma m (data + 1) maxlen nul
      else csvFindNextComma m (data + 1) maxlen quote
    else csvFindNextComma m (data + 1) maxlen quote

/-- `while (is_whitespace(*data) && len > 0) ++data, --len;` -/
def csvSkipWhitespace (m : List UInt8) : ℕ → ℕ → Option (ℕ × ℕ)
  | data, 0 => do
    let _ ← load m data
    some (data, 0)
  | data, len + 1 => do
    let c ← load m data
    if isWhitespace c then csvSkipWhitespace m (data + 1) len else some (data, len + 1)

/-- The pointer list `ret` of `csv_parse`, with `used` the number of pointers in it: it always has
room for them. -/
structure FieldList where
  ret : List ℕ
  cap : ℕ
  cap_pos : 0 < cap
  used_le : ret.length ≤ cap

/-- The list as it is allocated. -/
def FieldList.new : FieldList := ⟨[], 5, by decide, by decide⟩

/-- `ret[used++] = data`, behind the expansion of a full list. -/
def FieldList.push (f : FieldList) (data : ℕ) : FieldList where
  ret := f.ret ++ [data]
  cap := if f.ret.length = f.cap then f.cap * 2 else f.cap
  cap_pos := by
    have := f.cap_pos
    split_ifs <;> omega
  used_le := by
    have := f.cap_pos
    have := f.used_le
    rw [List.length_append, List.length_singleton]
    split_ifs <;> omega

/-- `while (len > 0)` of `csv_parse`. The first argument bounds the number of rounds; a round that
is followed by another one makes `len` smaller, so `len + 1` rounds are enough. -/
def csvParseLoop : ℕ → List UInt8 → ℕ → ℕ → FieldList → Option (List UInt8 × FieldList)
  | 0, _, _, _, _ => none
  | fuel + 1, m, data, len, ret =>
    if len = 0 then some (m, ret)
    else do
      let (data, len) ← csvSkipWhitespace m data len
      if len = 0 then
        let m ← store m data nul
        some (m, ret)
      else
        let c ← load m data
        -- the quote is skipped, but not taken off `len`
        let (quote, data) :=
          if c = doubleQuote ∨ c = singleQuote then (c, data + 1) else (nul, data)
        let ret := ret.push data
        let (m, nextDelim) ← csvFindNextComma m data len quote
        match nextDelim with
        | some next => csvParseLoop fuel m (next + 1) (len - (next - data + 1)) ret
        | none => some (m, ret)

/-- `csv_parse`: the memory behind the call and the pointers to the fields. -/
def csvParse (m : List UInt8) (data len : ℕ) : Option (List UInt8 × FieldList) :=
  csvParseLoop (len + 1) m data len .new

/-! ## Fields -/

/-- All bytes are blanks. -/
def Blank (s : List UInt8) : Prop := ∀ c ∈ s, isWhitespace c = true

/-- The blanks before a field. -/
def lead (r : List UInt8) : List UInt8 := r.takeWhile isWhitespace

/-- A field without the blanks before it. -/
def body (r : List UInt8) : List UInt8 := r.dropWhile isWhitespace

/-- A field without the blanks around it. -/
def core (r : List UInt8) : List UInt8 := (body r).rdropWhile isWhitespace

/-- The C string a field becomes if a comma follows it. -/
def fieldText (r : List UInt8) : List UInt8 := (core r).takeWhile (· ≠ 0)

/-- The C string the last field of a row becomes: the blanks behind it stay. -/
def lastText (r : List UInt8) : List UInt8 := (body r).takeWhile (· ≠ 0)

/-- A field that csv_parse takes as it is: it holds no comma and does not start with a quote. -/
def Unquoted (r : List UInt8) : Prop :=
  comma ∉ r ∧ (body r).head? ≠ some doubleQuote ∧ (body r).head? ≠ some singleQuote

/-- Trimming backwards from the end of these bytes stops in them. -/
def Solid (A : List UInt8) : Prop := ∃ x ∈ A, isWhitespace x = false

/-- The bytes of a row: every field but the last one is followed by a comma. -/
def rowOf : List (List UInt8) → List UInt8 → List UInt8
  | [], last => last
  | r :: rs, last => r ++ comma :: rowOf rs last

/-- A field is the blanks before it, and what follows. -/
lemma lead_append_body (r : List UInt8) : lead r ++ body r = r := List.takeWhile_append_dropWhile

/-- The blanks before a field are blanks. -/
lemma blank_lead (r : List UInt8) : Blank (lead r) := fun _ h => List.mem_takeWhile_imp h

/-- The body of a field starts with a byte that is not a blank. -/
lemma body_head {r : List UInt8} {c : UInt8} {t : List UInt8} (h : body r = c :: t) :
    isWhitespace c = false := by
  have hne : r.dropWhile isWhitespace ≠ [] := by
    change body r ≠ []
    rw [h]
    exact List.cons_ne_nil c t
  have hhead := List.head_dropWhile_not isWhitespace hne
  have hc : (r.dropWhile isWhitespace).head hne = c := by
    apply Option.some.inj
    rw [← List.head?_eq_some_head hne]
    change (body r).head? = some c
    rw [h]
    rfl
  rwa [hc] at hhead

/-- What a field consists of: blanks only, or blanks, a core that ends with a byte that is not a
blank, and blanks behind it. -/
lemma field_cases (r : List UInt8) : (Blank r ∧ lead r = r ∧ body r = [] ∧ core r = []) ∨
    ∃ s c t, isWhitespace c = false ∧ Blank t ∧ core r = s ++ [c] ∧ body r = s ++ c :: t := by
  by_cases hblank : Blank r
  · have hbody : body r = [] := List.dropWhile_eq_nil_iff.mpr hblank
    refine Or.inl ⟨hblank, List.takeWhile_eq_self_iff.mpr hblank, hbody, ?_⟩
    rw [core, hbody, List.rdropWhile_nil]
  · right
    have hbody : body r ≠ [] := fun h => hblank (List.dropWhile_eq_nil_iff.mp h)
    have hcore : core r ≠ [] := by
      intro h
      obtain ⟨c, t, hct⟩ := List.exists_cons_of_ne_nil hbody
      have hall := List.rdropWhile_eq_nil_iff.mp h c (by rw [hct]; exact List.mem_cons_self)
      rw [body_head hct] at hall
      exact absurd hall Bool.false_ne_true
    have hlast := List.rdropWhile_last_not isWhitespace (body r) hcore
    refine ⟨(core r).dropLast, (core r).getLast hcore, (body r).rtakeWhile isWhitespace,
      by simpa [core] using hlast, fun c hc => List.mem_rtakeWhile_imp hc,
      (List.dropLast_append_getLast hcore).symm, ?_⟩
    rw [← List.singleton_append, ← List.append_assoc, List.dropLast_append_getLast hcore]
    exact List.rdropWhile_append_rtakeWhile.symm

/-- A field without a core is blank. -/
lemma blank_of_core {r : List UInt8} (h : core r = []) : Blank r := by
  rcases field_cases r with ⟨hblank, -⟩ | ⟨s, c, t, -, -, hcore, -⟩
  · exact hblank
  · rw [hcore] at h
    exact absurd h (by simp)

/-! ## The scanners -/

section Scan

variable {A B : List UInt8}

/-- Trimming backwards overwrites the blanks before the pointer, up to a byte that is none. -/
lemma csvTrimBack_blank {x : UInt8} (hx : isWhitespace x = false) {ws : List UInt8}
    (hws : Blank ws) :
    csvTrimBack (A ++ x :: (ws ++ B)) (A.length + 1 + ws.length) =
      some (A ++ x :: (List.replicate ws.length nul ++ B)) := by
  induction ws using List.reverseRecOn generalizing B with
  | nil =>
    simp [csvTrimBack, load_seam, hx]
  | append_singleton ws w ih =>
    have hw : isWhitespace w = true := hws w (by simp)
    have hshape : ∀ b : UInt8, A ++ x :: (ws ++ [b] ++ B) = (A ++ x :: ws) ++ b :: B := by simp
    have hlen : (A ++ x :: ws).length = A.length + 1 + ws.length := by simp; omega
    have hp : A.length + 1 + (ws ++ [w]).length = A.length + 1 + ws.length + 1 := by simp; omega
    rw [hp, csvTrimBack, hshape, load_seam hlen]
    simp only [Option.bind_eq_bind, Option.bind_some, hw, if_true, store_seam hlen]
    rw [← hshape, List.append_assoc, List.singleton_append,
      ih fun c hc => hws c (List.mem_append_left _ hc)]
    simp [List.replicate_succ']

/-- Without quotes, the scan for a comma passes over bytes that are none. -/
lemma csvFindNextComma_skip {r : List UInt8} (hr : comma ∉ r) (n : ℕ) :
    csvFindNextComma (A ++ (r ++ B)) A.length (r.length + n) nul =
      csvFindNextComma (A ++ (r ++ B)) (A.length + r.length) n nul := by
  induction r generalizing A with
  | nil => simp
  | cons c r ih =>
    have hc : c ≠ comma := fun h => hr (h ▸ List.mem_cons_self)
    have hlen : (c :: r).length + n = r.length + n + 1 := by rw [List.length_cons]; omega
    have hgo := ih (A := A ++ [c]) fun h => hr (List.mem_cons_of_mem c h)
    rw [hlen, csvFindNextComma, List.cons_append, load_seam rfl]
    simp only [Option.bind_eq_bind, Option.bind_some, hc, and_false, if_false, ne_eq,
      not_true_eq_false, false_and]
    simp only [List.append_assoc, List.singleton_append, List.length_append,
      List.length_singleton] at hgo
    rw [hgo, List.length_cons]
    congr 1
    omega

/-- The blanks before a field are skipped. -/
lemma csvSkipWhitespace_blank {ws : List UInt8} (hws : Blank ws) {c : UInt8}
    (hc : isWhitespace c = false) (n : ℕ) :
    csvSkipWhitespace (A ++ (ws ++ c :: B)) A.length (ws.length + n) =
      some (A.length + ws.length, n) := by
  induction ws generalizing A with
  | nil =>
    cases n with
    | zero => simp [csvSkipWhitespace, load_seam]
    | succ n => simp [csvSkipWhitespace, load_seam, hc]
  | cons w ws ih =>
    have hw : isWhitespace w = true := hws w List.mem_cons_self
    have hlen : (w :: ws).length + n = ws.length + n + 1 := by rw [List.length_cons]; omega
    have hgo := ih (A := A ++ [w]) fun c hc => hws c (List.mem_cons_of_mem w hc)
    rw [hlen, csvSkipWhitespace, List.cons_append, load_seam rfl]
    simp only [Option.bind_eq_bind, Option.bind_some, hw, if_true]
    simp only [List.append_assoc, List.singleton_append, List.length_append,
      List.length_singleton] at hgo
    rw [hgo, List.length_cons, Nat.add_right_comm, Nat.add_assoc]

/-- Behind the blanks, an unquoted field or the byte that follows it is where `csv_parse` finds no
quote. -/
lemma Unquoted.head {r : List UInt8} (hr : Unquoted r) {b : UInt8} (hb : b = comma ∨ b = nul) :
    ∃ c t, body r ++ b :: B = c :: t ∧ isWhitespace c = false ∧
      ¬ (c = doubleQuote ∨ c = singleQuote) := by
  cases hbody : body r with
  | nil =>
    refine ⟨b, B, rfl, ?_, ?_⟩
    · rcases hb with rfl | rfl <;> rfl
    · rcases hb with rfl | rfl <;> decide
  | cons c t =>
    refine ⟨c, t ++ b :: B, rfl, body_head hbody, ?_⟩
    rintro (rfl | rfl)
    · exact hr.2.1 (by rw [hbody]; rfl)
    · exact hr.2.2 (by rw [hbody]; rfl)

/-- What a round of `csv_parse` does before it looks for a comma, at an unquoted field. -/
lemma csvParseLoop_round {r : List UInt8} (hr : Unquoted r) {b : UInt8} (hb : b = comma ∨ b = nul)
    (fuel n : ℕ) (F : FieldList) :
    csvParseLoop (fuel + 1) (A ++ (r ++ b :: B)) A.length (r.length + 1 + n) F =
      (csvFindNextComma (A ++ (r ++ b :: B)) (A.length + r.length) (1 + n) nul >>= fun p =>
        match p.2 with
        | some next => csvParseLoop fuel p.1 (next + 1)
            ((body r).length + 1 + n - (next - (A.length + (lead r).length) + 1))
            (F.push (A.length + (lead r).length))
        | none => some (p.1, F.push (A.length + (lead r).length))) := by
  obtain ⟨c, t, hct, hc, hquote⟩ := hr.head (B := B) hb
  have hrl : (lead r).length + (body r).length = r.length := by
    rw [← List.length_append, lead_append_body]
  have hm : A ++ (r ++ b :: B) = A ++ (lead r ++ c :: t) := by
    rw [← hct, ← List.append_assoc (lead r), lead_append_body]
  have hcomma : comma ∉ body r := fun h => hr.1 ((List.dropWhile_suffix _).subset h)
  have hskip : csvFindNextComma (A ++ (r ++ b :: B)) (A.length + (lead r).length)
      ((body r).length + 1 + n) nul =
      csvFindNextComma (A ++ (r ++ b :: B)) (A.length + r.length) (1 + n) nul := by
    have := csvFindNextComma_skip (A := A ++ lead r) (B := b :: B) hcomma (1 + n)
    rw [List.length_append, List.append_assoc, ← List.append_assoc (lead r), lead_append_body,
      Nat.add_assoc A.length, hrl, ← Nat.add_assoc (body r).length] at this
    exact this
  rw [csvParseLoop, if_neg (by omega), ← hskip, hm,
    show r.length + 1 + n = (lead r).length + ((body r).length + 1 + n) by omega,
    csvSkipWhitespace_blank (blank_lead r) hc]
  have hload : load (A ++ (lead r ++ c :: t)) (A.length + (lead r).length) = some c := by
    rw [← List.append_assoc]
    exact load_seam List.length_append
  simp only [Option.bind_eq_bind, Option.bind_some, hload, if_neg hquote]
  rw [if_neg (by omega)]

/-- The last byte that is not a blank, and the blanks behind it. -/
lemma Solid.split {A : List UInt8} (hA : Solid A) :
    ∃ A₀ x ws, A = A₀ ++ x :: ws ∧ isWhitespace x = false ∧ Blank ws := by
  induction A using List.reverseRecOn with
  | nil => simp [Solid] at hA
  | append_singleton A c ih =>
    by_cases hc : isWhitespace c = false
    · exact ⟨A, c, [], rfl, hc, by simp [Blank]⟩
    · obtain ⟨x, hx, hblank⟩ := hA
      have hx' : x ∈ A := by
        rcases List.mem_append.mp hx with h | h
        · exact h
        · obtain rfl := List.mem_singleton.mp h
          exact absurd hblank hc
      obtain ⟨A₀, y, ws, rfl, hy, hws⟩ := ih ⟨x, hx', hblank⟩
      refine ⟨A₀, y, ws ++ [c], by simp, hy, fun d hd => ?_⟩
      rcases List.mem_append.mp hd with h | h
      · exact hws d h
      · obtain rfl := List.mem_singleton.mp h
        simpa using hc

/-- Trimming backwards over blanks, and then over the blanks at the end of what lies before them. -/
lemma csvTrimBack_solid (hA : Solid A) {ws : List UInt8} (hws : Blank ws) :
    ∃ A', csvTrimBack (A ++ (ws ++ B)) (A.length + ws.length) =
        some (A' ++ (List.replicate ws.length nul ++ B)) ∧
      A'.length = A.length ∧ Solid A' ∧ (A.getLast? = some nul → A' = A) := by
  obtain ⟨A₀, x, ws₀, rfl, hx, hws₀⟩ := hA.split
  refine ⟨A₀ ++ x :: List.replicate ws₀.length nul, ?_, by simp, ⟨x, by simp, hx⟩, fun hlast => ?_⟩
  · have hblank : Blank (ws₀ ++ ws) := fun c hc => by
      rcases List.mem_append.mp hc with h | h
      · exact hws₀ c h
      · exact hws c h
    have htrim := csvTrimBack_blank (A := A₀) (B := B) hx hblank
    have hp : (A₀ ++ x :: ws₀).length + ws.length = A₀.length + 1 + (ws₀ ++ ws).length := by
      simp; omega
    have hm : (A₀ ++ x :: ws₀) ++ (ws ++ B) = A₀ ++ x :: (ws₀ ++ ws ++ B) := by simp
    rw [hm, hp, htrim, List.length_append, List.replicate_add]
    simp only [List.append_assoc, List.cons_append]
  · -- the last byte is no blank, so nothing is overwritten
    rcases List.eq_nil_or_concat ws₀ with rfl | ⟨ws₁, w, rfl⟩
    · rfl
    · have hw : isWhitespace w = true := hws₀ w (by simp)
      rw [List.concat_eq_append, ← List.cons_append, ← List.append_assoc,
        List.getLast?_concat] at hlast
      have : w = nul := Option.some.inj hlast
      rw [this] at hw
      exact absurd hw (by decide)

/-- **One field.** At an unquoted field that a comma follows, a round of `csv_parse` overwrites the
comma and the blanks around it, records where the field starts behind its blanks, and goes on behind
the comma. What lies before the field is changed only if the field is blank. -/
lemma csvParseLoop_field {r : List UInt8} (hA : core r = [] → Solid A) (hr : Unquoted r)
    (fuel n : ℕ) (F : FieldList) :
    ∃ A' D, A'.length = A.length ∧ (Solid A → Solid A') ∧ (A.getLast? = some nul → A' = A) ∧
      D.length = r.length ∧ cstring (D ++ [nul]) (lead r).length = some (fieldText r) ∧
      csvParseLoop (fuel + 1) (A ++ (r ++ comma :: B)) A.length (r.length + 1 + n) F =
        csvParseLoop fuel (A' ++ (D ++ nul :: B)) (A.length + r.length + 1) n
          (F.push (A.length + (lead r).length)) := by
  have hrl : (lead r).length + (body r).length = r.length := by
    rw [← List.length_append, lead_append_body]
  have hround := csvParseLoop_round (A := A) (B := B) hr (Or.inl rfl) fuel n F
  have hnext : ∀ m, csvTrimBack ((A ++ r) ++ nul :: B) (A ++ r).length = some m →
      csvFindNextComma (A ++ (r ++ comma :: B)) (A.length + r.length) (1 + n) nul =
        some (m, some (A.length + r.length)) := by
    intro m htrim
    rw [Nat.add_comm 1 n, csvFindNextComma, ← List.append_assoc, ← List.length_append,
      load_seam rfl]
    simp only [Option.bind_eq_bind, Option.bind_some, and_self, if_true, store_seam, htrim]
  have hgo : ∀ m, csvTrimBack ((A ++ r) ++ nul :: B) (A ++ r).length = some m →
      csvParseLoop (fuel + 1) (A ++ (r ++ comma :: B)) A.length (r.length + 1 + n) F =
        csvParseLoop fuel m (A.length + r.length + 1) n (F.push (A.length + (lead r).length)) := by
    intro m htrim
    rw [hround, hnext m htrim]
    simp only [Option.bind_eq_bind, Option.bind_some]
    congr 1
    omega
  rcases field_cases r with ⟨hblank, hlead, hbody, hcore⟩ | ⟨s, c, t, hc, ht, hcore, hbody⟩
  · -- the whole field is blanks, which are overwritten with those before it
    obtain ⟨A', htrim, hlen, hsolid, hlast⟩ := csvTrimBack_solid (B := nul :: B) (hA hcore) hblank
    refine ⟨A', List.replicate r.length nul, hlen, fun _ => hsolid, hlast, List.length_replicate,
      ?_, ?_⟩
    · rw [hlead, fieldText, hcore]
      exact cstring_seam (s := []) List.length_replicate
    · apply hgo
      rw [List.append_assoc, List.length_append]
      exact htrim
  · -- the blanks behind the core are overwritten
    refine ⟨A, lead r ++ (s ++ c :: List.replicate t.length nul), rfl, id, fun _ => rfl, ?_, ?_, ?_⟩
    · have : (body r).length = s.length + (t.length + 1) := by simp [hbody]
      simp
      omega
    · rw [fieldText, hcore]
      have hshape : lead r ++ (s ++ c :: List.replicate t.length nul) ++ [nul] =
          lead r ++ ((s ++ [c]) ++ nul :: List.replicate t.length nul) := by
        have : List.replicate t.length nul ++ [nul] = nul :: List.replicate t.length nul := by
          rw [← List.replicate_succ', List.replicate_succ]
        simp [this]
      rw [hshape]
      exact cstring_seam rfl
    · apply hgo
      have htrim := csvTrimBack_blank (A := A ++ lead r ++ s) (B := nul :: B) hc ht
      have hr' : r = lead r ++ (s ++ c :: t) := by rw [← hbody, lead_append_body]
      have hm : (A ++ r) ++ nul :: B = (A ++ lead r ++ s) ++ c :: (t ++ nul :: B) := by
        conv_lhs => rw [hr']
        simp
      have hp : (A ++ r).length = (A ++ lead r ++ s).length + 1 + t.length := by
        conv_lhs => rw [hr']
        simp
        omega
      rw [hm, hp, htrim]
      simp

/-- The last field of a row: `csv_parse` records where it starts behind its blanks, and ends. -/
lemma csvParseLoop_last {r : List UInt8} (hr : Unquoted r) (fuel : ℕ) (F : FieldList) :
    csvParseLoop (fuel + 1) (A ++ (r ++ nul :: B)) A.length (r.length + 1) F =
      some (A ++ (r ++ nul :: B), F.push (A.length + (lead r).length)) := by
  have hround := csvParseLoop_round (A := A) (B := B) hr (Or.inr rfl) fuel 0 F
  have hnext : csvFindNextComma (A ++ (r ++ nul :: B)) (A.length + r.length) (1 + 0) nul =
      some (A ++ (r ++ nul :: B), none) := by
    have hne : nul ≠ comma := by decide
    rw [Nat.add_zero, csvFindNextComma, ← List.append_assoc, ← List.length_append, load_seam rfl]
    simp only [Option.bind_eq_bind, Option.bind_some, hne, and_false, if_false, ne_eq,
      not_true_eq_false, false_and, csvFindNextComma]
  rw [hnext] at hround
  exact hround

/-- A part at the end of a terminated text has the terminator. -/
lemma exists_of_append_nul {A X Y : List UInt8} (h : A ++ X = Y ++ [nul]) (hX : X ≠ []) :
    ∃ D, X = D ++ [nul] := by
  refine ⟨X.dropLast, ?_⟩
  have hlast : (A ++ X).getLast (by simp [hX]) = nul := by simp [h]
  rw [List.getLast_append_of_ne_nil _ hX] at hlast
  rw [← hlast]
  exact (List.dropLast_append_getLast hX).symm

/-- A row has a byte at least for each of its commas. -/
lemma length_le_rowOf (inits : List (List UInt8)) (last : List UInt8) :
    inits.length ≤ (rowOf inits last).length := by
  induction inits with
  | nil => exact Nat.zero_le _
  | cons r rs ih =>
    simp only [rowOf, List.length_append, List.length_cons]
    omega

/-- **The fields behind the first one.** Behind a terminator, `csv_parse` splits a row of unquoted
fields at its commas; what lies before the row does not change.

**Proof sketch.** Induction on the fields. A round turns the first field and its comma into a string
and a terminator (`csvParseLoop_field`), which are then part of what lies before the rest. -/
lemma csvParseLoop_fields {inits : List (List UInt8)} {last : List UInt8}
    (hinits : ∀ r ∈ inits, Unquoted r) (hlast : Unquoted last) {fuel : ℕ}
    (hfuel : inits.length < fuel) (F : FieldList) :
    ∃ X D ps F', X ++ [nul] = A ++ nul :: D ∧ D.length + last.length = (rowOf inits last).length ∧
      csvParseLoop fuel ((A ++ [nul]) ++ (rowOf inits last ++ nul :: B)) (A ++ [nul]).length
        ((rowOf inits last).length + 1) F = some ((X ++ [nul]) ++ (last ++ nul :: B), F') ∧
      F'.ret = F.ret ++ ps ++ [(X ++ [nul]).length + (lead last).length] ∧
      List.Forall₂ (fun p r => cstring (X ++ [nul]) p = some (fieldText r)) ps inits := by
  induction inits generalizing A fuel F with
  | nil =>
    obtain ⟨fuel, rfl⟩ : ∃ k, fuel = k + 1 := ⟨fuel - 1, by simp at hfuel; omega⟩
    exact ⟨A, [], [], _, rfl, by simp [rowOf], csvParseLoop_last hlast fuel F,
      by simp [FieldList.push], .nil⟩
  | cons r rs ih =>
    obtain ⟨fuel, rfl⟩ : ∃ k, fuel = k + 1 := ⟨fuel - 1, by simp at hfuel; omega⟩
    have hr := hinits r List.mem_cons_self
    obtain ⟨A', D, -, -, hsame, hD, hstr, hround⟩ := csvParseLoop_field (A := A ++ [nul])
      (B := rowOf rs last ++ nul :: B) (fun _ => ⟨nul, by simp, rfl⟩) hr fuel
      ((rowOf rs last).length + 1) F
    obtain rfl := hsame (by simp)
    have hfuel' : rs.length < fuel := by simp at hfuel; omega
    obtain ⟨X, D', ps, F', hX, hDlen, hrun, hret, hps⟩ := ih (A := A ++ nul :: D)
      (fun q hq => hinits q (List.mem_cons_of_mem r hq)) hfuel'
      (F.push ((A ++ [nul]).length + (lead r).length))
    have hm : (A ++ [nul]) ++ (rowOf (r :: rs) last ++ nul :: B) =
        (A ++ [nul]) ++ (r ++ comma :: (rowOf rs last ++ nul :: B)) := by simp [rowOf]
    have hl : (rowOf (r :: rs) last).length + 1 = r.length + 1 + ((rowOf rs last).length + 1) := by
      simp [rowOf]
      omega
    have hm' : (A ++ [nul]) ++ (D ++ nul :: (rowOf rs last ++ nul :: B)) =
        ((A ++ nul :: D) ++ [nul]) ++ (rowOf rs last ++ nul :: B) := by simp
    have hd : (A ++ [nul]).length + r.length + 1 = ((A ++ nul :: D) ++ [nul]).length := by
      simp [hD]
      omega
    refine ⟨X, D ++ nul :: D', ((A ++ [nul]).length + (lead r).length) :: ps, F', by simp [hX], ?_,
      ?_, ?_, .cons ?_ hps⟩
    · simp only [rowOf, List.length_append, List.length_cons]
      omega
    · rw [hm, hl, hround, hm', hd, hrun]
    · rw [hret]
      simp [FieldList.push]
    · have := cstring_frame (A ++ [nul]) D' hstr
      rw [hX]
      simpa using this

/-- **A row without quoted fields is split at its commas**, whatever lies behind it, and whatever
lies before it as long as trimming a blank first field stops there. The row is given by its fields;
what was parsed is a string for each field but the last one, which is left as it is behind a
terminator. -/
theorem csvParse_unquoted {inits : List (List UInt8)} {last : List UInt8}
    (hA : ∀ r ∈ inits.head?, core r = [] → Solid A) (hinits : ∀ r ∈ inits, Unquoted r)
    (hlast : Unquoted last) :
    ∃ A' X ps F, A'.length = A.length ∧ (Solid A → Solid A') ∧
      csvParse (A ++ (rowOf inits last ++ nul :: B)) A.length ((rowOf inits last).length + 1) =
        some (A' ++ (X ++ (last ++ nul :: B)), F) ∧
      X.length + last.length = (rowOf inits last).length ∧
      (inits ≠ [] → ∃ D, X = D ++ [nul]) ∧
      F.ret = ps ++ [(A' ++ X).length + (lead last).length] ∧
      List.Forall₂ (fun p r => cstring (A' ++ X) p = some (fieldText r)) ps inits := by
  cases inits with
  | nil =>
    refine ⟨A, [], [], _, rfl, id, csvParseLoop_last hlast _ .new, by simp [rowOf], by simp,
      by simp [FieldList.push, FieldList.new], .nil⟩
  | cons r rs =>
    obtain ⟨A', D, hlen, hsolid, -, hD, hstr, hround⟩ := csvParseLoop_field (A := A)
      (B := rowOf rs last ++ nul :: B) (hA r rfl) (hinits r List.mem_cons_self)
      ((rowOf (r :: rs) last).length + 1) ((rowOf rs last).length + 1) .new
    have hfuel : rs.length < (rowOf (r :: rs) last).length + 1 := by
      have := length_le_rowOf rs last
      simp only [rowOf, List.length_append, List.length_cons]
      omega
    obtain ⟨X, D', ps, F, hX, hDlen, hrun, hret, hps⟩ := csvParseLoop_fields (A := A' ++ D) (B := B)
      (fun q hq => hinits q (List.mem_cons_of_mem r hq)) hlast hfuel
      (FieldList.new.push (A.length + (lead r).length))
    have hX' : X ++ [nul] = A' ++ (D ++ nul :: D') := by rw [hX, List.append_assoc]
    refine ⟨A', D ++ nul :: D', (A.length + (lead r).length) :: ps, F, hlen, hsolid, ?_, ?_,
      fun _ => ?_, ?_, .cons ?_ ?_⟩
    · have hm : A ++ (rowOf (r :: rs) last ++ nul :: B) =
          A ++ (r ++ comma :: (rowOf rs last ++ nul :: B)) := by simp [rowOf]
      have hl : (rowOf (r :: rs) last).length + 1 =
          r.length + 1 + ((rowOf rs last).length + 1) := by
        simp only [rowOf, List.length_append, List.length_cons]
        omega
      have hm' : A' ++ (D ++ nul :: (rowOf rs last ++ nul :: B)) =
          ((A' ++ D) ++ [nul]) ++ (rowOf rs last ++ nul :: B) := by simp
      have hd : A.length + r.length + 1 = ((A' ++ D) ++ [nul]).length := by
        simp only [← hlen, ← hD, List.length_append, List.length_singleton]
      rw [csvParse, hm]
      rw [← hl] at hround
      rw [hround, hm', hd, hrun, hX']
      simp
    · simp only [rowOf, List.length_append, List.length_cons]
      omega
    · exact exists_of_append_nul hX'.symm (by simp)
    · rw [hret, hX']
      simp [FieldList.push, FieldList.new]
    · have := cstring_frame A' D' hstr
      rw [hlen] at this
      simpa using this
    · rw [hX'] at hps
      exact hps

end Scan

end Mproxy
