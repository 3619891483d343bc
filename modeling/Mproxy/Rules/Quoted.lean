import Mproxy.Rules.Escape
import Mproxy.Rules.Split

set_option relaxedAutoImplicit false
set_option autoImplicit false

/-!
# Rows of quoted fields

A row whose fields are quoted, with a backslash before every double quote and every backslash in
them. `csv_find_next_comma` takes a quote for the closing one unless the byte before it is a
backslash, so it passes over the closing quote of a field that ends with an escaped backslash. And
since the opening quotes are not counted, it looks at as many bytes behind the row as the row has
fields, and takes a comma among them for one more delimiter.

## Main definitions

* `Mproxy.quoteField` — the bytes of a quoted field.
* `Mproxy.Harmless` — what may lie behind a row of quoted fields.

## Main results

* `Mproxy.csvParseLoop_keeps` — a parse does not change what is behind it.
* `Mproxy.csvParse_quoted_iff` — which rows of quoted fields are split into their fields.
-/

namespace Mproxy

open Memory

/-- A field in double quotes, with a backslash before every double quote and every backslash. -/
def quoteField (s : List UInt8) : List UInt8 :=
  doubleQuote :: (escape [doubleQuote] s ++ [doubleQuote])

/-- The row of quoted fields. -/
def quotedRow (inits : List (List UInt8)) (last : List UInt8) : List UInt8 :=
  rowOf (inits.map quoteField) (quoteField last)

/-- The bytes behind the first comma. -/
def behindComma (E : List UInt8) : List UInt8 := (E.dropWhile (· ≠ comma)).drop 1

/-- What may lie behind a row of `n` quoted fields: there are `n` more bytes, and nothing but blanks
behind the first comma among them, with one more byte behind these. -/
def Harmless (n : ℕ) (B : List UInt8) : Prop :=
  n ≤ B.length ∧ Blank (behindComma (B.take n)) ∧ (behindComma (B.take n) ≠ [] → n < B.length)

instance (n : ℕ) (B : List UInt8) : Decidable (Harmless n B) :=
  inferInstanceAs (Decidable (_ ∧ (∀ c ∈ behindComma (B.take n), isWhitespace c = true) ∧ _))

/-- An empty text is blank. -/
lemma blank_nil : Blank [] := by simp [Blank]

/-! ## What a parse does not change -/

section Keeps

variable {X Y : List UInt8} {x : UInt8}

/-- What is stored behind a byte leaves it and what is before it. -/
lemma store_keeps {m' : List UInt8} {p : ℕ} {b : UInt8} (h : store (X ++ x :: Y) p b = some m')
    (hp : X.length < p) : ∃ Y', m' = X ++ x :: Y' := by
  unfold store at h
  split_ifs at h
  obtain ⟨q, rfl⟩ : ∃ q, p = X.length + (q + 1) := ⟨p - X.length - 1, by omega⟩
  refine ⟨Y.set q b, ?_⟩
  rw [← Option.some.inj h, List.set_append_right _ _ (Nat.le_add_right _ _),
    Nat.add_sub_cancel_left, List.set_cons_succ]

/-- Trimming backwards does not go over a byte that is no blank. -/
lemma csvTrimBack_keeps {m' : List UInt8} {data : ℕ} (hx : isWhitespace x = false)
    (h : csvTrimBack (X ++ x :: Y) data = some m') (hdata : X.length < data) :
    ∃ Y', m' = X ++ x :: Y' := by
  induction data generalizing Y with
  | zero => omega
  | succ back ih =>
    simp only [csvTrimBack, Option.bind_eq_bind, Option.bind_eq_some_iff] at h
    obtain ⟨c, hc, h⟩ := h
    split_ifs at h with hblank
    · obtain ⟨m₁, hm₁, h⟩ := Option.bind_eq_some_iff.mp h
      have hne : back ≠ X.length := by
        rintro rfl
        rw [load_seam rfl] at hc
        obtain rfl := Option.some.inj hc
        rw [hx] at hblank
        cases hblank
      obtain ⟨Y₁, rfl⟩ := store_keeps hm₁ (by omega)
      exact ih h (by omega)
    · exact ⟨Y, (Option.some.inj h).symm⟩

/-- The scan for a comma leaves what is before it, up to a byte that is no blank. -/
lemma csvFindNextComma_keeps {m' : List UInt8} {data len : ℕ} {quote : UInt8} {next : Option ℕ}
    (hx : isWhitespace x = false)
    (h : csvFindNextComma (X ++ x :: Y) data len quote = some (m', next))
    (hdata : X.length < data) : (∃ Y', m' = X ++ x :: Y') ∧ ∀ n ∈ next, X.length < n := by
  induction len generalizing Y data quote with
  | zero =>
    obtain ⟨rfl, rfl⟩ := Prod.mk.inj (Option.some.inj h)
    exact ⟨⟨Y, rfl⟩, by simp⟩
  | succ len ih =>
    simp only [csvFindNextComma, Option.bind_eq_bind, Option.bind_eq_some_iff] at h
    obtain ⟨c, -, h⟩ := h
    split_ifs at h with hcomma hquote
    · obtain ⟨m₁, hm₁, m₂, hm₂, h⟩ := by simpa only [Option.bind_eq_some_iff] using h
      obtain ⟨rfl, rfl⟩ := Prod.mk.inj (Option.some.inj h)
      obtain ⟨Y₁, rfl⟩ := store_keeps hm₁ hdata
      exact ⟨csvTrimBack_keeps hx hm₂ hdata, by simpa using hdata⟩
    · obtain ⟨before, -, h⟩ := Option.bind_eq_some_iff.mp h
      split_ifs at h
      · obtain ⟨m₁, hm₁, h⟩ := Option.bind_eq_some_iff.mp h
        obtain ⟨Y₁, rfl⟩ := store_keeps hm₁ hdata
        exact ih h (by omega)
      · exact ih h (by omega)
    · exact ih h (by omega)

/-- What follows the scan for a comma in a round of `csv_parse`. -/
def afterScan (fuel data len : ℕ) (F : FieldList) (p : List UInt8 × Option ℕ) :
    Option (List UInt8 × FieldList) :=
  match p.2 with
  | some next => csvParseLoop fuel p.1 (next + 1) (len - (next - data + 1)) F
  | none => some (p.1, F)

/-- What a parse that found the bytes `m` and the fields `F` may end with. -/
def Keeps (X : List UInt8) (x : UInt8) (F : FieldList) (m' : List UInt8) (F' : FieldList) : Prop :=
  (∃ Y', m' = X ++ x :: Y') ∧ ∃ ps, F'.ret = F.ret ++ ps

/-- The scan for a comma and what follows it, if all further rounds leave what is behind them. -/
lemma afterScan_keeps {m' : List UInt8} {fuel data len d L : ℕ} {quote : UInt8} {F F' : FieldList}
    (hx : isWhitespace x = false)
    (hloop : ∀ Y data len, csvParseLoop fuel (X ++ x :: Y) data len F = some (m', F') →
      X.length < data → Keeps X x F m' F')
    (h : (csvFindNextComma (X ++ x :: Y) data len quote >>= afterScan fuel d L F) = some (m', F'))
    (hdata : X.length < data) : Keeps X x F m' F' := by
  obtain ⟨⟨m₁, next⟩, hfind, h⟩ := Option.bind_eq_some_iff.mp h
  obtain ⟨⟨Y₁, rfl⟩, hnext⟩ := csvFindNextComma_keeps hx hfind hdata
  cases next with
  | none =>
    obtain ⟨rfl, rfl⟩ := Prod.mk.inj (Option.some.inj h)
    exact ⟨⟨Y₁, rfl⟩, [], by simp⟩
  | some n =>
    have := hnext n rfl
    exact hloop _ _ _ h (by omega)

/-- A round that finds a field records it. -/
lemma Keeps.of_push {m' : List UInt8} {data : ℕ} {F F' : FieldList}
    (h : Keeps X x (F.push data) m' F') : Keeps X x F m' F' := by
  obtain ⟨hm, ps, hps⟩ := h
  exact ⟨hm, data :: ps, by rw [hps]; simp [FieldList.push]⟩

/-- **A parse leaves what is behind it**: the bytes up to one that is no blank, and the fields that
were recorded. -/
lemma csvParseLoop_keeps {m' : List UInt8} {fuel data len : ℕ} {F F' : FieldList}
    (hx : isWhitespace x = false) (h : csvParseLoop fuel (X ++ x :: Y) data len F = some (m', F'))
    (hdata : X.length < data) : Keeps X x F m' F' := by
  induction fuel generalizing Y data len F with
  | zero => cases h
  | succ fuel ih =>
    rw [csvParseLoop] at h
    split_ifs at h
    · obtain ⟨rfl, rfl⟩ := Prod.mk.inj (Option.some.inj h)
      exact ⟨⟨Y, rfl⟩, [], by simp⟩
    obtain ⟨⟨data', len'⟩, hskip, h⟩ := Option.bind_eq_some_iff.mp h
    have hge := (csvSkipWhitespace_bounds hskip).2.1
    simp only at h
    split_ifs at h
    · obtain ⟨m₁, hm₁, h⟩ := Option.bind_eq_some_iff.mp h
      obtain ⟨rfl, rfl⟩ := Prod.mk.inj (Option.some.inj h)
      exact ⟨store_keeps hm₁ (by omega), [], by simp⟩
    obtain ⟨c, -, h⟩ := Option.bind_eq_some_iff.mp h
    split_ifs at h
    · exact (afterScan_keeps hx (fun Y data len => ih) h (by omega)).of_push
    · exact (afterScan_keeps hx (fun Y data len => ih) h (by omega)).of_push

end Keeps

/-! ## Behind the row -/

section Behind

variable {A w : List UInt8}

/-- Blanks that are all that is counted. -/
lemma csvSkipWhitespace_all {ws B : List UInt8} (hws : Blank ws) {c : UInt8} :
    csvSkipWhitespace (A ++ (ws ++ c :: B)) A.length ws.length =
      some (A.length + ws.length, 0) := by
  induction ws generalizing A with
  | nil => simp [csvSkipWhitespace, load_seam]
  | cons w ws ih =>
    have hw : isWhitespace w = true := hws w List.mem_cons_self
    have hm : A ++ w :: (ws ++ c :: B) = (A ++ [w]) ++ (ws ++ c :: B) := by simp
    rw [List.length_cons, csvSkipWhitespace, List.cons_append, load_seam rfl]
    simp only [Option.bind_eq_bind, Option.bind_some, hw, if_true]
    rw [hm, show A.length + 1 = (A ++ [w]).length by simp,
      ih fun c hc => hws c (List.mem_cons_of_mem w hc), List.length_append, List.length_singleton,
      Nat.add_assoc, Nat.add_comm 1]

/-- Where nothing else is counted, all that is counted are blanks, with one more byte behind them.
-/
lemma csvSkipWhitespace_zero {j d : ℕ} (h : csvSkipWhitespace (A ++ w) A.length j = some (d, 0)) :
    Blank (w.take j) ∧ j < w.length := by
  induction j generalizing A w with
  | zero =>
    have hlt := (csvSkipWhitespace_bounds h).2
    rw [List.length_append] at hlt
    exact ⟨by simp [Blank], by omega⟩
  | succ j ih =>
    cases w with
    | nil =>
      have hload : load (A ++ []) A.length = none := List.getElem?_eq_none (by simp)
      rw [csvSkipWhitespace, hload] at h
      cases h
    | cons c w =>
      have hm : A ++ c :: w = (A ++ [c]) ++ w := by simp
      rw [csvSkipWhitespace, load_seam rfl] at h
      simp only [Option.bind_eq_bind, Option.bind_some] at h
      split_ifs at h with hc
      · rw [hm, show A.length + 1 = (A ++ [c]).length by simp] at h
        obtain ⟨hblank, hlt⟩ := ih h
        refine ⟨?_, Nat.succ_lt_succ hlt⟩
        rw [List.take_succ_cons]
        exact List.forall_mem_cons.mpr ⟨hc, hblank⟩
      · cases h

/-- A parse behind a terminator finds no more field exactly if nothing is counted, or nothing but
blanks. -/
lemma csvParseLoop_blanks_iff (fuel j : ℕ) (F : FieldList) :
    (∃ m F', csvParseLoop (fuel + 1) (A ++ nul :: w) (A.length + 1) j F = some (m, F') ∧
      F'.ret = F.ret) ↔ j = 0 ∨ Blank (w.take j) ∧ j < w.length := by
  have hm : A ++ nul :: w = (A ++ [nul]) ++ w := by simp
  have hd : A.length + 1 = (A ++ [nul]).length := by simp
  constructor
  · rintro ⟨m, F', h, hret⟩
    by_cases hj : j = 0
    · exact Or.inl hj
    rw [csvParseLoop, if_neg hj] at h
    obtain ⟨⟨data', len'⟩, hskip, h⟩ := Option.bind_eq_some_iff.mp h
    have hge := (csvSkipWhitespace_bounds hskip).2.1
    simp only at h
    split_ifs at h with hlen
    · subst hlen
      rw [hm, hd] at hskip
      exact Or.inr (csvSkipWhitespace_zero hskip)
    obtain ⟨c, -, h⟩ := Option.bind_eq_some_iff.mp h
    -- one more field is recorded
    have hmore : ∀ {d : ℕ}, ¬ Keeps A nul (F.push d) m F' := by
      rintro d ⟨-, ps, hps⟩
      rw [hret] at hps
      have := congrArg List.length hps
      simp only [FieldList.push, List.length_append, List.length_singleton] at this
      omega
    split_ifs at h
    · have hkeeps := afterScan_keeps rfl (fun Y data len => csvParseLoop_keeps rfl) h (by omega)
      exact absurd hkeeps hmore
    · have hkeeps := afterScan_keeps rfl (fun Y data len => csvParseLoop_keeps rfl) h (by omega)
      exact absurd hkeeps hmore
  · intro h
    by_cases hj : j = 0
    · exact ⟨_, F, by rw [csvParseLoop, if_pos hj], rfl⟩
    obtain ⟨hblank, hlt⟩ := h.resolve_left hj
    obtain ⟨c, w', hw⟩ : ∃ c w', w.drop j = c :: w' :=
      List.exists_cons_of_ne_nil fun h => by rw [List.drop_eq_nil_iff] at h; omega
    have hsplit : w = w.take j ++ c :: w' := by rw [← hw, List.take_append_drop]
    have hskip := csvSkipWhitespace_all (A := A ++ [nul]) (c := c) (B := w') hblank
    rw [← hsplit, List.length_take_of_le hlt.le] at hskip
    rw [csvParseLoop, if_neg hj, hm, hd, hskip]
    have hstore : store (A ++ [nul] ++ w) ((A ++ [nul]).length + j) nul =
        some ((A ++ [nul] ++ w.take j) ++ nul :: w') := by
      conv_lhs => rw [hsplit, ← List.append_assoc]
      exact store_seam (by rw [List.length_append, List.length_take_of_le hlt.le])
    simp only [Option.bind_eq_bind, Option.bind_some, if_true, hstore]
    exact ⟨_, F, rfl, rfl⟩

end Behind

/-! ### What is counted behind the row -/

/-- There is nothing behind a comma that is not there. -/
lemma behindComma_of_notMem {E : List UInt8} (hE : comma ∉ E) : behindComma E = [] := by
  rw [behindComma, List.dropWhile_eq_nil_iff.mpr, List.drop_nil]
  intro c hc
  simp only [ne_eq, decide_not, Bool.not_eq_eq_eq_not, Bool.not_true, decide_eq_false_iff_not]
  rintro rfl
  exact hE hc

/-- What is behind the first comma. -/
lemma behindComma_append {u w : List UInt8} (hu : comma ∉ u) :
    behindComma (u ++ comma :: w) = w := by
  have hpos : ∀ c ∈ u, decide (c ≠ comma) = true := by
    intro c hc
    simp only [decide_eq_true_eq]
    rintro rfl
    exact hu hc
  rw [behindComma, List.dropWhile_append_of_pos hpos, List.dropWhile_cons_of_neg (by simp),
    List.drop_succ_cons, List.drop_zero]

/-- Without a comma among the bytes that are counted, they only have to be there. -/
lemma harmless_iff_of_notMem {k : ℕ} {B : List UInt8} (h : comma ∉ B.take k) :
    Harmless k B ↔ k ≤ B.length := by
  rw [Harmless, behindComma_of_notMem h]
  simp [Blank]

/-- With a comma among them, it matters what is behind it. -/
lemma harmless_iff_of_comma {k : ℕ} {u w : List UInt8} (hu : comma ∉ u) (hk : u.length < k) :
    Harmless k (u ++ comma :: w) ↔ k - u.length - 1 = 0 ∨
      Blank (w.take (k - u.length - 1)) ∧ k - u.length - 1 < w.length := by
  obtain ⟨j, rfl⟩ : ∃ j, k = u.length + (j + 1) := ⟨k - u.length - 1, by omega⟩
  have htake : (u ++ comma :: w).take (u.length + (j + 1)) = u ++ comma :: w.take j := by
    rw [List.take_append, List.take_of_length_le (by omega), Nat.add_sub_cancel_left,
      List.take_succ_cons]
  have hj : u.length + (j + 1) - u.length - 1 = j := by omega
  rw [Harmless, htake, behindComma_append hu, hj, List.length_append, List.length_cons]
  constructor
  · rintro ⟨hlen, hblank, hroom⟩
    by_cases hzero : j = 0
    · exact Or.inl hzero
    · have hw : w.take j ≠ [] := by
        rw [Ne, List.take_eq_nil_iff, not_or, ← List.length_eq_zero_iff]
        omega
      have := hroom hw
      exact Or.inr ⟨hblank, by omega⟩
  · rintro (rfl | ⟨hblank, hlt⟩)
    · exact ⟨by omega, by simp [Blank], by simp⟩
    · exact ⟨by omega, hblank, fun _ => by omega⟩

/-- No comma is found behind the row. -/
lemma scan_behind_none {Z B : List UInt8} {fuel d L k : ℕ} {F : FieldList}
    (h : comma ∉ B.take k) :
    (∃ m F', (csvFindNextComma (Z ++ nul :: B) Z.length (1 + k) nul >>=
        afterScan fuel d L F) = some (m, F') ∧ F'.ret = F.ret) ↔ k ≤ B.length := by
  have hnul : comma ≠ nul := by decide
  have hr : comma ∉ nul :: B.take k := by simp [hnul, h]
  have hskip := csvFindNextComma_skip (A := Z) (B := B.drop k) hr (k - (B.take k).length)
  have hB : Z ++ (nul :: B.take k ++ B.drop k) = Z ++ nul :: B := by simp
  have hcount : (nul :: B.take k).length + (k - (B.take k).length) = 1 + k := by
    rw [List.length_cons, List.length_take]
    omega
  rw [hB, hcount] at hskip
  rw [hskip]
  by_cases hk : k ≤ B.length
  · refine iff_of_true ?_ hk
    rw [List.length_take_of_le hk, Nat.sub_self, csvFindNextComma]
    exact ⟨_, F, rfl, rfl⟩
  · -- the bytes end before the count does
    refine iff_of_false ?_ hk
    have hload : load (Z ++ nul :: B) (Z.length + (nul :: B.take k).length) = none := by
      refine List.getElem?_eq_none ?_
      rw [List.length_append, List.length_cons, List.length_cons, List.length_take]
      omega
    obtain ⟨n, hn⟩ : ∃ n, k - (B.take k).length = n + 1 :=
      ⟨k - (B.take k).length - 1, by rw [List.length_take]; omega⟩
    rw [hn, csvFindNextComma, hload]
    rintro ⟨m, F', hrun, -⟩
    cases hrun

/-- A comma is found behind the row. The trimming stops at the terminator of the row at the latest,
and the parse goes on behind the comma. -/
lemma scan_behind_comma {Z u w : List UInt8} {fuel d L k : ℕ} {F : FieldList} (hu : comma ∉ u)
    (hk : u.length < k) (hd : d ≤ Z.length) (hL : d + L = Z.length + 1 + k) :
    (∃ m F', (csvFindNextComma (Z ++ nul :: (u ++ comma :: w)) Z.length (1 + k) nul >>=
        afterScan (fuel + 1) d L F) = some (m, F') ∧ F'.ret = F.ret) ↔
      k - u.length - 1 = 0 ∨
        Blank (w.take (k - u.length - 1)) ∧ k - u.length - 1 < w.length := by
  have hnul : comma ≠ nul := by decide
  have hr : comma ∉ nul :: u := by simp [hnul, hu]
  have hskip := csvFindNextComma_skip (A := Z) (B := comma :: w) hr (k - u.length - 1 + 1)
  have hcount : (nul :: u).length + (k - u.length - 1 + 1) = 1 + k := by
    rw [List.length_cons]
    omega
  have hm : Z ++ (nul :: u ++ comma :: w) = (Z ++ nul :: u) ++ comma :: w := by simp
  have hlen : Z.length + (nul :: u).length = (Z ++ nul :: u).length := List.length_append.symm
  obtain ⟨A', htrim, hA', -, -⟩ := csvTrimBack_solid (A := Z ++ nul :: u) (B := nul :: w)
    ⟨nul, by simp, rfl⟩ blank_nil
  simp only [List.nil_append, List.length_nil, Nat.add_zero, List.replicate_zero] at htrim
  have hfind : csvFindNextComma ((Z ++ nul :: u) ++ comma :: w) (Z ++ nul :: u).length
      (k - u.length - 1 + 1) nul = some (A' ++ nul :: w, some (Z ++ nul :: u).length) := by
    rw [csvFindNextComma, load_seam rfl]
    simp only [Option.bind_eq_bind, Option.bind_some, and_self, if_true, store_seam, htrim]
  rw [List.cons_append, hcount, ← List.cons_append, hm, hlen, hfind] at hskip
  rw [← List.cons_append, hm, hskip, Option.bind_eq_bind, Option.bind_some, afterScan, ← hA']
  have hrest : L - (A'.length - d + 1) = k - u.length - 1 := by
    rw [hA', List.length_append, List.length_cons]
    omega
  simp only [hrest]
  exact csvParseLoop_blanks_iff fuel _ F

/-- **What lies behind the last field.** Behind the terminator of a row, the scan for a comma and
what follows it find no more field exactly if what is counted there is harmless. -/
lemma scan_behind_iff {Z B : List UInt8} {fuel d L k : ℕ} {F : FieldList} (hd : d ≤ Z.length)
    (hL : d + L = Z.length + 1 + k) :
    (∃ m F', (csvFindNextComma (Z ++ nul :: B) Z.length (1 + k) nul >>=
        afterScan (fuel + 1) d L F) = some (m, F') ∧ F'.ret = F.ret) ↔ Harmless k B := by
  by_cases hcomma : comma ∈ B.take k
  · obtain ⟨u, w, hB, hu⟩ := List.eq_append_cons_of_mem ((List.take_subset k B) hcomma)
    have hk : u.length < k := by
      by_contra hle
      rw [hB, List.take_append_of_le_length (by omega)] at hcomma
      exact hu ((List.take_subset k u) hcomma)
    rw [hB, harmless_iff_of_comma hu hk]
    exact scan_behind_comma hu hk hd hL
  · rw [harmless_iff_of_notMem hcomma]
    exact scan_behind_none hcomma

/-! ## The scan of a quoted field -/

section Scan

variable {A B C : List UInt8}

/-- Inside quotes, a byte that is no double quote is passed over. -/
lemma scan_byte {c : UInt8} (hc : c ≠ doubleQuote) (n : ℕ) :
    csvFindNextComma (A ++ c :: C) A.length (n + 1) doubleQuote =
      csvFindNextComma (A ++ c :: C) (A.length + 1) n doubleQuote := by
  have hq : doubleQuote ≠ nul := by decide
  rw [csvFindNextComma, load_seam rfl]
  simp only [Option.bind_eq_bind, Option.bind_some, hq, hc, false_and, and_false, if_false]

/-- Inside quotes, every byte behind a backslash is passed over. -/
lemma scan_escaped (c : UInt8) (n : ℕ) :
    csvFindNextComma (A ++ backslash :: c :: C) (A.length + 1) (n + 1) doubleQuote =
      csvFindNextComma (A ++ backslash :: c :: C) (A.length + 2) n doubleQuote := by
  have hm : A ++ backslash :: c :: C = (A ++ [backslash]) ++ c :: C := by simp
  by_cases hc : c = doubleQuote
  · subst hc
    have hq : doubleQuote ≠ nul := by decide
    rw [csvFindNextComma, loadBefore_seam rfl]
    rw [hm, load_seam (by simp)]
    simp only [Option.bind_eq_bind, Option.bind_some, hq, false_and, if_false, ne_eq,
      not_false_eq_true, and_self, if_true, not_true_eq_false]
  · have := scan_byte (A := A ++ [backslash]) (C := C) hc n
    rw [← hm, List.length_append, List.length_singleton] at this
    exact this

/-- Inside quotes, an escaped string is passed over. -/
lemma scan_escape (s : List UInt8) (n : ℕ) :
    csvFindNextComma (A ++ (escape [doubleQuote] s ++ C)) A.length
        ((escape [doubleQuote] s).length + n) doubleQuote =
      csvFindNextComma (A ++ (escape [doubleQuote] s ++ C))
        (A.length + (escape [doubleQuote] s).length) n doubleQuote := by
  induction s generalizing A with
  | nil => simp [escape]
  | cons c s ih =>
    rw [escape]
    split_ifs with hc
    · have hb : backslash ≠ doubleQuote := by decide
      have hm : A ++ (backslash :: c :: escape [doubleQuote] s ++ C) =
          (A ++ [backslash, c]) ++ (escape [doubleQuote] s ++ C) := by simp
      have hgo := ih (A := A ++ [backslash, c])
      rw [← hm, List.length_append] at hgo
      rw [show (backslash :: c :: escape [doubleQuote] s).length + n =
          (escape [doubleQuote] s).length + n + 1 + 1 by simp only [List.length_cons]; omega,
        List.cons_append, List.cons_append, scan_byte hb, scan_escaped]
      refine hgo.trans ?_
      congr 1
      simp only [List.length_cons, List.length_nil]
      omega
    · have hq : c ≠ doubleQuote := fun h => hc (Or.inl (by simp [h]))
      have hm : A ++ (c :: escape [doubleQuote] s ++ C) =
          (A ++ [c]) ++ (escape [doubleQuote] s ++ C) := by simp
      have hgo := ih (A := A ++ [c])
      rw [← hm, List.length_append] at hgo
      rw [show (c :: escape [doubleQuote] s).length + n =
          (escape [doubleQuote] s).length + n + 1 by simp only [List.length_cons]; omega,
        List.cons_append, scan_byte hq]
      refine hgo.trans ?_
      congr 1
      simp only [List.length_cons, List.length_nil]
      omega

/-- A quote behind a byte that is no backslash is the closing one. -/
lemma scan_close {b : UInt8} (hb : b ≠ backslash) (n : ℕ) :
    csvFindNextComma (A ++ b :: doubleQuote :: C) (A.length + 1) (n + 1) doubleQuote =
      csvFindNextComma (A ++ b :: nul :: C) (A.length + 2) n nul := by
  have hq : doubleQuote ≠ nul := by decide
  have hm : ∀ x, A ++ b :: x :: C = (A ++ [b]) ++ x :: C := by simp
  have hlen : (A ++ [b]).length = A.length + 1 := by simp
  rw [csvFindNextComma, loadBefore_seam rfl, hm, load_seam hlen]
  simp only [Option.bind_eq_bind, Option.bind_some, hq, false_and, if_false, ne_eq,
    not_false_eq_true, and_self, if_true, hb, store_seam hlen]
  rw [← hm]

/-- The bytes of a quoted field without the closing quote. -/
def openField (s : List UInt8) : List UInt8 := doubleQuote :: escape [doubleQuote] s

/-- A quoted field is its bytes without the closing quote, and the quote. -/
lemma quoteField_eq (s : List UInt8) : quoteField s = openField s ++ [doubleQuote] := rfl

/-- It is a byte longer than these. -/
lemma length_quoteField (s : List UInt8) : (quoteField s).length = (openField s).length + 1 := by
  rw [quoteField_eq, List.length_append, List.length_singleton]

/-- The last byte before the closing quote: the last one of the text, or else the opening quote. -/
lemma getLast?_openField (s : List UInt8) :
    (openField s).getLast? = some (s.getLast?.getD doubleQuote) := by
  unfold openField
  cases h : escape [doubleQuote] s with
  | nil =>
    have := getLast?_escape [doubleQuote] s
    rw [h] at this
    rw [← this]
    rfl
  | cons c t =>
    rw [List.getLast?_cons_cons, ← h, getLast?_escape]
    have hne : s.getLast? ≠ none := by
      rw [← getLast?_escape [doubleQuote] s, h]
      simp
    obtain ⟨x, hx⟩ := Option.ne_none_iff_exists'.mp hne
    rw [hx]
    rfl

/-- At a quoted field, a round of `csv_parse` records where its content starts and scans it. -/
lemma csvParseLoop_open (s : List UInt8) (fuel n : ℕ) (F : FieldList) :
    csvParseLoop (fuel + 1) (A ++ (quoteField s ++ C)) A.length ((quoteField s).length + n) F =
      (csvFindNextComma (A ++ (quoteField s ++ C)) (A.length + (openField s).length) (2 + n)
          doubleQuote >>=
        afterScan fuel (A.length + 1) ((quoteField s).length + n) (F.push (A.length + 1))) := by
  have hq : isWhitespace doubleQuote = false := by decide
  have hm : A ++ (quoteField s ++ C) =
      A ++ doubleQuote :: (escape [doubleQuote] s ++ (doubleQuote :: C)) := by
    simp [quoteField]
  have hm' : A ++ doubleQuote :: (escape [doubleQuote] s ++ (doubleQuote :: C)) =
      (A ++ [doubleQuote]) ++ (escape [doubleQuote] s ++ (doubleQuote :: C)) := by simp
  have hlen : (quoteField s).length + n = (escape [doubleQuote] s).length + (2 + n) := by
    simp only [quoteField, List.length_cons, List.length_append, List.length_nil]
    omega
  have hskip := csvSkipWhitespace_blank (A := A) blank_nil hq
    (B := escape [doubleQuote] s ++ (doubleQuote :: C)) ((quoteField s).length + n)
  simp only [List.nil_append, List.length_nil, Nat.zero_add, Nat.add_zero] at hskip
  have hscan := scan_escape (A := A ++ [doubleQuote]) (C := doubleQuote :: C) s (2 + n)
  rw [← hm', List.length_append, List.length_singleton, ← hlen] at hscan
  have hne : (quoteField s).length + n ≠ 0 := by rw [length_quoteField]; omega
  rw [csvParseLoop, if_neg hne, hm, hskip]
  simp only [Option.bind_eq_bind, Option.bind_some, if_neg hne, load_seam, true_or, if_true]
  rw [hscan, openField, List.length_cons, Nat.add_assoc A.length 1,
    Nat.add_comm 1 (escape [doubleQuote] s).length]
  rfl

/-- The last byte of a quoted field before the closing quote. -/
lemma openField_concat (s : List UInt8) :
    ∃ w, openField s = w ++ [s.getLast?.getD doubleQuote] :=
  List.getLast?_eq_some_iff.mp (getLast?_openField s)

/-- **A field whose closing quote is found.** -/
lemma csvParseLoop_closed {s : List UInt8} (hs : s.getLast? ≠ some backslash) (fuel n : ℕ)
    (F : FieldList) :
    csvParseLoop (fuel + 1) (A ++ (quoteField s ++ C)) A.length ((quoteField s).length + n) F =
      (csvFindNextComma (A ++ (openField s ++ nul :: C)) (A.length + (quoteField s).length) (1 + n)
          nul >>=
        afterScan fuel (A.length + 1) ((quoteField s).length + n) (F.push (A.length + 1))) := by
  obtain ⟨w, hw⟩ := openField_concat s
  have hb : s.getLast?.getD doubleQuote ≠ backslash := by
    intro h
    cases hlast : s.getLast? with
    | none =>
      rw [hlast] at h
      exact absurd h (by decide)
    | some b =>
      rw [hlast] at h hs
      exact hs (congrArg some h)
  have hm : ∀ x, A ++ (openField s ++ x :: C) =
      (A ++ w) ++ s.getLast?.getD doubleQuote :: x :: C := by
    intro x
    rw [hw]
    simp
  have hlen : (openField s).length = w.length + 1 := by
    rw [hw, List.length_append, List.length_singleton]
  have hclose := scan_close (A := A ++ w) (C := C) hb (1 + n)
  rw [← hm, ← hm, List.length_append, Nat.add_assoc, ← hlen, Nat.add_assoc A.length w.length 2,
    show w.length + 2 = (quoteField s).length by rw [length_quoteField, hlen]] at hclose
  rw [csvParseLoop_open, ← hclose, quoteField_eq, List.append_assoc, List.singleton_append,
    show 2 + n = 1 + n + 1 by omega]

/-- A field that ends with a backslash: its closing quote is passed over, and is still there when
the parse ends. -/
lemma csvParseLoop_swallowed {s : List UInt8} (hs : s.getLast? = some backslash) {fuel n : ℕ}
    {F F' : FieldList} {m : List UInt8}
    (h : csvParseLoop (fuel + 1) (A ++ (quoteField s ++ C)) A.length ((quoteField s).length + n) F =
      some (m, F')) : Keeps (A ++ openField s) doubleQuote (F.push (A.length + 1)) m F' := by
  obtain ⟨w, hw⟩ := openField_concat s
  rw [hs, Option.getD_some] at hw
  have hm : A ++ (quoteField s ++ C) = (A ++ openField s) ++ doubleQuote :: C := by
    rw [quoteField_eq]
    simp
  have hm' : A ++ (quoteField s ++ C) = (A ++ w) ++ backslash :: doubleQuote :: C := by
    rw [quoteField_eq, hw]
    simp
  have hlen : A.length + (openField s).length = (A ++ w).length + 1 := by
    rw [hw, List.length_append, List.length_append, List.length_singleton, Nat.add_assoc]
  rw [csvParseLoop_open, show 2 + n = 1 + n + 1 by omega, hm', hlen, scan_escaped, ← hm', hm] at h
  refine afterScan_keeps (by decide) (fun Y data len => csvParseLoop_keeps (by decide)) h ?_
  rw [List.length_append, hlen]
  omega

/-- Where the closing quote of a field is still there, the string at its start is not the field. -/
lemma Keeps.ne_field {s m : List UInt8} {F F' : FieldList}
    (h : Keeps (A ++ openField s) doubleQuote F m F') :
    cstring m (A.length + 1) ≠ some (escape [doubleQuote] s) := by
  obtain ⟨⟨Y, rfl⟩, -⟩ := h
  intro hstr
  obtain ⟨-, A₁, B₁, hm, hA₁⟩ := cstring_split hstr
  have hat := congrArg (fun l => l[A.length + 1 + (escape [doubleQuote] s).length]?) hm
  have hleft : (A ++ openField s).length = A.length + 1 + (escape [doubleQuote] s).length := by
    rw [List.length_append, openField, List.length_cons]
    omega
  have hright : (A₁ ++ escape [doubleQuote] s).length =
      A.length + 1 + (escape [doubleQuote] s).length := by rw [List.length_append, hA₁]
  rw [← hleft, List.getElem?_append_right le_rfl, Nat.sub_self, hleft, ← hright,
    ← List.append_assoc, List.getElem?_append_right le_rfl, Nat.sub_self] at hat
  exact absurd (Option.some.inj hat) (by decide)

/-- A field that is read well and that a comma follows. -/
lemma csvParseLoop_field_comma {s : List UInt8} (hs : s.getLast? ≠ some backslash) (fuel n : ℕ)
    (F : FieldList) :
    csvParseLoop (fuel + 1) (A ++ (quoteField s ++ comma :: C)) A.length
        ((quoteField s).length + (n + 1)) F =
      csvParseLoop fuel (A ++ (openField s ++ nul :: nul :: C))
        (A.length + (quoteField s).length + 1) (n + 1) (F.push (A.length + 1)) := by
  have hm : ∀ x, A ++ (openField s ++ nul :: x :: C) = (A ++ (openField s ++ [nul])) ++ x :: C := by
    simp
  have hlen : (A ++ (openField s ++ [nul])).length = A.length + (quoteField s).length := by
    simp only [List.length_append, length_quoteField, List.length_singleton]
  have htrim : csvTrimBack ((A ++ (openField s ++ [nul])) ++ nul :: C)
      (A.length + (quoteField s).length) = some ((A ++ (openField s ++ [nul])) ++ nul :: C) := by
    have := csvTrimBack_blank (A := A ++ openField s) (B := nul :: C) (x := nul) (by decide)
      blank_nil
    rw [length_quoteField]
    simpa [Nat.add_assoc] using this
  have hfind : csvFindNextComma (A ++ (openField s ++ nul :: comma :: C))
      (A.length + (quoteField s).length) (1 + (n + 1)) nul =
      some (A ++ (openField s ++ nul :: nul :: C), some (A.length + (quoteField s).length)) := by
    rw [hm, Nat.add_comm 1, csvFindNextComma, load_seam hlen]
    simp only [Option.bind_eq_bind, Option.bind_some, and_self, if_true, store_seam hlen, htrim]
    rw [← hm]
  rw [csvParseLoop_closed hs, hfind, Option.bind_eq_bind, Option.bind_some, afterScan]
  have hrest : (quoteField s).length + (n + 1) -
      (A.length + (quoteField s).length - (A.length + 1) + 1) = n + 1 := by
    rw [length_quoteField, openField, List.length_cons]
    omega
  simp only [hrest]

end Scan

/-! ## Rows -/

section Rows

variable {A B : List UInt8}

/-- A parse that ends with a field for each string, where it starts with the fields `F`. -/
def Splits (F : FieldList) (ss : List (List UInt8)) (r : Option (List UInt8 × FieldList)) : Prop :=
  ∃ m F' ps, r = some (m, F') ∧ F'.ret = F.ret ++ ps ∧
    List.Forall₂ (fun p s => cstring m p = some (escape [doubleQuote] s)) ps ss

/-- A field that ends with a backslash is not found. -/
lemma not_splits_of_swallowed {s : List UInt8} {ss : List (List UInt8)} {F : FieldList}
    {r : Option (List UInt8 × FieldList)}
    (h : ∀ m F', r = some (m, F') →
      Keeps (A ++ openField s) doubleQuote (F.push (A.length + 1)) m F') :
    ¬ Splits F (s :: ss) r := by
  rintro ⟨m, F', ps, hr, hret, hps⟩
  have hkeeps := h m F' hr
  obtain ⟨qs, hqs⟩ := hkeeps.2
  cases hps with
  | cons hp _ =>
    rw [hqs] at hret
    simp only [FieldList.push, List.append_assoc, List.singleton_append,
      List.append_cancel_left_eq, List.cons.injEq] at hret
    obtain ⟨rfl, -⟩ := hret
    exact hkeeps.ne_field hp

/-- A field that is read well is found if the parse leaves it. -/
lemma splits_cons_iff {s : List UInt8} (hs : nul ∉ s) {ss : List (List UInt8)} {F : FieldList}
    {r : Option (List UInt8 × FieldList)}
    (h : ∀ m F', r = some (m, F') → Keeps (A ++ openField s) nul (F.push (A.length + 1)) m F') :
    Splits F (s :: ss) r ↔ Splits (F.push (A.length + 1)) ss r := by
  constructor
  · rintro ⟨m, F', ps, hr, hret, hps⟩
    obtain ⟨-, qs, hqs⟩ := h m F' hr
    cases hps with
    | cons hp hps =>
      rw [hqs] at hret
      simp only [FieldList.push, List.append_assoc, List.singleton_append,
        List.append_cancel_left_eq, List.cons.injEq] at hret
      obtain ⟨-, rfl⟩ := hret
      exact ⟨m, F', _, hr, hqs, hps⟩
  · rintro ⟨m, F', ps, hr, hret, hps⟩
    obtain ⟨⟨Y, rfl⟩, -⟩ := h m F' hr
    refine ⟨_, F', (A.length + 1) :: ps, hr, by rw [hret]; simp [FieldList.push], .cons ?_ hps⟩
    have hm : A ++ openField s ++ nul :: Y =
        (A ++ [doubleQuote]) ++ (escape [doubleQuote] s ++ 0 :: Y) := by
      simp [openField, nul]
    rw [hm]
    exact cstring_of_not_mem (nul_notMem_escape hs) (by simp)

/-- No further field is found. -/
lemma splits_nil_iff {F : FieldList} {r : Option (List UInt8 × FieldList)} :
    Splits F [] r ↔ ∃ m F', r = some (m, F') ∧ F'.ret = F.ret := by
  constructor
  · rintro ⟨m, F', ps, hr, hret, hps⟩
    cases hps
    exact ⟨m, F', hr, by simpa using hret⟩
  · rintro ⟨m, F', hr, hret⟩
    exact ⟨m, F', [], hr, by simpa using hret, .nil⟩

/-- A quoted row is its first field, a comma, and the row of the others. -/
lemma quotedRow_cons (s : List UInt8) (inits : List (List UInt8)) (last : List UInt8) :
    quotedRow (s :: inits) last = quoteField s ++ comma :: quotedRow inits last := rfl

/-- **Which rows are split**, from anywhere in a parse that is `e` bytes ahead of its count.

**Proof sketch.** Induction on the fields. A field that ends with a backslash is never found
(`csvParseLoop_swallowed`); behind any other one the parse is one more byte ahead. -/
lemma csvParseLoop_quoted_iff {inits : List (List UInt8)} {last : List UInt8}
    (hnul : ∀ s ∈ inits ++ [last], nul ∉ s) {fuel : ℕ} (hfuel : inits.length + 1 < fuel) (e : ℕ)
    (F : FieldList) :
    Splits F (inits ++ [last]) (csvParseLoop fuel (A ++ (quotedRow inits last ++ nul :: B)) A.length
        ((quotedRow inits last).length + 1 + e) F) ↔
      (∀ s ∈ inits ++ [last], s.getLast? ≠ some backslash) ∧ Harmless (e + inits.length + 1) B := by
  induction inits generalizing A fuel e F with
  | nil =>
    obtain ⟨fuel, rfl⟩ : ∃ k, fuel = k + 2 := ⟨fuel - 2, by simp at hfuel; omega⟩
    have hrow : quotedRow [] last = quoteField last := rfl
    rw [hrow, List.nil_append, Nat.add_assoc (quoteField last).length]
    by_cases hs : last.getLast? = some backslash
    · refine iff_of_false (not_splits_of_swallowed fun m F' => csvParseLoop_swallowed hs) ?_
      exact fun h => h.1 last (List.mem_singleton_self last) hs
    · have hm : A ++ (openField last ++ nul :: nul :: B) =
          (A ++ openField last ++ [nul]) ++ nul :: B := by simp
      have hlen : A.length + (quoteField last).length = (A ++ openField last ++ [nul]).length := by
        simp only [List.length_append, length_quoteField, List.length_singleton, Nat.add_assoc]
      rw [csvParseLoop_closed hs, hm, hlen, splits_cons_iff (hnul last (by simp)), splits_nil_iff,
        scan_behind_iff (by rw [← hlen, length_quoteField]; omega) (by rw [← hlen]; omega)]
      · have hall : ∀ s ∈ [last], s.getLast? ≠ some backslash := by simpa using hs
        rw [Nat.add_comm 1 e, List.length_nil, Nat.add_zero]
        exact ⟨fun h => ⟨hall, h⟩, fun h => h.2⟩
      · intro m F' h
        have hm' : A ++ openField last ++ [nul] ++ nul :: B =
            (A ++ openField last) ++ nul :: nul :: B := by simp
        rw [hm'] at h
        refine afterScan_keeps rfl (fun Y data len => csvParseLoop_keeps rfl) h ?_
        simp only [List.length_append, List.length_singleton]
        omega
  | cons s inits ih =>
    obtain ⟨fuel, rfl⟩ : ∃ k, fuel = k + 1 := ⟨fuel - 1, by simp at hfuel; omega⟩
    have hrow : quotedRow (s :: inits) last ++ nul :: B =
        quoteField s ++ comma :: (quotedRow inits last ++ nul :: B) := by
      rw [quotedRow_cons]
      simp
    have hcount : (quotedRow (s :: inits) last).length + 1 + e =
        (quoteField s).length + ((quotedRow inits last).length + 1 + e + 1) := by
      rw [quotedRow_cons, List.length_append, List.length_cons]
      omega
    rw [hrow, hcount, List.cons_append, List.forall_mem_cons]
    by_cases hs : s.getLast? = some backslash
    · refine iff_of_false (not_splits_of_swallowed fun m F' => csvParseLoop_swallowed hs) ?_
      exact fun h => h.1.1 hs
    · have hm : A ++ (openField s ++ nul :: nul :: (quotedRow inits last ++ nul :: B)) =
          (A ++ (openField s ++ [nul, nul])) ++ (quotedRow inits last ++ nul :: B) := by simp
      have hlen : A.length + (quoteField s).length + 1 =
          (A ++ (openField s ++ [nul, nul])).length := by
        simp only [List.length_append, length_quoteField, List.length_cons, List.length_nil]
        omega
      rw [csvParseLoop_field_comma hs, hm, hlen, splits_cons_iff (hnul s (by simp)),
        Nat.add_assoc _ e,
        ih (fun q hq => hnul q (List.mem_cons_of_mem s hq)) (by simp at hfuel; omega),
        List.length_cons, show e + 1 + inits.length + 1 = e + (inits.length + 1) + 1 by omega]
      · exact ⟨fun h => ⟨⟨hs, h.1⟩, h.2⟩, fun h => ⟨h.1.2, h.2⟩⟩
      · intro m F' h
        rw [← hm, ← List.append_assoc] at h
        refine csvParseLoop_keeps rfl h ?_
        rw [← hlen, List.length_append, length_quoteField]
        omega

/-- A quoted row has two quotes at least, and a byte for each comma. -/
lemma length_le_quotedRow (inits : List (List UInt8)) (last : List UInt8) :
    inits.length + 2 ≤ (quotedRow inits last).length := by
  induction inits with
  | nil =>
    have : (quotedRow [] last).length = (quoteField last).length := rfl
    rw [this, length_quoteField, openField, List.length_cons, List.length_nil]
    omega
  | cons s inits ih =>
    rw [quotedRow_cons, List.length_append, List.length_cons, List.length_cons]
    omega

/-- **Which rows of quoted fields are split into their fields.** For every list of strings, whatever
lies before and behind the row in memory: `csv_parse` ends with a pointer to each escaped string, in
order, exactly if no string ends with a backslash and what lies behind the row is harmless.

**Proof sketch.** `csvParseLoop_quoted_iff` from the start of a parse. -/
theorem csvParse_quoted_iff (A B : List UInt8) (inits : List (List UInt8)) (last : List UInt8)
    (hnul : ∀ s ∈ inits ++ [last], nul ∉ s) :
    (∃ m F, csvParse (A ++ (quotedRow inits last ++ nul :: B)) A.length
        ((quotedRow inits last).length + 1) = some (m, F) ∧
      List.Forall₂ (fun p s => cstring m p = some (escape [doubleQuote] s)) F.ret
        (inits ++ [last])) ↔
      (∀ s ∈ inits ++ [last], s.getLast? ≠ some backslash) ∧ Harmless (inits.length + 1) B := by
  have hfuel : inits.length + 1 < (quotedRow inits last).length + 1 + 1 := by
    have := length_le_quotedRow inits last
    omega
  have hiff := csvParseLoop_quoted_iff (A := A) (B := B) hnul hfuel 0 .new
  rw [Nat.zero_add, Nat.add_zero] at hiff
  rw [← hiff]
  constructor
  · rintro ⟨m, F, hrun, hstrings⟩
    exact ⟨m, F, F.ret, hrun, rfl, hstrings⟩
  · rintro ⟨m, F, ps, hrun, hret, hstrings⟩
    have hret' : F.ret = ps := hret
    exact ⟨m, F, hrun, by rw [hret']; exact hstrings⟩

/-- Two fields, with a comma and a quote in the first one, in a row with two more bytes behind it.
-/
theorem csvParse_quoted_hello :
    ∃ m F, csvParse (cstr "\"a,\\\"b\",\"Hello\"" ++ nul :: [0, 0]) 0 16 = some (m, F) ∧
      List.Forall₂ (fun p s => cstring m p = some s) F.ret [cstr "a,\\\"b", cstr "Hello"] := by
  have hrow : quotedRow [cstr "a,\"b"] (cstr "Hello") = cstr "\"a,\\\"b\",\"Hello\"" := by
    decide +kernel
  have hlen : (cstr "\"a,\\\"b\",\"Hello\"").length + 1 = 16 := by decide +kernel
  have hescape : escape [doubleQuote] (cstr "a,\"b") = cstr "a,\\\"b" ∧
      escape [doubleQuote] (cstr "Hello") = cstr "Hello" := by decide +kernel
  obtain ⟨m, F, hrun, hstrings⟩ := (csvParse_quoted_iff [] [0, 0] [cstr "a,\"b"] (cstr "Hello")
    (by decide +kernel)).mpr ⟨by decide +kernel, by decide +kernel⟩
  rw [hrow, hlen] at hrun
  refine ⟨m, F, hrun, ?_⟩
  rw [← hescape.1, ← hescape.2]
  have hmap : List.Forall₂ (fun p s => cstring m p = some s) F.ret
      (([cstr "a,\"b"] ++ [cstr "Hello"]).map (escape [doubleQuote])) :=
    List.forall₂_map_right_iff.mpr hstrings
  exact hmap

/-- Behind a field that is a backslash, the comma is taken for a part of the field. -/
theorem csvParse_quoted_swallows :
    ¬ ∃ m F, csvParse (quotedRow [[backslash]] [98] ++ nul :: [0, 0]) 0
        ((quotedRow [[backslash]] [98]).length + 1) = some (m, F) ∧
      List.Forall₂ (fun p s => cstring m p = some (escape [doubleQuote] s)) F.ret
        [[backslash], [98]] := by
  have hrun : (csvParse (quotedRow [[backslash]] [98] ++ nul :: [0, 0]) 0
      ((quotedRow [[backslash]] [98]).length + 1)).map (fun r => r.2.ret.length) = some 1 := by
    decide
  rintro ⟨m, F, hparse, hstrings⟩
  rw [hparse, Option.map_some, hstrings.length_eq] at hrun
  exact absurd hrun (by decide)

end Rows

end Mproxy
