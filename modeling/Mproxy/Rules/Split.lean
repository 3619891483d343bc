import Mathlib.Data.List.Forall2
import Mproxy.Rules.Csv
import Mproxy.Rules.Libc

set_option relaxedAutoImplicit false
set_option autoImplicit false

/-!
# What a row is split into

A row whose fields are not quoted is split into exactly its fields, without the blanks around them.
That `csv_parse` stays inside the row is a different matter: looking for the blanks behind an empty
first field it leaves the row at its front, and behind every quote it is one byte ahead of its own
count and leaves it at its end.

## Main definitions

* `Mproxy.Padded` — a field with the blanks around it.
* `Mproxy.StaysInside` — the rows `csv_parse` does not leave.

## Main results

* `Mproxy.csvParse_padded` — a row without quotes is split into its fields.
* `Mproxy.csvParse_inside_iff` — which rows `csv_parse` does not leave.
-/

namespace Mproxy

open Memory

/-- A field with blanks around it: it holds no comma and no zero byte, has no blanks at its ends and
does not start with a quote. -/
structure Padded where
  before : List UInt8
  field : List UInt8
  after : List UInt8
  blank_before : Blank before
  blank_after : Blank after
  no_comma : comma ∉ field
  no_nul : nul ∉ field
  no_lead : ∀ c ∈ field.head?, isWhitespace c = false
  no_trail : ∀ c ∈ field.getLast?, isWhitespace c = false
  no_quote : field.head? ≠ some doubleQuote ∧ field.head? ≠ some singleQuote

namespace Padded

/-- A field with blanks around it, with one proof for what can be checked byte by byte. -/
def ofBytes (b s a : List UInt8) (h : (∀ c ∈ b, isWhitespace c = true) ∧
    (∀ c ∈ a, isWhitespace c = true) ∧ comma ∉ s ∧ nul ∉ s ∧
    (∀ c ∈ s.head?, isWhitespace c = false) ∧ (∀ c ∈ s.getLast?, isWhitespace c = false) ∧
    s.head? ≠ some doubleQuote ∧ s.head? ≠ some singleQuote) : Padded :=
  ⟨b, s, a, h.1, h.2.1, h.2.2.1, h.2.2.2.1, h.2.2.2.2.1, h.2.2.2.2.2.1, h.2.2.2.2.2.2⟩

variable (p : Padded)

/-- The bytes of the field in a row, if a comma follows. -/
def text : List UInt8 := p.before ++ (p.field ++ p.after)

/-- The bytes of the last field of a row. -/
def lastBytes : List UInt8 := p.before ++ p.field

/-- Two blank texts behind each other are blank. -/
lemma blank_append {s t : List UInt8} (hs : Blank s) (ht : Blank t) : Blank (s ++ t) := by
  intro c hc
  rcases List.mem_append.mp hc with h | h
  · exact hs c h
  · exact ht c h

/-- Blanks are all lead. -/
lemma lead_of_blank {s : List UInt8} (hs : Blank s) : lead s = s ∧ body s = [] :=
  ⟨List.takeWhile_eq_self_iff.mpr hs, List.dropWhile_eq_nil_iff.mpr hs⟩

/-- The lead of blanks in front of a byte that is none. -/
lemma lead_of_head {s t : List UInt8} (hs : Blank s) {c : UInt8} (hc : isWhitespace c = false) :
    lead (s ++ c :: t) = s ∧ body (s ++ c :: t) = c :: t := by
  unfold lead body
  rw [List.takeWhile_append_of_pos hs, List.dropWhile_append_of_pos hs,
    List.takeWhile_cons_of_neg (by simp [hc]), List.dropWhile_cons_of_neg (by simp [hc])]
  exact ⟨List.append_nil s, rfl⟩

/-- What remains of a padded field without the blanks in front of it. -/
lemma body_text : body p.text = if p.field = [] then [] else p.field ++ p.after := by
  unfold text
  cases hf : p.field with
  | nil =>
    rw [if_pos rfl, List.nil_append]
    exact (lead_of_blank (blank_append p.blank_before p.blank_after)).2
  | cons c t =>
    rw [if_neg (List.cons_ne_nil c t)]
    exact (lead_of_head p.blank_before (p.no_lead c (by rw [hf]; rfl))).2

/-- Without the blanks around it a padded field is the field. -/
lemma core_text : core p.text = p.field := by
  rw [core, p.body_text]
  split_ifs with hf
  · rw [hf, List.rdropWhile_nil]
  · rw [List.rdropWhile, List.reverse_append,
      List.dropWhile_append_of_pos fun c hc => p.blank_after c (List.mem_reverse.mp hc)]
    have hlast := List.getLast?_eq_some_getLast hf
    have hc := p.no_trail _ hlast
    obtain ⟨c, t, hct⟩ := List.exists_cons_of_ne_nil (mt List.reverse_eq_nil_iff.mp hf)
    have hhead : c = p.field.getLast hf := by
      have h := List.head?_reverse (l := p.field)
      rw [hct, hlast] at h
      exact Option.some.inj h
    rw [hct, List.dropWhile_cons_of_neg (by rw [hhead]; simp [hc]), ← hct, List.reverse_reverse]

/-- The string that a field becomes. -/
lemma fieldText_text : fieldText p.text = p.field := by
  rw [fieldText, p.core_text, List.takeWhile_eq_self_iff]
  intro c hc
  simp only [ne_eq, decide_not, Bool.not_eq_eq_eq_not, Bool.not_true, decide_eq_false_iff_not]
  rintro rfl
  exact p.no_nul hc

/-- A padded field is taken as it is. -/
lemma unquoted_text : Unquoted p.text := by
  refine ⟨fun h => ?_, ?_⟩
  · have hblank : ¬ isWhitespace comma = true := by decide
    rcases List.mem_append.mp h with h | h
    · exact hblank (p.blank_before _ h)
    · rcases List.mem_append.mp h with h | h
      · exact p.no_comma h
      · exact hblank (p.blank_after _ h)
  · rw [p.body_text]
    split_ifs with hf
    · exact ⟨by simp, by simp⟩
    · rw [List.head?_append_of_ne_nil _ hf]
      exact p.no_quote

/-- The last field of a row without what lies behind it. -/
def cut : Padded := { p with after := [], blank_after := by simp [Blank] }

/-- These are the bytes of the last field. -/
lemma text_cut : p.cut.text = p.lastBytes := by simp [cut, text, lastBytes]

/-- The string that the last field of a row becomes. -/
lemma lastText_lastBytes : lastText p.lastBytes = p.field := by
  have hbody := p.cut.body_text
  rw [p.text_cut] at hbody
  rw [lastText, hbody]
  have hfield : (if p.cut.field = [] then [] else p.cut.field ++ p.cut.after) = p.field := by
    simp only [cut, List.append_nil]
    split_ifs with hf
    · exact hf.symm
    · rfl
  rw [hfield, List.takeWhile_eq_self_iff]
  intro c hc
  simp only [ne_eq, decide_not, Bool.not_eq_eq_eq_not, Bool.not_true, decide_eq_false_iff_not]
  rintro rfl
  exact p.no_nul hc

end Padded

section Split

variable {A B : List UInt8}

/-- The strings that a row of unquoted fields is split into, in the memory behind the call. -/
lemma csvParse_strings {inits : List (List UInt8)} {last : List UInt8}
    (hA : ∀ r ∈ inits.head?, core r = [] → Solid A) (hinits : ∀ r ∈ inits, Unquoted r)
    (hlast : Unquoted last) :
    ∃ m F, csvParse (A ++ (rowOf inits last ++ nul :: B)) A.length ((rowOf inits last).length + 1) =
        some (m, F) ∧
      List.Forall₂ (fun p s => cstring m p = some s) F.ret
        (inits.map fieldText ++ [lastText last]) := by
  obtain ⟨A', X, ps, F, -, -, hrun, -, -, hret, hps⟩ := csvParse_unquoted (B := B) hA hinits hlast
  refine ⟨_, F, hrun, ?_⟩
  rw [hret]
  refine List.rel_append ?_ (.cons ?_ .nil)
  · rw [List.forall₂_map_right_iff]
    refine hps.imp fun p r h => ?_
    have := cstring_frame [] (last ++ nul :: B) h
    simpa using this
  · have hshape : A' ++ (X ++ (last ++ nul :: B)) =
        (A' ++ X ++ lead last) ++ (body last ++ 0 :: B) := by
      conv_lhs => rw [← lead_append_body last]
      simp [nul]
    rw [hshape, lastText]
    exact cstring_seam List.length_append

/-- **A row without quotes is split into exactly its fields.** For every list of fields, whatever
blanks lie around them, and whatever bytes lie before and behind the row in memory as long as one
before it is no blank: `csv_parse` returns a pointer to each field, in order, and there was always
room for them.

**Proof sketch.** `csvParse_unquoted` for the padded fields; what remains of a padded field without
blanks is the field. -/
theorem csvParse_padded (A B : List UInt8) (hA : Solid A) (inits : List Padded) (last : Padded) :
    ∃ m F, csvParse (A ++ (rowOf (inits.map Padded.text) last.lastBytes ++ nul :: B)) A.length
        ((rowOf (inits.map Padded.text) last.lastBytes).length + 1) = some (m, F) ∧
      F.ret.length = (inits ++ [last]).length ∧ F.ret.length ≤ F.cap ∧
      List.Forall₂ (fun p f => cstring m p = some f) F.ret
        ((inits ++ [last]).map Padded.field) := by
  have hinits : ∀ r ∈ inits.map Padded.text, Unquoted r := by
    intro r hr
    obtain ⟨p, -, rfl⟩ := List.mem_map.mp hr
    exact p.unquoted_text
  have hlast : Unquoted last.lastBytes := by
    rw [← last.text_cut]
    exact last.cut.unquoted_text
  obtain ⟨m, F, hrun, hstrings⟩ := csvParse_strings (B := B) (fun _ _ _ => hA) hinits hlast
  have hfields : (inits.map Padded.text).map fieldText ++ [lastText last.lastBytes] =
      (inits ++ [last]).map Padded.field := by
    rw [List.map_map, List.map_append, last.lastText_lastBytes]
    congr 1
    exact List.map_congr_left fun p _ => p.fieldText_text
  rw [hfields] at hstrings
  refine ⟨m, F, hrun, ?_, F.used_le, hstrings⟩
  rw [hstrings.length_eq, List.length_map]

/-- Three fields, the second one empty, behind a letter. -/
theorem csvParse_padded_hello :
    Solid [104] ∧
      ∃ m F, csvParse ([104] ++ (cstr "\t1 ,  ,Hello" ++ nul :: [])) 1 13 = some (m, F) ∧
        F.ret.length = 3 ∧ F.ret.length ≤ F.cap ∧
        List.Forall₂ (fun p f => cstring m p = some f) F.ret [cstr "1", [], cstr "Hello"] := by
  have hsolid : Solid [104] := ⟨104, List.mem_singleton_self 104, rfl⟩
  let one : Padded := .ofBytes (cstr "\t") (cstr "1") (cstr " ") (by decide +kernel)
  let empty : Padded := .ofBytes (cstr "  ") [] [] (by decide +kernel)
  let hello : Padded := .ofBytes [] (cstr "Hello") [] (by decide +kernel)
  have hrow : rowOf ([one, empty].map Padded.text) hello.lastBytes = cstr "\t1 ,  ,Hello" := by
    decide +kernel
  have hlen : (cstr "\t1 ,  ,Hello").length = 12 := by decide
  obtain ⟨m, F, hrun, hstrings⟩ := csvParse_padded [104] [] hsolid [one, empty] hello
  rw [hrow, hlen] at hrun
  exact ⟨hsolid, m, F, hrun, hstrings⟩

end Split

/-! ## Rows that csv_parse leaves -/

/-- A field that starts with a quote behind its blanks. -/
def Quoted (r : List UInt8) : Prop :=
  (body r).head? = some doubleQuote ∨ (body r).head? = some singleQuote

/-- The rows `csv_parse` does not leave: no field starts with a quote, and the first field is not
blank unless it is the only one. -/
def StaysInside (row : List UInt8) : Prop :=
  (∀ r ∈ row.splitOn comma, ¬ Quoted r) ∧
    (comma ∈ row → ∀ r ∈ (row.splitOn comma).head?, ¬ Blank r)

/-- A row is made of the fields it is split into at its commas. -/
lemma exists_rowOf (row : List UInt8) : ∃ inits last, row = rowOf inits last ∧
    row.splitOn comma = inits ++ [last] ∧ (∀ r ∈ inits, comma ∉ r) ∧ comma ∉ last ∧
    (inits ≠ [] ↔ comma ∈ row) := by
  induction hn : row.length using Nat.strongRecOn generalizing row with
  | ind n ih =>
    by_cases hmem : comma ∈ row
    · obtain ⟨r, rest, rfl, hr⟩ := List.eq_append_cons_of_mem hmem
      obtain ⟨inits, last, hrow, hsplit, hinits, hlast, -⟩ := ih rest.length (by simp at hn; omega)
        rest rfl
      refine ⟨r :: inits, last, by rw [rowOf, ← hrow], ?_, ?_, hlast, by simp⟩
      · rw [List.splitOn_append_cons_self_of_not_mem hr, hsplit, List.cons_append]
      · exact List.forall_mem_cons.mpr ⟨hr, hinits⟩
    · exact ⟨[], row, rfl, List.splitOn_eq_singleton hmem, by simp, hmem, by simp [hmem]⟩

section Bounds

variable {m m' : List UInt8} {data len : ℕ}

/-- Trimming writes inside of the memory. -/
lemma csvTrimBack_length (h : csvTrimBack m data = some m') : m'.length = m.length := by
  induction data generalizing m with
  | zero => cases h
  | succ back ih =>
    simp only [csvTrimBack, Option.bind_eq_bind, Option.bind_eq_some_iff] at h
    obtain ⟨c, -, h⟩ := h
    split_ifs at h
    · obtain ⟨m₁, hm₁, h⟩ := Option.bind_eq_some_iff.mp h
      rw [ih h, length_store hm₁]
    · rw [Option.some.inj h]

/-- Trimming over blanks at the very front of the region leaves it. -/
lemma csvTrimBack_front {ws B : List UInt8} (hws : Blank ws) :
    csvTrimBack (ws ++ B) ws.length = none := by
  induction ws using List.reverseRecOn generalizing B with
  | nil => rfl
  | append_singleton ws w ih =>
    have hw : isWhitespace w = true := hws w (by simp)
    rw [List.length_append, List.length_singleton, csvTrimBack, List.append_assoc,
      List.singleton_append, load_seam rfl]
    simp only [Option.bind_eq_bind, Option.bind_some, hw, if_true, store_seam]
    exact ih fun c hc => hws c (List.mem_append_left _ hc)

/-- Where the scan for a comma stays: it stops at a comma, or has read all bytes it counts. -/
lemma csvFindNextComma_bounds {quote : UInt8} {next : Option ℕ}
    (h : csvFindNextComma m data len quote = some (m', next)) (hdata : data ≤ m.length) :
    m'.length = m.length ∧ (next = none → data + len ≤ m.length) ∧
      ∀ n ∈ next, data ≤ n ∧ n < m.length ∧ n < data + len := by
  induction len generalizing m data quote with
  | zero =>
    obtain ⟨rfl, rfl⟩ := Prod.mk.inj (Option.some.inj h)
    exact ⟨rfl, fun _ => hdata, by simp⟩
  | succ len ih =>
    simp only [csvFindNextComma, Option.bind_eq_bind, Option.bind_eq_some_iff] at h
    obtain ⟨c, hc, h⟩ := h
    have hlt := load_lt hc
    have hgo : ∀ {m₁ q}, m₁.length = m.length →
        csvFindNextComma m₁ (data + 1) len q = some (m', next) →
        m'.length = m.length ∧ (next = none → data + (len + 1) ≤ m.length) ∧
          ∀ n ∈ next, data ≤ n ∧ n < m.length ∧ n < data + (len + 1) := by
      intro m₁ q hm₁ hrun
      obtain ⟨h₁, h₂, h₃⟩ := ih hrun (by omega)
      refine ⟨h₁.trans hm₁, fun hnone => ?_, fun n hn => ?_⟩
      · have := h₂ hnone
        omega
      · have := h₃ n hn
        omega
    split_ifs at h with hcomma hquote
    · obtain ⟨m₁, hm₁, m₂, hm₂, h⟩ := by simpa only [Option.bind_eq_some_iff] using h
      obtain ⟨rfl, rfl⟩ := Prod.mk.inj (Option.some.inj h)
      refine ⟨by rw [csvTrimBack_length hm₂, length_store hm₁], by simp, fun n hn => ?_⟩
      obtain rfl := Option.some.inj hn
      omega
    · obtain ⟨before, -, h⟩ := Option.bind_eq_some_iff.mp h
      split_ifs at h
      · obtain ⟨m₁, hm₁, h⟩ := Option.bind_eq_some_iff.mp h
        exact hgo (length_store hm₁) h
      · exact hgo rfl h
    · exact hgo rfl h

/-- Where the blanks before a field are skipped to. -/
lemma csvSkipWhitespace_bounds {data' len' : ℕ}
    (h : csvSkipWhitespace m data len = some (data', len')) :
    data' + len' = data + len ∧ data ≤ data' ∧ data' < m.length := by
  induction len generalizing data with
  | zero =>
    simp only [csvSkipWhitespace, Option.bind_eq_bind, Option.bind_eq_some_iff] at h
    obtain ⟨c, hc, h⟩ := h
    obtain ⟨rfl, rfl⟩ := Prod.mk.inj (Option.some.inj h)
    exact ⟨rfl, le_rfl, load_lt hc⟩
  | succ len ih =>
    simp only [csvSkipWhitespace, Option.bind_eq_bind, Option.bind_eq_some_iff] at h
    obtain ⟨c, hc, h⟩ := h
    split_ifs at h
    · have := ih h
      omega
    · obtain ⟨rfl, rfl⟩ := Prod.mk.inj (Option.some.inj h)
      exact ⟨rfl, le_rfl, load_lt hc⟩

/-- The scan for a comma and what follows it in a round of `csv_parse`, with a count that reaches
beyond the region: it leaves the region, if all further rounds do. -/
lemma csvFindNextComma_beyond {fuel : ℕ} {quote : UInt8} {F : FieldList}
    (hgo : ∀ m data len, data ≤ m.length → m.length < data + len →
      csvParseLoop fuel m data len F = none)
    (hdata : data ≤ m.length) (hbeyond : m.length < data + len) :
    (csvFindNextComma m data len quote >>= fun p =>
      match p with
      | (m, nextDelim) => match nextDelim with
        | some next => csvParseLoop fuel m (next + 1) (len - (next - data + 1)) F
        | none => some (m, F)) = none := by
  rw [Option.eq_none_iff_forall_ne_some]
  intro r h
  obtain ⟨⟨m', next⟩, hfind, h⟩ := Option.bind_eq_some_iff.mp h
  obtain ⟨hlen, hnone, hsome⟩ := csvFindNextComma_bounds hfind hdata
  cases next with
  | none =>
    have := hnone rfl
    omega
  | some n =>
    have := hsome n rfl
    have hnone := hgo m' (n + 1) (len - (n - data + 1)) (by omega) (by omega)
    simp only [hnone] at h
    cases h

/-- A parse whose count reaches beyond the region leaves it, if it is not beyond its end already. -/
lemma csvParseLoop_beyond (fuel : ℕ) (m : List UInt8) (data len : ℕ) (F : FieldList)
    (hdata : data ≤ m.length) (hbeyond : m.length < data + len) :
    csvParseLoop fuel m data len F = none := by
  induction fuel generalizing m data len F with
  | zero => rfl
  | succ fuel ih =>
    rw [csvParseLoop, if_neg (by omega)]
    cases hskip : csvSkipWhitespace m data len with
    | none => rfl
    | some p =>
      obtain ⟨data', len'⟩ := p
      obtain ⟨hsum, hge, hlt⟩ := csvSkipWhitespace_bounds hskip
      obtain ⟨c, hc⟩ : ∃ c, load m data' = some c := ⟨_, List.getElem?_eq_getElem hlt⟩
      have hlen' : len' ≠ 0 := by omega
      simp only [Option.bind_eq_bind, Option.bind_some, if_neg hlen', hc]
      split_ifs
      · exact csvFindNextComma_beyond (fun m data len => ih m data len _) (by omega) (by omega)
      · exact csvFindNextComma_beyond (fun m data len => ih m data len _) (by omega) (by omega)

/-- The rounds of a parse are bounded by its count. -/
lemma csvParseLoop_fuel {fuel fuel' : ℕ} {F : FieldList} (h : len < fuel) (h' : len < fuel') :
    csvParseLoop fuel m data len F = csvParseLoop fuel' m data len F := by
  induction fuel generalizing fuel' m data len F with
  | zero => omega
  | succ fuel ih =>
    obtain ⟨fuel', rfl⟩ : ∃ k, fuel' = k + 1 := ⟨fuel' - 1, by omega⟩
    rw [csvParseLoop, csvParseLoop]
    split_ifs with hzero
    · rfl
    cases hskip : csvSkipWhitespace m data len with
    | none => rfl
    | some p =>
      obtain ⟨data', len'⟩ := p
      obtain ⟨hsum, hge, hlt⟩ := csvSkipWhitespace_bounds hskip
      obtain ⟨c, hc⟩ : ∃ c, load m data' = some c := ⟨_, List.getElem?_eq_getElem hlt⟩
      by_cases hlen' : len' = 0
      · simp only [Option.bind_eq_bind, Option.bind_some, if_pos hlen']
      · simp only [Option.bind_eq_bind, Option.bind_some, if_neg hlen', hc]
        refine congrArg _ (funext fun round => ?_)
        obtain ⟨m', next⟩ := round
        cases next with
        | none => rfl
        | some n => exact ih (by omega) (by omega)

end Bounds

section Inside

variable {A B : List UInt8}

/-- A field that starts with a quote: the quote is skipped, but not counted, so the parse leaves the
region whatever follows. -/
lemma csvParseLoop_quoted {r : List UInt8} (hr : Quoted r) (fuel : ℕ) (F : FieldList) :
    csvParseLoop fuel (A ++ (r ++ B)) A.length (r ++ B).length F = none := by
  cases fuel with
  | zero => rfl
  | succ fuel =>
    obtain ⟨c, t, hbody⟩ : ∃ c t, body r = c :: t := by
      cases hbody : body r with
      | nil => simp [Quoted, hbody] at hr
      | cons c t => exact ⟨c, t, rfl⟩
    have hquote : c = doubleQuote ∨ c = singleQuote := by simpa [Quoted, hbody] using hr
    have hm : A ++ (r ++ B) = A ++ (lead r ++ c :: (t ++ B)) := by
      rw [← List.cons_append, ← hbody, ← List.append_assoc (lead r), lead_append_body]
    have hlen : (r ++ B).length = (lead r).length + ((t ++ B).length + 1) := by
      have := congrArg List.length hm
      simp only [List.length_append, List.length_cons] at this ⊢
      omega
    have hload : load (A ++ (lead r ++ c :: (t ++ B))) (A.length + (lead r).length) = some c := by
      rw [← List.append_assoc]
      exact load_seam List.length_append
    have hskip := csvSkipWhitespace_blank (A := A) (B := t ++ B) (blank_lead r) (body_head hbody)
      ((t ++ B).length + 1)
    rw [csvParseLoop, if_neg (by omega), hm, hlen, hskip]
    simp only [Option.bind_eq_bind, Option.bind_some, hload, if_pos hquote, Nat.succ_ne_zero,
      if_false]
    refine csvFindNextComma_beyond (fun m data len => csvParseLoop_beyond fuel m data len _) ?_ ?_
    · simp only [List.length_append, List.length_cons]
      omega
    · simp only [List.length_append, List.length_cons]
      omega

/-- One field that starts with a quote is enough for a parse to leave the region: the fields before
it are taken as they are, and at the quote the parse goes wrong. -/
lemma csvParseLoop_of_quoted {inits : List (List UInt8)} {last : List UInt8}
    (hA : ∀ r ∈ inits.head?, core r = [] → Solid A) (hinits : ∀ r ∈ inits, comma ∉ r)
    (hquoted : ∃ r ∈ inits ++ [last], Quoted r) (fuel : ℕ) (F : FieldList) :
    csvParseLoop fuel (A ++ (rowOf inits last ++ [nul])) A.length
      ((rowOf inits last).length + 1) F = none := by
  induction inits generalizing A fuel F with
  | nil =>
    obtain ⟨r, hr, hquoted⟩ := hquoted
    obtain rfl := List.mem_singleton.mp hr
    have := csvParseLoop_quoted (A := A) (B := [nul]) hquoted fuel F
    rwa [List.length_append, List.length_singleton] at this
  | cons r rs ih =>
    have hrow : rowOf (r :: rs) last ++ [nul] = r ++ (comma :: (rowOf rs last ++ [nul])) := by
      simp [rowOf]
    have hlen : (rowOf (r :: rs) last).length + 1 = (rowOf (r :: rs) last ++ [nul]).length := by
      rw [List.length_append, List.length_singleton]
    by_cases hr : Quoted r
    · rw [hlen, hrow]
      exact csvParseLoop_quoted hr fuel F
    · cases fuel with
      | zero => rfl
      | succ fuel =>
        have hunquoted : Unquoted r := ⟨hinits r List.mem_cons_self, not_or.mp hr⟩
        obtain ⟨A', D, hlenA, -, -, hD, -, hround⟩ := csvParseLoop_field (A := A)
          (B := rowOf rs last ++ [nul]) (hA r rfl) hunquoted fuel ((rowOf rs last).length + 1) F
        have hquoted' : ∃ r ∈ rs ++ [last], Quoted r := by
          obtain ⟨q, hq, hquoted⟩ := hquoted
          rcases List.mem_cons.mp hq with rfl | hq
          · exact absurd hquoted hr
          · exact ⟨q, hq, hquoted⟩
        have hlen' : (rowOf (r :: rs) last).length + 1 =
            r.length + 1 + ((rowOf rs last).length + 1) := by
          simp only [rowOf, List.length_append, List.length_cons]
          omega
        have hm : A' ++ (D ++ nul :: (rowOf rs last ++ [nul])) =
            (A' ++ D ++ [nul]) ++ (rowOf rs last ++ [nul]) := by simp
        have hd : A.length + r.length + 1 = (A' ++ D ++ [nul]).length := by
          simp only [List.length_append, List.length_singleton, ← hD, ← hlenA]
        rw [hlen', hrow, hround, hm, hd]
        exact ih (fun _ _ _ => ⟨nul, by simp, rfl⟩)
          (fun q hq => hinits q (List.mem_cons_of_mem r hq)) hquoted' fuel _

/-- A row whose first field is blank and that goes on behind it: trimming the field leaves the row
at its front. -/
lemma csvParseLoop_blank {r : List UInt8} (hr : Blank r) (fuel : ℕ) (F : FieldList) :
    csvParseLoop fuel (r ++ comma :: B) 0 (r ++ comma :: B).length F = none := by
  cases fuel with
  | zero => rfl
  | succ fuel =>
    have hunquoted : Unquoted r := by
      refine ⟨fun h => absurd (hr _ h) (by decide), ?_, ?_⟩ <;>
        rw [(Padded.lead_of_blank hr).2] <;> simp
    have hround := csvParseLoop_round (A := []) (B := B) hunquoted (Or.inl rfl) fuel B.length F
    have hlen : (r ++ comma :: B).length = r.length + 1 + B.length := by
      simp only [List.length_append, List.length_cons]
      omega
    simp only [List.nil_append, List.length_nil, Nat.zero_add] at hround
    rw [hlen, hround, Nat.add_comm 1, csvFindNextComma, load_seam rfl]
    simp only [Option.bind_eq_bind, Option.bind_some, and_self, if_true, store_seam,
      csvTrimBack_front hr, Option.bind_none]

/-- **Which rows `csv_parse` does not leave.** For every row, whose terminating zero byte is counted
in `len`: all reads and writes of `csv_parse` are inside the row exactly if no field starts with a
quote behind its blanks, and the first field is not blank unless it is the only one. Otherwise no
number of rounds gets to the end without an access outside the row.

**Proof sketch.** The row is made of the pieces between its commas. If none is quoted and the first
one stops the trimming, `csvParse_unquoted` runs to the end in a memory that is the row alone. A
blank first piece makes the trimming run over the front of the row (`csvParseLoop_blank`). A quoted
piece, which is found as such because the pieces before it are taken as they are, makes `len` reach
one byte beyond the row, and no further step of the parse reduces that (`csvParseLoop_of_quoted`).
-/
theorem csvParse_inside_iff (row : List UInt8) :
    ((csvParse (row ++ [nul]) 0 (row.length + 1)).isSome ↔ StaysInside row) ∧
      ∀ fuel > row.length + 1, csvParseLoop fuel (row ++ [nul]) 0 (row.length + 1) .new =
        csvParse (row ++ [nul]) 0 (row.length + 1) := by
  refine ⟨?_, fun fuel hfuel => csvParseLoop_fuel hfuel (Nat.lt_succ_self _)⟩
  obtain ⟨inits, last, hrow, hsplit, hinits, hlast, hmem⟩ := exists_rowOf row
  unfold StaysInside
  rw [hsplit, ← hmem]
  by_cases hfirst : ∃ r ∈ inits.head?, Blank r
  · -- the first field is blank and goes on behind it
    obtain ⟨r, hr, hblank⟩ := hfirst
    obtain ⟨rs, rfl⟩ := List.head?_eq_some_iff.mp hr
    have hnone := csvParseLoop_blank (B := rowOf rs last ++ [nul]) hblank
      (row.length + 1 + 1) .new
    have hm : r ++ comma :: (rowOf rs last ++ [nul]) = row ++ [nul] := by simp [hrow, rowOf]
    rw [hm, List.length_append, List.length_singleton] at hnone
    rw [csvParse, hnone]
    refine iff_of_false Bool.false_ne_true fun h => ?_
    exact h.2 (List.cons_ne_nil r rs) r rfl hblank
  · have hA : ∀ r ∈ inits.head?, core r = [] → Solid [] := fun r hr hcore =>
      absurd ⟨r, hr, blank_of_core hcore⟩ hfirst
    by_cases hquoted : ∃ r ∈ inits ++ [last], Quoted r
    · have hnone := csvParseLoop_of_quoted hA hinits hquoted (row.length + 1 + 1) .new
      rw [← hrow, List.nil_append, List.length_nil] at hnone
      rw [csvParse, hnone]
      refine iff_of_false Bool.false_ne_true fun h => ?_
      obtain ⟨r, hr, hquoted⟩ := hquoted
      exact h.1 r hr hquoted
    · have hnot : ∀ r ∈ inits ++ [last], ¬ Quoted r := fun r hr hq => hquoted ⟨r, hr, hq⟩
      obtain ⟨A', X, ps, F, -, -, hrun, -⟩ := csvParse_unquoted (B := []) hA
        (fun r hr => ⟨hinits r hr, not_or.mp (hnot r (List.mem_append_left _ hr))⟩)
        (⟨hlast, not_or.mp (hnot last (by simp))⟩ : Unquoted last)
      rw [List.nil_append, List.length_nil, ← hrow] at hrun
      rw [hrun]
      refine iff_of_true rfl ⟨hnot, fun hne r hr hblank => hfirst ⟨r, ?_, hblank⟩⟩
      rwa [List.head?_append_of_ne_nil _ hne] at hr

/-- A row that starts with a comma makes `csv_parse` read the byte before the row, and a quoted
field the byte behind it. -/
theorem csvParse_leaves_row :
    ¬ (csvParse ([comma] ++ [nul]) 0 2).isSome ∧
      ¬ (csvParse ([doubleQuote, 97, doubleQuote] ++ [nul]) 0 4).isSome := by
  constructor <;> decide

end Inside

end Mproxy
