import Mproxy.Rules.Profile

set_option relaxedAutoImplicit false
set_option autoImplicit false

/-!
# The loops of the profile reader

`attacker_read_rows` again, with its two loops as they stand there: the inner one reads to the end
of a line, which `fgetc` also reports by `EOF`, and the outer one goes on until `feof` says that the
end of the file was met. Both end with the file. But an `EOF` that comes from a read error does not
set what `feof` looks at, so the outer loop goes on for ever; and `line_no` is an `int` that every
line counts up, so that a file with too many lines overflows it.

`attacker_add_rule` is a parameter here, which may do anything to the block of the stream.

## Main definitions

* `Mproxy.CFile`, `Mproxy.fgetc` — a file that is read.
* `Mproxy.readChars`, `Mproxy.finishLine`, `Mproxy.readLines` — the loops of `attacker_read_rows`.
* `Mproxy.profileRows` — the rows of a profile.

## Main results

* `Mproxy.readLines_rows_iff` — which rows are passed to `attacker_add_rule`.
* `Mproxy.readLines_returns_iff` — when `attacker_read_rows` returns.
* `Mproxy.readLines_of_attackerReadRows` — the reader of `Profile.lean` is this one.
-/

namespace Mproxy

/-! ## The reader -/

/-- A `FILE`: the bytes that `fgetc` still delivers, whether it then meets a read error instead of
the end of the file, and what `feof` returns. -/
structure CFile where
  rest : List UInt8
  readError : Bool
  eof : Bool

/-- `fgetc`, with `none` for `EOF`. -/
def fgetc (f : CFile) : Option UInt8 × CFile :=
  match f.rest with
  | c :: rest => (some c, { f with rest := rest })
  | [] => (none, { f with eof := f.eof || !f.readError })

/-- `INT_MAX` -/
def intMax : ℤ := 2147483647

/-- The first line has a number. -/
lemma one_le_intMax : 1 ≤ intMax := by decide

/-- How the reader may leave what C defines: by a fault, or as `++line_no` overflows. -/
inductive ReadFault
  | fault (f : Fault)
  | intOverflow
  deriving DecidableEq, Repr

/-- The variables of `attacker_read_rows`, with the number of calls of `stream_append`, what
`attacker_add_rule` keeps, and the rows that were passed to it. -/
structure ReadState (σ : Type) where
  file : CFile
  lineNo : ℤ
  stream : StreamT
  appends : ℕ
  rules : σ
  passed : List (List UInt8 × ℕ)

/-- The variables in front of the outer loop. -/
def ReadState.start {σ : Type} (file : CFile) (fresh : ℕ → UInt8) (s : σ) : ReadState σ :=
  ⟨file, 1, streamNew defaultStreamLen fresh, 0, s, []⟩

section Loops

variable {σ : Type} (addRule : σ → ℤ → List UInt8 → ℕ → σ × List UInt8)
  (realloc : ℕ → Option (ℕ → UInt8))

/-- `while ((c = fgetc(f)) != '\n' && c != '\r' && c != EOF)`. The first argument bounds the number
of rounds; the result is `none` if there are more. -/
def readChars : ℕ → ReadState σ → Except ReadFault (Option (ReadState σ))
  | 0, _ => .ok none
  | fuel + 1, rd =>
    match fgetc rd.file with
    | (some c, file) =>
      if EndsLine c then .ok (some { rd with file := file })
      else do
        let s ← (streamAppend rd.stream [c] (realloc rd.appends)).mapError .fault
        readChars fuel { rd with file := file, stream := s, appends := rd.appends + 1 }
    | (none, file) => .ok (some { rd with file := file })

/-- The file is read from its start. -/
lemma zero_le_length (data : List UInt8) : 0 ≤ data.length := Nat.zero_le _

/-- `stream->len = 0`, for a stream with this block. -/
def StreamT.emptied (data : List UInt8) : StreamT := ⟨data, 0, zero_le_length data⟩

/-- What stands behind the inner loop: the terminator is appended, the line is passed to
`attacker_add_rule` if it is not the first one, empty or a comment, `line_no` is counted up and the
stream is emptied. -/
def finishLine (rd : ReadState σ) : Except ReadFault (ReadState σ) := do
  let s ← (streamAppend rd.stream [nul] (realloc rd.appends)).mapError .fault
  let rd' : ReadState σ :=
    if rd.lineNo > 1 ∧ s.len > 1 ∧ s.data.head? ≠ some hash then
      let (rules, data) := addRule rd.rules rd.lineNo s.data s.len
      { rd with
        stream := .emptied data
        rules := rules
        passed := rd.passed ++ [(s.bytes, s.len)] }
    else { rd with stream := .emptied s.data }
  if rd.lineNo = intMax then .error .intOverflow
  else .ok { rd' with lineNo := rd.lineNo + 1, appends := rd.appends + 1 }

/-- `while (!feof(f))`. The first argument bounds the number of rounds of both loops. -/
def readLines : ℕ → ReadState σ → Except ReadFault (Option (ReadState σ))
  | 0, _ => .ok none
  | fuel + 1, rd =>
    if rd.file.eof then .ok (some rd)
    else do
      match ← readChars realloc fuel rd with
      | none => .ok none
      | some rd => do
        let rd ← finishLine addRule realloc rd
        readLines fuel rd

end Loops

/-! ## The rows of a profile -/

/-- The pieces of a text that is cut at every `'\n'` and `'\r'`. -/
def linesOf (f : List UInt8) : List (List UInt8) := f.splitOnP fun c => decide (EndsLine c)

/-- The number of bytes that end a line. -/
def terminators (f : List UInt8) : ℕ := f.countP fun c => decide (EndsLine c)

/-- The rows for the lines that are neither empty nor a comment: each with a terminator, and its
length with it. -/
def rowsOf (ts : List (List UInt8)) : List (List UInt8 × ℕ) :=
  (ts.filter fun t => decide (RuleLine t)).map fun t => (t ++ [nul], t.length + 1)

/-- The rows of a profile: those for the lines behind the first one. -/
def profileRows (f : List UInt8) : List (List UInt8 × ℕ) := rowsOf (linesOf f).tail

/-- A text with `"\r\n"` for every `'\n'`. -/
def crlf (f : List UInt8) : List UInt8 :=
  f.flatMap fun c => if c = newline then [carriageReturn, newline] else [c]

section Lines

variable {t r f : List UInt8} {e : UInt8}

/-- A text without an end of a line is one line. -/
lemma linesOf_last (ht : ∀ c ∈ t, ¬ EndsLine c) : linesOf t = [t] :=
  List.splitOnP_eq_singleton fun c hc => decide_eq_false (ht c hc)

/-- The first line of a text, and the others. -/
lemma linesOf_append (ht : ∀ c ∈ t, ¬ EndsLine c) (he : EndsLine e) :
    linesOf (t ++ e :: r) = t :: linesOf r :=
  List.splitOnP_append_cons_of_forall_mem (fun c hc => decide_eq_false (ht c hc)) e
    (decide_eq_true he) r

/-- A text without an end of a line has none. -/
lemma terminators_last (ht : ∀ c ∈ t, ¬ EndsLine c) : terminators t = 0 :=
  List.countP_eq_zero.mpr fun c hc => by simpa using ht c hc

/-- Each end of a line counts. -/
lemma terminators_append (ht : ∀ c ∈ t, ¬ EndsLine c) (he : EndsLine e) :
    terminators (t ++ e :: r) = terminators r + 1 := by
  have hlast := terminators_last ht
  unfold terminators at hlast ⊢
  rw [List.countP_append, hlast, List.countP_cons_of_pos (by simpa using he), Nat.zero_add]

/-- The rows for lines behind each other. -/
lemma rowsOf_append (ts us : List (List UInt8)) : rowsOf (ts ++ us) = rowsOf ts ++ rowsOf us := by
  simp [rowsOf]

/-- The row for the first line, if it has one, and those for the others. -/
lemma rowsOf_cons (t : List UInt8) (ts : List (List UInt8)) :
    rowsOf (t :: ts) = rowsOf [t] ++ rowsOf ts := rowsOf_append [t] ts

/-- Newlines at the start of a text are so many empty lines. -/
lemma linesOf_blank (n : ℕ) (r : List UInt8) :
    linesOf (List.replicate n newline ++ r) = List.replicate n [] ++ linesOf r := by
  induction n with
  | zero => rfl
  | succ n ih =>
    rw [List.replicate_succ, List.cons_append, List.replicate_succ, List.cons_append, ← ih]
    exact @linesOf_append [] _ _ (by simp) (Or.inl rfl)

/-- Behind blank lines a row is the only one. -/
lemma profileRows_blank (n : ℕ) (ht : ∀ c ∈ t, ¬ EndsLine c) (hrule : RuleLine t) :
    profileRows (List.replicate (n + 1) newline ++ t) = [(t ++ [nul], t.length + 1)] := by
  have hblank : rowsOf (List.replicate n []) = [] := by simp [rowsOf, RuleLine]
  rw [profileRows, linesOf_blank, linesOf_last ht, List.replicate_succ, List.cons_append,
    List.tail_cons, rowsOf_append, hblank, List.nil_append]
  simp [rowsOf, hrule]

/-- A carriage return before every newline cuts off an empty line behind each line. -/
lemma linesOf_crlf (hf : carriageReturn ∉ f) :
    ∃ t ts ts', linesOf f = t :: ts ∧ linesOf (crlf f) = t :: ts' ∧ rowsOf ts' = rowsOf ts := by
  induction f with
  | nil => exact ⟨[], [], [], rfl, rfl, rfl⟩
  | cons c f ih =>
    rw [List.mem_cons, not_or] at hf
    obtain ⟨t, ts, ts', hlines, hlines', hrows⟩ := ih hf.2
    by_cases hc : c = newline
    · subst hc
      refine ⟨[], t :: ts, [] :: t :: ts', ?_, ?_, ?_⟩
      · rw [← hlines]
        exact @linesOf_append [] _ _ (by simp) (Or.inl rfl)
      · have hcrlf : crlf (newline :: f) = carriageReturn :: newline :: crlf f := rfl
        rw [hcrlf, ← hlines']
        refine (@linesOf_append [] _ _ (by simp) (Or.inr rfl)).trans ?_
        exact congrArg _ (@linesOf_append [] _ _ (by simp) (Or.inl rfl))
      · rw [rowsOf_cons [], rowsOf_cons t ts', rowsOf_cons t ts, hrows]
        rfl
    · have hends : ¬ EndsLine c := by
        rintro (h | h)
        · exact hc h
        · exact hf.1 h.symm
      have hcrlf : crlf (c :: f) = c :: crlf f := by simp [crlf, hc]
      have hcons : ∀ r, linesOf (c :: r) = (linesOf r).modifyHead (c :: ·) := fun r => by
        rw [linesOf, List.splitOnP_cons_eq_if_modifyHead, if_neg (by simpa using hends)]
        rfl
      refine ⟨c :: t, ts, ts', ?_, ?_, hrows⟩
      · rw [hcons, hlines]
        rfl
      · rw [hcrlf, hcons, hlines']
        rfl

/-- The rows of a profile do not depend on how its lines end. -/
lemma profileRows_crlf (hf : carriageReturn ∉ f) : profileRows (crlf f) = profileRows f := by
  obtain ⟨t, ts, ts', hlines, hlines', hrows⟩ := linesOf_crlf hf
  rw [profileRows, profileRows, hlines, hlines']
  exact hrows

/-- In a text without `'\r'`, its number of line ends is doubled. -/
lemma terminators_crlf (hf : carriageReturn ∉ f) : terminators (crlf f) = 2 * terminators f := by
  induction f with
  | nil => rfl
  | cons c f ih =>
    rw [List.mem_cons, not_or] at hf
    have ih := ih hf.2
    unfold terminators at ih ⊢
    by_cases hc : c = newline
    · subst hc
      have hcrlf : crlf (newline :: f) = carriageReturn :: newline :: crlf f := rfl
      rw [hcrlf, List.countP_cons_of_pos (by decide), List.countP_cons_of_pos (by decide),
        List.countP_cons_of_pos (by decide), ih]
      omega
    · have hends : ¬ EndsLine c := by
        rintro (h | h)
        · exact hc h
        · exact hf.1 h.symm
      have hcrlf : crlf (c :: f) = c :: crlf f := by simp [crlf, hc]
      rw [hcrlf, List.countP_cons_of_neg (by simpa using hends),
        List.countP_cons_of_neg (by simpa using hends), ih]

end Lines

/-! ## What the loops do -/

section Spec

variable {σ : Type} {addRule : σ → ℤ → List UInt8 → ℕ → σ × List UInt8}
  {realloc : ℕ → Option (ℕ → UInt8)}

/-- `stream_append` of one byte always returns, and appends it if `realloc` succeeds. -/
lemma streamAppend_one (s : StreamT) (c : UInt8) (r : Option (ℕ → UInt8)) :
    ∃ s', streamAppend s [c] r = .ok s' ∧ (r.isSome → s'.bytes = s.bytes ++ [c]) := by
  cases r with
  | some fresh =>
    obtain ⟨s', happ, hbytes⟩ := streamAppend_byte s c (show (some fresh).isSome from rfl)
    exact ⟨s', happ, fun _ => hbytes⟩
  | none =>
    by_cases hfull : s.len + [c].length > s.cap
    · refine ⟨s, ?_, fun h => by cases h⟩
      rw [streamAppend, if_pos hfull, streamExpand_none]
    · obtain ⟨s', hfill, -⟩ := @streamFill_ok s [c] (by omega)
      refine ⟨s', ?_, fun h => by cases h⟩
      rw [streamAppend, if_neg hfull, hfill]

/-- Behind the end of a line, the stream shows whether the line has a row. -/
lemma ruleLine_iff {s : StreamT} {t : List UInt8} (h : s.bytes = t ++ [nul]) :
    (s.len > 1 ∧ s.data.head? ≠ some hash) ↔ RuleLine t := by
  have hlen : s.len = t.length + 1 := by
    rw [← s.length_bytes, h, List.length_append, List.length_singleton]
  have hdata : s.data = t ++ nul :: s.data.drop s.len := by
    calc s.data = s.bytes ++ s.data.drop s.len := (List.take_append_drop _ _).symm
      _ = t ++ nul :: s.data.drop s.len := by rw [h]; simp
  rw [hdata, hlen, RuleLine]
  cases t with
  | nil => simp
  | cons c t => simp

/-- What the inner loop did when it ends: it read the line `t`, and with it the byte that ends the
line, or met the end of the bytes. -/
structure LineRead (realloc : ℕ → Option (ℕ → UInt8)) (rd rd' : ReadState σ) (t : List UInt8) :
    Prop where
  inside : ∀ c ∈ t, ¬ EndsLine c
  file :
    (rd.file.rest = t ∧ rd'.file = ⟨[], rd.file.readError, rd.file.eof || !rd.file.readError⟩) ∨
    ∃ e r, EndsLine e ∧ rd.file.rest = t ++ e :: r ∧ rd'.file = { rd.file with rest := r }
  bytes : (∀ i, (realloc i).isSome) → rd'.stream.bytes = rd.stream.bytes ++ t
  kept : rd'.lineNo = rd.lineNo ∧ rd'.passed = rd.passed

/-- **The inner loop reads a line.** -/
lemma readChars_spec {fuel : ℕ} {rd rd' : ReadState σ}
    (h : readChars realloc fuel rd = .ok (some rd')) : ∃ t, LineRead realloc rd rd' t := by
  induction fuel generalizing rd with
  | zero => cases h
  | succ fuel ih =>
    rw [readChars, fgetc] at h
    cases hrest : rd.file.rest with
    | nil =>
      rw [hrest] at h
      obtain rfl := Option.some.inj (Except.ok.inj h)
      exact ⟨[], by simp, Or.inl ⟨hrest, by simp⟩, by simp, ⟨rfl, rfl⟩⟩
    | cons c rest =>
      rw [hrest] at h
      simp only at h
      by_cases hends : EndsLine c
      · rw [if_pos hends] at h
        obtain rfl := Option.some.inj (Except.ok.inj h)
        exact ⟨[], by simp, Or.inr ⟨c, rest, hends, hrest, rfl⟩, by simp, ⟨rfl, rfl⟩⟩
      · obtain ⟨s, happ, hbytes⟩ := streamAppend_one rd.stream c (realloc rd.appends)
        rw [if_neg hends, happ] at h
        obtain ⟨t, hline⟩ := ih h
        refine ⟨c :: t, List.forall_mem_cons.mpr ⟨hends, hline.inside⟩, ?_, fun hreal => ?_,
          hline.kept⟩
        · rcases hline.file with ⟨ht, hfile⟩ | ⟨e, r, he, ht, hfile⟩
          · exact Or.inl ⟨by rw [hrest, ← ht], hfile⟩
          · exact Or.inr ⟨e, r, he, by rw [hrest, List.cons_append, ← ht], hfile⟩
        · rw [hline.bytes hreal, hbytes (hreal _), List.append_assoc, List.singleton_append]

/-- The inner loop ends. -/
lemma readChars_returns {fuel : ℕ} {rd : ReadState σ} (h : rd.file.rest.length < fuel) :
    ∃ rd', readChars realloc fuel rd = .ok (some rd') := by
  induction fuel generalizing rd with
  | zero => omega
  | succ fuel ih =>
    rw [readChars, fgetc]
    cases hrest : rd.file.rest with
    | nil => exact ⟨_, rfl⟩
    | cons c rest =>
      rw [hrest, List.length_cons] at h
      simp only
      by_cases hends : EndsLine c
      · rw [if_pos hends]
        exact ⟨_, rfl⟩
      · obtain ⟨s, happ, -⟩ := streamAppend_one rd.stream c (realloc rd.appends)
        rw [if_neg hends, happ]
        exact ih (by simp only; omega)

/-- **The end of a line** counts it, and passes its row on. -/
lemma finishLine_spec {rd rd' : ReadState σ} (h : finishLine addRule realloc rd = .ok rd') :
    rd.lineNo ≠ intMax ∧ rd'.lineNo = rd.lineNo + 1 ∧ rd'.file = rd.file ∧ rd'.stream.bytes = [] ∧
      ((∀ i, (realloc i).isSome) →
        rd'.passed = rd.passed ++ if rd.lineNo > 1 then rowsOf [rd.stream.bytes] else []) := by
  obtain ⟨s, happ, hbytes⟩ := streamAppend_one rd.stream nul (realloc rd.appends)
  rw [finishLine, happ] at h
  simp only [Except.mapError, Runs.ok_bind] at h
  by_cases hmax : rd.lineNo = intMax
  · rw [if_pos hmax] at h
    cases h
  rw [if_neg hmax] at h
  refine ⟨hmax, ?_⟩
  by_cases hrule : rd.lineNo > 1 ∧ s.len > 1 ∧ s.data.head? ≠ some hash
  · rw [if_pos hrule] at h
    rw [← Except.ok.inj h]
    refine ⟨rfl, rfl, List.take_zero, fun hreal => ?_⟩
    have hline : RuleLine rd.stream.bytes :=
      (ruleLine_iff (hbytes (hreal _))).mp hrule.2
    have hlen : s.len = rd.stream.bytes.length + 1 := by
      rw [← s.length_bytes, hbytes (hreal _), List.length_append, List.length_singleton]
    rw [if_pos hrule.1]
    simp [rowsOf, hline, hbytes (hreal _), hlen]
  · rw [if_neg hrule] at h
    rw [← Except.ok.inj h]
    refine ⟨rfl, rfl, List.take_zero, fun hreal => ?_⟩
    by_cases hno : rd.lineNo > 1
    · have hline : ¬ RuleLine rd.stream.bytes := fun hline =>
        hrule ⟨hno, (ruleLine_iff (hbytes (hreal _))).mpr hline⟩
      simp [rowsOf, hline]
    · simp [hno]

/-- The end of a line is read without a fault, if its number can still be increased. -/
lemma finishLine_returns {rd : ReadState σ} (h : rd.lineNo ≠ intMax) :
    ∃ rd', finishLine addRule realloc rd = .ok rd' := by
  obtain ⟨s, happ, -⟩ := streamAppend_one rd.stream nul (realloc rd.appends)
  rw [finishLine, happ]
  simp only [Except.mapError, Runs.ok_bind]
  rw [if_neg h]
  exact ⟨_, rfl⟩

/-- **What a run that returns did**: it met the end of the file, not a read error; all lines were
counted; and the rows of all lines but the first one were passed on.

**Proof sketch.** Induction on the rounds. A round reads one line (`readChars_spec`) and finishes it
(`finishLine_spec`); it is the last one exactly if the bytes end with the line. -/
lemma readLines_spec {fuel : ℕ} {rd rd' : ReadState σ}
    (h : readLines addRule realloc fuel rd = .ok (some rd')) (heof : rd.file.eof = false)
    (hempty : rd.stream.bytes = []) (hno : 1 ≤ rd.lineNo ∧ rd.lineNo ≤ intMax) :
    rd.file.readError = false ∧ rd.lineNo + terminators rd.file.rest < intMax ∧
      ((∀ i, (realloc i).isSome) → rd'.passed = rd.passed ++
        rowsOf (if rd.lineNo > 1 then linesOf rd.file.rest else (linesOf rd.file.rest).tail)) := by
  induction fuel generalizing rd with
  | zero => cases h
  | succ fuel ih =>
    rw [readLines, if_neg (by rw [heof]; exact Bool.false_ne_true)] at h
    obtain ⟨_ | rd₁, hread, h⟩ := Runs.bind_eq_ok.mp h
    · cases h
    obtain ⟨rd₂, hfinish, h⟩ := Runs.bind_eq_ok.mp h
    obtain ⟨t, hline⟩ := readChars_spec hread
    obtain ⟨hmax, hno₂, hfile₂, hempty₂, hpassed₂⟩ := finishLine_spec hfinish
    rw [hline.kept.1] at hmax hno₂
    have hpassed : (∀ i, (realloc i).isSome) →
        rd₂.passed = rd.passed ++ if rd.lineNo > 1 then rowsOf [t] else [] := fun hreal => by
      rw [hpassed₂ hreal, hline.kept.1, hline.kept.2, hline.bytes hreal, hempty, List.nil_append]
    rcases hline.file with ⟨hrest, hfile⟩ | ⟨e, r, he, hrest, hfile⟩
    · -- the bytes end with the line
      rw [hrest, terminators_last hline.inside, linesOf_last hline.inside]
      rw [hfile, heof, Bool.false_or] at hfile₂
      cases herror : rd.file.readError with
      | false =>
        have hdone : rd' = rd₂ := by
          cases fuel with
          | zero => cases h
          | succ fuel =>
            rw [readLines, if_pos (by rw [hfile₂, herror]; rfl)] at h
            exact (Option.some.inj (Except.ok.inj h)).symm
        refine ⟨rfl, by omega, fun hreal => ?_⟩
        rw [hdone, hpassed hreal]
        split_ifs <;> rfl
      | true =>
        -- the outer loop goes on without end
        have herror₂ := (ih h (by rw [hfile₂, herror]; rfl) hempty₂ (by omega)).1
        rw [hfile₂, herror] at herror₂
        cases herror₂
    · rw [hfile] at hfile₂
      obtain ⟨herror, hbound, hrows⟩ := ih h (by rw [hfile₂]; exact heof) hempty₂ (by omega)
      rw [hfile₂] at herror hbound hrows
      simp only at herror hbound hrows
      rw [hrest, terminators_append hline.inside he, linesOf_append hline.inside he]
      refine ⟨herror, by push_cast; omega, fun hreal => ?_⟩
      rw [hrows hreal, hpassed hreal, if_pos (show rd₂.lineNo > 1 by omega), List.append_assoc]
      congr 1
      split_ifs
      · rw [← rowsOf_cons]
      · rfl

/-- **A run returns** with the end of the file, if all lines can be counted.

**Proof sketch.** Induction on the rounds that are left, which are more than the bytes. -/
lemma readLines_returns {fuel : ℕ} {rd : ReadState σ} (heof : rd.file.eof = false)
    (herror : rd.file.readError = false) (hbound : rd.lineNo + terminators rd.file.rest < intMax)
    (hfuel : rd.file.rest.length + 2 ≤ fuel) :
    ∃ rd', readLines addRule realloc fuel rd = .ok (some rd') := by
  induction fuel generalizing rd with
  | zero => omega
  | succ fuel ih =>
    obtain ⟨rd₁, hread⟩ := @readChars_returns σ realloc fuel rd (by omega)
    obtain ⟨t, hline⟩ := readChars_spec hread
    obtain ⟨rd₂, hfinish⟩ := @finishLine_returns σ addRule realloc rd₁
      (by rw [hline.kept.1]; omega)
    obtain ⟨-, hno₂, hfile₂, -, -⟩ := finishLine_spec hfinish
    rw [readLines, if_neg (by rw [heof]; exact Bool.false_ne_true), hread, Runs.ok_bind]
    simp only
    rw [hfinish, Runs.ok_bind]
    rcases hline.file with ⟨hrest, hfile⟩ | ⟨e, r, he, hrest, hfile⟩
    · obtain ⟨fuel, rfl⟩ : ∃ k, fuel = k + 1 := ⟨fuel - 1, by omega⟩
      rw [readLines, if_pos (by rw [hfile₂, hfile, heof, herror]; rfl)]
      exact ⟨_, rfl⟩
    · rw [hrest, terminators_append hline.inside he] at hbound
      rw [hrest, List.length_append, List.length_cons] at hfuel
      refine ih (by rw [hfile₂, hfile]; exact heof) (by rw [hfile₂, hfile]; exact herror) ?_ ?_
      · rw [hfile₂, hfile, hno₂, hline.kept.1]
        push_cast at hbound
        simp only
        omega
      · rw [hfile₂, hfile]
        simp only
        omega

end Spec

/-! ## Whole profiles -/

section Profile

variable {σ : Type} (addRule : σ → ℤ → List UInt8 → ℕ → σ × List UInt8)
  (realloc : ℕ → Option (ℕ → UInt8))

/-- `attacker_read_rows` returns, with the variables `rd` behind the loops. -/
def ReturnsWith (file : CFile) (fresh : ℕ → UInt8) (s : σ) (rd : ReadState σ) : Prop :=
  ∃ fuel, readLines addRule realloc fuel (.start file fresh s) = .ok (some rd)

/-- `attacker_read_rows` returns and has passed the rows to `attacker_add_rule`. -/
def Passes (f : List UInt8) (fresh : ℕ → UInt8) (s : σ) (rows : List (List UInt8 × ℕ)) : Prop :=
  ∃ rd, ReturnsWith addRule realloc ⟨f, false, false⟩ fresh s rd ∧ rd.passed = rows

/-- The reader returns exactly if the bytes end with the file, and all lines can be counted. -/
lemma returnsWith_iff (file : List UInt8) (readError : Bool) (fresh : ℕ → UInt8) (s : σ) :
    (∃ rd, ReturnsWith addRule realloc ⟨file, readError, false⟩ fresh s rd) ↔
      readError = false ∧ terminators file < 2147483646 := by
  constructor
  · rintro ⟨rd, fuel, hrun⟩
    obtain ⟨herror, hbound, -⟩ := readLines_spec hrun rfl rfl ⟨le_rfl, one_le_intMax⟩
    have hbound' : (1 : ℤ) + terminators file < 2147483647 := hbound
    exact ⟨herror, by omega⟩
  · rintro ⟨rfl, hbound⟩
    have hbound' : (1 : ℤ) + terminators file < 2147483647 := by omega
    obtain ⟨rd, hrun⟩ := @readLines_returns σ addRule realloc _
      (.start ⟨file, false, false⟩ fresh s) rfl rfl hbound' le_rfl
    exact ⟨rd, _, hrun⟩

/-- A reader that returns has passed the rows of the profile. -/
lemma passes_iff (hreal : ∀ i, (realloc i).isSome) (f : List UInt8) (fresh : ℕ → UInt8) (s : σ)
    (rows : List (List UInt8 × ℕ)) :
    Passes addRule realloc f fresh s rows ↔ rows = profileRows f ∧ terminators f < 2147483646 := by
  have hrows : ∀ rd, ReturnsWith addRule realloc ⟨f, false, false⟩ fresh s rd →
      rd.passed = profileRows f := by
    rintro rd ⟨fuel, hrun⟩
    exact (readLines_spec hrun rfl rfl ⟨le_rfl, one_le_intMax⟩).2.2 hreal
  constructor
  · rintro ⟨rd, hrun, rfl⟩
    exact ⟨hrows rd hrun, ((returnsWith_iff addRule realloc f false fresh s).mp ⟨rd, hrun⟩).2⟩
  · rintro ⟨rfl, hbound⟩
    obtain ⟨rd, hrun⟩ := (returnsWith_iff addRule realloc f false fresh s).mpr ⟨rfl, hbound⟩
    exact ⟨rd, hrun, hrows rd hrun⟩

/-- **Which rows are passed to `attacker_add_rule`.** For every content of the file, whatever
`attacker_add_rule` does with the block it is given: those of the profile, exactly if the file has
not too many lines for `line_no`. In a file without `'\r'`, a `'\r'` before every `'\n'` does not
change the rows, exactly if there are not too many lines then.

**Proof sketch.** What a run that returns has passed is known (`readLines_spec`), and when it
returns (`returnsWith_iff`). The additional lines are empty (`profileRows_crlf`). -/
theorem readLines_rows_iff (hreal : ∀ i, (realloc i).isSome) (f : List UInt8) (fresh : ℕ → UInt8)
    (s : σ) :
    (Passes addRule realloc f fresh s (profileRows f) ↔ terminators f < 2147483646) ∧
    (carriageReturn ∉ f →
      ((∃ rows, Passes addRule realloc f fresh s rows ∧
          Passes addRule realloc (crlf f) fresh s rows) ↔ 2 * terminators f < 2147483646)) := by
  refine ⟨by rw [passes_iff addRule realloc hreal, and_iff_right rfl], fun hf => ?_⟩
  constructor
  · rintro ⟨rows, -, hcrlf⟩
    rw [passes_iff addRule realloc hreal, terminators_crlf hf] at hcrlf
    exact hcrlf.2
  · intro hbound
    refine ⟨profileRows f, ?_, ?_⟩
    · rw [passes_iff addRule realloc hreal]
      exact ⟨rfl, by omega⟩
    · rw [passes_iff addRule realloc hreal, profileRows_crlf hf, terminators_crlf hf]
      exact ⟨rfl, hbound⟩

/-- A header, an empty line, a comment and two rows, the last one without an end of line. -/
theorem readLines_rows_two :
    Passes (fun s _ data _ => (s, data)) (fun _ => some fun _ => 0) (cstr "id\r\n#\na,b\r\nc")
      (fun _ => 0) () [(cstr "a,b" ++ [nul], 4), (cstr "c" ++ [nul], 2)] := by
  have hrows : profileRows (cstr "id\r\n#\na,b\r\nc") =
      [(cstr "a,b" ++ [nul], 4), (cstr "c" ++ [nul], 2)] := by decide +kernel
  rw [← hrows]
  exact (readLines_rows_iff _ _ (fun _ => rfl) _ _ ()).1.mpr (by decide +kernel)

/-- A row that stands behind more ends of line than `line_no` can count. -/
theorem readLines_rows_overflow :
    profileRows (List.replicate (2147483646 + 1) newline ++ cstr "1") = [(cstr "1" ++ [nul], 2)] ∧
      ¬ ∃ rows, Passes (fun s _ data _ => (s, data)) (fun _ => some fun _ => 0)
        (List.replicate (2147483646 + 1) newline ++ cstr "1") (fun _ => 0) () rows := by
  refine ⟨profileRows_blank 2147483646 (by decide +kernel) (by decide +kernel), ?_⟩
  rintro ⟨rows, hpasses⟩
  rw [passes_iff _ _ (fun _ => rfl)] at hpasses
  obtain ⟨-, hbound⟩ := hpasses
  rw [terminators, List.countP_append, List.countP_replicate, if_pos (by decide)] at hbound
  omega

/-- **When the reader returns.** For every sequence of bytes that `fgetc` delivers before `EOF`, and
whatever `realloc` and `attacker_add_rule` do: exactly if the `EOF` comes from the end of the file,
and the file has not too many lines for `line_no`.

**Proof sketch.** `feof` stays false after a read error, so the outer loop never ends
(`readLines_spec`); with the end of the file both loops do (`readLines_returns`). -/
theorem readLines_returns_iff (bytes : List UInt8) (readError : Bool) (fresh : ℕ → UInt8) (s : σ) :
    (∃ fuel rd, readLines addRule realloc fuel (.start ⟨bytes, readError, false⟩ fresh s) =
      .ok (some rd)) ↔ readError = false ∧ terminators bytes < 2147483646 := by
  rw [← returnsWith_iff addRule realloc bytes readError fresh s, exists_comm]
  rfl

/-- A read error in front of the first byte. -/
theorem readLines_returns_error :
    ¬ ∃ fuel rd, readLines (fun s _ data _ => (s, data)) (fun _ => some fun _ => 0) fuel
      (.start ⟨[], true, false⟩ (fun _ => 0) ()) = .ok (some rd) := by
  rintro ⟨fuel, rd, hrun⟩
  exact absurd (readLines_spec hrun rfl rfl ⟨le_rfl, one_le_intMax⟩).1 (by decide)

end Profile

/-! ## The reader with the rule parser -/

section RuleParser

variable {past : Past} {realloc : ℕ → Option (ℕ → UInt8)}

/-- `attacker_add_rule`, where it does not fault. -/
def addRuleOr (past : Past) (T : Tables) (_ : ℤ) (data : List UInt8) (len : ℕ) :
    Tables × List UInt8 :=
  match attackerAddRule past T data 0 len with
  | .ok (_, T, data) => (T, data)
  | .error _ => (T, data)

/-- More rounds change nothing. -/
lemma readChars_mono {σ : Type} {fuel : ℕ} {rd rd' : ReadState σ}
    (h : readChars realloc fuel rd = .ok (some rd')) :
    readChars realloc (fuel + 1) rd = .ok (some rd') := by
  induction fuel generalizing rd with
  | zero => cases h
  | succ fuel ih =>
    rw [readChars, fgetc] at h ⊢
    cases hrest : rd.file.rest with
    | nil =>
      rw [hrest] at h
      exact h
    | cons c rest =>
      rw [hrest] at h
      simp only at h ⊢
      by_cases hends : EndsLine c
      · rwa [if_pos hends] at h ⊢
      · rw [if_neg hends] at h ⊢
        obtain ⟨s, happ, h⟩ := Runs.bind_eq_ok.mp h
        rw [happ, Runs.ok_bind]
        exact ih h

/-- More fuel does not change the result. -/
lemma readLines_mono {σ : Type} {addRule : σ → ℤ → List UInt8 → ℕ → σ × List UInt8} {fuel : ℕ}
    {rd rd' : ReadState σ} (h : readLines addRule realloc fuel rd = .ok (some rd')) :
    readLines addRule realloc (fuel + 1) rd = .ok (some rd') := by
  induction fuel generalizing rd with
  | zero => cases h
  | succ fuel ih =>
    rw [readLines] at h ⊢
    by_cases heof : rd.file.eof = true
    · rwa [if_pos heof] at h ⊢
    · rw [if_neg heof] at h ⊢
      obtain ⟨_ | rd₁, hread, h⟩ := Runs.bind_eq_ok.mp h
      · cases h
      obtain ⟨rd₂, hfinish, h⟩ := Runs.bind_eq_ok.mp h
      rw [readChars_mono hread, Runs.ok_bind]
      simp only
      rw [hfinish, Runs.ok_bind]
      exact ih h

/-- The end of a line, in both readers. -/
lemma finishLine_of_endOfLine {rd rd' : RowReader} {i : ℕ}
    (h : endOfLine past rd (realloc i) = .ok rd') (hno : (rd.lineNo : ℤ) ≠ intMax) (file : CFile)
    (passed : List (List UInt8 × ℕ)) :
    ∃ passed', finishLine (addRuleOr past) realloc
        ⟨file, rd.lineNo, rd.stream, i, rd.tables, passed⟩ =
      .ok ⟨file, rd'.lineNo, rd'.stream, i + 1, rd'.tables, passed'⟩ := by
  obtain ⟨s, happ, h⟩ := Runs.bind_eq_ok.mp h
  rw [finishLine, happ]
  simp only [Except.mapError, Runs.ok_bind]
  rw [if_neg hno]
  have hcast : (rd.lineNo : ℤ) > 1 ↔ rd.lineNo > 1 := by omega
  by_cases hrule : rd.lineNo > 1 ∧ s.len > 1 ∧ s.data.head? ≠ some hash
  · rw [if_pos hrule] at h
    obtain ⟨⟨ret, T, m⟩, hadd, h⟩ := Runs.bind_eq_ok.mp h
    obtain rfl := Except.ok.inj h
    have hor : addRuleOr past rd.tables rd.lineNo s.data s.len = (T, m) := by
      rw [addRuleOr, hadd]
    rw [if_pos ⟨hcast.mpr hrule.1, hrule.2⟩, hor]
    exact ⟨_, rfl⟩
  · rw [if_neg hrule] at h
    obtain rfl := Except.ok.inj h
    rw [if_neg fun hrule' => hrule ⟨hcast.mp hrule'.1, hrule'.2⟩]
    exact ⟨_, rfl⟩

/-- A round of the outer loop. -/
lemma readLines_round {σ : Type} {addRule : σ → ℤ → List UInt8 → ℕ → σ × List UInt8} {fuel : ℕ}
    {rd rd₁ rd₂ rd' : ReadState σ} (heof : rd.file.eof = false)
    (hread : readChars realloc (fuel + 1) rd = .ok (some rd₁))
    (hfinish : finishLine addRule realloc rd₁ = .ok rd₂)
    (h : readLines addRule realloc fuel rd₂ = .ok (some rd')) :
    readLines addRule realloc (fuel + 2) rd = .ok (some rd') := by
  rw [readLines, if_neg (by rw [heof]; exact Bool.false_ne_true), hread, Runs.ok_bind]
  simp only
  rw [hfinish, Runs.ok_bind, readLines_mono h]

/-- **The reader of `Profile.lean` from a byte of the file on is this one.**

**Proof sketch.** Induction on the bytes. A byte of a line is appended in both; at the end of a line
both finish it, and a round of the outer loop begins. -/
lemma readLines_of_run {f : List UInt8} {rd rd' : RowReader} {i : ℕ}
    (h : Runs.run (attackerReadRowsStep past) rd (getcs realloc i f) = .ok rd')
    (hbound : (rd.lineNo : ℤ) + terminators f < intMax) (passed : List (List UInt8 × ℕ)) :
    ∃ fuel R, readLines (addRuleOr past) realloc fuel
        ⟨⟨f, false, false⟩, rd.lineNo, rd.stream, i, rd.tables, passed⟩ = .ok (some R) ∧
      R.rules = rd'.tables := by
  induction f generalizing rd i passed with
  | nil =>
    obtain ⟨rd₁, hend, hrun⟩ := Runs.bind_eq_ok.mp h
    obtain rfl := Except.ok.inj hrun
    obtain ⟨passed', hfinish⟩ := finishLine_of_endOfLine hend (by omega) ⟨[], false, true⟩ passed
    exact ⟨3, _, readLines_round rfl rfl hfinish rfl, rfl⟩
  | cons c f ih =>
    obtain ⟨rd₁, hstep, hrun⟩ := Runs.bind_eq_ok.mp h
    simp only [attackerReadRowsStep] at hstep
    by_cases hends : EndsLine c
    · rw [if_pos hends] at hstep
      obtain ⟨passed', hfinish⟩ := finishLine_of_endOfLine hstep (by omega) ⟨f, false, false⟩ passed
      have hcount : terminators (c :: f) = terminators f + 1 :=
        @terminators_append [] _ _ (by simp) hends
      have hno : rd₁.lineNo = rd.lineNo + 1 := by
        rcases @step_cases past _ _ ⟨some c, realloc i⟩ (by
          rw [attackerReadRowsStep]
          exact (if_pos hends).trans hstep) with ⟨⟨d, hd, hnot⟩, -⟩ | ⟨-, hno, -⟩
        · obtain rfl : c = d := Option.some.inj hd
          exact absurd hends hnot
        · exact hno
      obtain ⟨fuel, R, hR, hrules⟩ := ih hrun (by rw [hno]; push_cast; omega) passed'
      refine ⟨fuel + 2, R, readLines_round rfl ?_ hfinish hR, hrules⟩
      rw [readChars]
      exact if_pos hends
    · rw [if_neg hends] at hstep
      obtain ⟨s, happ, hstep⟩ := Runs.bind_eq_ok.mp hstep
      obtain rfl := Except.ok.inj hstep
      have hcount : terminators (c :: f) = terminators f :=
        List.countP_cons_of_neg (by simpa using hends)
      obtain ⟨fuel, R, hR, hrules⟩ := ih hrun (by rw [← hcount]; exact hbound) passed
      -- the round that goes on behind this byte
      cases fuel with
      | zero => cases hR
      | succ fuel =>
        rw [readLines, if_neg Bool.false_ne_true] at hR
        obtain ⟨_ | rd₁, hread, hR⟩ := Runs.bind_eq_ok.mp hR
        · cases hR
        obtain ⟨rd₂, hfinish, hR⟩ := Runs.bind_eq_ok.mp hR
        refine ⟨fuel + 2, R, readLines_round rfl ?_ hfinish hR, hrules⟩
        rw [readChars]
        simp only [fgetc, if_neg hends, happ, Except.mapError, Runs.ok_bind]
        exact hread

/-- **The tables behind `attacker_read_rows`** are those of this reader, if the rule parser does not
fault and all lines can be counted. -/
theorem readLines_of_attackerReadRows {T T' : Tables} {f : List UInt8} {fresh : ℕ → UInt8}
    (h : attackerReadRows past T (some f) (some fresh) realloc = .ok T')
    (hbound : terminators f < 2147483646) :
    ∃ rd, ReturnsWith (addRuleOr past) realloc ⟨f, false, false⟩ fresh T rd ∧ rd.rules = T' := by
  obtain ⟨rd', hrun, hT⟩ := Runs.bind_eq_ok.mp h
  have hbound' : (1 : ℤ) + terminators f < 2147483647 := by omega
  obtain ⟨fuel, rd, hread, hrules⟩ := readLines_of_run hrun hbound' []
  exact ⟨rd, ⟨fuel, hread⟩, hrules.trans (Except.ok.inj hT)⟩

end RuleParser

end Mproxy
