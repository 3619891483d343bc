import Mproxy.Rules.OwnText
import Mproxy.Stream

set_option relaxedAutoImplicit false
set_option autoImplicit false

/-!
# Profiles

`attacker_read_rows` of `attack.c`: a profile is read byte by byte into a stream, and at the end of
a line, behind a terminator, the stream is passed to `attacker_add_rule`. The stream is the same for
all lines: only its length is set back, so that behind a line there are the bytes of longer lines
before it, or those that the allocator found.

The state of the reader is what the variables of the function hold between two calls of `fgetc`; a
step is what is done with the result of one such call.

## Main definitions

* `Mproxy.RowReader`, `Mproxy.attackerReadRowsStep` — the reader and its step.
* `Mproxy.attackerReadRows` — `attacker_read_rows`.
* `Mproxy.lineEffect` — what a line does to the tables, from its own text.

## Main results

* `Mproxy.attackerReadRows_fold` — a profile is the fold of its lines, if they are read inside their
  own text.
* `Mproxy.line_own_text` — the effect of such a line depends on its text only.
-/

namespace Mproxy

open Memory

/-- `'\n'` -/
def newline : UInt8 := 10

/-- `'\r'` -/
def carriageReturn : UInt8 := 13

/-- `'#'` -/
def hash : UInt8 := 35

/-- One call of `fgetc`: what it returns, with `none` for `EOF`, and what `realloc` answers if the
`stream_append` behind it expands the stream. -/
structure Getc where
  char : Option UInt8
  realloc : Option (ℕ → UInt8)

/-- A byte that ends a line. -/
def EndsLine (c : UInt8) : Prop := c = newline ∨ c = carriageReturn

instance (c : UInt8) : Decidable (EndsLine c) := inferInstanceAs (Decidable (_ ∨ _))

/-- The variables of `attacker_read_rows`, and the tables. `line_no` is an `int` there, which this
does not model for profiles with more than `2147483646` lines. -/
structure RowReader where
  lineNo : ℕ
  stream : StreamT
  tables : Tables

/-- The variables before the first line. -/
def RowReader.start (T : Tables) (fresh : ℕ → UInt8) : RowReader :=
  ⟨1, streamNew defaultStreamLen fresh, T⟩

/-- What is done at the end of a line: the terminator is appended, the line is passed to
`attacker_add_rule` if it is not the first one, empty or a comment, and the stream is emptied. -/
def endOfLine (past : Past) (rd : RowReader) (realloc : Option (ℕ → UInt8)) :
    Except Fault RowReader := do
  let s ← streamAppend rd.stream [nul] realloc
  if rd.lineNo > 1 ∧ s.len > 1 ∧ s.data.head? ≠ some hash then do
    let (_, T, m) ← attackerAddRule past rd.tables s.data 0 s.len
    .ok ⟨rd.lineNo + 1, ⟨m, 0, Nat.zero_le _⟩, T⟩
  else .ok ⟨rd.lineNo + 1, ⟨s.data, 0, Nat.zero_le _⟩, rd.tables⟩

/-- What is done with the result of one call of `fgetc`. -/
def attackerReadRowsStep (past : Past) (rd : RowReader) (g : Getc) : Except Fault RowReader :=
  match g.char with
  | none => endOfLine past rd g.realloc
  | some c =>
    if EndsLine c then endOfLine past rd g.realloc
    else do
      let s ← streamAppend rd.stream [c] g.realloc
      .ok { rd with stream := s }

/-- The calls of `fgetc` on a file from its byte `i` on. -/
def getcs (realloc : ℕ → Option (ℕ → UInt8)) : ℕ → List UInt8 → List Getc
  | i, [] => [⟨none, realloc i⟩]
  | i, c :: f => ⟨some c, realloc i⟩ :: getcs realloc (i + 1) f

/-- `attacker_read_rows`: the tables behind the call. `file` is `none` if the file cannot be opened,
`fresh` if the stream cannot be allocated. -/
def attackerReadRows (past : Past) (T : Tables) (file : Option (List UInt8))
    (fresh : Option (ℕ → UInt8)) (realloc : ℕ → Option (ℕ → UInt8)) : Except Fault Tables :=
  match file, fresh with
  | some file, some fresh => do
    let rd ← Runs.run (attackerReadRowsStep past) (.start T fresh) (getcs realloc 0 file)
    .ok rd.tables
  | _, _ => .ok T

/-! ## One line -/

/-- A line that is passed to `attacker_add_rule`, if it is not the first one. -/
def RuleLine (t : List UInt8) : Prop := t ≠ [] ∧ t.head? ≠ some hash

instance (t : List UInt8) : Decidable (RuleLine t) := inferInstanceAs (Decidable (_ ∧ _))

/-- What a line does to the tables, if nothing but its own text is there. -/
def lineEffect (past : Past) (T : Tables) (t : List UInt8) : Except Fault Tables :=
  if RuleLine t then addRuleStep past T (rowCall t []) else .ok T

variable {past : Past} {T : Tables}

/-- One byte is appended to a stream, with an expansion if need be. -/
lemma streamAppend_byte (s : StreamT) (c : UInt8) {realloc : Option (ℕ → UInt8)}
    (hreal : realloc.isSome) :
    ∃ s', streamAppend s [c] realloc = .ok s' ∧ s'.bytes = s.bytes ++ [c] := by
  obtain ⟨fresh, rfl⟩ := Option.isSome_iff_exists.mp hreal
  unfold streamAppend
  by_cases hfull : s.len + [c].length > s.cap
  · obtain ⟨s', hs'⟩ : ∃ s', streamExpand s [c].length (some fresh) = some s' := ⟨_, rfl⟩
    obtain ⟨hbytes, hlen, hcap⟩ := streamExpand_some hs'
    have hle := s.len_le_cap
    have hroom : s'.len + [c].length ≤ s'.cap := by omega
    obtain ⟨m, hm, hmbytes, -⟩ := streamFill_ok hroom
    refine ⟨m, ?_, by rw [hmbytes, hbytes]⟩
    rw [if_pos hfull, hs']
    exact hm
  · have hroom : s.len + [c].length ≤ s.cap := by omega
    obtain ⟨m, hm, hmbytes, -⟩ := streamFill_ok hroom
    refine ⟨m, ?_, hmbytes⟩
    rw [if_neg hfull]
    exact hm

/-- Behind the end of a line the stream is its bytes, a terminator, and what was there. -/
lemma streamAppend_terminator (s : StreamT) {realloc : Option (ℕ → UInt8)}
    (hreal : realloc.isSome) :
    ∃ s' B, streamAppend s [nul] realloc = .ok s' ∧ s'.data = s.bytes ++ nul :: B ∧
      s'.len = s.bytes.length + 1 := by
  obtain ⟨s', happ, hbytes⟩ := streamAppend_byte s nul hreal
  have hlen : s'.len = s.bytes.length + 1 := by
    rw [← s'.length_bytes, hbytes, List.length_append, List.length_singleton]
  refine ⟨s', s'.data.drop s'.len, happ, ?_, hlen⟩
  calc s'.data = s'.bytes ++ s'.data.drop s'.len := (List.take_append_drop _ _).symm
    _ = s.bytes ++ nul :: s'.data.drop s'.len := by rw [hbytes]; simp

/-- **The end of a line.** A line that is read inside its own text does to the tables what its text
says, whatever else is in the stream's block. -/
lemma endOfLine_effect {rd : RowReader} (hno : 1 < rd.lineNo)
    (hown : RuleLine rd.stream.bytes → OwnText past rd.stream.bytes)
    {realloc : Option (ℕ → UInt8)} (hreal : realloc.isSome) :
    ∃ s : StreamT, s.bytes = [] ∧ endOfLine past rd realloc =
      (lineEffect past rd.tables rd.stream.bytes >>= fun T => .ok ⟨rd.lineNo + 1, s, T⟩) := by
  obtain ⟨s, B, happ, hdata, hlen⟩ := streamAppend_terminator rd.stream hreal
  have hiff : (rd.lineNo > 1 ∧ s.len > 1 ∧ s.data.head? ≠ some hash) ↔
      RuleLine rd.stream.bytes := by
    rw [hdata, hlen]
    unfold RuleLine
    cases rd.stream.bytes with
    | nil => simp
    | cons c t => simp [hno]
  unfold endOfLine lineEffect
  rw [happ, Runs.ok_bind]
  by_cases hrule : RuleLine rd.stream.bytes
  · obtain ⟨rule, hmeans⟩ := (hown hrule).means
    obtain ⟨m', hadd⟩ := (hmeans B).addRule
    have hcall : attackerAddRule past rd.tables s.data 0 s.len =
        (attackerApplyRule rd.tables rule >>= fun p => .ok (p.1, p.2, m')) := by
      rw [hdata, hlen]
      exact hadd rd.tables
    refine ⟨⟨m', 0, Nat.zero_le _⟩, List.take_zero, ?_⟩
    rw [if_pos (hiff.mpr hrule), if_pos hrule, hcall, (hmeans []).addRuleStep]
    cases attackerApplyRule rd.tables rule with
    | error e => rfl
    | ok p => rfl
  · refine ⟨⟨s.data, 0, Nat.zero_le _⟩, List.take_zero, ?_⟩
    rw [if_neg (fun h => hrule (hiff.mp h)), if_neg hrule, Runs.ok_bind]

/-- The first line does nothing. -/
lemma endOfLine_first (past : Past) (rd : RowReader) (hno : rd.lineNo = 1)
    {realloc : Option (ℕ → UInt8)} (hreal : realloc.isSome) :
    ∃ s : StreamT, s.bytes = [] ∧ endOfLine past rd realloc = .ok ⟨2, s, rd.tables⟩ := by
  obtain ⟨s, B, happ, -, -⟩ := streamAppend_terminator rd.stream hreal
  refine ⟨⟨s.data, 0, Nat.zero_le _⟩, List.take_zero, ?_⟩
  rw [endOfLine, happ, Runs.ok_bind, hno, if_neg fun h => absurd h.1 (by decide)]

/-! ## Runs of the reader -/

/-- A byte inside a line is appended to the stream. -/
lemma step_byte (past : Past) (rd : RowReader) {c : UInt8} (hc : ¬ EndsLine c)
    {realloc : Option (ℕ → UInt8)} (hreal : realloc.isSome) :
    ∃ s : StreamT, s.bytes = rd.stream.bytes ++ [c] ∧
      attackerReadRowsStep past rd ⟨some c, realloc⟩ = .ok { rd with stream := s } := by
  obtain ⟨s, happ, hbytes⟩ := streamAppend_byte rd.stream c hreal
  refine ⟨s, hbytes, ?_⟩
  simp only [attackerReadRowsStep, if_neg hc, happ, Runs.ok_bind]

/-- A round of the loop at the end of a line, or of the file. -/
lemma step_end {rd : RowReader} {g : Getc} (hg : ∀ c ∈ g.char, EndsLine c) :
    attackerReadRowsStep past rd g = endOfLine past rd g.realloc := by
  obtain ⟨char, realloc⟩ := g
  cases char with
  | none => rfl
  | some c => simp only [attackerReadRowsStep, if_pos (hg c rfl)]

/-- Reading the rest of a line. -/
lemma run_line {t : List UInt8} (ht : ∀ c ∈ t, ¬ EndsLine c) {gs : List Getc} {e : Option UInt8}
    (hgs : gs.map Getc.char = t.map some ++ [e]) (he : ∀ c ∈ e, EndsLine c)
    (hreal : ∀ g ∈ gs, g.realloc.isSome) {rd : RowReader} (hno : 1 < rd.lineNo)
    (hown : RuleLine (rd.stream.bytes ++ t) → OwnText past (rd.stream.bytes ++ t)) :
    ∃ s : StreamT, s.bytes = [] ∧ Runs.run (attackerReadRowsStep past) rd gs =
      (lineEffect past rd.tables (rd.stream.bytes ++ t) >>=
        fun T => .ok ⟨rd.lineNo + 1, s, T⟩) := by
  induction t generalizing gs rd with
  | nil =>
    obtain ⟨g, rfl, hg⟩ : ∃ g, gs = [g] ∧ g.char = e := by simpa [List.map_eq_cons_iff] using hgs
    rw [List.append_nil] at hown ⊢
    obtain ⟨s, hs, heffect⟩ := endOfLine_effect hno hown (hreal g List.mem_cons_self)
    refine ⟨s, hs, ?_⟩
    rw [Runs.run_cons, step_end (by rw [hg]; exact he), heffect]
    cases lineEffect past rd.tables rd.stream.bytes with
    | error e => rfl
    | ok T => rfl
  | cons c t ih =>
    obtain ⟨⟨char, realloc⟩, gs, rfl, hchar, hgs'⟩ := List.map_eq_cons_iff.mp hgs
    obtain rfl : char = some c := hchar
    obtain ⟨s, hs, hstep⟩ := step_byte past rd (ht c List.mem_cons_self)
      (hreal _ List.mem_cons_self)
    have hbytes : s.bytes ++ t = rd.stream.bytes ++ c :: t := by rw [hs]; simp
    obtain ⟨s', hs', hrun⟩ : ∃ s' : StreamT, s'.bytes = [] ∧
        Runs.run (attackerReadRowsStep past) { rd with stream := s } gs =
          (lineEffect past rd.tables (s.bytes ++ t) >>= fun T => .ok ⟨rd.lineNo + 1, s', T⟩) :=
      ih (fun d hd => ht d (List.mem_cons_of_mem c hd)) hgs'
        (fun g hg => hreal g (List.mem_cons_of_mem _ hg)) hno (by rw [hbytes]; exact hown)
    rw [hbytes] at hrun
    exact ⟨s', hs', by rw [Runs.run_cons, hstep]; exact hrun⟩

/-- What a step does to the number of the line and to what is in the stream. -/
lemma step_cases {rd rd' : RowReader} {g : Getc} (h : attackerReadRowsStep past rd g = .ok rd') :
    (∃ c ∈ g.char, ¬ EndsLine c) ∧ rd'.lineNo = rd.lineNo ∨
      (∀ c ∈ g.char, EndsLine c) ∧ rd'.lineNo = rd.lineNo + 1 ∧ rd'.stream.bytes = [] := by
  have hend : ∀ {realloc}, endOfLine past rd realloc = .ok rd' →
      rd'.lineNo = rd.lineNo + 1 ∧ rd'.stream.bytes = [] := by
    intro realloc h
    obtain ⟨s, -, h⟩ := Runs.bind_eq_ok.mp h
    split_ifs at h
    · obtain ⟨p, -, h⟩ := Runs.bind_eq_ok.mp h
      obtain rfl := Except.ok.inj h
      exact ⟨rfl, List.take_zero⟩
    · obtain rfl := Except.ok.inj h
      exact ⟨rfl, List.take_zero⟩
  obtain ⟨char, realloc⟩ := g
  cases char with
  | none => exact Or.inr ⟨by simp, hend h⟩
  | some c =>
    simp only [attackerReadRowsStep] at h
    split_ifs at h with hc
    · exact Or.inr ⟨by simpa using hc, hend h⟩
    · obtain ⟨s, -, h⟩ := Runs.bind_eq_ok.mp h
      obtain rfl := Except.ok.inj h
      exact Or.inl ⟨⟨c, rfl, hc⟩, rfl⟩

/-- Behind the end of a line the stream is empty, and the first line is over. -/
lemma run_endsLine {T : Tables} {fresh : ℕ → UInt8} {gs : List Getc} {rd : RowReader}
    (hrun : Runs.run (attackerReadRowsStep past) (.start T fresh) gs = .ok rd)
    (hend : ∃ g ∈ gs.getLast?, ∀ c ∈ g.char, EndsLine c) :
    1 < rd.lineNo ∧ rd.stream.bytes = [] := by
  obtain ⟨g, hg, hchar⟩ := hend
  obtain ⟨gs, rfl⟩ := List.getLast?_eq_some_iff.mp hg
  rw [Runs.run_append] at hrun
  obtain ⟨rd₁, hfirst, hlast⟩ := Runs.bind_eq_ok.mp hrun
  have hstep : ∀ (rd : RowReader) (g : Getc) (rd' : RowReader), 1 ≤ rd.lineNo → True →
      attackerReadRowsStep past rd g = .ok rd' → 1 ≤ rd'.lineNo := by
    intro rd g rd' hno _ h
    rcases step_cases h with ⟨-, h⟩ | ⟨-, h, -⟩ <;> omega
  have hno : 1 ≤ rd₁.lineNo := Runs.invariant hstep le_rfl (fun _ _ => trivial) hfirst
  have hlast' : attackerReadRowsStep past rd₁ g = .ok rd := by
    rw [Runs.run_cons] at hlast
    obtain ⟨rd₂, hstep, heq⟩ := Runs.bind_eq_ok.mp hlast
    obtain rfl := Except.ok.inj heq
    exact hstep
  rcases step_cases hlast' with ⟨⟨c, hc, hno⟩, -⟩ | ⟨-, hno', hbytes⟩
  · exact absurd (hchar c hc) hno
  · exact ⟨by omega, hbytes⟩

/-- The calls of `fgetc` that read a line, with its end. -/
structure ReadsLine (t : List UInt8) (gs : List Getc) : Prop where
  chars : ∃ e, gs.map Getc.char = t.map some ++ [e] ∧ ∀ c ∈ e, EndsLine c
  inside : ∀ c ∈ t, ¬ EndsLine c
  grows : ∀ g ∈ gs, g.realloc.isSome

/-- **The effect of a line depends on its own text only.** For every two runs of
`attacker_read_rows`, over whatever lines and from whatever is in the block of the stream, that have
come to the end of a line with the same tables: if both go on with a line of the same text that is
read inside its own text, and no expansion of the stream fails meanwhile, they have the same tables
behind it, which are the ones that its text alone leads to.

**Proof sketch.** A line is read into the empty stream (`run_line`); at its end there are its bytes,
a terminator and whatever the block holds, which the row's meaning does not depend on
(`OwnText.means`). -/
theorem line_own_text {T T' : Tables} {fresh fresh' : ℕ → UInt8} {before before' : List Getc}
    {rd rd' : RowReader}
    (hrun : Runs.run (attackerReadRowsStep past) (.start T fresh) before = .ok rd)
    (hrun' : Runs.run (attackerReadRowsStep past) (.start T' fresh') before' = .ok rd')
    (hend : ∃ g ∈ before.getLast?, ∀ c ∈ g.char, EndsLine c)
    (hend' : ∃ g ∈ before'.getLast?, ∀ c ∈ g.char, EndsLine c)
    (htables : rd.tables = rd'.tables) {t : List UInt8} {line line' : List Getc}
    (hline : ReadsLine t line) (hline' : ReadsLine t line') (hown : RuleLine t → OwnText past t) :
    (Runs.run (attackerReadRowsStep past) rd line).map RowReader.tables =
        (Runs.run (attackerReadRowsStep past) rd' line').map RowReader.tables ∧
      (Runs.run (attackerReadRowsStep past) rd line).map RowReader.tables =
        lineEffect past rd.tables t := by
  have heffect : ∀ {T : Tables} {fresh : ℕ → UInt8} {before line : List Getc} {rd : RowReader},
      Runs.run (attackerReadRowsStep past) (.start T fresh) before = .ok rd →
      (∃ g ∈ before.getLast?, ∀ c ∈ g.char, EndsLine c) → ReadsLine t line →
      (Runs.run (attackerReadRowsStep past) rd line).map RowReader.tables =
        lineEffect past rd.tables t := by
    intro T fresh before line rd hrun hend hline
    obtain ⟨hno, hempty⟩ := run_endsLine hrun hend
    obtain ⟨e, hchars, he⟩ := hline.chars
    have hown' : RuleLine (rd.stream.bytes ++ t) → OwnText past (rd.stream.bytes ++ t) := by
      rw [hempty]
      exact hown
    obtain ⟨s, -, hread⟩ := run_line hline.inside hchars he hline.grows hno hown'
    rw [hread, hempty, List.nil_append]
    cases lineEffect past rd.tables t with
    | error e => rfl
    | ok T => rfl
  refine ⟨?_, heffect hrun hend hline⟩
  rw [heffect hrun hend hline, heffect hrun' hend' hline', htables]

/-- The calls of `fgetc` that read these bytes, where no `realloc` fails. -/
def getcOf (s : List UInt8) : List Getc := s.map fun c => ⟨some c, some fun _ => 0⟩

/-- The answers of `getc` for a line and its end. -/
lemma readsLine_getcOf {t : List UInt8} (ht : ∀ c ∈ t, ¬ EndsLine c) :
    ReadsLine t (getcOf (t ++ [newline])) where
  chars := by
    refine ⟨some newline, ?_, ?_⟩
    · simp [getcOf]
    · intro c hc
      obtain rfl := Option.some.inj hc
      exact Or.inl rfl
  inside := ht
  grows := by
    intro g hg
    obtain ⟨c, -, rfl⟩ := List.mem_map.mp hg
    rfl

/-- A profile that starts with an empty line, and one with a comment behind it. -/
lemma run_header (past : Past) (T : Tables) (fresh : ℕ → UInt8) {t : List UInt8}
    (ht : ∀ c ∈ t, ¬ EndsLine c) (hrule : ¬ RuleLine t) :
    ∃ rd rd', Runs.run (attackerReadRowsStep past) (.start T fresh) (getcOf [newline]) = .ok rd ∧
      Runs.run (attackerReadRowsStep past) (.start T fresh)
        (getcOf [newline] ++ getcOf (t ++ [newline])) = .ok rd' ∧
      rd.tables = T ∧ rd'.tables = T := by
  have hend : EndsLine newline := Or.inl rfl
  obtain ⟨s, hs, hfirst⟩ := endOfLine_first past (.start T fresh) rfl
    (show (some fun _ : ℕ => (0 : UInt8)).isSome from rfl)
  have hrun : Runs.run (attackerReadRowsStep past) (.start T fresh) (getcOf [newline]) =
      .ok ⟨2, s, T⟩ := by
    rw [getcOf, List.map_singleton, Runs.run_cons, step_end (by simpa using hend), hfirst]
    rfl
  obtain ⟨e, hchars, he⟩ := (readsLine_getcOf ht).chars
  obtain ⟨s', -, hline⟩ : ∃ s' : StreamT, s'.bytes = [] ∧
      Runs.run (attackerReadRowsStep past) ⟨2, s, T⟩ (getcOf (t ++ [newline])) =
        (lineEffect past T (s.bytes ++ t) >>= fun T => .ok ⟨3, s', T⟩) :=
    run_line ht hchars he (readsLine_getcOf ht).grows (Nat.lt_succ_self 1)
      (by rw [hs]; exact fun h => absurd h hrule)
  refine ⟨⟨2, s, T⟩, ⟨3, s', T⟩, hrun, ?_, rfl, rfl⟩
  rw [Runs.run_append, hrun, Runs.ok_bind, hline, hs, List.nil_append, lineEffect, if_neg hrule,
    Runs.ok_bind]

/-- A rule behind an empty line, and behind a comment. -/
theorem line_own_text_hello :
    ∃ rd rd', Runs.run (attackerReadRowsStep fun _ _ => none) (.start Tables.zero fun _ => 0)
        (getcOf [newline]) = .ok rd ∧
      Runs.run (attackerReadRowsStep fun _ _ => none) (.start Tables.zero fun _ => 0)
        (getcOf [newline] ++ getcOf (cstr "#&p=9" ++ [newline])) = .ok rd' ∧
      (Runs.run (attackerReadRowsStep fun _ _ => none) rd
          (getcOf (cstr "1,,,1.0,*,,DROP,p=7" ++ [newline]))).map RowReader.tables =
        (Runs.run (attackerReadRowsStep fun _ _ => none) rd'
          (getcOf (cstr "1,,,1.0,*,,DROP,p=7" ++ [newline]))).map RowReader.tables := by
  obtain ⟨rd, rd', hrun, hrun', hrd, hrd'⟩ := run_header (fun _ _ => none) Tables.zero
    (fun _ => 0) (show ∀ c ∈ cstr "#&p=9", ¬ EndsLine c by decide +kernel) (by decide +kernel)
  have hline : ReadsLine (cstr "1,,,1.0,*,,DROP,p=7")
      (getcOf (cstr "1,,,1.0,*,,DROP,p=7" ++ [newline])) := readsLine_getcOf (by decide +kernel)
  have hown : OwnText (fun _ _ => none) (cstr "1,,,1.0,*,,DROP,p=7") :=
    (ownText_iff _ _).mp ⟨.drop 1 ofpMsgTypeAll 7, RowCall.means_of_eval (by decide +kernel)⟩
  have hend : ∀ c ∈ (some newline), EndsLine c := by
    intro c hc
    obtain rfl := Option.some.inj hc
    exact Or.inl rfl
  exact ⟨rd, rd', hrun, hrun', (line_own_text hrun hrun'
    ⟨⟨some newline, some fun _ => 0⟩, rfl, hend⟩ ⟨⟨some newline, some fun _ => 0⟩, rfl, hend⟩
    (hrd.trans hrd'.symm) hline hline fun _ => hown).1⟩

/-- Behind a longer comment the value of `q` is what the comment leaves behind the line, and with it
an argument `p`. -/
theorem line_not_own_text :
    ∃ rd rd', Runs.run (attackerReadRowsStep fun _ _ => none) (.start Tables.zero fun _ => 0)
        (getcOf [newline]) = .ok rd ∧
      Runs.run (attackerReadRowsStep fun _ _ => none) (.start Tables.zero fun _ => 0)
        (getcOf [newline] ++ getcOf (cstr "#------------------&p=9" ++ [newline])) = .ok rd' ∧
      rd.tables = rd'.tables ∧
      ReadsLine (cstr "1,,,1.0,*,,DROP,q=") (getcOf (cstr "1,,,1.0,*,,DROP,q=" ++ [newline])) ∧
      (Runs.run (attackerReadRowsStep fun _ _ => none) rd
          (getcOf (cstr "1,,,1.0,*,,DROP,q=" ++ [newline]))).map RowReader.tables ≠
        (Runs.run (attackerReadRowsStep fun _ _ => none) rd'
          (getcOf (cstr "1,,,1.0,*,,DROP,q=" ++ [newline]))).map RowReader.tables := by
  obtain ⟨rd, rd', hrun, hrun', hrd, hrd'⟩ := run_header (fun _ _ => none) Tables.zero
    (fun _ => 0) (show ∀ c ∈ cstr "#------------------&p=9", ¬ EndsLine c by decide +kernel)
    (by decide +kernel)
  refine ⟨rd, rd', hrun, hrun', hrd.trans hrd'.symm, readsLine_getcOf (by decide +kernel), ?_⟩
  intro heq
  have hcell : ∀ {rd : RowReader} {before : List Getc},
      Runs.run (attackerReadRowsStep fun _ _ => none) (.start Tables.zero fun _ => 0) before =
        .ok rd →
      (Runs.run (attackerReadRowsStep fun _ _ => none) (.start Tables.zero fun _ => 0)
          (before ++ getcOf (cstr "1,,,1.0,*,,DROP,q=" ++ [newline]))).toOption.map
          (fun rd => (rd.tables.drop 0 0).toInt) =
        ((Runs.run (attackerReadRowsStep fun _ _ => none) rd
          (getcOf (cstr "1,,,1.0,*,,DROP,q=" ++ [newline]))).map RowReader.tables).toOption.map
          (fun T => (T.drop 0 0).toInt) := by
    intro rd before h
    rw [Runs.run_append, h, Runs.ok_bind]
    cases Runs.run (attackerReadRowsStep fun _ _ => none) rd
      (getcOf (cstr "1,,,1.0,*,,DROP,q=" ++ [newline])) with
    | error e => rfl
    | ok rd => rfl
  have hcells := hcell hrun
  rw [heq, ← hcell hrun'] at hcells
  exact absurd hcells (by decide +kernel)

/-! ## Whole profiles -/

/-- The lines of a file; the last one is what is behind the last end of a line. -/
def fileLines (f : List UInt8) : List (List UInt8) := f.splitOnP fun c => decide (EndsLine c)

/-- The lines of a file of whose first line these bytes were read already. -/
def linesFrom (bytes f : List UInt8) : List (List UInt8) := (fileLines f).modifyHead (bytes ++ ·)

/-- Before anything was read, there are all lines of the file. -/
lemma linesFrom_nil (f : List UInt8) : linesFrom [] f = fileLines f := by
  unfold linesFrom
  cases fileLines f with
  | nil => rfl
  | cons t ts => rfl

/-- At the end of the file what was read is the last line. -/
lemma linesFrom_eof (bytes : List UInt8) : linesFrom bytes [] = [bytes] := by
  simp [linesFrom, fileLines]

/-- At the end of a line what was read is this line. -/
lemma linesFrom_end {c : UInt8} (hc : EndsLine c) (bytes f : List UInt8) :
    linesFrom bytes (c :: f) = bytes :: fileLines f := by
  simp [linesFrom, fileLines, List.splitOnP_cons_eq_if_modifyHead, hc]

/-- Another byte belongs to the same line. -/
lemma linesFrom_byte {c : UInt8} (hc : ¬ EndsLine c) (bytes f : List UInt8) :
    linesFrom bytes (c :: f) = linesFrom (bytes ++ [c]) f := by
  simp only [linesFrom, fileLines, List.splitOnP_cons_eq_if_modifyHead, decide_eq_false hc,
    Bool.false_eq_true, if_false, List.modifyHead_modifyHead]
  congr 1
  funext t
  simp

section File

variable {realloc : ℕ → Option (ℕ → UInt8)}

/-- Reading a file from somewhere in a line on. -/
lemma run_getcs (past : Past) (hreal : ∀ i, (realloc i).isSome) (f : List UInt8) (i : ℕ)
    (rd : RowReader)
    (hno : 1 < rd.lineNo)
    (hown : ∀ t ∈ linesFrom rd.stream.bytes f, RuleLine t → OwnText past t) :
    (Runs.run (attackerReadRowsStep past) rd (getcs realloc i f)).map RowReader.tables =
      (linesFrom rd.stream.bytes f).foldlM (lineEffect past) rd.tables := by
  induction f generalizing i rd with
  | nil =>
    rw [linesFrom_eof] at hown ⊢
    obtain ⟨s, -, heffect⟩ := endOfLine_effect hno (hown _ List.mem_cons_self) (hreal i)
    rw [getcs, Runs.run_cons, step_end (by simp), heffect, List.foldlM_cons]
    cases lineEffect past rd.tables rd.stream.bytes with
    | error e => rfl
    | ok T => rfl
  | cons c f ih =>
    rw [getcs, Runs.run_cons]
    by_cases hc : EndsLine c
    · rw [linesFrom_end hc] at hown ⊢
      obtain ⟨s, hs, heffect⟩ := endOfLine_effect hno (hown _ List.mem_cons_self) (hreal i)
      rw [step_end (by simpa using hc), heffect, List.foldlM_cons]
      cases lineEffect past rd.tables rd.stream.bytes with
      | error e => rfl
      | ok T =>
        have hlines : linesFrom s.bytes f = fileLines f := by rw [hs, linesFrom_nil]
        have hrest := ih (i + 1) ⟨rd.lineNo + 1, s, T⟩ (by simp only; omega)
        simp only [hlines] at hrest
        exact hrest fun t ht => hown t (List.mem_cons_of_mem _ ht)
    · rw [linesFrom_byte hc] at hown ⊢
      obtain ⟨s, hs, hstep⟩ := step_byte past rd hc (hreal i)
      rw [hstep]
      have hrest := ih (i + 1) { rd with stream := s } hno
      simp only [hs] at hrest
      exact hrest hown

/-- Reading a file from somewhere in its first line on. -/
lemma run_getcs_first (hreal : ∀ i, (realloc i).isSome) (f : List UInt8) (i : ℕ) (rd : RowReader)
    (hno : rd.lineNo = 1) (hown : ∀ t ∈ (fileLines f).tail, RuleLine t → OwnText past t) :
    (Runs.run (attackerReadRowsStep past) rd (getcs realloc i f)).map RowReader.tables =
      (fileLines f).tail.foldlM (lineEffect past) rd.tables := by
  have htail : ∀ f, (fileLines f).tail = (linesFrom [] f).tail := fun f => by rw [linesFrom_nil]
  rw [htail] at hown ⊢
  induction f generalizing i rd with
  | nil =>
    obtain ⟨s, -, hfirst⟩ := endOfLine_first past rd hno (hreal i)
    rw [getcs, Runs.run_cons, step_end (by simp), hfirst, linesFrom_eof]
    rfl
  | cons c f ih =>
    rw [getcs, Runs.run_cons]
    by_cases hc : EndsLine c
    · rw [linesFrom_end hc, List.tail_cons] at hown ⊢
      obtain ⟨s, hs, hfirst⟩ := endOfLine_first past rd hno (hreal i)
      have hlines : linesFrom s.bytes f = fileLines f := by rw [hs, linesFrom_nil]
      have hrest := run_getcs past hreal f (i + 1) ⟨2, s, rd.tables⟩
        (Nat.lt_succ_self 1)
      simp only [hlines] at hrest
      rw [step_end (by simpa using hc), hfirst]
      exact hrest hown
    · have hbytes : (linesFrom [] (c :: f)).tail = (linesFrom [] f).tail := by
        rw [linesFrom_byte hc, linesFrom, linesFrom, List.tail_modifyHead, List.tail_modifyHead]
      rw [hbytes] at hown ⊢
      obtain ⟨s, -, hstep⟩ := step_byte past rd hc (hreal i)
      rw [hstep]
      exact ih (i + 1) { rd with stream := s } hno hown

/-- **A profile is the fold of its lines**, from the second one on, if those that are rules are read
inside their own text.

**Proof sketch.** Induction on the bytes of the file; at the end of a line `endOfLine_effect` says
what it does to the tables. -/
theorem attackerReadRows_fold (T : Tables) (f : List UInt8) (fresh : ℕ → UInt8)
    (hreal : ∀ i, (realloc i).isSome)
    (hown : ∀ t ∈ (fileLines f).tail, RuleLine t → OwnText past t) :
    attackerReadRows past T (some f) (some fresh) realloc =
      (fileLines f).tail.foldlM (lineEffect past) T := by
  have hrun := run_getcs_first hreal f 0 (.start T fresh) rfl hown
  rw [attackerReadRows]
  cases hread : Runs.run (attackerReadRowsStep past) (.start T fresh) (getcs realloc 0 f) with
  | error e =>
    rw [hread] at hrun
    exact hrun
  | ok rd =>
    rw [hread] at hrun
    exact hrun

end File

end Mproxy
