import Mathlib.Data.List.Nodup
import Mproxy.Rules.RowTexts

set_option relaxedAutoImplicit false
set_option autoImplicit false

/-!
# The layout of a row

Three scanners trim the blanks of a row, each in its own way: `csv_parse` those before a field,
`csv_find_next_comma` those behind a field that a comma follows, and `args_parse` those around the
arguments, which for the last column include what the other two leave. Together they take all of
them, so that two rows that differ in their blanks only have the same effect; nor does the order of
the arguments matter.

## Main definitions

* `Mproxy.RowLayout` — a row of eight fields with the blanks in it.
* `Mproxy.RowLayout.Same` — two rows that differ in their blanks and the order of arguments only.

## Main results

* `Mproxy.RowLayout.columns_call` — what `attacker_add_rule` reads of such a row.
* `Mproxy.addRule_layout` — it does the same for two rows that differ in their layout only.
-/

namespace Mproxy

open Memory

/-- A row with its blanks. The fields are free of commas and zero bytes and start with no quote; the
column `LEN` is not empty. The column `ARGS` is empty or a list of arguments, which may have blanks
behind it as behind every argument. -/
structure RowLayout where
  len : Padded
  cid : Padded
  sid : Padded
  ofpVer : Padded
  msgType : Padded
  field : Padded
  attackType : Padded
  beforeArgs : Blanks
  args : Option (ArgsLayout ArgsDelim.attacker)
  len_ne : len.field ≠ []
  args_no_comma : ∀ l ∈ args, comma ∉ l.text
  args_no_quote : ∀ l ∈ args, l.text.head? ≠ some doubleQuote ∧ l.text.head? ≠ some singleQuote

namespace RowLayout

variable (r : RowLayout)

/-- The columns that a comma follows. -/
def inits : List Padded := [r.len, r.cid, r.sid, r.ofpVer, r.msgType, r.field, r.attackType]

/-- The bytes of the column `ARGS` behind the blanks before it. -/
def argsBytes : List UInt8 := (r.args.map ArgsLayout.text).getD []

/-- The bytes of the row. -/
def text : List UInt8 := rowOf (r.inits.map Padded.text) (r.beforeArgs.val ++ r.argsBytes)

/-- The arguments that are written in the row. -/
def argList : List Arg := (r.args.map ArgsLayout.args).getD []

/-- The row with its terminator, in any memory. -/
def call (A B : List UInt8) : RowCall where
  mem := A ++ (r.text ++ nul :: B)
  data := A.length
  len := r.text.length + 1

/-- Two rows have the same fields, and the same arguments in the same order, or in any order if no
two of them have the same name. -/
def Same (r r' : RowLayout) : Prop :=
  r.inits.map Padded.field = r'.inits.map Padded.field ∧
    (r.argList = r'.argList ∨ r.argList.Perm r'.argList ∧ (r.argList.map Arg.name).Nodup)

/-! ## Splitting -/

/-- There is no terminator in the last column. -/
lemma nul_notMem_argsBytes : nul ∉ r.argsBytes := by
  unfold argsBytes
  cases r.args with
  | none => exact List.not_mem_nil
  | some l => exact nul_notMem_argsText ArgsDelim.attacker fun s hs => (l.notMem_segments s hs).2

/-- Behind its blanks the last column is what `args_parse` gets. -/
lemma lead_args : lead (r.beforeArgs.val ++ r.argsBytes) = r.beforeArgs.val ∧
    body (r.beforeArgs.val ++ r.argsBytes) = r.argsBytes := by
  unfold argsBytes
  cases r.args with
  | none =>
    rw [Option.map_none, Option.getD_none, List.append_nil]
    exact Padded.lead_of_blank r.beforeArgs.property
  | some l =>
    obtain ⟨c, t, htext, hc⟩ := l.exists_text
    rw [Option.map_some, Option.getD_some, htext]
    exact Padded.lead_of_head r.beforeArgs.property hc

/-- The last column is taken as it is. -/
lemma unquoted_args : Unquoted (r.beforeArgs.val ++ r.argsBytes) := by
  unfold Unquoted
  rw [r.lead_args.2]
  have hblank : comma ∉ r.beforeArgs.val := notMem_of_blank r.beforeArgs.property rfl
  unfold argsBytes
  cases hargs : r.args with
  | none =>
    rw [Option.map_none, Option.getD_none, List.append_nil]
    exact ⟨hblank, by simp, by simp⟩
  | some l =>
    rw [Option.map_some, Option.getD_some]
    refine ⟨fun h => ?_, r.args_no_quote l hargs⟩
    rcases List.mem_append.mp h with h | h
    · exact hblank h
    · exact r.args_no_comma l hargs h

/-- What `csv_parse` makes of the row: a string for each field, and behind the last terminator the
column `ARGS` as it was. -/
lemma csvParse_call (A B : List UInt8) :
    ∃ Y F, csvParse (r.call A B).mem (r.call A B).data (r.call A B).len =
        some (Y ++ [nul] ++ (r.beforeArgs.val ++ (r.argsBytes ++ nul :: B)), F) ∧
      F.ret.length = attackerRowNumFields ∧
      F.ret.getD 7 0 = (Y ++ [nul]).length + r.beforeArgs.val.length ∧
      cstring (Y ++ [nul]) (F.ret.getD 3 0) = some r.ofpVer.field ∧
      cstring (Y ++ [nul]) (F.ret.getD 4 0) = some r.msgType.field ∧
      cstring (Y ++ [nul]) (F.ret.getD 6 0) = some r.attackType.field := by
  have hinits : ∀ t ∈ r.inits.map Padded.text, Unquoted t := by
    intro t ht
    obtain ⟨p, -, rfl⟩ := List.mem_map.mp ht
    exact p.unquoted_text
  have hA : ∀ t ∈ (r.inits.map Padded.text).head?, core t = [] → Solid A := by
    intro t ht hcore
    obtain rfl : r.len.text = t := Option.some.inj ht
    rw [r.len.core_text] at hcore
    exact absurd hcore r.len_ne
  obtain ⟨A', X, ps, F, -, -, hrun, -, hX, hret, hps⟩ := csvParse_unquoted (B := B) hA hinits
    r.unquoted_args
  obtain ⟨D, rfl⟩ := hX (List.cons_ne_nil _ _)
  rw [r.lead_args.1] at hret
  simp only [inits, List.map_cons, List.map_nil] at hps
  rcases hps with _ | ⟨-, _ | ⟨-, _ | ⟨-, _ | ⟨h₃, _ | ⟨h₄, _ | ⟨-, _ | ⟨h₆, _ | _⟩⟩⟩⟩⟩⟩⟩
  rw [Padded.fieldText_text] at h₃ h₄ h₆
  have hY : A' ++ (D ++ [nul]) = (A' ++ D) ++ [nul] := (List.append_assoc _ _ _).symm
  rw [hY] at h₃ h₄ h₆ hret
  refine ⟨A' ++ D, F, ?_, ?_, ?_, ?_, ?_, ?_⟩
  · rw [call, text, hrun]
    simp
  · rw [hret]
    rfl
  · rw [hret]
    rfl
  · rw [hret]
    exact h₃
  · rw [hret]
    exact h₄
  · rw [hret]
    exact h₆

/-- A string of arguments that is empty: the terminator is looked at, with nothing before it but the
blanks before the column. -/
lemma argNamed_blank {Y ws : List UInt8} (hws : Blank ws) (B : List UInt8) {name : List UInt8}
    (hname : name ≠ []) :
    argNamed (Y ++ [nul] ++ (ws ++ nul :: B)) ((Y ++ [nul]).length + ws.length) name =
      some none := by
  have hfirm : EndsFirm (Y ++ [nul]) := EndsFirm.append ⟨nul, rfl, rfl⟩
  obtain ⟨X, e, hX, hXlen, he⟩ := terminated_last ws nul
  obtain rfl := or_self_iff.mp he
  have hlen : (Y ++ [nul] ++ X).length = (Y ++ [nul]).length + ws.length := by
    rw [List.length_append, hXlen]
  have hm : Y ++ [nul] ++ (terminated ws nul ++ B) = (Y ++ [nul] ++ X) ++ nul :: B := by
    rw [hX]
    simp
  have hskip : argsSkipBlanks ((Y ++ [nul] ++ X) ++ nul :: B) ((Y ++ [nul]).length + ws.length) =
      some ((Y ++ [nul]).length + ws.length) := by
    have := argsSkipBlanks_seam (Y := Y ++ [nul] ++ X) (R := B) (g := []) (by simp [Blank])
      (c := nul) rfl
    rwa [hlen] at this
  have hstep : argsStep attackerArgsDelim (Y ++ [nul] ++ (ws ++ nul :: B))
      ⟨(Y ++ [nul]).length + ws.length, (Y ++ [nul]).length + ws.length, none, []⟩ =
      some (Y ++ [nul] ++ (terminated ws nul ++ B),
        ⟨(Y ++ [nul]).length + ws.length, (Y ++ [nul]).length + ws.length, none,
          [] ++ [⟨(Y ++ [nul]).length + ws.length, .noval⟩]⟩, decide (nul = nul)) :=
    argsStep_segment hfirm hws (Or.inr rfl) rfl rfl (by rw [hm, if_neg (by decide)]; exact hskip)
      (by rw [hm]; exact load_seam hlen)
  rw [hm] at hstep
  have hparse := argsParse_eq_some.mpr ((argsRuns_stop hstep).mpr rfl)
  have hcstr : cstring ((Y ++ [nul] ++ X) ++ nul :: B) ((Y ++ [nul]).length + ws.length) =
      some [] := cstring_of_not_mem List.not_mem_nil hlen
  rw [argNamed_of_is hparse (.cons (b := ⟨[], none⟩) ⟨hcstr, rfl⟩ .nil) name, List.find?_cons,
    decide_eq_false hname.symm]
  rfl

/-- What is found of an argument is the value that is written in the row. -/
lemma argNamed_call (Y B : List UInt8) {name : List UInt8} (hname : name ≠ []) :
    argNamed (Y ++ [nul] ++ (r.beforeArgs.val ++ (r.argsBytes ++ nul :: B)))
        ((Y ++ [nul]).length + r.beforeArgs.val.length) name =
      some ((r.argList.find? fun a => decide (a.name = name)).map Arg.typed) := by
  have hnul := r.nul_notMem_argsBytes
  unfold argsBytes at hnul ⊢
  unfold argList
  cases hargs : r.args with
  | none => exact argNamed_blank r.beforeArgs.property B hname
  | some l =>
    rw [hargs, Option.map_some, Option.getD_some] at hnul
    rw [Option.map_some, Option.getD_some]
    have hcstr : cstring (Y ++ [nul] ++ r.beforeArgs.val ++ (l.text ++ nul :: B))
        ((Y ++ [nul]).length + r.beforeArgs.val.length) = some l.text :=
      cstring_of_not_mem hnul List.length_append
    rw [List.append_assoc] at hcstr
    rw [argNamed_inOrder hcstr l.inOrder, l.argIn_text]
    rfl

/-- **What `attacker_add_rule` reads of a row** does not depend on the blanks in it. -/
lemma columns_call (A B : List UInt8) : (r.call A B).columns =
    some ⟨r.ofpVer.field, r.msgType.field, r.attackType.field,
      some ((r.argList.find? fun a => decide (a.name = cstr "p")).map Arg.typed),
      some ((r.argList.find? fun a => decide (a.name = cstr "r")).map Arg.typed)⟩ := by
  obtain ⟨Y, F, hcsv, hnum, hptr, h₃, h₄, h₆⟩ := r.csvParse_call A B
  rw [RowCall.columns, hcsv]
  simp only [Option.bind_eq_bind, Option.bind_some, hnum, ne_eq, not_true_eq_false, if_false,
    cstring_append _ h₃, cstring_append _ h₄, cstring_append _ h₆, hptr,
    r.argNamed_call Y B (show cstr "p" ≠ [] by decide),
    r.argNamed_call Y B (show cstr "r" ≠ [] by decide)]

end RowLayout

/-! ## Two layouts -/

/-- The first argument with a name does not depend on the order of arguments with different names.
-/
lemma find?_perm {l l' : List Arg} (h : l.Perm l') (hnd : (l.map Arg.name).Nodup)
    (name : List UInt8) :
    (l.find? fun a => decide (a.name = name)) = l'.find? fun a => decide (a.name = name) := by
  induction h with
  | nil => rfl
  | cons a _ ih =>
    rw [List.map_cons, List.nodup_cons] at hnd
    rw [List.find?_cons, List.find?_cons, ih hnd.2]
  | swap a b l =>
    have hne : b.name ≠ a.name := by
      simp only [List.map_cons, List.nodup_cons, List.mem_cons, not_or] at hnd
      exact hnd.1.1
    simp only [List.find?_cons]
    by_cases ha : a.name = name
    · have hb : b.name ≠ name := ha ▸ hne
      simp [ha, hb]
    · simp [ha]
  | trans h₁ _ ih₁ ih₂ => exact (ih₁ hnd).trans (ih₂ ((h₁.map Arg.name).nodup_iff.mp hnd))

/-- What a call does is determined by the columns of its row. -/
lemma attackerAddRule_of_columns {past : Past} {T : Tables} {c : RowCall} {cols : Columns}
    {r : Rule} (hcols : c.columns = some cols) (hrule : cols.rule past = some r) :
    (attackerAddRule past T c.mem c.data c.len).map (fun p => (p.1, p.2.1)) =
      attackerApplyRule T r := by
  obtain ⟨m', hadd⟩ := ((RowCall.means_iff hcols r).mpr hrule).addRule
  rw [hadd]
  cases attackerApplyRule T r with
  | error e => rfl
  | ok p => rfl

/-- Columns whose arguments were found or are not there have a meaning. -/
lemma Columns.rule_isSome (past : Past) (version msgType action : List UInt8)
    (argP argR : Option ArgValue) :
    ∃ r, Columns.rule past ⟨version, msgType, action, some argP, some argR⟩ = some r := by
  unfold Columns.rule
  simp only [Option.map_some]
  split_ifs <;> exact ⟨_, rfl⟩

/-- **The effect of a row does not depend on its layout.** For every table state and any two rows
with the same fields and arguments, whatever blanks there are around their fields and around the
names and values of their arguments, and in whatever order their arguments are, if no two have the
same name, and wherever in memory the rows lie: `attacker_add_rule` returns the same and leaves the
same tables.

**Proof sketch.** What is read of a row depends on its fields and on the first arguments named `p`
and `r` only (`RowLayout.columns_call`), and what it does depends on what is read. -/
theorem addRule_layout (past : Past) (T : Tables) (r r' : RowLayout) (h : r.Same r')
    (A B A' B' : List UInt8) :
    (attackerAddRule past T (r.call A B).mem (r.call A B).data (r.call A B).len).map
        (fun p => (p.1, p.2.1)) =
      (attackerAddRule past T (r'.call A' B').mem (r'.call A' B').data (r'.call A' B').len).map
        (fun p => (p.1, p.2.1)) := by
  obtain ⟨hfields, hargs⟩ := h
  simp only [RowLayout.inits, List.map_cons, List.map_nil, List.cons.injEq] at hfields
  obtain ⟨-, -, -, hversion, htype, -, haction, -⟩ := hfields
  have hfind : ∀ name, (r.argList.find? fun a => decide (a.name = name)) =
      r'.argList.find? fun a => decide (a.name = name) := by
    intro name
    rcases hargs with heq | ⟨hperm, hnd⟩
    · rw [heq]
    · exact find?_perm hperm hnd name
  have hcols := r.columns_call A B
  have hcols' := r'.columns_call A' B'
  rw [← hversion, ← htype, ← haction, ← hfind, ← hfind] at hcols'
  obtain ⟨rule, hrule⟩ := Columns.rule_isSome past r.ofpVer.field r.msgType.field
    r.attackType.field ((r.argList.find? fun a : Arg => decide (a.name = cstr "p")).map Arg.typed)
    ((r.argList.find? fun a : Arg => decide (a.name = cstr "r")).map Arg.typed)
  rw [attackerAddRule_of_columns hcols hrule, attackerAddRule_of_columns hcols' hrule]

/-- A rule that duplicates messages of type HELLO, written in two ways. -/
theorem addRule_layout_hello :
    ∃ r r' : RowLayout, r.text = cstr "1,*,*,1.0,Hello,*,DUP,p=50&r=9" ∧
      r'.text = cstr "\t1 , *,*\t, 1.0 ,Hello  ,*,\tDUP,  r =9 & p\t= 50 " ∧ r.Same r' ∧
      ∀ past T, (attackerAddRule past T (r.call [] []).mem (r.call [] []).data
          (r.call [] []).len).map (fun p => (p.1, p.2.1)) =
        (attackerAddRule past T (r'.call [104] []).mem (r'.call [104] []).data
          (r'.call [104] []).len).map (fun p => (p.1, p.2.1)) := by
  let blanks (s : List UInt8) (h : ∀ c ∈ s, isWhitespace c = true) : Blanks := ⟨s, h⟩
  let word (s : List UInt8) (h : nul ∉ s ∧ equalsSign ∉ s ∧ attackerArgsDelim ∉ s ∧
      (∃ c ∈ s.head?, isWhitespace c = false) ∧ ∃ c ∈ s.getLast?, isWhitespace c = false) :
      Word ArgsDelim.attacker := ⟨s, h.1, h.2.1, h.2.2.1, h.2.2.2.1, h.2.2.2.2⟩
  let p : Word ArgsDelim.attacker := word (cstr "p") (by decide +kernel)
  let r : Word ArgsDelim.attacker := word (cstr "r") (by decide +kernel)
  let fifty : Word ArgsDelim.attacker := word (cstr "50") (by decide +kernel)
  let nine : Word ArgsDelim.attacker := word (cstr "9") (by decide +kernel)
  let e : Blanks := blanks [] (by decide +kernel)
  let space : Blanks := blanks (cstr " ") (by decide +kernel)
  let tab : Blanks := blanks (cstr "\t") (by decide +kernel)
  let args : ArgsLayout ArgsDelim.attacker :=
    ⟨⟨e, p, some ⟨e, e, fifty⟩, e⟩, rfl, [⟨e, r, some ⟨e, e, nine⟩, e⟩], none⟩
  let args' : ArgsLayout ArgsDelim.attacker :=
    ⟨⟨e, r, some ⟨space, e, nine⟩, space⟩, rfl, [⟨space, p, some ⟨tab, space, fifty⟩, space⟩], none⟩
  let row : RowLayout :=
    { len := .ofBytes [] (cstr "1") [] (by decide +kernel)
      cid := .ofBytes [] (cstr "*") [] (by decide +kernel)
      sid := .ofBytes [] (cstr "*") [] (by decide +kernel)
      ofpVer := .ofBytes [] (cstr "1.0") [] (by decide +kernel)
      msgType := .ofBytes [] (cstr "Hello") [] (by decide +kernel)
      field := .ofBytes [] (cstr "*") [] (by decide +kernel)
      attackType := .ofBytes [] (cstr "DUP") [] (by decide +kernel)
      beforeArgs := e
      args := some args
      len_ne := by decide
      args_no_comma := by decide +kernel
      args_no_quote := by decide +kernel }
  let row' : RowLayout :=
    { len := .ofBytes (cstr "\t") (cstr "1") (cstr " ") (by decide +kernel)
      cid := .ofBytes (cstr " ") (cstr "*") [] (by decide +kernel)
      sid := .ofBytes [] (cstr "*") (cstr "\t") (by decide +kernel)
      ofpVer := .ofBytes (cstr " ") (cstr "1.0") (cstr " ") (by decide +kernel)
      msgType := .ofBytes [] (cstr "Hello") (cstr "  ") (by decide +kernel)
      field := .ofBytes [] (cstr "*") [] (by decide +kernel)
      attackType := .ofBytes (cstr "\t") (cstr "DUP") [] (by decide +kernel)
      beforeArgs := blanks (cstr "  ") (by decide +kernel)
      args := some args'
      len_ne := by decide
      args_no_comma := by decide +kernel
      args_no_quote := by decide +kernel }
  have hsame : row.Same row' :=
    ⟨by decide +kernel, Or.inr ⟨by decide +kernel, by decide +kernel⟩⟩
  exact ⟨row, row', by decide +kernel, by decide +kernel, hsame,
    fun past T => addRule_layout past T row row' hsame [] [] [104] []⟩

end Mproxy
