import Mproxy.Generator.DropTable
import Mproxy.Lib.LastWriter
import Mproxy.Lib.Separated

set_option relaxedAutoImplicit false
set_option autoImplicit false

/-!
# The table in C

`main` of `attacker_prep.py`: the text of `attacker.c`, in which the drop table is the initialiser
of an array of `float`, with a line for every version; and the macro `should_drop_msg` of
`attacker.h`, which looks up a message in it.

What a compiler makes of the text is read here from the text alone: the numbers between the brackets
and the constants between the braces, which are laid out by rows.

## Main definitions

* `Mproxy.Generator.Printing`, `Mproxy.Generator.PyValue.str` — `str`.
* `Mproxy.Generator.dropProbString`, `Mproxy.Generator.attackerC` — the text.
* `Mproxy.Generator.readTable`, `Mproxy.Generator.CTable.get` — what it means in C.
* `Mproxy.Generator.shouldDropMsg` — the macro.
* `Mproxy.Generator.lastDrop` — the last row for the messages of a version and a type.

## Main results

* `Mproxy.Generator.table_lastDrop` — what a cell of the table holds in the end.
* `Mproxy.Generator.attackerC_table` — when the text is a table in C, and what it holds.
-/

namespace Mproxy.Generator

open Python

/-! ## The text -/

/-- `repr` of a `float` that is a number, and of a `str`. -/
structure Printing where
  float : ℚ → Text
  str : Text → Text

/-- `str(v)` -/
def PyValue.str (p : Printing) : PyValue → Text
  | .int i => text (toString i)
  | .float .nan => text "nan"
  | .float (.infinity false) => text "inf"
  | .float (.infinity true) => text "-inf"
  | .float (.finite q) => p.float q
  | .strs values =>
    '[' :: (text ", ").intercalate ((values.first :: values.rest).map p.str) ++ [']']

/-- `drop_prob_string`, in the end: the values with a comma behind each, and the ends of the lines.
-/
def dropProbString (p : Printing) (table : List PyValue) : Text :=
  ((List.range' 1 5).foldl
    (fun pieces i => Separated.insertPiece pieces (i * maxTypeValue) (text "\n"))
    (table.map fun v => v.str p ++ text ", ")).flatten

/-- `attacker.c`, in front of the initialiser. -/
def attackerHead : Text :=
  text "#include <attacker/attacker.h>\n\nfloat _drop_action_table[" ++ text (toString 6) ++
    text "][" ++ text (toString maxTypeValue) ++ text "] = "

/-- `attacker.c` -/
def attackerC (p : Printing) (table : List PyValue) : Text :=
  attackerHead ++ '\x7b' :: (dropProbString p table ++ text "\x7d;\n")

/-! ## Its meaning in C -/

/-- The `float` that is nearest to a number that is not negative. -/
def roundSingle (q : ℚ) : ℚ :=
  if q < 2 ^ (-126 : ℤ) then roundHalfEven (q / 2 ^ (-149 : ℤ)) * 2 ^ (-149 : ℤ)
  else roundBinary 24 q

/-- The value of a decimal constant, with or without a sign. -/
def constant (s : Text) : Option ℚ :=
  match unsignedFloat (splitSign s).2 with
  | some (.finite q) => some (if (splitSign s).1 then -q else q)
  | _ => none

/-- The initialisers of an array; there may be a comma behind the last one. -/
def initialisers (s : Text) : List Text :=
  let fs := Separated.fields ',' isAsciiSpace s
  if fs.getLast? = some [] then fs.dropLast else fs

/-- An array of arrays of `float`. -/
structure CTable where
  rows : ℕ
  columns : ℕ
  cells : List ℚ
  deriving DecidableEq

/-- `t[v][z]`. Where no initialiser is left, an element is 0. -/
def CTable.get (t : CTable) (v z : ℕ) : ℚ := t.cells.getD (v * t.columns + z) 0

/-- What stands between the first brackets. -/
def bracketed (s : Text) : Text := ((s.dropWhile (· ≠ '[')).drop 1).takeWhile (· ≠ ']')

/-- The table that is defined at the end of a text. There may not be more initialisers than
elements, and each has to be a constant. -/
def readTable (c : Text) : Option CTable :=
  let declarator := c.takeWhile (· ≠ '\x7b')
  let rows := digitsVal (bracketed declarator)
  let columns := digitsVal (bracketed (declarator.dropWhile (· ≠ ']')))
  let braced := (((c.dropWhile (· ≠ '\x7b')).drop 1).rdropWhile (· ≠ '\x7d')).dropLast
  let values := (initialisers braced).map constant
  if values.all Option.isSome ∧ values.length ≤ rows * columns then
    some ⟨rows, columns, values.map fun q => roundSingle (q.getD 0)⟩
  else none

/-- `should_drop_msg(s, v, z)`: whether it is true, and what `s` is then. -/
def shouldDropMsg (t : CTable) (v z : ℕ) : Bool × ℚ :=
  if t.get v z ≠ 0 then (true, t.get v z) else (decide (t.get 0 z ≠ 0), t.get 0 z)

/-! ## The last row for a message -/

section Rows

variable (py : Runtime)

/-- The action of an accepted `DROP` row. -/
def dropAction (item : Item) : Option Action :=
  match item with
  | .error _ => none
  | .ok (row, _) =>
    match (parseRow py row).2 with
    | .ok (some a) => if a.attackType = text "DROP" then some a else none
    | _ => none

/-- The item is an accepted `DROP` row for the messages of a version and a type, or for all types of
the version. -/
def Drops (item : Item) (k : Fin 6 × Fin 35) : Prop :=
  ∃ a ∈ dropAction py item, a.targetVer = (k.1 : ℕ) ∧
    (a.targetType = -1 ∨ a.targetType = (k.2 : ℕ))

instance (item : Item) (k : Fin 6 × Fin 35) : Decidable (Drops py item k) :=
  match h : dropAction py item with
  | none => .isFalse (by
      rintro ⟨a, ha, -⟩
      rw [h] at ha
      cases ha)
  | some a =>
    decidable_of_iff (a.targetVer = (k.1 : ℕ) ∧ (a.targetType = -1 ∨ a.targetType = (k.2 : ℕ))) (by
      simp [Drops, h])

/-- The last row for the messages of a version and a type. -/
def lastDrop (items : List Item) (k : Fin 6 × Fin 35) : Option Item :=
  LastWriter.lastWrite (Drops py) items k

/-- The profile asks for the messages of a version and a type to be dropped with this probability:
it is the `p` of the last row for them, or 0 if there is none. -/
def Asked (items : List Item) (k : Fin 6 × Fin 35) (q : ℚ) : Prop :=
  match lastDrop py items k with
  | none => q = 0
  | some item => ∃ row line, item = .ok (row, line) ∧ Probability py row q

/-- What an accepted `DROP` row writes. -/
def dropped (item : Item) : PyValue :=
  match dropAction py item with
  | some a => (dictGet a.attackArgs (text "p")).getD (.int 0)
  | none => .int 0

/-- The index of a version and a type in the table. -/
def cellIndex (k : Fin 6 × Fin 35) : ℕ := k.1 * maxTypeValue + k.2

/-- What the table holds for a version and a type. -/
def cellAt (t : List PyValue) (k : Fin 6 × Fin 35) : PyValue := t.getD (cellIndex k) (.int 0)

end Rows

/-! ## What the table holds in the end -/

section Table

variable {py : Runtime} {item : Item} {a : Action} {k : Fin 6 × Fin 35} {s s' : State}

/-- Every cell lies in the table. -/
lemma cellIndex_lt : cellIndex k < 6 * maxTypeValue := by
  have h₁ := k.1.isLt
  have h₂ := k.2.isLt
  rw [cellIndex, maxTypeValue_eq]
  omega

/-- Every index of the table is that of a version and a type. -/
lemma exists_cellIndex {i : ℕ} (hi : i < 6 * maxTypeValue) : ∃ k, cellIndex k = i := by
  rw [maxTypeValue_eq] at hi
  refine ⟨(⟨i / 35, by omega⟩, ⟨i % 35, by omega⟩), ?_⟩
  rw [cellIndex, maxTypeValue_eq]
  exact Nat.div_add_mod' i 35

/-- The action of an accepted `DROP` row, as a statement about its parse. -/
lemma dropAction_eq_some : dropAction py item = some a ↔
    ∃ row line, item = .ok (row, line) ∧ (parseRow py row).2 = .ok (some a) ∧
      a.attackType = text "DROP" := by
  constructor
  · intro h
    unfold dropAction at h
    split at h
    · cases h
    · next row line =>
      split at h
      · next b hparse =>
        split_ifs at h with hdrop
        obtain rfl := Option.some.inj h
        exact ⟨row, line, rfl, hparse, hdrop⟩
      · cases h
  · rintro ⟨row, line, rfl, hparse, hdrop⟩
    simp only [dropAction, hparse, if_pos hdrop]

/-- The cells of an action are those of the messages that it is for. -/
lemma mem_cells_iff {row : List Text} (h : (parseRow py row).2 = .ok (some a)) :
    (cellIndex k : ℤ) ∈ a.cells ↔
      a.targetVer = (k.1 : ℕ) ∧ (a.targetType = -1 ∨ a.targetType = (k.2 : ℕ)) := by
  obtain ⟨r, ver, t, -, -, htype, -, rfl⟩ := parseRow_eq_some_iff.mp h
  obtain ⟨hpos, hle⟩ := aliasDict_length ver
  have hvalue := msgTypeColumn_value htype hpos
  have h₁ := k.1.isLt
  have h₂ := k.2.isLt
  simp only [Action.cells, Row.toAction, cellIndex, maxTypeValue_eq] at *
  split_ifs with hall
  · simp only [List.mem_map, List.mem_range, hall, true_or, and_true]
    constructor
    · rintro ⟨i, hi, heq⟩
      omega
    · intro hver
      exact ⟨k.2, h₂, by omega⟩
  · rw [List.mem_singleton]
    omega

/-- **What one row does to the cells**: a `DROP` row that is accepted writes those of its messages.
-/
lemma cellAt_step (hlen : s.table.length = 6 * maxTypeValue)
    (h : profileStep py s item = .ok s') :
    cellAt s'.table = LastWriter.write (Drops py) (dropped py) (cellAt s.table) item := by
  funext k
  rw [LastWriter.write]
  obtain ⟨row, line, rfl, ⟨hparse, htable, -⟩ | ⟨a, hparse, ⟨hdrop, hrun⟩ | ⟨hdrop, htable⟩⟩⟩ :=
    profileStep_cases h
  · have hno : ¬ Drops py (.ok (row, line)) k := by
      rintro ⟨a, ha, -⟩
      obtain ⟨_, _, ⟨⟩, hparse', -⟩ := dropAction_eq_some.mp ha
      rw [hparse] at hparse'
      cases hparse'
    rw [if_neg hno, htable]
  · have ha : dropAction py (.ok (row, line)) = some a :=
      dropAction_eq_some.mpr ⟨row, line, rfl, hparse, hdrop⟩
    obtain ⟨-, -, r, ver, values, -, -, -, -, -, -, hv⟩ := accepted_drop hparse hdrop
    obtain ⟨t', hrun', -, hcells⟩ := accepted_runAssign hparse hdrop hv hlen (List.Subset.refl _)
    obtain rfl := Except.ok.inj (hrun.symm.trans hrun')
    have hcell := hcells (cellIndex k)
    have hiff : Drops py (.ok (row, line)) k ↔ (cellIndex k : ℤ) ∈ a.cells := by
      rw [mem_cells_iff hparse, Drops]
      simp [ha]
    have hval : dropped py (.ok (row, line)) = dropValue py values := by
      simp only [dropped, ha, hv, Option.getD_some]
    simp only [cellAt, List.getD_eq_getElem?_getD, hcell]
    by_cases hk : (cellIndex k : ℤ) ∈ a.cells
    · have hlt : cellIndex k < s.table.length := by
        rw [hlen]
        exact cellIndex_lt
      rw [if_pos hk, if_pos (hiff.mpr hk), hval, List.getElem?_eq_getElem hlt]
      rfl
    · rw [if_neg hk, if_neg (mt hiff.mp hk)]
  · have hno : ¬ Drops py (.ok (row, line)) k := by
      rintro ⟨b, hb, -⟩
      obtain ⟨_, _, ⟨⟩, hparse', hdrop'⟩ := dropAction_eq_some.mp hb
      obtain rfl := Option.some.inj (Except.ok.inj (hparse.symm.trans hparse'))
      exact hdrop hdrop'
    rw [if_neg hno, htable]

/-- **What a cell holds in the end**: what the last row for its messages has written, or 0.

**Proof sketch.** Every row is a write to the cells of its messages (`cellAt_step`), and of a
sequence of writes the last one counts. -/
lemma table_lastDrop {header : List Text × ℕ} {items : List Item}
    (h : parseProfile py (.ok header :: items) = .ok s) :
    s.table.length = 6 * maxTypeValue ∧
      ∀ k, cellAt s.table k = ((lastDrop py items k).map (dropped py)).getD (.int 0) := by
  have halong : Runs.Along (profileStep py) (fun _ _ => True) .start items :=
    Runs.along_iff_forall.mpr fun _ _ _ _ _ _ _ _ => trivial
  have hinv : s.table.length = 6 * maxTypeValue ∧
      cellAt s.table =
        ([] ++ items).foldl (LastWriter.write (Drops py) (dropped py)) (cellAt dropActionTable) :=
    @Runs.Along.history State Item PyError (profileStep py) (fun _ _ => True)
      (fun is s => s.table.length = 6 * maxTypeValue ∧ cellAt s.table =
        is.foldl (LastWriter.write (Drops py) (dropped py)) (cellAt dropActionTable))
      (fun is s item s' hs _ hstep => by
        refine ⟨profileStep_length hs.1 hstep, ?_⟩
        rw [List.foldl_concat, ← hs.2]
        exact cellAt_step hs.1 hstep)
      .start s [] items halong ⟨List.length_replicate, rfl⟩ h
  refine ⟨hinv.1, fun k => ?_⟩
  have hzero : cellAt dropActionTable k = .int 0 := by
    rw [cellAt, dropActionTable, List.getD_eq_getElem?_getD, List.getElem?_replicate,
      if_pos cellIndex_lt, Option.getD_some]
  rw [hinv.2, LastWriter.foldl_write, hzero]
  rfl

/-- What is written for a row that is no number cannot be printed as a constant. -/
def Unprintable (v : PyValue) : Prop := v = .float .nan ∨ ∃ values, v = .strs values

/-- What an accepted `DROP` row writes is the number that its `p` is, or no number. -/
lemma dropped_cases {row : List Text} {line : ℕ} (h : Drops py (.ok (row, line)) k) :
    (∃ q, Probability py row q ∧ dropped py (.ok (row, line)) = .float (.finite q)) ∨
      (¬ ∃ q, Probability py row q) ∧ Unprintable (dropped py (.ok (row, line))) := by
  obtain ⟨a, ha, -⟩ := h
  obtain ⟨_, _, ⟨⟩, hparse, hdrop⟩ := dropAction_eq_some.mp ha
  obtain ⟨-, -, r, ver, values, hrow, -, -, -, -, hvalues, hv⟩ := accepted_drop hparse hdrop
  have hval : dropped py (.ok (row, line)) = dropValue py values := by
    simp only [dropped, Option.mem_def.mp ha, hv, Option.getD_some]
  rw [hval, exists_probability_iff hrow hvalues]
  by_cases hunit : (dropValue py values).InUnit
  · obtain ⟨q, hfloat, hq, hvalue⟩ := dropValue_inUnit_iff.mp hunit
    obtain rfl := Row.ofColumns_eq_some hrow
    exact Or.inl ⟨q, ⟨r.args, rfl, values, hvalues, hfloat, hq⟩, hvalue⟩
  · refine Or.inr ⟨hunit, ?_⟩
    rw [dropValue_inUnit_iff] at hunit
    unfold dropValue at hunit ⊢
    cases hfloat : py.pyFloat values.first with
    | none => exact Or.inr ⟨values, rfl⟩
    | some x =>
      rw [hfloat] at hunit
      simp only at hunit ⊢
      split_ifs with hout
      · exact Or.inr ⟨values, rfl⟩
      · rw [if_neg hout] at hunit
        cases x with
        | nan => exact Or.inl rfl
        | infinity negative => cases negative <;> simp [PyFloat.lt] at hout
        | finite q =>
          simp only [PyFloat.lt, decide_eq_true_eq, not_or, not_lt] at hout
          exact absurd ⟨q, rfl, hout, rfl⟩ hunit

/-- A row has one number for `p`. -/
lemma Probability.unique {row : List Text} {q q' : ℚ} (h : Probability py row q)
    (h' : Probability py row q') : q = q' := by
  obtain ⟨args, hargs, values, hvalues, hfloat, -⟩ := h
  obtain ⟨args', hargs', values', hvalues', hfloat', -⟩ := h'
  obtain rfl := Option.mem_unique hargs hargs'
  obtain rfl := Option.mem_unique hvalues hvalues'
  rw [hfloat] at hfloat'
  exact PyFloat.finite.inj (Option.some.inj hfloat')

end Table

/-! ## Constants -/

section Constants

variable {s : Text} {c : Char}

/-- The characters of a decimal constant. -/
def ConstantChar (c : Char) : Prop :=
  c.isDigit = true ∨ c = '.' ∨ c = 'e' ∨ c = 'E' ∨ c = '+' ∨ c = '-'

instance (c : Char) : Decidable (ConstantChar c) :=
  inferInstanceAs (Decidable (_ ∨ _ ∨ _ ∨ _ ∨ _ ∨ _))

/-- A sign is a character of constants. -/
lemma splitSign_chars (h : ∀ c ∈ (splitSign s).2, ConstantChar c) : ∀ c ∈ s, ConstantChar c := by
  unfold splitSign at h
  split at h
  · intro c hc
    rcases List.mem_cons.mp hc with rfl | hc
    · decide
    · exact h c hc
  · intro c hc
    rcases List.mem_cons.mp hc with rfl | hc
    · decide
    · exact h c hc
  · exact h

/-- An exponent is written with characters of constants. -/
lemma exponent_chars {e : ℤ} (h : exponent s = some e) : ∀ c ∈ s, ConstantChar c := by
  cases s with
  | nil => simp
  | cons c s =>
    simp only [exponent] at h
    split_ifs at h with hexp
    all_goals
      obtain ⟨hc, -, hdigits⟩ := hexp
      intro d hd
      rcases List.mem_cons.mp hd with rfl | hd
      · rcases hc with rfl | rfl <;> decide
      · refine splitSign_chars (fun d hd => Or.inl ?_) d hd
        exact List.all_eq_true.mp hdigits d hd

/-- So is a float, which is not empty. -/
lemma unsignedFloat_chars {x : PyFloat} (h : unsignedFloat s = some x) :
    s ≠ [] ∧ ∀ c ∈ s, ConstantChar c := by
  have hwhole : ∀ s : Text, ∀ c ∈ s.takeWhile Char.isDigit, ConstantChar c :=
    fun s c hc => Or.inl (List.mem_takeWhile_imp hc)
  have happend : ∀ a b : Text, (∀ c ∈ a, ConstantChar c) → (∀ c ∈ b, ConstantChar c) →
      ∀ c ∈ a ++ b, ConstantChar c := by
    intro a b ha hb c hc
    exact (List.mem_append.mp hc).elim (ha c) (hb c)
  constructor
  · rintro rfl
    simp [unsignedFloat] at h
  · rw [← List.takeWhile_append_dropWhile (p := Char.isDigit) (l := s)]
    unfold unsignedFloat at h
    simp only at h
    refine happend _ _ (hwhole s) ?_
    generalize s.dropWhile Char.isDigit = rest at h ⊢
    split_ifs at h with hempty
    obtain ⟨e, he, -⟩ := Option.map_eq_some_iff.mp h
    have htail := exponent_chars he
    clear h he hempty
    split at htail
    · next r =>
      -- the digits behind the dot, and the exponent
      intro c hc
      rcases List.mem_cons.mp hc with rfl | hc
      · decide
      · rw [← List.takeWhile_append_dropWhile (p := Char.isDigit) (l := r)] at hc
        exact happend _ _ (hwhole r) htail c hc
    · exact htail

/-- **What is a constant**: it is made of the characters of constants, and not empty. -/
lemma constant_chars {q : ℚ} (h : constant s = some q) : s ≠ [] ∧ ∀ c ∈ s, ConstantChar c := by
  unfold constant at h
  split at h
  · next x hx =>
    obtain ⟨hne, hchars⟩ := unsignedFloat_chars hx
    refine ⟨?_, splitSign_chars hchars⟩
    rintro rfl
    exact hne rfl
  · cases h

/-- A constant has no comma and no blank in it. -/
lemma not_comma_of_constantChar (h : ConstantChar c) : c ≠ ',' ∧ isAsciiSpace c = false := by
  constructor
  · rintro rfl
    revert h
    decide
  · rcases h with h | rfl | rfl | rfl | rfl | rfl
    · obtain ⟨h₁, h₂⟩ := isDigit_iff.mp h
      simp only [isAsciiSpace, Bool.or_eq_false_iff, beq_eq_false_iff_ne, Bool.and_eq_false_iff,
        decide_eq_false_iff_not]
      omega
    all_goals decide

/-- A constant has no comma in it and no blanks at its ends. -/
lemma constant_solid {q : ℚ} (h : constant s = some q) :
    ',' ∉ s ∧ Separated.Solid isAsciiSpace s := by
  have hchars := (constant_chars h).2
  refine ⟨fun hmem => (not_comma_of_constantChar (hchars _ hmem)).1 rfl, ?_, ?_⟩
  · intro c hc
    exact (not_comma_of_constantChar (hchars c (List.mem_of_mem_head? hc))).2
  · intro c hc
    exact (not_comma_of_constantChar (hchars c (List.mem_of_mem_getLast? hc))).2

end Constants

/-! ## The text is read -/

section Text

variable {p : Printing} {table : List PyValue}

/-- The pieces of the initialiser are the values, with the ends of the lines between them. -/
lemma pieces_dropProbString (p : Printing) (table : List PyValue) :
    ∃ ps, dropProbString p table = ps.flatten ∧
      Separated.Pieces ',' isAsciiSpace (table.map (PyValue.str p)) ps := by
  have hnewline : Separated.Blank isAsciiSpace (text "\n") := by
    intro c hc
    obtain rfl := List.mem_singleton.mp hc
    decide
  have hspace : Separated.Blank isAsciiSpace [' '] := by
    intro c hc
    obtain rfl := List.mem_singleton.mp hc
    decide
  refine ⟨_, rfl, ?_⟩
  generalize List.range' 1 5 = is
  have hstart : Separated.Pieces ',' isAsciiSpace (table.map (PyValue.str p))
      (table.map fun v => v.str p ++ text ", ") := by
    have h : Separated.Pieces ',' isAsciiSpace (table.map (PyValue.str p))
        ((table.map (PyValue.str p)).map fun x => x ++ ',' :: [' ']) :=
      Separated.pieces_map hspace _
    rw [List.map_map] at h
    exact h
  generalize (table.map fun v => v.str p ++ text ", ") = ps at hstart ⊢
  induction is generalizing ps with
  | nil => exact hstart
  | cons i is ih => exact ih _ (hstart.insertPiece hnewline _)

/-- What stands between the braces. -/
lemma readTable_attackerC : readTable (attackerC p table) =
    let values := (initialisers (dropProbString p table)).map constant
    if values.all Option.isSome ∧ values.length ≤ 6 * 35 then
      some ⟨6, 35, values.map fun q => roundSingle (q.getD 0)⟩
    else none := by
  have hhead : ∀ c ∈ attackerHead, decide (c ≠ '\x7b') = true :=
    List.dropWhile_eq_nil_iff.mp (by decide +kernel)
  have htake : (attackerC p table).takeWhile (· ≠ '\x7b') = attackerHead := by
    rw [attackerC, List.takeWhile_append_of_pos hhead, List.takeWhile_cons_of_neg (by simp),
      List.append_nil]
  have hdrop : (attackerC p table).dropWhile (· ≠ '\x7b') =
      '\x7b' :: (dropProbString p table ++ text "\x7d;\n") := by
    rw [attackerC, List.dropWhile_append_of_pos hhead, List.dropWhile_cons_of_neg (by simp)]
  have hlast : (dropProbString p table ++ text "\x7d;\n").rdropWhile (· ≠ '\x7d') =
      dropProbString p table ++ ['\x7d'] := by
    have htext : dropProbString p table ++ text "\x7d;\n" =
        dropProbString p table ++ ['\x7d'] ++ [';'] ++ ['\n'] := by
      simp [text]
    rw [htext, List.rdropWhile_concat_pos _ _ _ (by decide),
      List.rdropWhile_concat_pos _ _ _ (by decide), List.rdropWhile_concat_neg _ _ _ (by decide)]
  have hrows : digitsVal (bracketed attackerHead) = 6 := by decide +kernel
  have hcolumns : digitsVal (bracketed (attackerHead.dropWhile (· ≠ ']'))) = 35 := by decide +kernel
  simp only [readTable, htake, hdrop, List.drop_succ_cons, List.drop_zero, hlast,
    List.dropLast_concat, hrows, hcolumns]

/-- What cannot be printed as a constant starts with a character that no constant has. -/
lemma Unprintable.head {v : PyValue} (h : Unprintable v) : ∃ c s, v.str p = c :: s ∧
    ¬ ConstantChar c ∧ c ≠ ',' ∧ isAsciiSpace c = false := by
  rcases h with rfl | ⟨values, rfl⟩
  · exact ⟨'n', _, rfl, by decide, by decide, by decide⟩
  · exact ⟨'[', _, rfl, by decide, by decide, by decide⟩

/-- The initialisers of a table of constants are its values, in order. -/
lemma initialisers_of_constants (h : ∀ v ∈ table, (constant (v.str p)).isSome) :
    initialisers (dropProbString p table) = table.map (PyValue.str p) := by
  obtain ⟨ps, htext, hps⟩ := pieces_dropProbString p table
  have hsolid : ∀ x ∈ table.map (PyValue.str p), ',' ∉ x ∧ Separated.Solid isAsciiSpace x := by
    intro x hx
    obtain ⟨v, hv, rfl⟩ := List.mem_map.mp hx
    obtain ⟨q, hq⟩ := Option.isSome_iff_exists.mp (h v hv)
    exact constant_solid hq
  have hfields : Separated.fields ',' isAsciiSpace (dropProbString p table) =
      table.map (PyValue.str p) ++ [[]] := by
    rw [htext]
    exact hps.fields (b := []) (by decide) hsolid fun c hc => absurd hc List.not_mem_nil
  simp only [initialisers, hfields, List.getLast?_concat, if_true, List.dropLast_concat]

/-- A text whose values are all constants is a table. -/
lemma readTable_of_constants (hlen : table.length = 6 * 35)
    (h : ∀ v ∈ table, (constant (v.str p)).isSome) :
    readTable (attackerC p table) =
      some ⟨6, 35, table.map fun v => roundSingle ((constant (v.str p)).getD 0)⟩ := by
  have hall : ((table.map (PyValue.str p)).map constant).all Option.isSome = true := by
    rw [List.map_map, List.all_map, List.all_eq_true]
    exact h
  have hle : ((table.map (PyValue.str p)).map constant).length ≤ 6 * 35 := by
    rw [List.length_map, List.length_map, hlen]
  rw [readTable_attackerC, initialisers_of_constants h]
  refine (if_pos ⟨hall, hle⟩).trans ?_
  simp only [List.map_map]
  rfl

/-- A text with a value that is no constant is none. -/
lemma readTable_of_unprintable {v : PyValue} (hv : v ∈ table) (hbad : Unprintable v) :
    readTable (attackerC p table) = none := by
  obtain ⟨ps, htext, hps⟩ := pieces_dropProbString p table
  obtain ⟨c, s, hstr, hchar, hcomma, hspace⟩ := hbad.head (p := p)
  have hitem : c :: s ∈ table.map (PyValue.str p) := by
    rw [← hstr]
    exact List.mem_map_of_mem hv
  obtain ⟨s', hs'⟩ := hps.exists_field (b := []) (by decide)
    (fun c hc => absurd hc List.not_mem_nil) hitem hspace hcomma
  rw [List.nil_append, ← htext] at hs'
  have hmem : c :: s' ∈ initialisers (dropProbString p table) := by
    unfold initialisers
    simp only
    split_ifs with hlast
    · rcases List.mem_append.mp (List.dropLast_append_getLast? _ hlast ▸ hs') with h | h
      · exact h
      · cases List.mem_singleton.mp h
    · exact hs'
  have hnone : constant (c :: s') = none := by
    rw [Option.eq_none_iff_forall_ne_some]
    intro q hq
    exact hchar ((constant_chars hq).2 c List.mem_cons_self)
  have hall :
      ¬ ((initialisers (dropProbString p table)).map constant).all Option.isSome = true := by
    rw [List.all_map, List.all_eq_true]
    intro h
    have hsome := h _ hmem
    simp [hnone] at hsome
  rw [readTable_attackerC]
  exact if_neg fun h => hall h.1

end Text

/-! ## From the rows to the table in C -/

section Main

variable {py : Runtime} {p : Printing} {s : State} {header : List Text × ℕ} {items : List Item}
  {k : Fin 6 × Fin 35} {q : ℚ} {table : List PyValue}

/-- The cells of the empty table are written as the constant `0`. -/
lemma constant_zero : constant ((PyValue.int 0).str p) = some 0 := by
  have h : constant (text (toString (0 : ℤ))) = some 0 := by decide +kernel
  exact h

/-- What is looked up in the table is the cell. -/
lemma cellAt_eq (hlt : cellIndex k < table.length) : cellAt table k = table[cellIndex k] := by
  rw [cellAt, List.getD_eq_getElem?_getD, List.getElem?_eq_getElem hlt, Option.getD_some]

/-- The values of the table are those of the versions and types. -/
lemma mem_table_iff (hlen : table.length = 6 * maxTypeValue) {v : PyValue} :
    v ∈ table ↔ ∃ k, cellAt table k = v := by
  constructor
  · intro hv
    obtain ⟨i, hi, rfl⟩ := List.getElem_of_mem hv
    obtain ⟨k, rfl⟩ := exists_cellIndex (hlen ▸ hi)
    exact ⟨k, cellAt_eq hi⟩
  · rintro ⟨k, rfl⟩
    have hlt : cellIndex k < table.length := hlen ▸ cellIndex_lt
    rw [cellAt_eq hlt]
    exact List.getElem_mem hlt

/-- What is printed for a cell that the profile asks for. -/
lemma Asked.constant_cellAt (hrun : parseProfile py (.ok header :: items) = .ok s)
    (hprint : ∀ q, PyValue.float (.finite q) ∈ s.table → constant (p.float q) = some q)
    (h : Asked py items k q) : constant ((cellAt s.table k).str p) = some q := by
  obtain ⟨hlen, hcells⟩ := table_lastDrop hrun
  have hmem : cellAt s.table k ∈ s.table := (mem_table_iff hlen).mpr ⟨k, rfl⟩
  rw [hcells] at hmem ⊢
  unfold Asked at h
  cases hlast : lastDrop py items k with
  | none =>
    rw [hlast] at h
    obtain rfl := h
    exact constant_zero
  | some item =>
    rw [hlast] at h hmem
    obtain ⟨row, line, rfl, hq⟩ := h
    rcases dropped_cases (LastWriter.lastWrite_mem _ hlast).2 with ⟨q', hq', hval⟩ | ⟨hno, -⟩
    · obtain rfl := hq.unique hq'
      simp only [Option.map_some, Option.getD_some, hval] at hmem ⊢
      exact hprint q hmem
    · exact absurd ⟨q, hq⟩ hno

/-- What is printed for a cell that the profile asks nothing sensible for. -/
lemma unprintable_cellAt (hrun : parseProfile py (.ok header :: items) = .ok s)
    (h : ¬ ∃ q, Asked py items k q) : Unprintable (cellAt s.table k) := by
  rw [(table_lastDrop hrun).2]
  unfold Asked at h
  cases hlast : lastDrop py items k with
  | none =>
    rw [hlast] at h
    exact absurd ⟨0, rfl⟩ h
  | some item =>
    rw [hlast] at h
    obtain ⟨a, ha, hk⟩ := (LastWriter.lastWrite_mem _ hlast).2
    obtain ⟨row, line, rfl, -⟩ := dropAction_eq_some.mp ha
    rcases dropped_cases ⟨a, ha, hk⟩ with ⟨q, hq, -⟩ | ⟨-, hbad⟩
    · exact absurd ⟨q, row, line, rfl, hq⟩ h
    · exact hbad

/-- What a table that was read holds for a version and a type. -/
lemma get_eq (hlen : table.length = 6 * maxTypeValue) (v : Fin 6) (z : Fin 35) :
    (CTable.mk 6 35 (table.map fun v => roundSingle ((constant (v.str p)).getD 0))).get v z =
      roundSingle ((constant ((cellAt table (v, z)).str p)).getD 0) := by
  have hlt : cellIndex (v, z) < table.length := hlen ▸ cellIndex_lt
  have hindex : (v : ℕ) * 35 + z = cellIndex (v, z) := by
    rw [cellIndex, maxTypeValue_eq]
  rw [cellAt_eq hlt]
  simp only [CTable.get, hindex, List.getD_eq_getElem?_getD, List.getElem?_map,
    List.getElem?_eq_getElem hlt, Option.map_some, Option.getD_some]

/-- **The table in C.** For every profile that the generator gets through: `attacker.c` is a table
exactly if the last row for every version and type has a number from 0 to 1 as its `p`. Then the
table holds this number, rounded to `float`, or 0 where there is no row; and `should_drop_msg` takes
the row for the version of the message, or the one for all versions if this holds 0.

What is asked of `str` is that the text of a number in the table is a constant for this number.

**Proof sketch.** The table of the generator holds what the last rows have written
(`table_lastDrop`). A value that is no number starts with a character that no constant has, wherever
the text is cut at commas; the others have no comma in them, and the fields of the text are the
values again, the ends of the lines notwithstanding. -/
theorem attackerC_table (py : Runtime) (p : Printing) (header : List Text × ℕ) (items : List Item)
    (s : State) (hrun : parseProfile py (.ok header :: items) = .ok s)
    (hprint : ∀ q, PyValue.float (.finite q) ∈ s.table → constant (p.float q) = some q) :
    ((readTable (attackerC p s.table)).isSome ↔ ∀ k, ∃ q, Asked py items k q) ∧
    ∀ t, readTable (attackerC p s.table) = some t → ∀ (v : Fin 6) (z : Fin 35) (q q₀ : ℚ),
      Asked py items (v, z) q → Asked py items (0, z) q₀ →
        t.get v z = roundSingle q ∧
        shouldDropMsg t v z =
          if roundSingle q ≠ 0 then (true, roundSingle q)
          else (decide (roundSingle q₀ ≠ 0), roundSingle q₀) := by
  have hlen := (table_lastDrop hrun).1
  have hconstants : (∀ k, ∃ q, Asked py items k q) →
      ∀ v ∈ s.table, (constant (v.str p)).isSome := by
    intro h v hv
    obtain ⟨k, rfl⟩ := (mem_table_iff hlen).mp hv
    obtain ⟨q, hq⟩ := h k
    rw [hq.constant_cellAt hrun hprint]
    rfl
  have hasked : (readTable (attackerC p s.table)).isSome → ∀ k, ∃ q, Asked py items k q := by
    intro h k
    by_contra hno
    rw [readTable_of_unprintable ((mem_table_iff hlen).mpr ⟨k, rfl⟩)
      (unprintable_cellAt hrun hno)] at h
    cases h
  refine ⟨⟨hasked, fun h => ?_⟩, fun t ht v z q q₀ hq hq₀ => ?_⟩
  · rw [readTable_of_constants hlen (hconstants h)]
    rfl
  · rw [readTable_of_constants hlen (hconstants (hasked (by rw [ht]; rfl)))] at ht
    obtain rfl := Option.some.inj ht
    have hget := get_eq (p := p) hlen v z
    have hget₀ := get_eq (p := p) hlen 0 z
    rw [hq.constant_cellAt hrun hprint, Option.getD_some] at hget
    rw [hq₀.constant_cellAt hrun hprint, Option.getD_some] at hget₀
    refine ⟨hget, ?_⟩
    rw [shouldDropMsg, hget]
    exact if_congr Iff.rfl rfl (by rw [← hget₀]; rfl)

/-- A row `*,*,*,1.0,type,*,DROP,args`. -/
def dropItem (type args : String) (line : ℕ) : Item :=
  .ok ([text "*", text "*", text "*", text "1.0", text type, text "*", text "DROP", text args],
    line)

/-- All messages of version `1.0` are dropped, and then half of those of type `Hello`. -/
def halfItems : List Item := [dropItem "*" "p=1" 2, dropItem "Hello" "p=0.5" 3]

/-- The generator behind these rows. -/
def halfState : State :=
  (parseProfile asciiRuntime (.ok ([], 1) :: halfItems)).toOption.getD .start

/-- `repr` of the two numbers. -/
def halfPrinting : Printing where
  float q := if q = 1 then text "1.0" else text "0.5"
  str s := s

/-- Half of the messages of type `Hello` are dropped, and all others of their version. -/
theorem attackerC_table_half : ∃ t, readTable (attackerC halfPrinting halfState.table) = some t ∧
    shouldDropMsg t 1 0 = (true, 1 / 2) ∧ shouldDropMsg t 1 1 = (true, 1) ∧
      shouldDropMsg t 2 0 = (false, 0) := by
  have hrun : parseProfile asciiRuntime (.ok ([], 1) :: halfItems) = .ok halfState := by
    have hsome : (parseProfile asciiRuntime (.ok ([], 1) :: halfItems)).toOption.isSome = true := by
      decide +kernel
    obtain ⟨s, hs⟩ := Option.isSome_iff_exists.mp hsome
    refine Runs.ok_of_toOption ?_
    rw [halfState, hs]
    rfl
  have hprint : ∀ q, PyValue.float (.finite q) ∈ halfState.table →
      constant (halfPrinting.float q) = some q := by
    have hvalues : ∀ v ∈ halfState.table,
        v = .int 0 ∨ v = .float (.finite 1) ∨ v = .float (.finite (1 / 2)) := by decide +kernel
    intro q hq
    rcases hvalues _ hq with h | h | h
    · cases h
    · obtain rfl := PyFloat.finite.inj (PyValue.float.inj h)
      decide +kernel
    · obtain rfl := PyFloat.finite.inj (PyValue.float.inj h)
      decide +kernel
  have hone : Probability asciiRuntime
      [text "*", text "*", text "*", text "1.0", text "*", text "*", text "DROP", text "p=1"] 1 :=
    ⟨text "p=1", rfl, ⟨text "1", []⟩, by decide +kernel, by decide +kernel, by decide⟩
  have hhalf : Probability asciiRuntime
      [text "*", text "*", text "*", text "1.0", text "Hello", text "*", text "DROP",
        text "p=0.5"] (1 / 2) :=
    ⟨text "p=0.5", rfl, ⟨text "0.5", []⟩, by decide +kernel, by decide +kernel, by decide +kernel⟩
  have hlast : ∀ k, lastDrop asciiRuntime halfItems k =
      if Drops asciiRuntime (dropItem "Hello" "p=0.5" 3) k then some (dropItem "Hello" "p=0.5" 3)
      else if Drops asciiRuntime (dropItem "*" "p=1" 2) k then some (dropItem "*" "p=1" 2)
      else none := by
    intro k
    by_cases h₁ : Drops asciiRuntime (dropItem "Hello" "p=0.5" 3) k <;>
      by_cases h₂ : Drops asciiRuntime (dropItem "*" "p=1" 2) k <;>
        simp [lastDrop, LastWriter.lastWrite, halfItems, h₁, h₂]
  have hasked : ∀ k, Asked asciiRuntime halfItems k
      (if Drops asciiRuntime (dropItem "Hello" "p=0.5" 3) k then 1 / 2
      else if Drops asciiRuntime (dropItem "*" "p=1" 2) k then 1 else 0) := by
    intro k
    rw [Asked, hlast]
    split_ifs
    · exact ⟨_, _, rfl, hhalf⟩
    · exact ⟨_, _, rfl, hone⟩
    · rfl
  obtain ⟨hiff, htable⟩ :=
    attackerC_table asciiRuntime halfPrinting ([], 1) halfItems halfState hrun hprint
  obtain ⟨t, ht⟩ := Option.isSome_iff_exists.mp (hiff.mpr fun k => ⟨_, hasked k⟩)
  have hdropped : ∀ v z, shouldDropMsg t (v : Fin 6) (z : Fin 35) = _ := fun v z =>
    (htable t ht v z _ _ (hasked (v, z)) (hasked (0, z))).2
  exact ⟨t, ht, (hdropped 1 0).trans (by decide +kernel), (hdropped 1 1).trans (by decide +kernel),
    (hdropped 2 0).trans (by decide +kernel)⟩

end Main

end Mproxy.Generator
