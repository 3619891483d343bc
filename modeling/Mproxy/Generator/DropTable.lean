import Mproxy.Generator.ParseRow
import Mproxy.Lib.Runs

set_option relaxedAutoImplicit false
set_option autoImplicit false

/-!
# The drop table of the generator

`parse_profile` of `attacker_prep.py`: what the actions of the accepted rows write into
`DROP_ACTION_TABLE`, which then becomes the text of a table in C.

A `DROP` row whose `p` is no number from 0 to 1 is told so, but `has_error` is not set: the list of
strings that `parse_qs` made is written into the table instead. And `nan` passes both comparisons.

## Main definitions

* `Mproxy.Generator.profileStep`, `Mproxy.Generator.parseProfile` — `parse_profile`.
* `Mproxy.Generator.During` — the tables that there are while a row is processed.
* `Mproxy.Generator.TableRight` — what is asked of the table at all times.
* `Mproxy.Generator.BadDrop` — a `DROP` row that is accepted with a `p` that is no probability.

## Main results

* `Mproxy.Generator.runAssign_spec` — what the loop over the cells does.
* `Mproxy.Generator.parseProfile_table_iff` — for which profiles the table is right.
-/

namespace Mproxy.Generator

open Python

/-! ## The loop over the rows -/

/-- `DROP_ACTION_TABLE` before the first row. -/
def dropActionTable : List PyValue := List.replicate (6 * maxTypeValue) (.int 0)

/-- `t[k] = v` -/
def setItem (t : List PyValue) (k : ℤ) (v : PyValue) : Except PyError (List PyValue) :=
  if 0 ≤ k ∧ k < t.length then .ok (t.set k.toNat v)
  else if -t.length ≤ k ∧ k < 0 then .ok (t.set (t.length + k).toNat v)
  else .error .indexError

/-- The indices of the table that an action assigns to, in their order. -/
def Action.cells (a : Action) : List ℤ :=
  if a.targetType = -1 then
    (List.range maxTypeValue).map fun i => a.targetVer * maxTypeValue + (i : ℕ)
  else [a.targetVer * maxTypeValue + a.targetType]

/-- `DROP_ACTION_TABLE[k] = action['attack_args']['p']` -/
def assign (a : Action) (t : List PyValue) (k : ℤ) : Except PyError (List PyValue) :=
  match dictGet a.attackArgs (text "p") with
  | none => .error .keyError
  | some v => setItem t k v

/-- What `parse_profile` does to the table with an action. -/
def Action.write (a : Action) (t : List PyValue) : Except PyError (List PyValue) :=
  if a.attackType = text "DROP" then Runs.run (assign a) t a.cells else .ok t

/-- What `parse_profile` prints. -/
inductive Output
  | message (line : ℕ) (m : Message)
  | accepted (line : ℕ) (a : Action)
  deriving DecidableEq, Repr

/-- What the loop over the rows changes: the table, and what was printed. -/
structure State where
  table : List PyValue
  printed : List Output
  deriving DecidableEq, Repr

/-- Before the first row. -/
def State.start : State := ⟨dropActionTable, []⟩

/-- What the reader of the CSV file gives: a row with the number of its last line, or an exception.
The rows may be any. -/
abbrev Item := Except PyError (List Text × ℕ)

section Profile

variable (py : Runtime)

/-- The body of the loop over the rows. -/
def profileStep (s : State) (item : Item) : Except PyError State := do
  let (row, line) ← item
  let action ← (parseRow py row).2
  let printed := s.printed ++ (parseRow py row).1.map (Output.message line)
  match action with
  | none => .ok { s with printed := printed }
  | some a => do
    let table ← a.write s.table
    .ok ⟨table, printed ++ [.accepted line a]⟩

/-- `parse_profile`, over what the reader gives. The first row is skipped. -/
def parseProfile (reader : List Item) : Except PyError State :=
  match reader with
  | [] => .ok .start
  | .error e :: _ => .error e
  | .ok _ :: items => Runs.run (profileStep py) .start items

/-! ## What is asked of the table -/

/-- The value is a number from 0 to 1. -/
def PyValue.InUnit : PyValue → Prop
  | .int i => 0 ≤ i ∧ i ≤ 1
  | .float (.finite q) => 0 ≤ q ∧ q ≤ 1
  | _ => False

/-- The argument `p` of a row is the number, which lies from 0 to 1. -/
def Probability (row : List Text) (q : ℚ) : Prop :=
  ∃ args ∈ row[7]?, ∃ values ∈ dictGet (parseQs args) (text "p"),
    py.pyFloat values.first = some (.finite q) ∧ 0 ≤ q ∧ q ≤ 1

/-- The row asks for messages to be dropped. -/
def DropRow (row : List Text) : Prop := ∃ action ∈ row[6]?, py.strUpper action = text "DROP"

/-- The row set the cell to the value: it is a `DROP` row that was accepted for this cell, and the
value is the number that its `p` is. -/
def SetBy (item : Item) (k : ℕ) (v : PyValue) : Prop :=
  ∃ row line a q, item = .ok (row, line) ∧ (parseRow py row).2 = .ok (some a) ∧
    a.attackType = text "DROP" ∧ (k : ℤ) ∈ a.cells ∧ Probability py row q ∧ v = .float (.finite q)

/-- The table after some rows, or while the last of them is processed: every cell is a number from 0
to 1, and it is still the first 0 or was set by one of the rows. -/
def GoodTable (items : List Item) (t : List PyValue) : Prop :=
  ∀ k v, t[k]? = some v → v.InUnit ∧ (v = .int 0 ∨ ∃ item ∈ items, SetBy py item k v)

/-- The tables that there are while a row is processed: the one before it, and those between the
assignments. -/
def During (s : State) (item : Item) (t : List PyValue) : Prop :=
  t = s.table ∨ ∃ row line a ks, item = .ok (row, line) ∧ (parseRow py row).2 = .ok (some a) ∧
    a.attackType = text "DROP" ∧ ks <+: a.cells ∧ Runs.run (assign a) s.table ks = .ok t

/-- A `DROP` row whose `p` is no number from 0 to 1 changes no cell, and is not reported as
accepted. -/
def Refuses (s : State) (item : Item) : Prop :=
  ∀ row line, item = .ok (row, line) → DropRow py row → (¬ ∃ q, Probability py row q) →
    ∀ s', profileStep py s item = .ok s' →
      s'.table = s.table ∧
        ∃ ms : List Message, s'.printed = s.printed ++ ms.map (Output.message line)

/-- What is asked of the generator, for every row of a profile that it gets to. -/
structure TableRight (header : List Text × ℕ) (items : List Item) : Prop where
  start : GoodTable py [] dropActionTable
  cells : ∀ before item after, items = before ++ item :: after → ∀ s,
    parseProfile py (.ok header :: before) = .ok s →
      ∀ t, During py s item t → GoodTable py (before ++ [item]) t
  refused : ∀ before item after, items = before ++ item :: after → ∀ s,
    parseProfile py (.ok header :: before) = .ok s → Refuses py s item

/-- A `DROP` row that is otherwise in order, with a `p` that is no number from 0 to 1. -/
def BadDrop (item : Item) : Prop :=
  ∃ row line r ver, item = .ok (row, line) ∧ Row.ofColumns row = some r ∧ r.IntsOk py ∧
    ofpNormalizeVersion py r.version = .ok ver ∧
    TypeTaken py (ofpMsgTypeAliasDict ver) r.msgType ∧ py.strUpper r.action = text "DROP" ∧
    (dictGet (parseQs r.args) (text "p")).isSome = true ∧ ¬ ∃ q, Probability py row q

end Profile

/-! ## One row -/

section Step

variable {py : Runtime} {row : List Text} {line : ℕ} {a : Action} {t : List PyValue} {v : PyValue}

/-- **What the loop over the cells does.** Where all indices are in the table, the cells at these
indices hold the value, and all others what they held. -/
lemma runAssign_spec (hv : dictGet a.attackArgs (text "p") = some v) {ks : List ℤ}
    (hks : ∀ k ∈ ks, 0 ≤ k ∧ k < t.length) :
    ∃ t', Runs.run (assign a) t ks = .ok t' ∧ t'.length = t.length ∧
      ∀ i : ℕ, t'[i]? = if (i : ℤ) ∈ ks then t[i]?.map fun _ => v else t[i]? := by
  induction ks generalizing t with
  | nil => exact ⟨t, rfl, rfl, by simp⟩
  | cons k ks ih =>
    obtain ⟨hk, hlt⟩ := hks k List.mem_cons_self
    have hassign : assign a t k = .ok (t.set k.toNat v) := by
      rw [assign, hv]
      exact if_pos ⟨hk, hlt⟩
    obtain ⟨t', hrun, hlen, hcells⟩ := @ih (t.set k.toNat v) (by
      intro j hj
      rw [List.length_set]
      exact hks j (List.mem_cons_of_mem k hj))
    refine ⟨t', by rw [Runs.run_cons, hassign, Runs.ok_bind, hrun], by simp [hlen], fun i => ?_⟩
    rw [hcells, List.getElem?_set]
    by_cases hi : (i : ℤ) = k
    · -- a cell that is set now holds the value, whether it is set again or not
      obtain rfl := hi
      have hlt' : i < t.length := by exact_mod_cast hlt
      simp [hlt']
    · have hne : k.toNat ≠ i := by omega
      simp [hi, hne]

/-- What stands for `p` in the arguments of an accepted `DROP` row. -/
def dropValue (py : Runtime) (values : Values) : PyValue :=
  match py.pyFloat values.first with
  | none => .strs values
  | some p =>
    if p.lt (.finite 0) = true ∨ (PyFloat.finite 1).lt p = true then .strs values else .float p

/-- The check of the arguments puts the value in order that is written to the table. -/
lemma dropArgs_value {args : Text} {values : Values}
    (h : dictGet (parseQs args) (text "p") = some values) :
    dictGet (dropArgs py args).value (text "p") = some (dropValue py values) := by
  have hstrs : dictGet ((parseQs args).map fun e => (e.1, PyValue.strs e.2)) (text "p") =
      some (.strs values) := by
    rw [dictGet_map, h]
    rfl
  unfold dropArgs dropValue
  rw [h]
  simp only
  cases py.pyFloat values.first with
  | none => exact hstrs
  | some p =>
    simp only
    split_ifs
    · exact hstrs
    · exact dictGet_dictSet _ _ _

/-- What stands for `p` is a number from 0 to 1 exactly if `p` is one, and then it is this one. -/
lemma dropValue_inUnit_iff {values : Values} :
    (dropValue py values).InUnit ↔
      ∃ q, py.pyFloat values.first = some (.finite q) ∧ (0 ≤ q ∧ q ≤ 1) ∧
        dropValue py values = .float (.finite q) := by
  unfold dropValue
  cases py.pyFloat values.first with
  | none => simp [PyValue.InUnit]
  | some p =>
    cases p with
    | nan => simp [PyFloat.lt, PyValue.InUnit]
    | infinity negative => cases negative <;> simp [PyFloat.lt, PyValue.InUnit]
    | finite q =>
      by_cases hq : q < 0 ∨ 1 < q
      · simp only [PyFloat.lt, decide_eq_true_eq, if_pos hq, PyValue.InUnit, false_iff]
        rintro ⟨q', h, -, h'⟩
        cases h'
      · have hq' : 0 ≤ q ∧ q ≤ 1 := by
          rw [not_or, not_lt, not_lt] at hq
          exact hq
        simp [PyFloat.lt, if_neg hq, PyValue.InUnit, hq']

/-- The cells of an action are in the table. -/
lemma toAction_cells {r : Row} {ver : Fin 6} {type : ℤ}
    (htype : type = -1 ∨ 0 ≤ type ∧ type < maxTypeValue) :
    (r.toAction py ver type).cells ≠ [] ∧
      ∀ k ∈ (r.toAction py ver type).cells, 0 ≤ k ∧ k < 6 * maxTypeValue := by
  have hver := ver.isLt
  simp only [Action.cells, Row.toAction, maxTypeValue_eq] at *
  split_ifs with hall
  · refine ⟨by simp, fun k hk => ?_⟩
    obtain ⟨i, hi, rfl⟩ := List.mem_map.mp hk
    have hi' := List.mem_range.mp hi
    omega
  · refine ⟨by simp, fun k hk => ?_⟩
    obtain rfl := List.mem_singleton.mp hk
    omega

/-- The action of an accepted `DROP` row: its cells are in the table, and there is a value for
`p`. -/
lemma accepted_drop (h : (parseRow py row).2 = .ok (some a)) (hdrop : a.attackType = text "DROP") :
    a.cells ≠ [] ∧ (∀ k ∈ a.cells, 0 ≤ k ∧ k < 6 * maxTypeValue) ∧
      ∃ r ver values, Row.ofColumns row = some r ∧ r.IntsOk py ∧
        ofpNormalizeVersion py r.version = .ok ver ∧
        TypeTaken py (ofpMsgTypeAliasDict ver) r.msgType ∧ py.strUpper r.action = text "DROP" ∧
        dictGet (parseQs r.args) (text "p") = some values ∧
        dictGet a.attackArgs (text "p") = some (dropValue py values) := by
  obtain ⟨r, ver, type, hrow, hver, htype, ⟨hints, hflag, hattack⟩, rfl⟩ :=
    parseRow_eq_some_iff.mp h
  have hupper : py.strUpper r.action = text "DROP" := attackColumns_type.symm.trans hdrop
  obtain ⟨hpos, hle⟩ := aliasDict_length ver
  have hvalue := msgTypeColumn_value htype hpos
  have htaken : TypeTaken py (ofpMsgTypeAliasDict ver) r.msgType := typeTaken_of_column htype hflag
  have hargs : (r.toAction py ver type.value).attackArgs = (dropArgs py r.args).value := by
    simp only [Row.toAction, attackColumns_drop hupper]
  have hsome : (dictGet (parseQs r.args) (text "p")).isSome = true := by
    rw [← attackColumns_hasError, attackColumns_drop hupper] at hattack
    exact dropArgs_hasError.mp hattack
  obtain ⟨values, hvalues⟩ := Option.isSome_iff_exists.mp hsome
  obtain ⟨hcells, hrange⟩ := @toAction_cells py r ver type.value (by omega)
  exact ⟨hcells, hrange, r, ver, values, hrow, hints, hver, htaken, hupper, hvalues,
    by rw [hargs, dropArgs_value hvalues]⟩

/-- The assignments of an accepted `DROP` row are all in the table. -/
lemma accepted_runAssign (h : (parseRow py row).2 = .ok (some a))
    (hdrop : a.attackType = text "DROP") (hv : dictGet a.attackArgs (text "p") = some v)
    (hlen : t.length = 6 * maxTypeValue) {ks : List ℤ} (hks : ks ⊆ a.cells) :
    ∃ t', Runs.run (assign a) t ks = .ok t' ∧ t'.length = t.length ∧
      ∀ i : ℕ, t'[i]? = if (i : ℤ) ∈ ks then t[i]?.map fun _ => v else t[i]? := by
  obtain ⟨-, hrange, -⟩ := accepted_drop h hdrop
  refine runAssign_spec hv fun k hk => ?_
  rw [hlen]
  exact_mod_cast hrange k (hks hk)

/-- A row asks for messages to be dropped by its column for the action. -/
lemma dropRow_iff {r : Row} (hrow : Row.ofColumns row = some r) :
    DropRow py row ↔ py.strUpper r.action = text "DROP" := by
  obtain rfl := Row.ofColumns_eq_some hrow
  simp [DropRow]

/-- The `p` of a `DROP` row is a number from 0 to 1 exactly if what stands for it in the arguments
is. -/
lemma exists_probability_iff {r : Row} {values : Values} (hrow : Row.ofColumns row = some r)
    (hvalues : dictGet (parseQs r.args) (text "p") = some values) :
    (∃ q, Probability py row q) ↔ (dropValue py values).InUnit := by
  obtain rfl := Row.ofColumns_eq_some hrow
  rw [dropValue_inUnit_iff]
  constructor
  · rintro ⟨q, args, hargs, values', hvalues', hfloat, hq⟩
    obtain rfl : r.args = args := Option.some.inj hargs
    obtain rfl : values = values' := Option.some.inj (hvalues.symm.trans hvalues')
    refine ⟨q, hfloat, hq, ?_⟩
    simp [dropValue, hfloat, PyFloat.lt, not_lt.mpr hq.1, not_lt.mpr hq.2]
  · rintro ⟨q, hfloat, hq, -⟩
    exact ⟨q, r.args, rfl, values, hvalues, hfloat, hq⟩

/-- A bad `DROP` row is accepted, with a value that is no number from 0 to 1. -/
lemma BadDrop.accepted {item : Item} (h : BadDrop py item) :
    ∃ row line a values, item = .ok (row, line) ∧ (parseRow py row).2 = .ok (some a) ∧
      a.attackType = text "DROP" ∧ dictGet a.attackArgs (text "p") = some (dropValue py values) ∧
      ¬ (dropValue py values).InUnit := by
  obtain ⟨row, line, r, ver, hitem, hrow, hints, hver, htype, hdrop, hp, hbad⟩ := h
  obtain ⟨type, htype, hflag⟩ := htype.column
  obtain ⟨values, hvalues⟩ := Option.isSome_iff_exists.mp hp
  rw [exists_probability_iff hrow hvalues] at hbad
  refine ⟨row, line, r.toAction py ver type.value, values, hitem, ?_, ?_, ?_, hbad⟩
  · exact parseRow_eq_some_iff.mpr
      ⟨r, ver, type, hrow, hver, htype, ⟨hints, hflag, Or.inl ⟨hdrop, hp⟩⟩, rfl⟩
  · exact attackColumns_type.trans hdrop
  · simp only [Row.toAction, attackColumns_drop hdrop]
    exact dropArgs_value hvalues

/-- An accepted `DROP` row that is not bad, and the number that its `p` is. -/
lemma accepted_probability (h : (parseRow py row).2 = .ok (some a))
    (hdrop : a.attackType = text "DROP") (hbad : ¬ BadDrop py (.ok (row, line))) :
    ∃ q, Probability py row q ∧ dictGet a.attackArgs (text "p") = some (.float (.finite q)) ∧
      PyValue.InUnit (.float (.finite q)) := by
  obtain ⟨-, -, r, ver, values, hrow, hints, hver, htype, hupper, hvalues, hp⟩ :=
    accepted_drop h hdrop
  have hprob : ∃ q, Probability py row q := by
    by_contra hno
    exact hbad ⟨row, line, r, ver, rfl, hrow, hints, hver, htype, hupper, by simp [hvalues], hno⟩
  have hunit := (exists_probability_iff hrow hvalues).mp hprob
  obtain ⟨q, hfloat, hq, hvalue⟩ := dropValue_inUnit_iff.mp hunit
  refine ⟨q, ?_, hvalue ▸ hp, hq⟩
  obtain rfl := Row.ofColumns_eq_some hrow
  exact ⟨r.args, rfl, values, hvalues, hfloat, hq⟩

/-! ## The steps of the loop -/

variable {s s' : State} {item : Item} {items before : List Item}

/-- **What one round of the loop does.** A row that is refused is only printed; an accepted `DROP`
row is written into the table, and any other leaves it. -/
lemma profileStep_cases (h : profileStep py s item = .ok s') :
    ∃ row line, item = .ok (row, line) ∧
      (((parseRow py row).2 = .ok none ∧ s'.table = s.table ∧
          s'.printed = s.printed ++ (parseRow py row).1.map (Output.message line)) ∨
        ∃ a, (parseRow py row).2 = .ok (some a) ∧
          (a.attackType = text "DROP" ∧ Runs.run (assign a) s.table a.cells = .ok s'.table ∨
            a.attackType ≠ text "DROP" ∧ s'.table = s.table)) := by
  obtain ⟨⟨row, line⟩, rfl, h₁⟩ := Runs.bind_eq_ok.mp h
  obtain ⟨action, hparse, h₂⟩ := Runs.bind_eq_ok.mp h₁
  refine ⟨row, line, rfl, ?_⟩
  cases action with
  | none =>
    obtain rfl := Except.ok.inj h₂
    exact Or.inl ⟨hparse, rfl, rfl⟩
  | some a =>
    refine Or.inr ⟨a, hparse, ?_⟩
    obtain ⟨table, htable, h₃⟩ := Runs.bind_eq_ok.mp h₂
    obtain rfl := Except.ok.inj h₃
    unfold Action.write at htable
    by_cases hdrop : a.attackType = text "DROP"
    · rw [if_pos hdrop] at htable
      exact Or.inl ⟨hdrop, htable⟩
    · rw [if_neg hdrop] at htable
      exact Or.inr ⟨hdrop, (Except.ok.inj htable).symm⟩

/-- The table keeps its length. -/
lemma profileStep_length (hlen : s.table.length = 6 * maxTypeValue)
    (h : profileStep py s item = .ok s') : s'.table.length = 6 * maxTypeValue := by
  obtain ⟨row, line, rfl, ⟨-, htable, -⟩ | ⟨a, hparse, ⟨hdrop, hrun⟩ | ⟨-, htable⟩⟩⟩ :=
    profileStep_cases h
  · rw [htable, hlen]
  · obtain ⟨-, -, r, ver, values, -, -, -, -, -, -, hv⟩ := accepted_drop hparse hdrop
    obtain ⟨t', hrun', hlen', -⟩ := accepted_runAssign hparse hdrop hv hlen (List.Subset.refl _)
    obtain rfl := Except.ok.inj (hrun.symm.trans hrun')
    rw [hlen', hlen]
  · rw [htable, hlen]

/-- More rows make no good table a bad one. -/
lemma GoodTable.mono {items' : List Item} (h : GoodTable py items t) (hsub : items ⊆ items') :
    GoodTable py items' t := by
  intro k v hv
  obtain ⟨hunit, hzero | ⟨item, hitem, hset⟩⟩ := h k v hv
  · exact ⟨hunit, Or.inl hzero⟩
  · exact ⟨hunit, Or.inr ⟨item, hsub hitem, hset⟩⟩

/-- **The tables of a row that is not bad are right**, if the one before it was. -/
lemma goodTable_during (hlen : s.table.length = 6 * maxTypeValue)
    (hgood : GoodTable py before s.table) (hbad : ¬ BadDrop py item) (hd : During py s item t) :
    GoodTable py (before ++ [item]) t := by
  have hold : GoodTable py (before ++ [item]) s.table :=
    hgood.mono (List.subset_append_left before [item])
  rcases hd with rfl | ⟨row, line, a, ks, rfl, hparse, hdrop, hks, hrun⟩
  · exact hold
  · obtain ⟨q, hprob, hv, hunit⟩ := accepted_probability hparse hdrop hbad
    obtain ⟨t', hrun', -, hcells⟩ := accepted_runAssign hparse hdrop hv hlen hks.subset
    obtain rfl := Except.ok.inj (hrun.symm.trans hrun')
    intro k v hkv
    rw [hcells] at hkv
    split_ifs at hkv with hmem
    · -- a cell that the row has set
      obtain ⟨-, -, rfl⟩ := Option.map_eq_some_iff.mp hkv
      exact ⟨hunit, Or.inr ⟨_, by simp, row, line, a, q, rfl, hparse, hdrop, hks.subset hmem,
        hprob, rfl⟩⟩
    · exact hold k v hkv

/-- **A bad row does not leave the table right.** -/
lemma BadDrop.during (hlen : s.table.length = 6 * maxTypeValue) (hbad : BadDrop py item) :
    ∃ t, During py s item t ∧ ¬ GoodTable py items t := by
  obtain ⟨row, line, a, values, rfl, hparse, hdrop, hv, hunit⟩ := hbad.accepted
  obtain ⟨hne, hrange, -⟩ := accepted_drop hparse hdrop
  obtain ⟨t, hrun, -, hcells⟩ := accepted_runAssign hparse hdrop hv hlen (List.Subset.refl _)
  refine ⟨t, Or.inr ⟨row, line, a, a.cells, rfl, hparse, hdrop, List.prefix_rfl, hrun⟩, fun h => ?_⟩
  obtain ⟨k, hk⟩ := List.exists_mem_of_ne_nil _ hne
  obtain ⟨hpos, hlt⟩ := hrange k hk
  obtain ⟨i, rfl⟩ := Int.eq_ofNat_of_zero_le hpos
  have hi : i < s.table.length := by omega
  have hcell := hcells i
  rw [if_pos hk, List.getElem?_eq_getElem hi] at hcell
  exact hunit (h i _ hcell).1

/-- A bad row raises no exception. -/
lemma BadDrop.profileStep (hlen : s.table.length = 6 * maxTypeValue) (hbad : BadDrop py item) :
    ∃ s', profileStep py s item = .ok s' := by
  obtain ⟨row, line, a, values, rfl, hparse, hdrop, hv, -⟩ := hbad.accepted
  obtain ⟨t, hrun, -⟩ := accepted_runAssign hparse hdrop hv hlen (List.Subset.refl _)
  have hwrite : a.write s.table = .ok t := by rw [Action.write, if_pos hdrop, hrun]
  refine ⟨⟨t, s.printed ++ (parseRow py row).1.map (Output.message line) ++ [.accepted line a]⟩, ?_⟩
  simp only [Generator.profileStep, Runs.ok_bind, hparse, hwrite]

/-- The table behind a round is one of those during it. -/
lemma during_profileStep (h : profileStep py s item = .ok s') : During py s item s'.table := by
  obtain ⟨row, line, rfl, ⟨-, htable, -⟩ | ⟨a, hparse, ⟨hdrop, hrun⟩ | ⟨-, htable⟩⟩⟩ :=
    profileStep_cases h
  · exact Or.inl htable
  · exact Or.inr ⟨row, line, a, a.cells, rfl, hparse, hdrop, List.prefix_rfl, hrun⟩
  · exact Or.inl htable

/-- A `DROP` row that is not bad is refused if its `p` is no number from 0 to 1. -/
lemma refuses_of_not_badDrop (hbad : ¬ BadDrop py item) : Refuses py s item := by
  rintro row line rfl hrow hno s' hstep
  obtain ⟨_, _, ⟨⟩, ⟨-, htable, hprinted⟩ | ⟨a, hparse, -⟩⟩ := profileStep_cases hstep
  · exact ⟨htable, _, hprinted⟩
  · -- an accepted row would have a number from 0 to 1
    obtain ⟨r, ver, type, hr, -, -, -, rfl⟩ := parseRow_eq_some_iff.mp hparse
    have hdrop := attackColumns_type.trans ((dropRow_iff hr).mp hrow)
    obtain ⟨q, hprob, -⟩ := accepted_probability hparse hdrop hbad
    exact absurd ⟨q, hprob⟩ hno

end Step

/-! ## The rows of a profile -/

section Profiles

variable (py : Runtime)

/-- Every cell holds the first 0. -/
lemma goodTable_start : GoodTable py [] dropActionTable := by
  intro k v hv
  obtain rfl := List.eq_of_mem_replicate (List.mem_of_getElem? hv)
  exact ⟨⟨le_rfl, zero_le_one⟩, Or.inl rfl⟩

/-- **For which profiles the table is right.** For every sequence of rows that the reader gives: if
the loop gets to no bad `DROP` row, and only then.

**Proof sketch.** The table stays right over the rounds (`goodTable_during`), with the rows read so
far as the history; a bad row writes what is no number into a cell (`BadDrop.during`). -/
theorem parseProfile_table_iff (header : List Text × ℕ) (items : List Item) :
    TableRight py header items ↔
      Runs.Along (profileStep py) (fun _ item => ¬ BadDrop py item) .start items := by
  have hlength : ∀ before s, Runs.run (profileStep py) .start before = .ok s →
      s.table.length = 6 * maxTypeValue := by
    intro before s hrun
    exact @Runs.invariant State Item PyError (profileStep py)
      (fun s => s.table.length = 6 * maxTypeValue) (fun _ => True)
      (fun s item s' hs _ hstep => profileStep_length hs hstep) .start s before
      List.length_replicate (fun _ _ => trivial) hrun
  constructor
  · intro h
    rw [Runs.along_iff_forall]
    rintro before item after hitems s s' hrun - hbad
    obtain ⟨t, hduring, hnot⟩ := hbad.during (hlength before s hrun)
    exact hnot (h.cells before item after hitems s hrun t hduring)
  · intro h
    have hbad : ∀ before item after, items = before ++ item :: after → ∀ s,
        Runs.run (profileStep py) .start before = .ok s → ¬ BadDrop py item := by
      intro before item after hitems s hrun hbad
      obtain ⟨s', hstep⟩ := hbad.profileStep (hlength before s hrun)
      exact Runs.along_iff_forall.mp h before item after hitems s s' hrun hstep hbad
    have hgood : ∀ before item after, items = before ++ item :: after → ∀ s,
        Runs.run (profileStep py) .start before = .ok s → GoodTable py before s.table := by
      rintro before item after rfl s hrun
      have hinv : GoodTable py ([] ++ before) s.table ∧ s.table.length = 6 * maxTypeValue :=
        @Runs.Along.history State Item PyError (profileStep py) (fun _ item => ¬ BadDrop py item)
          (fun is s => GoodTable py is s.table ∧ s.table.length = 6 * maxTypeValue)
          (fun is s item s' hs hnot hstep =>
            ⟨goodTable_during hs.2 hs.1 hnot (during_profileStep hstep),
              profileStep_length hs.2 hstep⟩)
          .start s [] before h.left ⟨goodTable_start py, List.length_replicate⟩ hrun
      exact hinv.1
    refine ⟨goodTable_start py, fun before item after hitems s hrun t ht => ?_,
      fun before item after hitems s hrun => ?_⟩
    · exact goodTable_during (hlength before s hrun) (hgood before item after hitems s hrun)
        (hbad before item after hitems s hrun) ht
    · exact refuses_of_not_badDrop (hbad before item after hitems s hrun)

/-- The Python of a row of ASCII characters. -/
def asciiRuntime : Runtime where
  isDigit := Char.isDigit
  decimal _ := none
  isSpace c := isAsciiSpace c
  upper c := [c.toUpper]
  maxStrDigits := some 4300
  isDigit_ascii _ _ := rfl
  upper_ascii _ _ := rfl

/-- A row `*,*,*,1.0,Hello,*,DROP,p=abc`. -/
def badRow : List Text :=
  [text "*", text "*", text "*", text "1.0", text "Hello", text "*", text "DROP", text "p=abc"]

/-- There are such rows. -/
lemma badRow_badDrop (line : ℕ) : BadDrop asciiRuntime (.ok (badRow, line)) := by
  refine ⟨badRow, line, ⟨text "*", text "*", text "*", text "1.0", text "Hello", text "*",
    text "DROP", text "p=abc"⟩, 1, rfl, rfl, ?_, ?_, ?_, ?_, ?_, ?_⟩
  · decide +kernel
  · rfl
  · decide +kernel
  · decide +kernel
  · decide +kernel
  · rintro ⟨q, args, hargs, values, hvalues, hfloat, -⟩
    obtain rfl : text "p=abc" = args := Option.some.inj hargs
    obtain rfl : (⟨text "abc", []⟩ : Values) = values := Option.some.inj hvalues
    cases hfloat

/-- A row whose `p` is no number: the list of strings is written into the table. -/
theorem parseProfile_table_abc : ¬ TableRight asciiRuntime ([], 1) [.ok (badRow, 2)] := by
  intro h
  obtain ⟨t, hduring, hnot⟩ := (badRow_badDrop 2).during (s := .start) List.length_replicate
  exact hnot (h.cells [] (.ok (badRow, 2)) [] rfl .start rfl t hduring)

end Profiles

end Mproxy.Generator
