import Mproxy.Generator.Python
import Mproxy.Rules.Normalize

set_option relaxedAutoImplicit false
set_option autoImplicit false

/-!
# The rows of the generator

`parse_row` of `attacker_prep.py`, which makes an action of a row. It goes through the columns one
after the other, prints what is wrong with them, and notes in a flag that something is; at the end
it returns an action if the flag was not set.

## Main definitions

* `Mproxy.Generator.Message` — what is printed of a row.
* `Mproxy.Generator.ofpNormalizeVersion` — the version column.
* `Mproxy.Generator.parseRow` — `parse_row`.
* `Mproxy.Generator.Row.IntsOk`, `Mproxy.Generator.TypeTaken`, `Mproxy.Generator.Row.AttackOk` — the
  columns that do not set the flag.

## Main results

* `Mproxy.Generator.parseRow_eq_some_iff` — for which rows an action is returned, and which.
* `Mproxy.Generator.parseRow_eq_error_iff` — for which rows an exception leaves `parse_row`.
-/

namespace Mproxy.Generator

open Python

/-! ## The alias lists -/

/-- `OFP_MSG_TYPE_ALIAS_DICT`, for its keys. The lists are written as in `attack.c`, with a comma
missing in the same two places. -/
def ofpMsgTypeAliasDict (ver : Fin 6) : List (Option Text) :=
  (ofpMsgAliases.getD ver []).map fun name => name.map text

/-- `MAX_TYPE_VALUE` -/
def maxTypeValue : ℕ :=
  (List.finRange 6).foldl (fun m ver =>
    if (ofpMsgTypeAliasDict ver).length > m then (ofpMsgTypeAliasDict ver).length else m) 0

/-- There are 35 message types. -/
lemma maxTypeValue_eq : maxTypeValue = 35 := by decide

/-- Each version has a name, and no more than there are message types. -/
lemma aliasDict_length (ver : Fin 6) :
    0 < (ofpMsgTypeAliasDict ver).length ∧ (ofpMsgTypeAliasDict ver).length ≤ maxTypeValue := by
  revert ver
  decide

/-! ## The version column -/

/-- A `ParserValueError`. -/
inductive VersionError
  | unsupported (val : ℤ)
  | unrecognized (val : Text)
  deriving DecidableEq, Repr

/-- A key of `OFP_MSG_TYPE_ALIAS_DICT`. -/
def versionKey (val : ℤ) : Option (Fin 6) :=
  if h : 0 ≤ val ∧ val < 6 then some ⟨val.toNat, by omega⟩ else none

/-- `ofp_normalize_version` -/
def ofpNormalizeVersion (py : Runtime) (val : Text) : Except VersionError (Fin 6) :=
  if '.' ∈ val ∧ val = text "1.0" then .ok 1
  else if '.' ∈ val ∧ val = text "1.1" then .ok 2
  else if '.' ∈ val ∧ val = text "1.2" then .ok 3
  else if '.' ∈ val ∧ text "1.3" <+: val then .ok 4
  else if '.' ∈ val ∧ val = text "1.4" then .ok 5
  else
    match py.pyInt val with
    | some i =>
      match versionKey i with
      | some ver => .ok ver
      | none => .error (.unsupported i)
    | none => if val = text "*" then .ok 0 else .error (.unrecognized val)

/-! ## What is printed -/

/-- What `parse_row` prints of a line. -/
inductive Message
  | columns (got : ℕ)
  | length (val : Text)
  | cid (val : Text)
  | sid (val : Text)
  | typeNumber (val : ℤ)
  | typeName (val : Text)
  | version (e : VersionError)
  | noProbability
  /-- `p` was not turned into a `float` -/
  | noNumber (p : Text)
  | probability (p : PyFloat)
  | action (val : Text)
  deriving DecidableEq, Repr

/-- `NUM_OF_COLUMNS` -/
def numOfColumns : ℕ := 8

/-- `decor.RED`, `decor.YELLOW` and so on. -/
def decor (code : ℕ) : Text := Char.ofNat 27 :: '[' :: text (toString code) ++ ['m']

/-- `str` of a `ParserValueError`. -/
def VersionError.text : VersionError → Text
  | .unsupported val => Python.text "unsupported OFP version value: " ++ Python.text (toString val)
  | .unrecognized val =>
    Python.text "unrecognized OFP version string: \"" ++ val ++ Python.text "\""

/-- The text of a message. The first argument is `str` of a `float`. -/
def Message.text (str : PyFloat → Text) (line : ℕ) (m : Message) : Text :=
  let color : Text := match m with
    | .columns _ => decor 91
    | _ => decor 93
  let body : Text := match m with
    | .columns got =>
      Python.text "incorrect number of columns. Got " ++ Python.text (toString got) ++
        Python.text ". Expect " ++ Python.text (toString numOfColumns) ++ Python.text "."
    | .length val =>
      Python.text "incorrect length specifier \"" ++ val ++
        Python.text "\". Expect an int value."
    | .cid val =>
      Python.text "incorrect CID specifier \"" ++ val ++ Python.text "\". Expect an int value."
    | .sid val =>
      Python.text "incorrect SID specifier \"" ++ val ++ Python.text "\". Expect an int value."
    | .typeNumber val =>
      Python.text "unsupported message type (" ++ Python.text (toString val) ++
        Python.text ") for the specified OFP version."
    | .typeName val =>
      Python.text "unsupported message type \"" ++ val ++
        Python.text "\" for the specified OFP version."
    | .version e => e.text ++ Python.text "."
    | .noProbability => Python.text "DROP action requires a probability param p."
    | .noNumber p =>
      Python.text "probability param p must be a float number in range [0, 1]. Got \"" ++ p ++
        Python.text "\"."
    | .probability p =>
      Python.text "probability param p must be a float number in range [0, 1]. Got \"" ++ str p ++
        Python.text "\"."
    | .action val => Python.text "unsupported malicious action \"" ++ val ++ Python.text "\"."
  color ++ Python.text "Line " ++ Python.text (toString line) ++ Python.text ": " ++ body ++ decor 0

/-! ## The columns -/

/-- An exception that leaves `parse_row` or `parse_profile`. -/
inductive PyError
  | valueError
  | keyError
  | indexError
  | csvError
  deriving DecidableEq, Repr

/-- A value that stands in `attack_args` or in the table. -/
inductive PyValue
  | int (i : ℤ)
  | float (x : PyFloat)
  | strs (values : Values)
  deriving DecidableEq, Repr

/-- What was made of a column: a value, what was printed, and whether `has_error` was set. -/
structure Checked (α : Type) where
  value : α
  printed : List Message
  hasError : Bool
  deriving DecidableEq, Repr

/-- A row with the right number of columns. -/
structure Row where
  length : Text
  cid : Text
  sid : Text
  version : Text
  msgType : Text
  field : Text
  action : Text
  args : Text
  deriving DecidableEq, Repr

/-- The columns of a row, if there are `NUM_OF_COLUMNS` of them. -/
def Row.ofColumns : List Text → Option Row
  | [length, cid, sid, version, msgType, field, action, args] =>
    some ⟨length, cid, sid, version, msgType, field, action, args⟩
  | _ => none

/-- A row that has its columns has these eight and no others. -/
lemma Row.ofColumns_eq_some {row : List Text} {r : Row} (h : Row.ofColumns row = some r) :
    row = [r.length, r.cid, r.sid, r.version, r.msgType, r.field, r.action, r.args] := by
  unfold Row.ofColumns at h
  split at h
  · obtain rfl := Option.some.inj h
    rfl
  · cases h

/-- What `parse_row` returns. -/
structure Action where
  length : ℤ
  targetCid : ℤ
  targetSid : ℤ
  targetVer : ℤ
  targetType : ℤ
  targetField : Option Text
  attackType : Text
  attackArgs : List (Text × PyValue)
  deriving DecidableEq, Repr

section Columns

variable (py : Runtime)

/-- The columns for the length, the controller and the switch: an `int` or `'*'`. -/
def intColumn (message : Text → Message) (val : Text) : Checked ℤ :=
  match py.pyInt val with
  | some i => ⟨i, [], false⟩
  | none => if val ≠ text "*" then ⟨-1, [message val], true⟩ else ⟨-1, [], false⟩

/-- The column for the message type. A number that is none of a message becomes 0, and does not set
`has_error`. A string that `isdigit` takes and `int` does not raises an exception that `parse_row`
does not catch. -/
def msgTypeColumn (aliases : List (Option Text)) (val : Text) : Except PyError (Checked ℤ) :=
  if py.strIsDigit val = true then
    match py.pyInt val with
    | none => .error .valueError
    | some i =>
      if i < 0 ∨ i ≥ aliases.length ∨ aliases.getD i.toNat none = none then
        .ok ⟨0, [.typeNumber 0], false⟩
      else .ok ⟨i, [], false⟩
  else if some val ∉ aliases then
    if val ≠ text "*" then .ok ⟨-1, [.typeName val], true⟩ else .ok ⟨-1, [], false⟩
  else .ok ⟨aliases.idxOf (some val), [], false⟩

/-- The columns for the version and the message type: `act_ver` and `act_type_int`. -/
def targetColumns (r : Row) : Except PyError (Checked (ℤ × ℤ)) :=
  match ofpNormalizeVersion py r.version with
  | .ok ver => do
    let type ← msgTypeColumn py (ofpMsgTypeAliasDict ver) r.msgType
    .ok ⟨((ver : ℕ), type.value), type.printed, type.hasError⟩
  | .error e => .ok ⟨(-1, 0), [.version e], true⟩

/-- The arguments of a `DROP` row. A `p` that is no number from 0 to 1 is printed and stays as it
is: a list of strings. -/
def dropArgs (args : Text) : Checked (List (Text × PyValue)) :=
  let attackArgs := (parseQs args).map fun e => (e.1, PyValue.strs e.2)
  match dictGet (parseQs args) (text "p") with
  | none => ⟨attackArgs, [.noProbability], true⟩
  | some values =>
    match py.pyFloat values.first with
    | none => ⟨attackArgs, [.noNumber values.first], false⟩
    | some p =>
      if p.lt (.finite 0) = true ∨ (PyFloat.finite 1).lt p = true then
        ⟨attackArgs, [.probability p], false⟩
      else ⟨dictSet attackArgs (text "p") (.float p), [], false⟩

/-- The columns for the attack: `act_attack_type` and `act_attack_args`. -/
def attackColumns (r : Row) : Checked (Text × List (Text × PyValue)) :=
  let attackType := py.strUpper r.action
  if attackType = text "DROP" then
    let args := dropArgs py r.args
    ⟨(attackType, args.value), args.printed, args.hasError⟩
  else if attackType = text "DELAY" then ⟨(attackType, []), [], false⟩
  else if attackType = text "DUP" then ⟨(attackType, []), [], false⟩
  else ⟨(attackType, []), [.action r.action], true⟩

/-- `parse_row`: what it prints, and what it returns or raises. -/
def parseRow (row : List Text) : List Message × Except PyError (Option Action) :=
  match Row.ofColumns row with
  | none => ([.columns row.length], .ok none)
  | some r =>
    let length := intColumn py .length r.length
    let cid := intColumn py .cid r.cid
    let sid := intColumn py .sid r.sid
    let printed := length.printed ++ cid.printed ++ sid.printed
    match targetColumns py r with
    | .error e => (printed, .error e)
    | .ok target =>
      let attack := attackColumns py r
      let printed := printed ++ target.printed ++ attack.printed
      if length.hasError || cid.hasError || sid.hasError || target.hasError || attack.hasError then
        (printed, .ok none)
      else
        (printed, .ok (some
          { length := length.value
            targetCid := cid.value
            targetSid := sid.value
            targetVer := target.value.1
            targetType := target.value.2
            targetField := none
            attackType := attack.value.1
            attackArgs := attack.value.2 }))

end Columns

/-! ## The columns that do not set the flag -/

section Accepted

variable (py : Runtime)

/-- A text that the columns for the length, the controller and the switch take. -/
def IntTaken (val : Text) : Prop := (py.pyInt val).isSome = true ∨ val = text "*"

/-- The three columns are taken. -/
def Row.IntsOk (r : Row) : Prop := IntTaken py r.length ∧ IntTaken py r.cid ∧ IntTaken py r.sid

/-- A text that the column for the message type takes: a string of digits that is an `int`, a name,
or `'*'`. -/
def TypeTaken (aliases : List (Option Text)) (val : Text) : Prop :=
  if py.strIsDigit val = true then (py.pyInt val).isSome = true
  else some val ∈ aliases ∨ val = text "*"

/-- The columns for the attack are taken: a `DROP` row needs a `p`. -/
def Row.AttackOk (r : Row) : Prop :=
  py.strUpper r.action = text "DROP" ∧ (dictGet (parseQs r.args) (text "p")).isSome = true ∨
    py.strUpper r.action = text "DELAY" ∨ py.strUpper r.action = text "DUP"

instance (val : Text) : Decidable (IntTaken py val) := inferInstanceAs (Decidable (_ ∨ _))

instance (r : Row) : Decidable (r.IntsOk py) := inferInstanceAs (Decidable (_ ∧ _ ∧ _))

instance (aliases : List (Option Text)) (val : Text) : Decidable (TypeTaken py aliases val) :=
  inferInstanceAs (Decidable (if py.strIsDigit val = true then (py.pyInt val).isSome = true
    else some val ∈ aliases ∨ val = text "*"))

instance (r : Row) : Decidable (r.AttackOk py) := inferInstanceAs (Decidable (_ ∧ _ ∨ _ ∨ _))

/-- The action that a row is made to, for a version and a message type. -/
def Row.toAction (r : Row) (ver : Fin 6) (type : ℤ) : Action where
  length := (intColumn py .length r.length).value
  targetCid := (intColumn py .cid r.cid).value
  targetSid := (intColumn py .sid r.sid).value
  targetVer := (ver : ℕ)
  targetType := type
  targetField := none
  attackType := (attackColumns py r).value.1
  attackArgs := (attackColumns py r).value.2

variable {py} {r : Row} {ver : Fin 6} {val : Text} {aliases : List (Option Text)}

/-- A column for a number is in order if its text is taken. -/
lemma intColumn_hasError {message : Text → Message} :
    (intColumn py message val).hasError = false ↔ IntTaken py val := by
  unfold intColumn IntTaken
  cases py.pyInt val with
  | some i => simp
  | none => by_cases hval : val = text "*" <;> simp [hval]

/-- The column for the message type either raises an exception, or it does not set the flag exactly
if it takes the text. -/
lemma msgTypeColumn_spec :
    (msgTypeColumn py aliases val = .error .valueError ∧ py.strIsDigit val = true ∧
      py.pyInt val = none) ∨
    ∃ t, msgTypeColumn py aliases val = .ok t ∧
      (t.hasError = false ↔ TypeTaken py aliases val) := by
  unfold msgTypeColumn TypeTaken
  by_cases hdigit : py.strIsDigit val = true
  · rw [if_pos hdigit, if_pos hdigit]
    cases hint : py.pyInt val with
    | none => exact Or.inl ⟨rfl, hdigit, rfl⟩
    | some i =>
      refine Or.inr ?_
      simp only
      split_ifs
      · exact ⟨_, rfl, by simp⟩
      · exact ⟨_, rfl, by simp⟩
  · refine Or.inr ?_
    rw [if_neg hdigit, if_neg hdigit]
    by_cases hmem : some val ∈ aliases
    · exact ⟨_, by rw [if_neg (not_not_intro hmem)], by simp [hmem]⟩
    · rw [if_pos hmem]
      by_cases hval : val = text "*"
      · exact ⟨_, by rw [if_neg (not_not_intro hval)], by simp [hval]⟩
      · exact ⟨_, by rw [if_pos hval], by simp [hmem, hval]⟩

/-- The column for the message type, with a text that it takes. -/
lemma TypeTaken.column (h : TypeTaken py aliases val) :
    ∃ t, msgTypeColumn py aliases val = .ok t ∧ t.hasError = false := by
  rcases @msgTypeColumn_spec py val aliases with ⟨-, hdigit, hint⟩ | ⟨t, ht, hiff⟩
  · rw [TypeTaken, if_pos hdigit, hint] at h
    cases h
  · exact ⟨t, ht, hiff.mpr h⟩

/-- Where the column for the message type does not set the flag, it takes the text. -/
lemma typeTaken_of_column {t : Checked ℤ} (h : msgTypeColumn py aliases val = .ok t)
    (hflag : t.hasError = false) : TypeTaken py aliases val := by
  rcases @msgTypeColumn_spec py val aliases with ⟨herror, -⟩ | ⟨t', ht', hiff⟩
  · rw [h] at herror
    cases herror
  · obtain rfl := Except.ok.inj (h.symm.trans ht')
    exact hiff.mp hflag

/-- What is returned for the message type is -1 or an index of the list. -/
lemma msgTypeColumn_value {t : Checked ℤ} (h : msgTypeColumn py aliases val = .ok t)
    (hne : 0 < aliases.length) : t.value = -1 ∨ 0 ≤ t.value ∧ t.value < aliases.length := by
  unfold msgTypeColumn at h
  split_ifs at h with hdigit hmem hval
  · cases hint : py.pyInt val with
    | none => simp [hint] at h
    | some i =>
      rw [hint] at h
      simp only at h
      split_ifs at h with hi
      · obtain rfl := Except.ok.inj h
        refine Or.inr ⟨le_rfl, ?_⟩
        change (0 : ℤ) < aliases.length
        omega
      · obtain rfl := Except.ok.inj h
        simp only [not_or, not_lt, not_le] at hi
        exact Or.inr ⟨hi.1, hi.2.1⟩
  · obtain rfl := Except.ok.inj h
    have hlt := List.idxOf_lt_length_of_mem hmem
    refine Or.inr ⟨Int.natCast_nonneg _, ?_⟩
    change ((aliases.idxOf (some val) : ℕ) : ℤ) < aliases.length
    omega
  · obtain rfl := Except.ok.inj h
    exact Or.inl rfl
  · obtain rfl := Except.ok.inj h
    exact Or.inl rfl

/-- The arguments of a `DROP` row are in order if there is a `p`. -/
lemma dropArgs_hasError {args : Text} :
    (dropArgs py args).hasError = false ↔ (dictGet (parseQs args) (text "p")).isSome = true := by
  unfold dropArgs
  cases hp : dictGet (parseQs args) (text "p") with
  | none => simp
  | some values =>
    simp only
    cases py.pyFloat values.first with
    | none => simp
    | some p =>
      simp only
      split_ifs <;> simp

/-- The columns for the attack are in order if the row asks for what can be done. -/
lemma attackColumns_hasError : (attackColumns py r).hasError = false ↔ r.AttackOk py := by
  have hdelay : text "DELAY" ≠ text "DROP" := by decide
  have hdup : text "DUP" ≠ text "DROP" := by decide
  unfold attackColumns Row.AttackOk
  simp only
  split_ifs with hdrop hdelay' hdup'
  · simp [hdrop, dropArgs_hasError, hdelay.symm, hdup.symm]
  · simp [hdelay']
  · simp [hdup']
  · simp [hdrop, hdelay', hdup']

/-- The type of the attack is the column for the action in capital letters. -/
lemma attackColumns_type : (attackColumns py r).value.1 = py.strUpper r.action := by
  unfold attackColumns
  simp only
  split_ifs <;> rfl

/-- The arguments of a `DROP` row are taken if there is a `p`. -/
lemma attackColumns_drop (hdrop : py.strUpper r.action = text "DROP") :
    attackColumns py r = ⟨(py.strUpper r.action, (dropArgs py r.args).value),
      (dropArgs py r.args).printed, (dropArgs py r.args).hasError⟩ := by
  unfold attackColumns
  simp only [if_pos hdrop]

/-! ## What is returned -/

variable {row : List Text}

/-- A row with a version that is not read is refused. -/
lemma parseRow_version_error {e : VersionError} (hrow : Row.ofColumns row = some r)
    (hver : ofpNormalizeVersion py r.version = .error e) : (parseRow py row).2 = .ok none := by
  simp only [parseRow, hrow, targetColumns, hver, Bool.or_true, Bool.true_or, if_true]

/-- An exception for the message type leaves `parse_row`. -/
lemma parseRow_type_error {e : PyError} (hrow : Row.ofColumns row = some r)
    (hver : ofpNormalizeVersion py r.version = .ok ver)
    (htype : msgTypeColumn py (ofpMsgTypeAliasDict ver) r.msgType = .error e) :
    (parseRow py row).2 = .error e := by
  simp only [parseRow, hrow, targetColumns, hver, htype]
  rfl

/-- In every other case an action is returned exactly if no column set the flag. -/
lemma parseRow_type {t : Checked ℤ} (hrow : Row.ofColumns row = some r)
    (hver : ofpNormalizeVersion py r.version = .ok ver)
    (htype : msgTypeColumn py (ofpMsgTypeAliasDict ver) r.msgType = .ok t) :
    (parseRow py row).2 = .ok (if r.IntsOk py ∧ t.hasError = false ∧ r.AttackOk py then
      some (r.toAction py ver t.value) else none) := by
  have hflags : ((intColumn py .length r.length).hasError || (intColumn py .cid r.cid).hasError ||
      (intColumn py .sid r.sid).hasError || t.hasError || (attackColumns py r).hasError) = false ↔
      r.IntsOk py ∧ t.hasError = false ∧ r.AttackOk py := by
    simp only [Bool.or_eq_false_iff, intColumn_hasError, attackColumns_hasError, Row.IntsOk]
    tauto
  have hbind : (.ok t >>= fun type => .ok
      ⟨((ver : ℕ), type.value), type.printed, type.hasError⟩ : Except PyError (Checked (ℤ × ℤ))) =
      .ok ⟨((ver : ℕ), t.value), t.printed, t.hasError⟩ := rfl
  simp only [parseRow, hrow, targetColumns, hver, htype, hbind]
  by_cases h : r.IntsOk py ∧ t.hasError = false ∧ r.AttackOk py
  · rw [if_pos h, hflags.mpr h]
    rfl
  · rw [if_neg h, if_pos (by rwa [← hflags, Bool.not_eq_false] at h)]

/-- **For which rows an action is returned**, and which: those whose columns are all taken. -/
theorem parseRow_eq_some_iff {a : Action} :
    (parseRow py row).2 = .ok (some a) ↔
      ∃ r ver t, Row.ofColumns row = some r ∧ ofpNormalizeVersion py r.version = .ok ver ∧
        msgTypeColumn py (ofpMsgTypeAliasDict ver) r.msgType = .ok t ∧
        (r.IntsOk py ∧ t.hasError = false ∧ r.AttackOk py) ∧ r.toAction py ver t.value = a := by
  constructor
  · intro h
    cases hrow : Row.ofColumns row with
    | none =>
      simp only [parseRow, hrow] at h
      cases h
    | some r =>
      cases hver : ofpNormalizeVersion py r.version with
      | error e =>
        rw [parseRow_version_error hrow hver] at h
        cases h
      | ok ver =>
        cases htype : msgTypeColumn py (ofpMsgTypeAliasDict ver) r.msgType with
        | error e =>
          rw [parseRow_type_error hrow hver htype] at h
          cases h
        | ok t =>
          rw [parseRow_type hrow hver htype] at h
          split_ifs at h with htaken
          · exact ⟨r, ver, t, rfl, hver, htype, htaken, Option.some.inj (Except.ok.inj h)⟩
          · cases h
  · rintro ⟨r, ver, t, hrow, hver, htype, htaken, rfl⟩
    rw [parseRow_type hrow hver htype, if_pos htaken]

/-- **For which rows an exception leaves `parse_row`**: those with a message type that `isdigit`
takes and `int` does not, for a version that is read. -/
theorem parseRow_eq_error_iff {e : PyError} :
    (parseRow py row).2 = .error e ↔
      e = .valueError ∧ ∃ r ver, Row.ofColumns row = some r ∧
        ofpNormalizeVersion py r.version = .ok ver ∧
        py.strIsDigit r.msgType = true ∧ py.pyInt r.msgType = none := by
  constructor
  · intro h
    cases hrow : Row.ofColumns row with
    | none =>
      simp only [parseRow, hrow] at h
      cases h
    | some r =>
      cases hver : ofpNormalizeVersion py r.version with
      | error e =>
        rw [parseRow_version_error hrow hver] at h
        cases h
      | ok ver =>
        rcases @msgTypeColumn_spec py r.msgType (ofpMsgTypeAliasDict ver) with
          ⟨htype, hdigit, hint⟩ | ⟨t, htype, -⟩
        · rw [parseRow_type_error hrow hver htype] at h
          exact ⟨(Except.error.inj h).symm, r, ver, rfl, hver, hdigit, hint⟩
        · rw [parseRow_type hrow hver htype] at h
          cases h
  · rintro ⟨rfl, r, ver, hrow, hver, hdigit, hint⟩
    rcases @msgTypeColumn_spec py r.msgType (ofpMsgTypeAliasDict ver) with
      ⟨htype, -⟩ | ⟨t, htype, -⟩
    · exact parseRow_type_error hrow hver htype
    · simp [msgTypeColumn, hdigit, hint] at htype

end Accepted

end Mproxy.Generator
