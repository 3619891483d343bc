import Mproxy.Generator.DropTable

set_option relaxedAutoImplicit false
set_option autoImplicit false

/-!
# The message type that the generator attaches an attack to

An action of the generator is for all message types, or for the one that the row names, by its alias
or by its number. But a number that is none of a message becomes 0 without an error, so that the
attack is attached to `Hello`; and what `isdigit` and `int` take for a number need not be written
with the digits of ASCII. What `isdigit` takes and `int` does not raises an exception.

## Main definitions

* `Mproxy.Generator.Names` — a text names a message of a version.
* `Mproxy.Generator.TargetKept` — what is asked of a row.

## Main results

* `Mproxy.Generator.msgTypeColumn_names` — a name is read as the message that it names.
* `Mproxy.Generator.parseRow_target_iff` — for which rows the target is the one that is named.
-/

namespace Mproxy.Generator

open Python

/-! ## What is asked of a row -/

/-- The text names the message with this number: it is its alias, or a string of ASCII digits for
its number. -/
def Names (ver : Fin 6) (val : Text) (i : ℕ) : Prop :=
  ∃ name, (ofpMsgTypeAliasDict ver).getD i none = some name ∧
    (val = name ∨ AsciiDigits val ∧ digitsVal val = i)

/-- What is asked of a row. An action is for all message types exactly if the column is `'*'`, and
else for one that the column names. If the column names none, the row is refused and the table is
left as it is. -/
structure TargetKept (py : Runtime) (row : List Text) : Prop where
  accepted : ∀ r a, Row.ofColumns row = some r → (parseRow py row).2 = .ok (some a) →
    (a.targetType = -1 ↔ r.msgType = text "*") ∧
    (r.msgType ≠ text "*" → ∃ ver i, ofpNormalizeVersion py r.version = .ok ver ∧
      a.targetVer = (ver : ℕ) ∧ a.targetType = (i : ℕ) ∧ Names ver r.msgType i)
  refused : ∀ r ver, Row.ofColumns row = some r → ofpNormalizeVersion py r.version = .ok ver →
    r.msgType ≠ text "*" → (¬ ∃ i, Names ver r.msgType i) →
    (parseRow py row).2 = .ok none ∧
      ∀ s line, ∃ s', profileStep py s (.ok (row, line)) = .ok s' ∧ s'.table = s.table

/-! ## Names -/

section Column

variable {py : Runtime} {ver : Fin 6} {val : Text} {i : ℕ}

/-- The first character of an alias is an ASCII letter. -/
lemma alias_start {name : Text} (h : some name ∈ ofpMsgTypeAliasDict ver) :
    ∃ c s, name = c :: s ∧ c.toNat < 128 ∧ c.isDigit = false ∧ c ≠ '*' := by
  have hall : ((List.finRange 6).all fun ver => (ofpMsgTypeAliasDict ver).all fun name =>
      name.all fun s => s.head?.any fun c =>
        decide (c.toNat < 128) && !c.isDigit && c != '*') = true := by decide +kernel
  have hname := List.all_eq_true.mp (List.all_eq_true.mp hall ver (List.mem_finRange ver)) _ h
  cases name with
  | nil => cases hname
  | cons c s =>
    obtain ⟨⟨hascii, hdigit⟩, hstar⟩ : (c.toNat < 128 ∧ c.isDigit = false) ∧ c ≠ '*' := by
      simpa using hname
    exact ⟨c, s, rfl, hascii, hdigit, hstar⟩

/-- The name of a type, if it has one. -/
lemma getD_eq_some_iff {aliases : List (Option Text)} {name : Text} :
    aliases.getD i none = some name ↔ aliases[i]? = some (some name) := by
  rw [List.getD_eq_getElem?_getD]
  cases aliases[i]? <;> simp

/-- A type that has a name is one of the version, and its name is among the names. -/
lemma mem_of_getD {name : Text} (h : (ofpMsgTypeAliasDict ver).getD i none = some name) :
    i < (ofpMsgTypeAliasDict ver).length ∧ some name ∈ ofpMsgTypeAliasDict ver := by
  rw [getD_eq_some_iff] at h
  exact ⟨(List.getElem?_eq_some_iff.mp h).1, List.mem_of_getElem? h⟩

/-- An alias is found at its first index. -/
lemma getD_idxOf {name : Text} (h : some name ∈ ofpMsgTypeAliasDict ver) :
    (ofpMsgTypeAliasDict ver).getD ((ofpMsgTypeAliasDict ver).idxOf (some name)) none =
      some name := by
  have hlt := List.idxOf_lt_length_of_mem h
  rw [getD_eq_some_iff, List.getElem?_eq_getElem hlt, List.getElem_idxOf]

/-- A text that is no string of digits names a message exactly if it is an alias. -/
lemma names_iff_mem (hdigit : py.strIsDigit val = false) :
    (∃ i, Names ver val i) ↔ some val ∈ ofpMsgTypeAliasDict ver := by
  constructor
  · rintro ⟨i, name, hname, rfl | ⟨hdigits, -⟩⟩
    · exact (mem_of_getD hname).2
    · rw [py.strIsDigit_digits hdigits] at hdigit
      cases hdigit
  · intro hmem
    exact ⟨(ofpMsgTypeAliasDict ver).idxOf (some val), val, getD_idxOf hmem, Or.inl rfl⟩

/-- A string of ASCII digits names a message exactly if there is one with its number. -/
lemma names_iff_number (hdigits : AsciiDigits val) :
    (∃ i, Names ver val i) ↔
      ((ofpMsgTypeAliasDict ver).getD (digitsVal val) none).isSome = true := by
  rw [Option.isSome_iff_exists]
  constructor
  · rintro ⟨i, name, hname, rfl | ⟨-, rfl⟩⟩
    · -- an alias is no string of digits
      obtain ⟨c, s, rfl, -, hc, -⟩ := alias_start (mem_of_getD hname).2
      rw [hdigits.2 c List.mem_cons_self] at hc
      cases hc
    · exact ⟨name, hname⟩
  · rintro ⟨name, hname⟩
    exact ⟨digitsVal val, name, hname, Or.inr ⟨hdigits, rfl⟩⟩

/-- `'*'` is no number. -/
lemma strIsDigit_star : py.strIsDigit (text "*") = false :=
  py.strIsDigit_ascii (by decide) (by decide)

/-- `'*'` names no message. -/
lemma not_names_star : ¬ Names ver (text "*") i := by
  intro h
  obtain ⟨c, s, hstar, -, -, hne⟩ :=
    alias_start ((names_iff_mem (@strIsDigit_star asciiRuntime)).mp ⟨i, h⟩)
  exact hne (List.cons.inj hstar).1.symm

/-- **A name is read as a message that it names.** -/
lemma msgTypeColumn_names {t : Checked ℤ} (hname : Names ver val i)
    (h : msgTypeColumn py (ofpMsgTypeAliasDict ver) val = .ok t) :
    ∃ j : ℕ, t.value = j ∧ Names ver val j := by
  unfold msgTypeColumn at h
  cases hdigit : py.strIsDigit val with
  | true =>
    obtain ⟨name, hget, rfl | ⟨hdigits, hval⟩⟩ := hname
    · -- an alias is no string of digits
      obtain ⟨c, s, rfl, hascii, hc, -⟩ := alias_start (mem_of_getD hget).2
      rw [py.strIsDigit_ascii hascii hc] at hdigit
      cases hdigit
    · refine ⟨i, ?_, name, hget, Or.inr ⟨hdigits, hval⟩⟩
      rw [if_pos hdigit, py.pyInt_digits hdigits, hval] at h
      have hlt := (mem_of_getD hget).1
      split_ifs at h with hlen
      · have hok : ¬ ((i : ℤ) < 0 ∨ (i : ℤ) ≥ (ofpMsgTypeAliasDict ver).length ∨
            (ofpMsgTypeAliasDict ver).getD (i : ℤ).toNat none = none) := by
          rw [Int.toNat_natCast, hget]
          simp only [reduceCtorEq, or_false]
          omega
        simp only [if_neg hok] at h
        obtain rfl := Except.ok.inj h
        rfl
  | false =>
    have hmem := (names_iff_mem hdigit).mp ⟨i, hname⟩
    rw [if_neg (by simp [hdigit]), if_neg (not_not_intro hmem)] at h
    obtain rfl := Except.ok.inj h
    exact ⟨(ofpMsgTypeAliasDict ver).idxOf (some val), rfl, val, getD_idxOf hmem, Or.inl rfl⟩

/-- `'*'` is read as all message types, without an error. -/
lemma msgTypeColumn_star :
    msgTypeColumn py (ofpMsgTypeAliasDict ver) (text "*") = .ok ⟨-1, [], false⟩ := by
  have hmem : some (text "*") ∉ ofpMsgTypeAliasDict ver := by
    rw [← names_iff_mem (@strIsDigit_star py)]
    rintro ⟨i, h⟩
    exact not_names_star h
  unfold msgTypeColumn
  rw [if_neg (by simp [strIsDigit_star]), if_pos hmem, if_neg (not_not_intro rfl)]

end Column

/-! ## The rows -/

section Rows

variable {py : Runtime} {row : List Text} {r : Row} {ver : Fin 6}

/-- A row that is refused leaves the table, so its target is not asked for. -/
lemma targetKept_of_refused (h : (parseRow py row).2 = .ok none) : TargetKept py row := by
  refine ⟨fun r a hrow ha => ?_, fun r ver hrow hver hstar hno => ⟨h, fun s line => ?_⟩⟩
  · rw [h] at ha
    cases ha
  · refine ⟨{ s with printed := s.printed ++ (parseRow py row).1.map (Output.message line) }, ?_,
      rfl⟩
    simp only [profileStep, Runs.ok_bind, h]

/-- The target of a row whose column names a message, or all. -/
lemma targetKept_of_names (hrow : Row.ofColumns row = some r)
    (hver : ofpNormalizeVersion py r.version = .ok ver)
    (hname : r.msgType = text "*" ∨ ∃ i, Names ver r.msgType i) : TargetKept py row := by
  constructor
  · intro r' a hrow' ha
    obtain rfl : r = r' := Option.some.inj (hrow.symm.trans hrow')
    obtain ⟨r', ver', t, hrow', hver', htype, -, rfl⟩ := parseRow_eq_some_iff.mp ha
    obtain rfl : r = r' := Option.some.inj (hrow.symm.trans hrow')
    obtain rfl : ver = ver' := Except.ok.inj (hver.symm.trans hver')
    rcases hname with hstar | ⟨i, hname⟩
    · rw [hstar, msgTypeColumn_star] at htype
      obtain rfl := Except.ok.inj htype
      exact ⟨iff_of_true rfl hstar, fun hne => absurd hstar hne⟩
    · obtain ⟨j, hj, hname'⟩ := msgTypeColumn_names hname htype
      have hne : r.msgType ≠ text "*" := fun h => not_names_star (h ▸ hname)
      refine ⟨iff_of_false ?_ hne, fun _ => ⟨ver, j, hver, rfl, hj, hname'⟩⟩
      change t.value ≠ -1
      omega
  · intro r' ver' hrow' hver' hne hno
    obtain rfl : r = r' := Option.some.inj (hrow.symm.trans hrow')
    obtain rfl : ver = ver' := Except.ok.inj (hver.symm.trans hver')
    exact absurd hname (not_or.mpr ⟨hne, hno⟩)

/-- A row whose column names nothing is refused if the column is no string of digits; a string of
digits has to be an `int`, and another column has to be wrong. -/
lemma refused_iff_of_not_names (hrow : Row.ofColumns row = some r)
    (hver : ofpNormalizeVersion py r.version = .ok ver) (hstar : r.msgType ≠ text "*")
    (hno : ¬ ∃ i, Names ver r.msgType i) :
    (parseRow py row).2 = .ok none ↔ (py.strIsDigit r.msgType = true →
      (py.pyInt r.msgType).isSome = true ∧ ¬ (r.IntsOk py ∧ r.AttackOk py)) := by
  rcases @msgTypeColumn_spec py r.msgType (ofpMsgTypeAliasDict ver) with
    ⟨htype, hdigit, hint⟩ | ⟨t, htype, hflag⟩
  · simp [parseRow_type_error hrow hver htype, hdigit, hint]
  · have hparse : (parseRow py row).2 = .ok none ↔
        ¬ (r.IntsOk py ∧ TypeTaken py (ofpMsgTypeAliasDict ver) r.msgType ∧ r.AttackOk py) := by
      rw [parseRow_type hrow hver htype, ← hflag]
      simp
    rw [hparse, TypeTaken]
    cases hdigit : py.strIsDigit r.msgType with
    | true =>
      have hint : (py.pyInt r.msgType).isSome = true := by
        cases hint : py.pyInt r.msgType with
        | none => simp [msgTypeColumn, hdigit, hint] at htype
        | some i => rfl
      simp [hint]
    | false =>
      have hmem : some r.msgType ∉ ofpMsgTypeAliasDict ver := fun h =>
        hno ((names_iff_mem hdigit).mpr h)
      simp [hmem, hstar]

/-- **For which rows the target is the one that is named.** For every row: unless the column for the
message type is a string of digits that names no message of the version. Such a row has to be
refused for another column, and `int` must take the string.

**Proof sketch.** A name is read as what it names (`msgTypeColumn_names`). A row whose column names
nothing is right exactly if it is refused (`targetKept_of_refused`), and when it is was seen in
`refused_iff_of_not_names`. -/
theorem parseRow_target_iff (py : Runtime) (row : List Text) :
    TargetKept py row ↔
      ∀ r ver, Row.ofColumns row = some r → ofpNormalizeVersion py r.version = .ok ver →
        py.strIsDigit r.msgType = true → (∃ i, Names ver r.msgType i) ∨
          ((py.pyInt r.msgType).isSome = true ∧ ¬ (r.IntsOk py ∧ r.AttackOk py)) := by
  constructor
  · intro h r ver hrow hver hdigit
    refine or_iff_not_imp_left.mpr fun hno => ?_
    have hstar : r.msgType ≠ text "*" := by
      intro hstar
      rw [hstar, strIsDigit_star] at hdigit
      cases hdigit
    have hrefused := (h.refused r ver hrow hver hstar hno).1
    exact (refused_iff_of_not_names hrow hver hstar hno).mp hrefused hdigit
  · intro h
    cases hrow : Row.ofColumns row with
    | none =>
      exact targetKept_of_refused (by simp only [parseRow, hrow])
    | some r =>
      cases hver : ofpNormalizeVersion py r.version with
      | error e => exact targetKept_of_refused (parseRow_version_error hrow hver)
      | ok ver =>
        by_cases hname : r.msgType = text "*" ∨ ∃ i, Names ver r.msgType i
        · exact targetKept_of_names hrow hver hname
        · obtain ⟨hstar, hno⟩ := not_or.mp hname
          refine targetKept_of_refused
            ((refused_iff_of_not_names hrow hver hstar hno).mpr fun hdigit => ?_)
          exact (h r ver hrow hver hdigit).resolve_left hno

/-- A row `*,*,*,1.0,99,*,DUP,`: there is no message with the number 99, and the action is for
`Hello`. -/
theorem parseRow_target_behind : ¬ TargetKept asciiRuntime
    [text "*", text "*", text "*", text "1.0", text "99", text "*", text "DUP", []] := by
  intro h
  have hno : ¬ ∃ i, Names 1 (text "99") i := by
    rw [names_iff_number (by decide +kernel)]
    decide +kernel
  have hrefused := (h.refused _ 1 rfl rfl (by decide +kernel) hno).1
  have haccepted : (parseRow asciiRuntime [text "*", text "*", text "*", text "1.0", text "99",
      text "*", text "DUP", []]).2 = .ok (some ⟨-1, -1, -1, 1, 0, none, text "DUP", []⟩) := by
    decide +kernel
  rw [haccepted] at hrefused
  cases hrefused

end Rows

end Mproxy.Generator
