import Mproxy.Tables
import Mproxy.Rules.Normalize

set_option relaxedAutoImplicit false
set_option autoImplicit false

/-!
# Adding a rule

`attacker_add_rule` of `attack.c`: a row is split and normalised into a rule, and the rule is
written into the tables. What a row means does not depend on the tables, so the function is two
functions here: `attackerParseRule` up to the table fills, and `attackerApplyRule`.

## Main definitions

* `Mproxy.Rule` — what a row means.
* `Mproxy.attackerAddRule` — `attacker_add_rule`.
* `Mproxy.Covers` — the cells a rule is written to.

## Main results

* `Mproxy.fillTable_eq` — a table fill writes the covered cells, and no others.
* `Mproxy.fillTable_eq_error` — it leaves the table exactly for message types from `35` on.
* `Mproxy.attackerParseRule_sound` — the rules a row can mean.
-/

namespace Mproxy

open Memory

/-- `ATTACKER_ROW_NUM_FIELDS` -/
def attackerRowNumFields : ℕ := 8

/-- An access outside the region is a fault. -/
def ofMem {α : Type} : Option α → Except Fault α
  | none => .error .outOfBounds
  | some a => .ok a

/-- What a row means: nothing, because it is refused; a `DROP` or a `DUP` rule with its version,
message type and table value; or an accepted rule of a type that is not implemented. -/
inductive Rule
  | refused
  | drop (ofpVer msgType : ℤ) (prob : Int8)
  | dup (ofpVer msgType : ℤ) (dupCount : UInt8)
  | unimplemented (actionType : ℤ)
  deriving DecidableEq

/-- `args_parse`, and `args_find` in its result: the memory behind the calls and the value found. -/
def argsLookup (m : List UInt8) (str : ℕ) (name : List UInt8) :
    Option (List UInt8 × Option ArgValue) := do
  let (m, args) ← argsParse m str attackerArgsDelim
  let targ ← argsFind m args name
  some (m, targ.map ArgNode.value)

/-- `prob` of a `DROP` rule, from the argument `p`. -/
def dropProb (targ : Option ArgValue) : Int8 :=
  let prob : Int8 :=
    match targ with
    | some (.int i) => intToChar i
    | some (.float f) => floatToChar f
    | _ => 100
  if prob < 0 then 0 else if prob > 100 then 100 else prob

/-- `dup_count` of a `DUP` rule, from the argument `r`, behind `dup_count -= 1`. -/
def dupCountOf (targ : Option ArgValue) : UInt8 :=
  let dupCount : UInt8 :=
    match targ with
    | some (.int i) => intToCounter i
    | _ => 1
  dupCount - 1

/-- `attacker_add_rule` between `csv_parse` and the table fills, on the strings in the columns for
the version, the message type and the action, and the pointer to the arguments. -/
def ruleOfFields (past : Past) (m version msgTypeText action : List UInt8) (args : ℕ) :
    Except Fault (Rule × List UInt8) :=
  let ofpVer := normalizeOfpVerStr version
  if ofpVer = ofpVerErr then .ok (.refused, m)
  else
    let msgType := normalizeOfpMsgType past ofpVer.toNat msgTypeText
    if msgType = ofpMsgTypeErr then .ok (.refused, m)
    else
      let actionType := normalizeActionType action
      if actionType = actionIdErr then .ok (.refused, m)
      else if actionType = actionIdDrop then do
        let (m, targ) ← ofMem (argsLookup m args (cstr "p"))
        .ok (.drop ofpVer msgType (dropProb targ), m)
      else if actionType = actionIdDup then do
        let (m, targ) ← ofMem (argsLookup m args (cstr "r"))
        let dupCount := dupCountOf targ
        if dupCount < 1 then .ok (.refused, m) else .ok (.dup ofpVer msgType dupCount, m)
      else .ok (.unimplemented actionType, m)

/-- `attacker_add_rule` up to the table fills. -/
def attackerParseRule (past : Past) (m : List UInt8) (data len : ℕ) :
    Except Fault (Rule × List UInt8) := do
  let (m, fields) ← ofMem (csvParse m data len)
  if fields.ret.length ≠ attackerRowNumFields then .ok (.refused, m)
  else do
    let version ← ofMem (cstring m (fields.ret.getD 3 0))
    let msgTypeText ← ofMem (cstring m (fields.ret.getD 4 0))
    let action ← ofMem (cstring m (fields.ret.getD 6 0))
    ruleOfFields past m version msgTypeText action (fields.ret.getD 7 0)

section Fill

variable {α : Type}

/-- `table[i][j] = x` -/
def tableSet (t : Fin 5 → Fin 35 → α) (i j : ℕ) (x : α) : Except Fault (Fin 5 → Fin 35 → α) :=
  if i < 5 ∧ j < 35 then .ok fun v c => if (v : ℕ) = i ∧ (c : ℕ) = j then x else t v c
  else .error .tableIndex

/-- The part of a table fill that writes to one row. -/
def fillRow (t : Fin 5 → Fin 35 → α) (i : ℕ) (msgType : ℤ) (x : α) :
    Except Fault (Fin 5 → Fin 35 → α) :=
  if msgType = ofpMsgTypeAll then (List.range 35).foldlM (fun t j => tableSet t i j x) t
  else tableSet t i msgType.toNat x

/-- The table fill of a rule. -/
def fillTable (t : Fin 5 → Fin 35 → α) (ofpVer msgType : ℤ) (x : α) :
    Except Fault (Fin 5 → Fin 35 → α) :=
  if ofpVer = ofpVerAll then (List.range 5).foldlM (fun t i => fillRow t i msgType x) t
  else fillRow t (ofpVer - 1).toNat msgType x

end Fill

/-- The table fills of `attacker_add_rule`, and what it returns. -/
def attackerApplyRule (T : Tables) : Rule → Except Fault (ℕ × Tables)
  | .refused => .ok (1, T)
  | .drop ofpVer msgType prob => do
    let drop ← fillTable T.drop ofpVer msgType prob
    .ok (0, { T with drop := drop })
  | .dup ofpVer msgType dupCount => do
    let dup ← fillTable T.dup ofpVer msgType dupCount
    .ok (0, { T with dup := dup })
  | .unimplemented _ => .ok (0, T)

/-- `attacker_add_rule`: what it returns, the tables and the memory behind the call. -/
def attackerAddRule (past : Past) (T : Tables) (m : List UInt8) (data len : ℕ) :
    Except Fault (ℕ × Tables × List UInt8) := do
  let (rule, m) ← attackerParseRule past m data len
  let (ret, T) ← attackerApplyRule T rule
  .ok (ret, T, m)

/-- An access to the memory succeeds exactly if it gives a value. -/
lemma ofMem_eq_ok {α : Type} {o : Option α} {a : α} : ofMem o = .ok a ↔ o = some a := by
  cases o <;> simp [ofMem]

/-! ## Table fills -/

/-- The cell of version `v + 1` and type `t` is covered by a rule for the version `ofpVer` and the
message type `msgType`, either of which may be the wildcard. -/
def Covers (ofpVer msgType : ℤ) (v : Fin 5) (t : Fin 35) : Prop :=
  (ofpVer = ofpVerAll ∨ ofpVer = v + 1) ∧ (msgType = ofpMsgTypeAll ∨ msgType = t)

instance (ofpVer msgType : ℤ) (v : Fin 5) (t : Fin 35) : Decidable (Covers ofpVer msgType v t) :=
  inferInstanceAs (Decidable (_ ∧ _))

section Fill

variable {α : Type} (t : Fin 5 → Fin 35 → α) (x : α)

/-- The loop over the types of one row. -/
lemma foldlM_tableSet {i n : ℕ} (hi : i < 5) (hn : n ≤ 35) :
    (List.range n).foldlM (fun t j => tableSet t i j x) t =
      .ok fun v c => if (v : ℕ) = i ∧ (c : ℕ) < n then x else t v c := by
  induction n with
  | zero => simp [pure, Except.pure]
  | succ n ih =>
    rw [List.range_succ, List.foldlM_append, ih (by omega), Runs.ok_bind, List.foldlM_cons,
      tableSet, if_pos ⟨hi, by omega⟩, Runs.ok_bind, List.foldlM_nil]
    refine congrArg Except.ok (funext fun v => funext fun c => ?_)
    split_ifs <;> first | rfl | omega

/-- The types a rule in range is for: all of them, or one that has a column. -/
def TypeInRange (msgType : ℤ) : Prop := msgType = ofpMsgTypeAll ∨ (0 ≤ msgType ∧ msgType < 35)

/-- The part of a table fill in one row writes the columns of the rule's type. -/
lemma fillRow_eq {i : ℕ} (hi : i < 5) {msgType : ℤ} (htype : TypeInRange msgType) :
    fillRow t i msgType x =
      .ok fun v c =>
        if (v : ℕ) = i ∧ (msgType = ofpMsgTypeAll ∨ msgType = c) then x else t v c := by
  unfold fillRow
  by_cases hall : msgType = ofpMsgTypeAll
  · rw [if_pos hall, foldlM_tableSet t x hi le_rfl]
    refine congrArg Except.ok (funext fun v => funext fun c => ?_)
    have hc := c.isLt
    simp only [hall, true_or, hc]
  · have hrange := htype.resolve_left hall
    rw [if_neg hall, tableSet, if_pos ⟨hi, by omega⟩]
    refine congrArg Except.ok (funext fun v => funext fun c => ?_)
    have hiff : (c : ℕ) = msgType.toNat ↔ msgType = c := by omega
    simp only [hall, false_or, hiff]

/-- The loop over the versions. -/
lemma foldlM_fillRow {n : ℕ} (hn : n ≤ 5) {msgType : ℤ} (htype : TypeInRange msgType) :
    (List.range n).foldlM (fun t i => fillRow t i msgType x) t =
      .ok fun v c =>
        if (v : ℕ) < n ∧ (msgType = ofpMsgTypeAll ∨ msgType = c) then x else t v c := by
  induction n with
  | zero => simp [pure, Except.pure]
  | succ n ih =>
    rw [List.range_succ, List.foldlM_append, ih (by omega), Runs.ok_bind, List.foldlM_cons,
      fillRow_eq _ x (by omega) htype, Runs.ok_bind, List.foldlM_nil]
    refine congrArg Except.ok (funext fun v => funext fun c => ?_)
    by_cases hc : msgType = ofpMsgTypeAll ∨ msgType = c
    · simp only [hc, and_true]
      split_ifs <;> first | rfl | omega
    · simp only [hc, and_false, if_false]

/-- **A table fill writes the covered cells, and no others.** -/
lemma fillTable_eq {ofpVer msgType : ℤ} (hver : 0 ≤ ofpVer ∧ ofpVer ≤ 5)
    (htype : TypeInRange msgType) :
    fillTable t ofpVer msgType x =
      .ok fun v c => if Covers ofpVer msgType v c then x else t v c := by
  unfold fillTable Covers
  by_cases hall : ofpVer = ofpVerAll
  · rw [if_pos hall, foldlM_fillRow t x le_rfl htype]
    refine congrArg Except.ok (funext fun v => funext fun c => ?_)
    have hv := v.isLt
    simp only [hall, true_or, hv, true_and]
  · have hne : ofpVer ≠ 0 := hall
    rw [if_neg hall, fillRow_eq t x (by omega) htype]
    refine congrArg Except.ok (funext fun v => funext fun c => ?_)
    have hiff : (v : ℕ) = (ofpVer - 1).toNat ↔ ofpVer = v + 1 := by omega
    simp only [hall, false_or, hiff]

/-- A row fill for a message type that has no column leaves the table. -/
lemma fillRow_eq_error (i : ℕ) {msgType : ℤ} (htype : 35 ≤ msgType) :
    fillRow t i msgType x = .error .tableIndex := by
  have hall : msgType ≠ ofpMsgTypeAll := by unfold ofpMsgTypeAll; omega
  rw [fillRow, if_neg hall, tableSet, if_neg (by omega)]

/-- A table fill for a message type that has no column leaves the table. -/
lemma fillTable_eq_error (ofpVer : ℤ) {msgType : ℤ} (htype : 35 ≤ msgType) :
    fillTable t ofpVer msgType x = .error .tableIndex := by
  unfold fillTable
  split_ifs
  · rw [show List.range 5 = 0 :: [1, 2, 3, 4] from rfl, List.foldlM_cons,
      fillRow_eq_error t x 0 htype, Runs.error_bind]
  · exact fillRow_eq_error t x _ htype

end Fill

/-! ## The rules a row can mean -/

/-- A percentage, as the clamp of a `DROP` rule leaves it. -/
lemma dropProb_percent (targ : Option ArgValue) :
    0 ≤ (dropProb targ).toInt ∧ (dropProb targ).toInt ≤ 100 := by
  unfold dropProb
  simp only
  generalize (match targ with
    | some (.int i) => intToChar i
    | some (.float f) => floatToChar f
    | _ => (100 : Int8)) = prob
  have h0 : (0 : Int8).toInt = 0 := rfl
  have h100 : (100 : Int8).toInt = 100 := rfl
  split_ifs with hlow hhigh
  · rw [h0]; omega
  · rw [h100]; omega
  · rw [Int8.lt_iff_toInt_lt] at hlow
    rw [gt_iff_lt, Int8.lt_iff_toInt_lt] at hhigh
    omega

/-- What is known of every rule `attacker_add_rule` makes of a row: its version is the wildcard or
from `1` to `5`, its type the wildcard, from `0` to `34`, or `35`; a drop value is a percentage and
a dup value not `0`; what is not implemented is `DELAY` and `LIE`. -/
def Rule.Sound : Rule → Prop
  | .drop ofpVer msgType prob => (0 ≤ ofpVer ∧ ofpVer ≤ 5) ∧
    (TypeInRange msgType ∨ msgType = 35) ∧ 0 ≤ prob.toInt ∧ prob.toInt ≤ 100
  | .dup ofpVer msgType dupCount => (0 ≤ ofpVer ∧ ofpVer ≤ 5) ∧
    (TypeInRange msgType ∨ msgType = 35) ∧ dupCount ≠ 0
  | .unimplemented actionType => actionType = actionIdDelay ∨ actionType = actionIdLie
  | .refused => True

/-- A message type that is read is one of the table, or the one just behind it. -/
lemma normalizeOfpMsgType_range {past : Past} {ver : ℕ} {s : List UInt8}
    (h : normalizeOfpMsgType past ver s ≠ ofpMsgTypeErr) :
    TypeInRange (normalizeOfpMsgType past ver s) ∨ normalizeOfpMsgType past ver s = 35 := by
  have hle := ofpMsgAliasLen_le ver
  rcases normalizeOfpMsgType_cases past ver s with herr | hall | ⟨i, hi, -, hlt | ⟨hlt, -⟩⟩
  · exact absurd herr h
  · exact Or.inl (Or.inl hall)
  · rw [hi]
    exact Or.inl (Or.inr (by omega))
  · rw [hi]
    rcases Nat.lt_or_ge i 35 with h35 | h35
    · exact Or.inl (Or.inr (by omega))
    · exact Or.inr (by omega)

/-- **The rules a row can mean.** -/
theorem ruleOfFields_sound {past : Past} {m version msgTypeText action m' : List UInt8} {args : ℕ}
    {rule : Rule} (h : ruleOfFields past m version msgTypeText action args = .ok (rule, m')) :
    rule.Sound := by
  unfold ruleOfFields at h
  simp only at h
  by_cases hver : normalizeOfpVerStr version = ofpVerErr
  · rw [if_pos hver] at h
    cases h
    trivial
  rw [if_neg hver] at h
  have hver' := (normalizeOfpVerStr_range version).resolve_left hver
  by_cases htype : normalizeOfpMsgType past (normalizeOfpVerStr version).toNat msgTypeText =
      ofpMsgTypeErr
  · rw [if_pos htype] at h
    cases h
    trivial
  rw [if_neg htype] at h
  have htype' := normalizeOfpMsgType_range htype
  split_ifs at h with herr hdrop hdup
  · cases h
    trivial
  · obtain ⟨⟨m₁, targ⟩, -, h⟩ := Runs.bind_eq_ok.mp h
    cases h
    exact ⟨hver', htype', dropProb_percent targ⟩
  · obtain ⟨⟨m₁, targ⟩, -, h⟩ := Runs.bind_eq_ok.mp h
    simp only at h
    split_ifs at h with hlt
    · cases h
      trivial
    · cases h
      refine ⟨hver', htype', fun hzero => hlt ?_⟩
      rw [hzero]
      decide
  · cases h
    rcases normalizeActionType_range action with h | h | h | h | h
    · exact absurd h herr
    · exact absurd h hdrop
    · exact Or.inl h
    · exact absurd h hdup
    · exact Or.inr h

/-- A row that is parsed gives a sound rule. -/
lemma attackerParseRule_sound {past : Past} {m m' : List UInt8} {data len : ℕ} {rule : Rule}
    (h : attackerParseRule past m data len = .ok (rule, m')) : rule.Sound := by
  obtain ⟨⟨m₁, fields⟩, -, h⟩ := Runs.bind_eq_ok.mp h
  simp only at h
  split_ifs at h with hnum
  · cases h
    trivial
  · obtain ⟨version, -, h⟩ := Runs.bind_eq_ok.mp h
    obtain ⟨msgTypeText, -, h⟩ := Runs.bind_eq_ok.mp h
    obtain ⟨action, -, h⟩ := Runs.bind_eq_ok.mp h
    exact ruleOfFields_sound h

end Mproxy
