import Mproxy.Rules.History

set_option relaxedAutoImplicit false
set_option autoImplicit false

/-!
# The columns of a row

What a row means depends on four of its columns only: on the texts in the columns for the version,
the message type and the action, and on the arguments `p` and `r`. The positions of these texts in
memory do not matter.

## Main definitions

* `Mproxy.Columns` — what `attacker_add_rule` reads of a row.
* `Mproxy.RowCall.columns` — the columns of the row of a call.
* `Mproxy.Columns.rule` — what a row with these columns means.

## Main results

* `Mproxy.RowCall.means_iff` — the row of a call means what its columns say.
-/

namespace Mproxy

open Memory

/-- A value without the position of its string. -/
def ArgValue.anon : ArgValue → ArgValue
  | .str _ => .str 0
  | v => v

/-- What `attacker_add_rule` reads of a row. The arguments `p` and `r` are found with their value
(`some (some v)`) or not there (`some none`); `none` says that the parse of the arguments leaves the
memory. -/
structure Columns where
  version : List UInt8
  msgType : List UInt8
  action : List UInt8
  argP : Option (Option ArgValue)
  argR : Option (Option ArgValue)
  deriving DecidableEq

/-- An argument that is looked for by its name, in the string at `str`. -/
def argNamed (m : List UInt8) (str : ℕ) (name : List UInt8) : Option (Option ArgValue) :=
  (argsLookup m str name).map fun p => p.2.map ArgValue.anon

/-- The columns of the row of a call, if it is split into eight columns. -/
def RowCall.columns (c : RowCall) : Option Columns := do
  let (m, F) ← csvParse c.mem c.data c.len
  if F.ret.length ≠ attackerRowNumFields then none
  else do
    let version ← cstring m (F.ret.getD 3 0)
    let msgType ← cstring m (F.ret.getD 4 0)
    let action ← cstring m (F.ret.getD 6 0)
    some
      { version := version
        msgType := msgType
        action := action
        argP := argNamed m (F.ret.getD 7 0) (cstr "p")
        argR := argNamed m (F.ret.getD 7 0) (cstr "r") }

/-- What a row with these columns means. -/
def Columns.rule (past : Past) (cols : Columns) : Option Rule :=
  let ofpVer := normalizeOfpVerStr cols.version
  if ofpVer = ofpVerErr then some .refused
  else
    let msgType := normalizeOfpMsgType past ofpVer.toNat cols.msgType
    if msgType = ofpMsgTypeErr then some .refused
    else
      let actionType := normalizeActionType cols.action
      if actionType = actionIdErr then some .refused
      else if actionType = actionIdDrop then
        cols.argP.map fun targ => .drop ofpVer msgType (dropProb targ)
      else if actionType = actionIdDup then
        cols.argR.map fun targ =>
          if dupCountOf targ < 1 then .refused else .dup ofpVer msgType (dupCountOf targ)
      else some (.unimplemented actionType)

/-- The position of a string does not count for the percentage. -/
lemma dropProb_anon (targ : Option ArgValue) :
    dropProb (targ.map ArgValue.anon) = dropProb targ := by
  rcases targ with _ | (_ | _ | _ | _) <;> rfl

/-- It does not count for the number of copies. -/
lemma dupCountOf_anon (targ : Option ArgValue) :
    dupCountOf (targ.map ArgValue.anon) = dupCountOf targ := by
  rcases targ with _ | (_ | _ | _ | _) <;> rfl

/-- What the columns of a row mean, in terms of the strings and the pointer to the arguments. -/
lemma ruleOfFields_iff {past : Past} {m version msgType action : List UInt8} {args : ℕ} {r : Rule} :
    (∃ m', ruleOfFields past m version msgType action args = .ok (r, m')) ↔
      Columns.rule past ⟨version, msgType, action, argNamed m args (cstr "p"),
        argNamed m args (cstr "r")⟩ = some r := by
  unfold ruleOfFields Columns.rule argNamed
  simp only
  split_ifs
  · simp [eq_comm]
  · simp [eq_comm]
  · simp [eq_comm]
  · cases argsLookup m args (cstr "p") with
    | none => simp [ofMem]
    | some p => simp [ofMem, dropProb_anon, eq_comm]
  · cases argsLookup m args (cstr "r") with
    | none => simp [ofMem]
    | some p =>
      simp only [ofMem, Runs.ok_bind, Option.map_some, dupCountOf_anon, Option.some.injEq]
      split_ifs <;> simp [eq_comm]
  · simp [eq_comm]

/-- **The row of a call means what its columns say.** -/
theorem RowCall.means_iff {past : Past} {c : RowCall} {cols : Columns} (h : c.columns = some cols)
    (r : Rule) : c.Means past r ↔ cols.rule past = some r := by
  unfold RowCall.columns at h
  simp only [Option.bind_eq_bind, Option.bind_eq_some_iff] at h
  obtain ⟨⟨m, F⟩, hcsv, h⟩ := h
  simp only at h
  split_ifs at h with hnum
  simp only [Option.bind_eq_some_iff] at h
  obtain ⟨version, hversion, msgType, htype, action, haction, h⟩ := h
  obtain rfl := Option.some.inj h
  rw [← ruleOfFields_iff]
  unfold RowCall.Means attackerParseRule
  rw [hcsv, ofMem, Runs.ok_bind]
  simp only
  rw [if_neg hnum, hversion, htype, haction]
  rfl

/-- A row that is not split into eight columns is refused. -/
lemma RowCall.means_refused {past : Past} {c : RowCall} {m : List UInt8} {F : FieldList}
    (hcsv : csvParse c.mem c.data c.len = some (m, F))
    (hnum : F.ret.length ≠ attackerRowNumFields) :
    attackerParseRule past c.mem c.data c.len = .ok (.refused, m) := by
  unfold attackerParseRule
  rw [hcsv, ofMem, Runs.ok_bind]
  exact if_pos hnum

end Mproxy
