import Mproxy.Rules.Args
import Mproxy.Rules.Libc

set_option relaxedAutoImplicit false
set_option autoImplicit false

/-!
# Normalising the columns of a rule

`attack.c`: the version, message type and action columns of a rule become numbers. A message type is
given by number or by an alias, which is looked up in the alias array of its version.

The lengths of the alias arrays are kept in an array of their own, `OFP_MSG_ALIAS_LEN`. In the
arrays for versions `1.3` and `1.4` a comma is missing, so that two aliases have become one and the
arrays are one shorter than `OFP_MSG_ALIAS_LEN` says. What a read behind the end of an array finds
is a parameter (`Past`).

## Main definitions

* `Mproxy.normalizeOfpVerStr`, `Mproxy.normalizeOfpMsgType`, `Mproxy.normalizeActionType` — the
  functions of `attack.c`.

## Main results

* `Mproxy.normalizeOfpVerStr_range`, `Mproxy.normalizeOfpMsgType_cases` — what they return.
-/

namespace Mproxy

/-- `OFP_MSG_TYPE_ERR` -/
def ofpMsgTypeErr : ℤ := -2

/-- `OFP_MSG_TYPE_ALL` -/
def ofpMsgTypeAll : ℤ := -1

/-- `OFP_VER_ALL` -/
def ofpVerAll : ℤ := 0

/-- `OFP_VER_ERR` -/
def ofpVerErr : ℤ := -1

/-- `ACTION_ID_ERR` -/
def actionIdErr : ℤ := -1

/-- `ACTION_ID_DROP` -/
def actionIdDrop : ℤ := 0

/-- `ACTION_ID_DELAY` -/
def actionIdDelay : ℤ := 1

/-- `ACTION_ID_DUP` -/
def actionIdDup : ℤ := 2

/-- `ACTION_ID_LIE` -/
def actionIdLie : ℤ := 3

/-- `OFP_V1_0_MSG_ALIAS` -/
def ofpV10MsgAlias : List (Option String) :=
  [some "Hello", some "Error", some "EchoReq", some "EchoRes", some "Vendor",
    some "FeatureReq", some "FeatureRes", some "GetConfigReq", some "GetConfigRes",
    some "SetConfig", some "PacketIn", some "FlowRemoved", some "PortStatus", some "PacketOut",
    some "FlowMod", some "PortMod", some "StatsReq", some "StatsRes", some "BarrierReq",
    some "BarrierRes", some "QueueGetConfigReq", some "QueueGetConfigRes"]

/-- `OFP_V1_1_MSG_ALIAS` -/
def ofpV11MsgAlias : List (Option String) :=
  [some "Hello", some "Error", some "EchoReq", some "EchoRes", some "Experimenter",
    some "FeatureReq", some "FeatureRes", some "GetConfigReq", some "GetConfigRes",
    some "SetConfig", some "PacketIn", some "FlowRemoved", some "PortStatus", some "PacketOut",
    some "FlowMod", some "GroupMod", some "PortMod", some "TableMod", some "StatsReq",
    some "StatsRes", some "BarrierReq", some "BarrierRes", some "QueueGetConfigReq",
    some "QueueGetConfigRes"]

/-- `OFP_V1_2_MSG_ALIAS` -/
def ofpV12MsgAlias : List (Option String) :=
  [some "Hello", some "Error", some "EchoReq", some "EchoRes", some "Experimenter",
    some "FeatureReq", some "FeatureRes", some "GetConfigReq", some "GetConfigRes",
    some "SetConfig", some "PacketIn", some "FlowRemoved", some "PortStatus", some "PacketOut",
    some "FlowMod", some "GroupMod", some "PortMod", some "TableMod", some "StatsReq",
    some "StatsRes", some "BarrierReq", some "BarrierRes", some "QueueGetConfigReq",
    some "QueueGetConfigRes", some "RoleReq", some "RoleRes"]

/-- `OFP_V1_3_MSG_ALIAS`. There is no comma behind `"MultipartRes"`. -/
def ofpV13MsgAlias : List (Option String) :=
  [some "Hello", some "Error", some "EchoReq", some "EchoRes", some "Experimenter",
    some "FeatureReq", some "FeatureRes", some "GetConfigReq", some "GetConfigRes",
    some "SetConfig", some "PacketIn", some "FlowRemoved", some "PortStatus", some "PacketOut",
    some "FlowMod", some "GroupMod", some "PortMod", some "TableMod", some "MultipartReq",
    some "MultipartResBarrierReq", some "BarrierRes", some "QueueGetConfigReq",
    some "QueueGetConfigRes", some "RoleReq", some "RoleRes", some "GetAsyncReq",
    some "GetAsyncRes", some "SetAsync", some "MeterMod"]

/-- `OFP_V1_4_MSG_ALIAS`. There is no comma behind `"MultipartRes"`. -/
def ofpV14MsgAlias : List (Option String) :=
  [some "Hello", some "Error", some "EchoReq", some "EchoRes", some "Experimenter",
    some "FeatureReq", some "FeatureRes", some "GetConfigReq", some "GetConfigRes",
    some "SetConfig", some "PacketIn", some "FlowRemoved", some "PortStatus", some "PacketOut",
    some "FlowMod", some "GroupMod", some "PortMod", some "TableMod", some "MultipartReq",
    some "MultipartResBarrierReq", some "BarrierRes", none, none, some "RoleReq", some "RoleRes",
    some "GetAsyncReq", some "GetAsyncRes", some "SetAsync", some "MeterMod", some "RoleStatus",
    some "TableStatus", some "RequestForward", some "BundleControl", some "BundleAddMessage"]

/-- `OFP_COMMON_MSG_ALIAS` -/
def ofpCommonMsgAlias : List (Option String) :=
  [some "Hello", some "Error", some "EchoReq", some "EchoRes", none,
    some "FeatureReq", some "FeatureRes", some "GetConfigReq", some "GetConfigRes",
    some "SetConfig", some "PacketIn", some "FlowRemoved", some "PortStatus", some "PacketOut",
    some "FlowMod", none, none, none, none, none, none, none, none, none, some "RoleReq",
    some "RoleRes", some "GetAsyncReq", some "GetAsyncRes", some "SetAsync", some "MeterMod",
    some "RoleStatus", some "TableStatus", some "RequestForward", some "BundleControl",
    some "BundleAddMessage"]

/-- `OFP_MSG_ALIAS_LEN` -/
def ofpMsgAliasLen : List ℕ := [35, 22, 24, 26, 30, 35]

/-- `OFP_MSG_ALIASES` -/
def ofpMsgAliases : List (List (Option String)) :=
  [ofpCommonMsgAlias, ofpV10MsgAlias, ofpV11MsgAlias, ofpV12MsgAlias, ofpV13MsgAlias,
    ofpV14MsgAlias]

/-- What is found behind the end of the alias arrays: for each array and each index not in it,
`NULL` or a string. -/
abbrev Past : Type := ℕ → ℕ → Option (List UInt8)

/-- `OFP_MSG_ALIASES[ver][i]` -/
def aliasAt (past : Past) (ver i : ℕ) : Option (List UInt8) :=
  let aliases := ofpMsgAliases.getD ver []
  if i < aliases.length then (aliases.getD i none).map cstr else past ver i

/-- `normalize_ofp_ver_str` -/
def normalizeOfpVerStr (v : List UInt8) : ℤ :=
  let byNumber : ℤ :=
    if v.head? = some 42 then ofpVerAll
    else
      let ret := atoi v
      if ret < ofpVerAll ∨ ret > 5 then ofpVerErr else ret
  if dot ∈ v then
    if v.take 3 = cstr "1.0" then 1
    else if v.take 3 = cstr "1.1" then 2
    else if v.take 3 = cstr "1.2" then 3
    else if v.take 3 = cstr "1.3" then 4
    else if v.take 3 = cstr "1.4" then 5
    else byNumber
  else byNumber

/-- `normalize_ofp_msg_type` -/
def normalizeOfpMsgType (past : Past) (ver : ℕ) (s : List UInt8) : ℤ :=
  let len := ofpMsgAliasLen.getD ver 0
  if s.head? = some 42 then ofpMsgTypeAll
  else if isInt s then
    let ret := atoi s
    if ret > len ∨ ret < 0 ∨ aliasAt past ver ret.toNat = none then ofpMsgTypeErr else ret
  else
    match (List.range len).find? fun i => aliasAt past ver i = some s with
    | some i => i
    | none => ofpMsgTypeErr

/-- `normalize_action_type` -/
def normalizeActionType (s : List UInt8) : ℤ :=
  if isInt s then
    let ret := atoi s
    if ret < actionIdDrop ∨ ret > actionIdLie then actionIdErr else ret
  else if s = cstr "DROP" then actionIdDrop
  else if s = cstr "DELAY" then actionIdDelay
  else if s = cstr "DUP" then actionIdDup
  else if s = cstr "LIE" then actionIdLie
  else actionIdErr

/-! ## What the functions return -/

/-- A version is refused, all versions, or one of `1` to `5`. -/
lemma normalizeOfpVerStr_range (v : List UInt8) :
    normalizeOfpVerStr v = ofpVerErr ∨ (0 ≤ normalizeOfpVerStr v ∧ normalizeOfpVerStr v ≤ 5) := by
  unfold normalizeOfpVerStr ofpVerAll ofpVerErr
  simp only
  split_ifs <;> omega

/-- An action is refused or one of the four known ones. -/
lemma normalizeActionType_range (s : List UInt8) :
    normalizeActionType s = actionIdErr ∨ normalizeActionType s = actionIdDrop ∨
      normalizeActionType s = actionIdDelay ∨ normalizeActionType s = actionIdDup ∨
      normalizeActionType s = actionIdLie := by
  unfold normalizeActionType actionIdErr actionIdDrop actionIdDelay actionIdDup actionIdLie
  simp only
  split_ifs <;> omega

/-- Every alias array is no longer than `35`, the length `OFP_MSG_ALIAS_LEN` gives it at most. -/
lemma ofpMsgAliasLen_le (ver : ℕ) : ofpMsgAliasLen.getD ver 0 ≤ 35 := by
  have hall : ∀ n ∈ ofpMsgAliasLen, n ≤ 35 := by decide
  rw [List.getD_eq_getElem?_getD]
  cases hget : ofpMsgAliasLen[ver]? with
  | none => exact Nat.zero_le _
  | some n => exact hall n (List.mem_of_getElem? hget)

/-- A message type is refused, all types, or a number that is at most the length of the alias array;
it is that length only if it was given by number. -/
lemma normalizeOfpMsgType_cases (past : Past) (ver : ℕ) (s : List UInt8) :
    normalizeOfpMsgType past ver s = ofpMsgTypeErr ∨
    normalizeOfpMsgType past ver s = ofpMsgTypeAll ∨
    ∃ i : ℕ, normalizeOfpMsgType past ver s = i ∧ (aliasAt past ver i).isSome ∧
      (i < ofpMsgAliasLen.getD ver 0 ∨
        i = ofpMsgAliasLen.getD ver 0 ∧ isInt s = true ∧ atoi s = i) := by
  unfold normalizeOfpMsgType
  simp only
  by_cases hstar : s.head? = some 42
  · rw [if_pos hstar]
    exact Or.inr (Or.inl rfl)
  rw [if_neg hstar]
  by_cases hint : isInt s = true
  · rw [if_pos hint]
    by_cases hbad : atoi s > (ofpMsgAliasLen.getD ver 0 : ℕ) ∨ atoi s < 0 ∨
        aliasAt past ver (atoi s).toNat = none
    · rw [if_pos hbad]
      exact Or.inl rfl
    · rw [if_neg hbad]
      rw [not_or, not_or] at hbad
      refine Or.inr (Or.inr ⟨(atoi s).toNat, by omega, Option.isSome_iff_ne_none.mpr hbad.2.2, ?_⟩)
      rcases Nat.lt_or_ge (atoi s).toNat (ofpMsgAliasLen.getD ver 0) with h | h
      · exact Or.inl h
      · exact Or.inr ⟨by omega, hint, by omega⟩
  · rw [if_neg hint]
    cases hfind : (List.range (ofpMsgAliasLen.getD ver 0)).find?
        fun i => aliasAt past ver i = some s with
    | none => exact Or.inl rfl
    | some i =>
      have hsome := List.find?_some hfind
      have hmem := List.mem_range.mp (List.mem_of_find?_eq_some hfind)
      simp only [decide_eq_true_eq] at hsome
      exact Or.inr (Or.inr ⟨i, rfl, by rw [hsome]; rfl, Or.inl hmem⟩)

end Mproxy
