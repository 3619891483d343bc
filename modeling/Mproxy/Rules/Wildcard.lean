import Mathlib.Data.Fintype.Basic
import Mproxy.Rules.Columns

set_option relaxedAutoImplicit false
set_option autoImplicit false

/-!
# Rules for all versions

A rule for version `*` is written to all rows of its table; its message type is looked up in the
array of the aliases that all versions share. A rule for one version is written to one row, and its
message type is looked up in the array of that version. The two write the same cells of that row
exactly if the two arrays have the alias at the same index.

In the arrays for versions `1.3` and `1.4` all aliases behind `"MultipartRes"` are one place too far
to the front, since a comma is missing there.

## Main definitions

* `Mproxy.Misplaced` — the aliases that do not stand where the shared array has them.

## Main results

* `Mproxy.normalizeOfpMsgType_eq_iff` — the two message types are the same exactly if the alias is
  not misplaced.
* `Mproxy.wildcard_row_iff` — when the rule for `*` and the rule for one version leave the same row.
-/

namespace Mproxy

/-- The aliases that stand one place too far to the front in `OFP_V1_3_MSG_ALIAS` and
`OFP_V1_4_MSG_ALIAS`. -/
def shiftedNames : List (List UInt8) :=
  [cstr "RoleReq", cstr "RoleRes", cstr "GetAsyncReq", cstr "GetAsyncRes", cstr "SetAsync",
    cstr "MeterMod"]

/-- The aliases of version `1.4` only. They stand one place too far to the front there. -/
def addedNames : List (List UInt8) :=
  [cstr "RoleStatus", cstr "TableStatus", cstr "RequestForward", cstr "BundleControl",
    cstr "BundleAddMessage"]

/-- In the array of version `v + 1` the alias does not stand where the shared array has it. The last
case is an alias that the array for version `1.3` does not have, but the memory behind it. -/
def Misplaced (past : Past) (v : Fin 5) (s : List UInt8) : Prop :=
  (v = 3 ∧ s ∈ shiftedNames) ∨ (v = 4 ∧ (s ∈ shiftedNames ∨ s ∈ addedNames)) ∨
    (v = 3 ∧ s ∈ addedNames ∧ past 4 29 = some s)

instance (past : Past) (v : Fin 5) (s : List UInt8) : Decidable (Misplaced past v s) :=
  inferInstanceAs (Decidable (_ ∨ _ ∨ _))

/-- The index of an alias in an alias array. -/
def aliasIndex (ver : ℕ) (s : List UInt8) : Option ℕ :=
  (List.range (ofpMsgAliases.getD ver []).length).find? fun i =>
    decide (((ofpMsgAliases.getD ver []).getD i none).map cstr = some s)

/-- The names in the shared array. -/
def commonNames : List (List UInt8) := (ofpCommonMsgAlias.filterMap id).map cstr

/-! ## The alias arrays -/

/-- A search depends on its predicate on the elements of the list only. -/
private lemma find?_congr {α : Type} {l : List α} {p q : α → Bool} (h : ∀ a ∈ l, p a = q a) :
    l.find? p = l.find? q := by
  induction l with
  | nil => rfl
  | cons a l ih =>
    rw [List.find?_cons, List.find?_cons, h a List.mem_cons_self,
      ih fun b hb => h b (List.mem_cons_of_mem a hb)]

/-- The place behind its array that a search for an alias also looks at, where `OFP_MSG_ALIAS_LEN`
is longer than the array. -/
def strayAlias (past : Past) (ver : ℕ) (s : List UInt8) : Option ℕ :=
  let n := (ofpMsgAliases.getD ver []).length
  if n < ofpMsgAliasLen.getD ver 0 ∧ past ver n = some s then some n else none

/-- Where the search for an alias finds it. -/
def aliasPlace (past : Past) (ver : ℕ) (s : List UInt8) : Option ℕ :=
  (aliasIndex ver s).or (strayAlias past ver s)

/-- `OFP_MSG_ALIAS_LEN` gives the length of an alias array, or one more. -/
lemma ofpMsgAliasLen_cases (ver : Fin 6) :
    ofpMsgAliasLen.getD ver 0 = (ofpMsgAliases.getD ver []).length ∨
      ofpMsgAliasLen.getD ver 0 = (ofpMsgAliases.getD ver []).length + 1 := by
  revert ver
  decide

/-- The search for an alias looks through its array, and then at most at one place behind it. -/
lemma find?_aliasAt (past : Past) (ver : Fin 6) (s : List UInt8) :
    ((List.range (ofpMsgAliasLen.getD ver 0)).find? fun i => aliasAt past ver i = some s) =
      aliasPlace past ver s := by
  have harray : ((List.range (ofpMsgAliases.getD ver []).length).find?
      fun i => aliasAt past ver i = some s) = aliasIndex ver s := by
    refine find?_congr fun i hi => ?_
    simp only [aliasAt, if_pos (List.mem_range.mp hi)]
  unfold aliasPlace strayAlias
  rcases ofpMsgAliasLen_cases ver with hlen | hlen
  · simp only [hlen, harray, Nat.lt_irrefl, false_and, if_false, Option.or_none]
  · have hpast : aliasAt past ver (ofpMsgAliases.getD ver []).length =
        past ver (ofpMsgAliases.getD ver []).length := by
      simp only [aliasAt, Nat.lt_irrefl, if_false]
    rw [hlen, List.range_succ, List.find?_append, harray]
    congr 1
    simp only [Nat.lt_succ_self, true_and]
    rw [List.find?_singleton, hpast]
    simp only [decide_eq_true_eq]

/-- Only the arrays for versions `1.3` and `1.4` are shorter than `OFP_MSG_ALIAS_LEN` says. -/
lemma strayAlias_eq_some {past : Past} {v : Fin 5} {s : List UInt8} {i : ℕ}
    (h : strayAlias past (v + 1) s = some i) :
    (v = 3 ∧ past 4 29 = some s ∧ i = 29) ∨ v = 4 := by
  unfold strayAlias at h
  simp only at h
  split_ifs at h with hcond
  match v with
  | 0 => exact absurd hcond.1 (by decide)
  | 1 => exact absurd hcond.1 (by decide)
  | 2 => exact absurd hcond.1 (by decide)
  | 3 => exact Or.inl ⟨rfl, hcond.2, (Option.some.inj h).symm⟩
  | 4 => exact Or.inr rfl

/-- An index in the shared array is that of a shared name. -/
lemma mem_commonNames {s : List UInt8} {i : ℕ} (h : aliasIndex 0 s = some i) : s ∈ commonNames := by
  have hsome := List.find?_some h
  simp only [decide_eq_true_eq] at hsome
  obtain ⟨a, ha, rfl⟩ := Option.map_eq_some_iff.mp hsome
  refine List.mem_map_of_mem (List.mem_filterMap.mpr ⟨some a, ?_, rfl⟩)
  rw [List.getD_eq_getElem?_getD] at ha
  cases hget : (ofpMsgAliases.getD 0 [])[i]? with
  | none =>
    rw [hget] at ha
    cases ha
  | some o =>
    rw [hget] at ha
    obtain rfl : o = some a := ha
    exact List.mem_of_getElem? hget

/-- Where an array has a shared name, it is at its shared index unless it is misplaced. -/
lemma aliasIndex_common : ∀ s ∈ commonNames, ∀ v : Fin 5, ∀ i ∈ (aliasIndex (v + 1) s).toList,
    (aliasIndex 0 s = some i ↔ ¬ ((v = 3 ∧ s ∈ shiftedNames) ∨
      (v = 4 ∧ (s ∈ shiftedNames ∨ s ∈ addedNames)))) := by
  decide +kernel

/-- The arrays for versions `1.3` and `1.4`, which are shorter than `OFP_MSG_ALIAS_LEN` says, have
all shared names but those added in version `1.4`. -/
lemma aliasIndex_none : ∀ s ∈ commonNames,
    (aliasIndex 4 s = none ↔ s ∈ addedNames) ∧ aliasIndex 5 s ≠ none ∧
      (s ∈ addedNames → aliasIndex 0 s ≠ some 29) ∧ s.head? ≠ some 42 ∧ isInt s = false := by
  decide +kernel

/-- An alias that is misplaced is one of the shared array. -/
lemma misplaced_mem {past : Past} {v : Fin 5} {s : List UInt8} (h : Misplaced past v s) :
    s ∈ commonNames := by
  have hall : ∀ s ∈ shiftedNames ++ addedNames, s ∈ commonNames := by decide +kernel
  rcases h with ⟨-, h⟩ | ⟨-, h | h⟩ | ⟨-, h, -⟩
  · exact hall s (List.mem_append_left _ h)
  · exact hall s (List.mem_append_left _ h)
  · exact hall s (List.mem_append_right _ h)
  · exact hall s (List.mem_append_right _ h)

/-! ## The two message types -/

/-- A message type that is neither `*` nor a number is looked up in the alias array. -/
lemma normalizeOfpMsgType_alias {past : Past} {ver : ℕ} {s : List UInt8}
    (hstar : s.head? ≠ some 42) (hint : isInt s = false) :
    normalizeOfpMsgType past ver s =
      match (List.range (ofpMsgAliasLen.getD ver 0)).find? fun i => aliasAt past ver i = some s with
      | some i => i
      | none => ofpMsgTypeErr := by
  have hne : ¬ isInt s = true := by
    rw [hint]
    exact Bool.false_ne_true
  unfold normalizeOfpMsgType
  exact (if_neg hstar).trans (if_neg hne)

/-- A message type given by number is that number. -/
lemma normalizeOfpMsgType_number {past : Past} {ver : ℕ} {s : List UInt8}
    (hstar : s.head? ≠ some 42) (hint : isInt s = true)
    (hne : normalizeOfpMsgType past ver s ≠ ofpMsgTypeErr) :
    normalizeOfpMsgType past ver s = atoi s := by
  unfold normalizeOfpMsgType at hne ⊢
  simp only [if_neg hstar, if_pos hint] at hne ⊢
  by_cases hbad : atoi s > (ofpMsgAliasLen.getD ver 0 : ℕ) ∨ atoi s < 0 ∨
      aliasAt past ver (atoi s).toNat = none
  · rw [if_pos hbad] at hne
    exact absurd rfl hne
  · rw [if_neg hbad]

/-- The message type of an alias is where it is found. -/
lemma normalizeOfpMsgType_place {past : Past} (ver : Fin 6) {s : List UInt8}
    (hstar : s.head? ≠ some 42) (hint : isInt s = false)
    (hne : normalizeOfpMsgType past ver s ≠ ofpMsgTypeErr) :
    ∃ i, aliasPlace past ver s = some i ∧ normalizeOfpMsgType past ver s = i := by
  rw [normalizeOfpMsgType_alias hstar hint, find?_aliasAt] at hne ⊢
  cases hidx : aliasPlace past ver s with
  | none =>
    rw [hidx] at hne
    exact absurd rfl hne
  | some i => exact ⟨i, rfl, rfl⟩

/-- The shared array is as long as `OFP_MSG_ALIAS_LEN` says. -/
lemma aliasPlace_shared (past : Past) (s : List UInt8) : aliasPlace past 0 s = aliasIndex 0 s := by
  rw [aliasPlace, strayAlias, if_neg fun h => absurd h.1 (by decide), Option.or_none]

/-- The message types of an alias in a rule for `*` and in a rule for one version. -/
lemma normalizeOfpMsgType_places {past : Past} {v : Fin 5} {s : List UInt8}
    (hstar : s.head? ≠ some 42) (hint : isInt s = false)
    (h₀ : normalizeOfpMsgType past 0 s ≠ ofpMsgTypeErr)
    (hv : normalizeOfpMsgType past (v + 1) s ≠ ofpMsgTypeErr) :
    ∃ i j, aliasPlace past 0 s = some i ∧ aliasPlace past (v + 1) s = some j ∧
      normalizeOfpMsgType past 0 s = i ∧ normalizeOfpMsgType past (v + 1) s = j := by
  obtain ⟨i, hi, hi'⟩ := normalizeOfpMsgType_place 0 hstar hint h₀
  obtain ⟨j, hj, hj'⟩ := normalizeOfpMsgType_place v.succ hstar hint hv
  exact ⟨i, j, hi, hj, hi', hj'⟩

/-- A misplaced alias is neither `*` nor a number. -/
lemma Misplaced.alias {past : Past} {v : Fin 5} {s : List UInt8} (h : Misplaced past v s) :
    s.head? ≠ some 42 ∧ isInt s = false :=
  (aliasIndex_none s (misplaced_mem h)).2.2.2

/-- **The rule for `*` and the rule for one version have the same message type exactly if the alias
is not misplaced.** -/
theorem normalizeOfpMsgType_eq_iff {past : Past} {v : Fin 5} {s : List UInt8}
    (h₀ : normalizeOfpMsgType past 0 s ≠ ofpMsgTypeErr)
    (hv : normalizeOfpMsgType past (v + 1) s ≠ ofpMsgTypeErr) :
    normalizeOfpMsgType past 0 s = normalizeOfpMsgType past (v + 1) s ↔ ¬ Misplaced past v s := by
  by_cases hstar : s.head? = some 42
  · have hmis : ¬ Misplaced past v s := fun h => h.alias.1 hstar
    simp [normalizeOfpMsgType, hstar, hmis]
  by_cases hint : isInt s = true
  · have hmis : ¬ Misplaced past v s := fun h => by
      rw [h.alias.2] at hint
      exact absurd hint Bool.false_ne_true
    rw [normalizeOfpMsgType_number hstar hint h₀, normalizeOfpMsgType_number hstar hint hv]
    exact iff_of_true rfl hmis
  rw [Bool.not_eq_true] at hint
  obtain ⟨i, j, hi, hj, hi', hj'⟩ := normalizeOfpMsgType_places hstar hint h₀ hv
  rw [hi', hj', Int.natCast_inj]
  rw [aliasPlace_shared] at hi
  have hcommon := mem_commonNames hi
  obtain ⟨hadded, hfive, htwentynine, -⟩ := aliasIndex_none s hcommon
  rw [aliasPlace] at hj
  cases hidx : aliasIndex (v + 1) s with
  | some k =>
    -- the version knows the alias, so the place behind the array does not matter
    rw [hidx, Option.some_or] at hj
    obtain rfl := Option.some.inj hj
    have hiff := aliasIndex_common s hcommon v k (by rw [hidx]; exact List.mem_singleton.mpr rfl)
    rw [hi, Option.some.injEq] at hiff
    have hstray : ¬ (v = 3 ∧ s ∈ addedNames ∧ past 4 29 = some s) := by
      rintro ⟨rfl, hs, -⟩
      rw [show ((3 : Fin 5) : ℕ) + 1 = 4 from rfl, hadded.mpr hs] at hidx
      cases hidx
    rw [hiff, Misplaced, ← or_assoc, or_iff_left hstray]
  | none =>
    -- the alias was found behind the array
    rw [hidx, Option.none_or] at hj
    rcases strayAlias_eq_some hj with ⟨rfl, hpast, rfl⟩ | rfl
    · have hs := hadded.mp hidx
      refine iff_of_false (fun heq => htwentynine hs (heq ▸ hi)) (not_not.mpr ?_)
      exact Or.inr (Or.inr ⟨rfl, hs, hpast⟩)
    · exact absurd hidx hfive

/-! ## The two rows -/

/-- A call that accepts its row did what the rule of the row says. -/
lemma attackerAddRule_accepted {past : Past} {T T' : Tables} {c : RowCall} {m' : List UInt8}
    (h : attackerAddRule past T c.mem c.data c.len = .ok (0, T', m')) :
    ∃ r, c.Means past r ∧ r ≠ .refused ∧ r.InRange ∧ T' = T.apply r := by
  unfold attackerAddRule at h
  obtain ⟨⟨r, m₁⟩, hparse, h⟩ := Runs.bind_eq_ok.mp h
  obtain ⟨⟨ret, T₁⟩, happly, h⟩ := Runs.bind_eq_ok.mp h
  cases h
  have hsound := attackerParseRule_sound hparse
  have hrange : r.InRange := by
    cases r with
    | refused => trivial
    | unimplemented actionType => trivial
    | drop ofpVer msgType prob =>
      refine hsound.2.1.resolve_right fun h35 => ?_
      rw [attackerApplyRule, fillTable_eq_error _ _ _ (le_of_eq h35.symm)] at happly
      cases happly
    | dup ofpVer msgType dupCount =>
      refine hsound.2.1.resolve_right fun h35 => ?_
      rw [attackerApplyRule, fillTable_eq_error _ _ _ (le_of_eq h35.symm)] at happly
      cases happly
  rw [attackerApplyRule_eq T hsound hrange] at happly
  simp only [Except.ok.injEq, Prod.mk.injEq] at happly
  refine ⟨r, ⟨m', hparse⟩, fun href => ?_, hrange, happly.2.symm⟩
  rw [if_pos href] at happly
  exact absurd happly.1 (by decide)

/-- What a row that is not refused means. -/
lemma Columns.rule_accepted {past : Past} {cols : Columns} {r : Rule}
    (h : cols.rule past = some r) (hr : r ≠ .refused) :
    normalizeOfpMsgType past (normalizeOfpVerStr cols.version).toNat cols.msgType ≠ ofpMsgTypeErr ∧
    ((normalizeActionType cols.action = actionIdDrop ∧ ∃ targ, cols.argP = some targ ∧
        r = .drop (normalizeOfpVerStr cols.version)
          (normalizeOfpMsgType past (normalizeOfpVerStr cols.version).toNat cols.msgType)
          (dropProb targ)) ∨
      (normalizeActionType cols.action = actionIdDup ∧ ∃ targ, cols.argR = some targ ∧
        r = .dup (normalizeOfpVerStr cols.version)
          (normalizeOfpMsgType past (normalizeOfpVerStr cols.version).toNat cols.msgType)
          (dupCountOf targ)) ∨
      (normalizeActionType cols.action ≠ actionIdDrop ∧
        normalizeActionType cols.action ≠ actionIdDup ∧
        r = .unimplemented (normalizeActionType cols.action))) := by
  unfold Columns.rule at h
  simp only at h
  split_ifs at h with hver htype herr hdrop hdup
  · exact absurd (Option.some.inj h).symm hr
  · exact absurd (Option.some.inj h).symm hr
  · exact absurd (Option.some.inj h).symm hr
  · obtain ⟨targ, htarg, rfl⟩ := Option.map_eq_some_iff.mp h
    exact ⟨htype, Or.inl ⟨hdrop, targ, htarg, rfl⟩⟩
  · obtain ⟨targ, htarg, hrule⟩ := Option.map_eq_some_iff.mp h
    split_ifs at hrule with hlt
    · exact absurd hrule.symm hr
    · exact ⟨htype, Or.inr (Or.inl ⟨hdup, targ, htarg, hrule.symm⟩)⟩
  · exact ⟨htype, Or.inr (Or.inr ⟨hdrop, hdup, (Option.some.inj h).symm⟩)⟩

section RowWrite

variable {α : Type} (f : Fin 35 → α) (x : α)

/-- Row `v` of a table behind a rule that covers version `v + 1`. -/
def rowWrite (msgType : ℤ) : Fin 35 → α :=
  fun t => if msgType = ofpMsgTypeAll ∨ msgType = t then x else f t

/-- The same value written to two different cells gives the same row only if both cells have held
the value before. -/
lemma rowWrite_eq_iff {i j : Fin 35} (hne : i ≠ j) :
    rowWrite f x i = rowWrite f x j ↔ f i = x ∧ f j = x := by
  have hall : ∀ t : Fin 35, ¬ ((t : ℕ) : ℤ) = ofpMsgTypeAll := fun t => by
    unfold ofpMsgTypeAll
    omega
  have hwrite : ∀ k t : Fin 35, rowWrite f x k t = if k = t then x else f t := fun k t => by
    simp only [rowWrite, hall, false_or, Int.natCast_inj, Fin.val_inj]
  constructor
  · intro h
    have hi := congrFun h i
    have hj := congrFun h j
    rw [hwrite, hwrite, if_pos rfl, if_neg hne.symm] at hi
    rw [hwrite, hwrite, if_neg hne, if_pos rfl] at hj
    exact ⟨hi.symm, hj⟩
  · rintro ⟨hi, hj⟩
    funext t
    rw [hwrite, hwrite]
    split_ifs with hit hjt hjt
    · rfl
    · rw [← hit, hi]
    · rw [← hjt, hj]
    · rfl

/-- The rows that the rules for `*` and for version `v + 1` leave are the same exactly if the alias
is not misplaced, or the cells at its two places have held the value before. -/
lemma rowWrite_places {past : Past} {v : Fin 5} {s : List UInt8}
    (h₀ : normalizeOfpMsgType past 0 s ≠ ofpMsgTypeErr)
    (hv : normalizeOfpMsgType past (v + 1) s ≠ ofpMsgTypeErr)
    (hin₀ : TypeInRange (normalizeOfpMsgType past 0 s))
    (hinv : TypeInRange (normalizeOfpMsgType past (v + 1) s)) :
    rowWrite f x (normalizeOfpMsgType past 0 s) =
        rowWrite f x (normalizeOfpMsgType past (v + 1) s) ↔
      (¬ Misplaced past v s ∨ ∀ i j : Fin 35, aliasPlace past 0 s = some (i : ℕ) →
        aliasPlace past (v + 1) s = some (j : ℕ) → f i = x ∧ f j = x) := by
  have hiff := normalizeOfpMsgType_eq_iff h₀ hv
  by_cases hmis : Misplaced past v s
  · obtain ⟨i, j, hi, hj, hi', hj'⟩ := normalizeOfpMsgType_places hmis.alias.1 hmis.alias.2 h₀ hv
    have hne : normalizeOfpMsgType past 0 s ≠ normalizeOfpMsgType past (v + 1) s :=
      fun heq => hiff.mp heq hmis
    rw [hi'] at hin₀ hne
    rw [hj'] at hinv hne
    unfold TypeInRange ofpMsgTypeAll at hin₀ hinv
    have hrow := rowWrite_eq_iff f x (i := ⟨i, by omega⟩) (j := ⟨j, by omega⟩)
      fun heq => hne (by rw [Fin.mk.inj heq])
    rw [hi', hj', hrow]
    constructor
    · intro hcells
      refine Or.inr fun i' j' hi₂ hj₂ => ?_
      obtain rfl := Option.some.inj (hi.symm.trans hi₂)
      obtain rfl := Option.some.inj (hj.symm.trans hj₂)
      exact hcells
    · rintro (h | h)
      · exact absurd hmis h
      · exact h _ _ hi hj
  · rw [hiff.mpr hmis]
    exact iff_of_true rfl (Or.inl hmis)

end RowWrite

/-- Row `v` of the drop table behind a `DROP` rule that covers version `v + 1`. -/
lemma Tables.apply_drop_row (T : Tables) {ofpVer : ℤ} {v : Fin 5}
    (hver : ofpVer = ofpVerAll ∨ ofpVer = v + 1) (msgType : ℤ) (prob : Int8) :
    (T.apply (.drop ofpVer msgType prob)).drop v = rowWrite (T.drop v) prob msgType := by
  funext t
  simp only [Tables.apply, LastWriter.write, Rule.CoversDrop, Rule.dropValue, Covers, rowWrite,
    hver, true_and]

/-- Row `v` of the dup table behind a `DUP` rule that covers version `v + 1`. -/
lemma Tables.apply_dup_row (T : Tables) {ofpVer : ℤ} {v : Fin 5}
    (hver : ofpVer = ofpVerAll ∨ ofpVer = v + 1) (msgType : ℤ) (dupCount : UInt8) :
    (T.apply (.dup ofpVer msgType dupCount)).dup v = rowWrite (T.dup v) dupCount msgType := by
  funext t
  simp only [Tables.apply, LastWriter.write, Rule.CoversDup, Rule.dupValue, Covers, rowWrite, hver,
    true_and]

/-- Two cells of row `v` hold the value of the rule already: the percentage of a `DROP` row in the
drop table, the count of a `DUP` row in the dup table. A row with another action has no value. -/
def Columns.Held (cols : Columns) (T : Tables) (v : Fin 5) (i j : Fin 35) : Prop :=
  (normalizeActionType cols.action = actionIdDrop → ∀ targ ∈ cols.argP,
    T.drop v i = dropProb targ ∧ T.drop v j = dropProb targ) ∧
  (normalizeActionType cols.action = actionIdDup → ∀ targ ∈ cols.argR,
    T.dup v i = dupCountOf targ ∧ T.dup v j = dupCountOf targ)

section Held

variable {cols : Columns} {T : Tables} {v : Fin 5} {i j : Fin 35} {targ : Option ArgValue}

/-- For a `DROP` row it is the percentage that the cells hold. -/
lemma Columns.held_drop (hact : normalizeActionType cols.action = actionIdDrop)
    (htarg : cols.argP = some targ) :
    cols.Held T v i j ↔ T.drop v i = dropProb targ ∧ T.drop v j = dropProb targ := by
  simp [Columns.Held, hact, htarg, show actionIdDrop ≠ actionIdDup by decide]

/-- For a `DUP` row it is the count. -/
lemma Columns.held_dup (hact : normalizeActionType cols.action = actionIdDup)
    (htarg : cols.argR = some targ) :
    cols.Held T v i j ↔ T.dup v i = dupCountOf targ ∧ T.dup v j = dupCountOf targ := by
  simp [Columns.Held, hact, htarg, show actionIdDup ≠ actionIdDrop by decide]

end Held

/-- **The rule for `*` and the rule for one version leave the same row.** Two rows that differ in
the column for the version only, one for all versions and one for version `v + 1`, are accepted with
the same tables. Row `v` of both tables is then the same for both exactly if the alias is not
misplaced, or if the two cells that the rules write held the value of the rule before. The two rows
have the same message type exactly if the alias is not misplaced.

**Proof sketch.** Both rules write the same value to row `v` (`Columns.rule_accepted`), and they
write it to the same cells exactly if the message types are the same (`normalizeOfpMsgType_eq_iff`).
-/
theorem wildcard_row_iff {past : Past} {T T₁ T₂ : Tables} {c c' : RowCall} {cols : Columns}
    {w m₁ m₂ : List UInt8} {v : Fin 5} (hc : c.columns = some cols)
    (hc' : c'.columns = some { cols with version := w })
    (hall : normalizeOfpVerStr cols.version = ofpVerAll) (hone : normalizeOfpVerStr w = v + 1)
    (h₁ : attackerAddRule past T c.mem c.data c.len = .ok (0, T₁, m₁))
    (h₂ : attackerAddRule past T c'.mem c'.data c'.len = .ok (0, T₂, m₂)) :
    ((T₁.drop v = T₂.drop v ∧ T₁.dup v = T₂.dup v) ↔
      (¬ Misplaced past v cols.msgType ∨
        ∀ i j : Fin 35, aliasPlace past 0 cols.msgType = some (i : ℕ) →
          aliasPlace past (v + 1) cols.msgType = some (j : ℕ) → cols.Held T v i j)) ∧
    (normalizeOfpMsgType past 0 cols.msgType = normalizeOfpMsgType past (v + 1) cols.msgType ↔
      ¬ Misplaced past v cols.msgType) := by
  obtain ⟨r₁, hmeans₁, hr₁, hrange₁, rfl⟩ := attackerAddRule_accepted h₁
  obtain ⟨r₂, hmeans₂, hr₂, hrange₂, rfl⟩ := attackerAddRule_accepted h₂
  obtain ⟨htype₁, hcases₁⟩ := Columns.rule_accepted ((RowCall.means_iff hc r₁).mp hmeans₁) hr₁
  obtain ⟨htype₂, hcases₂⟩ := Columns.rule_accepted ((RowCall.means_iff hc' r₂).mp hmeans₂) hr₂
  have hver : ((v : ℤ) + 1).toNat = v + 1 := by omega
  simp only [hall, hone, hver, show ofpVerAll.toNat = 0 from rfl] at htype₁ hcases₁ htype₂ hcases₂
  refine ⟨?_, normalizeOfpMsgType_eq_iff htype₁ htype₂⟩
  rcases hcases₁ with ⟨hact, targ, htarg, rfl⟩ | ⟨hact, targ, htarg, rfl⟩ | ⟨hnd, hnu, rfl⟩
  · rcases hcases₂ with ⟨-, targ', htarg', rfl⟩ | ⟨hact', -⟩ | ⟨hnd, -⟩
    · obtain rfl := Option.some.inj (htarg.symm.trans htarg')
      rw [Tables.apply_drop_row T (Or.inl rfl), Tables.apply_drop_row T (Or.inr rfl),
        Tables.apply_drop_dup, Tables.apply_drop_dup, and_iff_left rfl,
        rowWrite_places _ _ htype₁ htype₂ hrange₁ hrange₂]
      simp only [Columns.held_drop hact htarg]
    · exact absurd (hact.symm.trans hact') (by decide)
    · exact absurd hact hnd
  · rcases hcases₂ with ⟨hact', -⟩ | ⟨-, targ', htarg', rfl⟩ | ⟨-, hnu, -⟩
    · exact absurd (hact.symm.trans hact') (by decide)
    · obtain rfl := Option.some.inj (htarg.symm.trans htarg')
      rw [Tables.apply_dup_row T (Or.inl rfl), Tables.apply_dup_row T (Or.inr rfl),
        Tables.apply_dup_drop, Tables.apply_dup_drop, and_iff_right rfl,
        rowWrite_places _ _ htype₁ htype₂ hrange₁ hrange₂]
      simp only [Columns.held_dup hact htarg]
    · exact absurd hact hnu
  · rcases hcases₂ with ⟨hact', -⟩ | ⟨hact', -⟩ | ⟨-, -, rfl⟩
    · exact absurd hact' hnd
    · exact absurd hact' hnu
    · exact iff_of_true ⟨rfl, rfl⟩
        (Or.inr fun i j _ _ => ⟨fun h => absurd h hnd, fun h => absurd h hnu⟩)

/-- A `DROP` rule with the probability `50` for a message type. -/
def RowCall.dropHalf (version msgType : String) : RowCall :=
  .alone ("1,1,*," ++ version ++ "," ++ msgType ++ ",*,DROP,p=50")

/-- `"Hello"` stands where the shared array has it. -/
theorem wildcard_row_hello :
    ∃ T₁ T₂ m₁ m₂ c c', c = RowCall.dropHalf "*" "Hello" ∧ c' = RowCall.dropHalf "1.3" "Hello" ∧
      attackerAddRule (fun _ _ => none) Tables.zero c.mem c.data c.len = .ok (0, T₁, m₁) ∧
      attackerAddRule (fun _ _ => none) Tables.zero c'.mem c'.data c'.len = .ok (0, T₂, m₂) ∧
      T₁.drop 3 = T₂.drop 3 ∧ T₁.dup 3 = T₂.dup 3 := by
  obtain ⟨T₁, m₁, h₁, -⟩ := attackerAddRule_of_eval (fun _ _ => none) Tables.zero
    (.dropHalf "*" "Hello") (fun _ => ()) 0 () (by decide +kernel)
  obtain ⟨T₂, m₂, h₂, -⟩ := attackerAddRule_of_eval (fun _ _ => none) Tables.zero
    (.dropHalf "1.3" "Hello") (fun _ => ()) 0 () (by decide +kernel)
  have hcols : (RowCall.dropHalf "*" "Hello").columns =
      some ⟨cstr "*", cstr "Hello", cstr "DROP", some (some (.int 50)), some none⟩ := by
    decide +kernel
  have hcols' : (RowCall.dropHalf "1.3" "Hello").columns =
      some ⟨cstr "1.3", cstr "Hello", cstr "DROP", some (some (.int 50)), some none⟩ := by
    decide +kernel
  exact ⟨T₁, T₂, m₁, m₂, _, _, rfl, rfl, h₁, h₂, (wildcard_row_iff (v := 3) hcols hcols'
    (by decide +kernel) (by decide +kernel) h₁ h₂).1.mpr (Or.inl (by decide +kernel))⟩

/-- `"RoleReq"` has type `24` in a rule for `*`, and type `23` in a rule for version `1.3`. Both
rules are accepted with zeroed tables, and leave different rows for version `1.3`. -/
theorem wildcard_row_differs :
    ∃ cols T₁ T₂ m₁ m₂ c c', c = RowCall.dropHalf "*" "RoleReq" ∧
      c' = RowCall.dropHalf "1.3" "RoleReq" ∧ c.columns = some cols ∧ cols.version = cstr "*" ∧
      c'.columns = some { cols with version := cstr "1.3" } ∧
      normalizeOfpVerStr (cstr "1.3") = (3 : Fin 5) + 1 ∧
      attackerAddRule (fun _ _ => none) Tables.zero c.mem c.data c.len = .ok (0, T₁, m₁) ∧
      attackerAddRule (fun _ _ => none) Tables.zero c'.mem c'.data c'.len = .ok (0, T₂, m₂) ∧
      T₁.drop 3 ≠ T₂.drop 3 := by
  obtain ⟨T₁, m₁, h₁, hcell₁⟩ := attackerAddRule_of_eval (fun _ _ => none) Tables.zero
    (.dropHalf "*" "RoleReq") (fun T => T.drop 3 24) 0 50 (by decide +kernel)
  obtain ⟨T₂, m₂, h₂, hcell₂⟩ := attackerAddRule_of_eval (fun _ _ => none) Tables.zero
    (.dropHalf "1.3" "RoleReq") (fun T => T.drop 3 24) 0 0 (by decide +kernel)
  have hcols : (RowCall.dropHalf "*" "RoleReq").columns =
      some ⟨cstr "*", cstr "RoleReq", cstr "DROP", some (some (.int 50)), some none⟩ := by
    decide +kernel
  have hcols' : (RowCall.dropHalf "1.3" "RoleReq").columns =
      some ⟨cstr "1.3", cstr "RoleReq", cstr "DROP", some (some (.int 50)), some none⟩ := by
    decide +kernel
  refine ⟨_, T₁, T₂, m₁, m₂, _, _, rfl, rfl, hcols, rfl, hcols', by decide +kernel, h₁, h₂,
    fun heq => ?_⟩
  rw [heq, hcell₂] at hcell₁
  exact absurd hcell₁ (by decide)

end Mproxy
