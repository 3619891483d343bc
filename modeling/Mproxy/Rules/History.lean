import Mproxy.Lib.LastWriter
import Mproxy.Rules.AddRule

set_option relaxedAutoImplicit false
set_option autoImplicit false

/-!
# The tables after a sequence of rules

Starting from zeroed tables, `attacker_add_rule` is called once for every row of a profile. A cell
of a table then holds the value of the last accepted rule for that table that covers the cell.

## Main definitions

* `Mproxy.RowCall` — one call of `attacker_add_rule`.
* `Mproxy.Tables.apply` — what a rule does to the tables.

## Main results

* `Mproxy.attackerApplyRule_eq` — the table fills do what the rule says.
* `Mproxy.rules_last_writer` — the tables after a sequence of rows.
-/

namespace Mproxy

open LastWriter

/-- The arguments of one call of `attacker_add_rule`: the memory, the pointer to the row in it and
the length of the row. -/
structure RowCall where
  mem : List UInt8
  data : ℕ
  len : ℕ

/-- What the row of a call means; its parse stays inside the memory. -/
def RowCall.Means (past : Past) (c : RowCall) (rule : Rule) : Prop :=
  ∃ m', attackerParseRule past c.mem c.data c.len = .ok (rule, m')

/-- One call of `attacker_add_rule`, as a step on the tables. -/
def addRuleStep (past : Past) (T : Tables) (c : RowCall) : Except Fault Tables := do
  let (_, T, _) ← attackerAddRule past T c.mem c.data c.len
  .ok T

namespace Rule

/-- The message type of a rule that is written to a table is the wildcard or from `0` to `34`. -/
def InRange : Rule → Prop
  | .drop _ msgType _ => TypeInRange msgType
  | .dup _ msgType _ => TypeInRange msgType
  | _ => True

/-- A `DROP` rule for the cell. -/
def CoversDrop : Rule → Fin 5 × Fin 35 → Prop
  | .drop ofpVer msgType _, k => Covers ofpVer msgType k.1 k.2
  | _, _ => False

/-- A `DUP` rule for the cell. -/
def CoversDup : Rule → Fin 5 × Fin 35 → Prop
  | .dup ofpVer msgType _, k => Covers ofpVer msgType k.1 k.2
  | _, _ => False

instance (r : Rule) (k : Fin 5 × Fin 35) : Decidable (r.CoversDrop k) := by
  cases r <;> unfold CoversDrop <;> infer_instance

instance (r : Rule) (k : Fin 5 × Fin 35) : Decidable (r.CoversDup k) := by
  cases r <;> unfold CoversDup <;> infer_instance

/-- The probability of a `DROP` rule. -/
def dropValue : Rule → Int8
  | .drop _ _ prob => prob
  | _ => 0

/-- The count of a `DUP` rule. -/
def dupValue : Rule → UInt8
  | .dup _ _ dupCount => dupCount
  | _ => 0

end Rule

/-- What a rule does to the tables. -/
def Tables.apply (T : Tables) (r : Rule) : Tables where
  drop := fun v t => write Rule.CoversDrop Rule.dropValue (fun k => T.drop k.1 k.2) r (v, t)
  dup := fun v t => write Rule.CoversDup Rule.dupValue (fun k => T.dup k.1 k.2) r (v, t)

/-! ## One rule -/

section OneRule

variable (T : Tables)

/-- A `DROP` rule leaves the dup table as it is. -/
lemma Tables.apply_drop_dup (ofpVer msgType : ℤ) (prob : Int8) :
    (T.apply (.drop ofpVer msgType prob)).dup = T.dup := rfl

/-- A `DUP` rule leaves the drop table as it is. -/
lemma Tables.apply_dup_drop (ofpVer msgType : ℤ) (dupCount : UInt8) :
    (T.apply (.dup ofpVer msgType dupCount)).drop = T.drop := rfl

/-- A row that is refused leaves the tables. -/
lemma Tables.apply_refused : T.apply .refused = T := rfl

/-- **The table fills do what the rule says**, and only a refused row makes `attacker_add_rule`
return `1`. -/
lemma attackerApplyRule_eq {r : Rule} (hsound : r.Sound) (hrange : r.InRange) :
    attackerApplyRule T r = .ok (if r = .refused then 1 else 0, T.apply r) := by
  cases r with
  | refused => rfl
  | unimplemented actionType => rfl
  | drop ofpVer msgType prob =>
    rw [attackerApplyRule, fillTable_eq T.drop prob hsound.1 hrange, Runs.ok_bind, if_neg (by simp)]
    rfl
  | dup ofpVer msgType dupCount =>
    rw [attackerApplyRule, fillTable_eq T.dup dupCount hsound.1 hrange, Runs.ok_bind,
      if_neg (by simp)]
    rfl

/-- A call of `attacker_add_rule` on a row that means a rule in range. -/
lemma attackerAddRule_eq {past : Past} {c : RowCall} {r : Rule} {m' : List UInt8}
    (hmeans : attackerParseRule past c.mem c.data c.len = .ok (r, m')) (hrange : r.InRange) :
    attackerAddRule past T c.mem c.data c.len =
      .ok (if r = .refused then 1 else 0, T.apply r, m') := by
  rw [attackerAddRule, hmeans, Runs.ok_bind]
  simp only
  rw [attackerApplyRule_eq T (attackerParseRule_sound hmeans) hrange, Runs.ok_bind]

end OneRule

/-! ## A call -/

/-- What a row means does not depend on the tables, so neither does the memory behind the call. -/
lemma RowCall.Means.addRule {past : Past} {c : RowCall} {rule : Rule} (h : c.Means past rule) :
    ∃ m', ∀ T, attackerAddRule past T c.mem c.data c.len =
      (attackerApplyRule T rule >>= fun p => .ok (p.1, p.2, m')) := by
  obtain ⟨m', hparse⟩ := h
  refine ⟨m', fun T => ?_⟩
  rw [attackerAddRule, hparse, Runs.ok_bind]

/-- The call applies the rule that its row means. -/
lemma RowCall.Means.addRuleStep {past : Past} {c : RowCall} {rule : Rule}
    (h : c.Means past rule) (T : Tables) :
    Mproxy.addRuleStep past T c = (attackerApplyRule T rule >>= fun p => .ok p.2) := by
  obtain ⟨m', hadd⟩ := h.addRule
  rw [Mproxy.addRuleStep, hadd]
  cases attackerApplyRule T rule with
  | error e => rfl
  | ok p => rfl

/-! ## A sequence of rules -/

section History

variable {past : Past}

/-- The tables after a sequence of calls are those after the rules the rows mean. -/
lemma run_addRule {calls : List RowCall} {rules : List Rule}
    (hmeans : List.Forall₂ (RowCall.Means past) calls rules) (hrange : ∀ r ∈ rules, r.InRange)
    (T : Tables) : Runs.run (addRuleStep past) T calls = .ok (rules.foldl Tables.apply T) := by
  induction hmeans generalizing T with
  | nil => rfl
  | @cons c r calls rules hc _ ih =>
    obtain ⟨m', hm'⟩ := id hc
    have hstep : addRuleStep past T c = .ok (T.apply r) := by
      rw [hc.addRuleStep, attackerApplyRule_eq T (attackerParseRule_sound hm')
        (hrange r List.mem_cons_self), Runs.ok_bind]
    rw [Runs.run_cons, hstep, Runs.ok_bind, ih fun q hq => hrange q (List.mem_cons_of_mem r hq)]
    rfl

/-- The rules that rows mean are sound. -/
lemma sound_of_means {calls : List RowCall} {rules : List Rule}
    (hmeans : List.Forall₂ (RowCall.Means past) calls rules) : ∀ r ∈ rules, r.Sound := by
  induction hmeans with
  | nil => simp
  | cons hc _ ih =>
    obtain ⟨m', hm'⟩ := hc
    intro r hr
    rcases List.mem_cons.mp hr with rfl | hr
    · exact attackerParseRule_sound hm'
    · exact ih r hr

/-- A drop cell after a sequence of rules. -/
lemma Tables.foldl_apply_drop (T : Tables) (rules : List Rule) (v : Fin 5) (t : Fin 35) :
    (rules.foldl Tables.apply T).drop v t =
      ((lastWrite Rule.CoversDrop rules (v, t)).map Rule.dropValue).getD (T.drop v t) := by
  rw [← foldl_write Rule.CoversDrop Rule.dropValue (fun k => T.drop k.1 k.2) rules (v, t)]
  induction rules generalizing T with
  | nil => rfl
  | cons r rules ih => exact ih (T.apply r)

/-- A dup cell after a sequence of rules. -/
lemma Tables.foldl_apply_dup (T : Tables) (rules : List Rule) (v : Fin 5) (t : Fin 35) :
    (rules.foldl Tables.apply T).dup v t =
      ((lastWrite Rule.CoversDup rules (v, t)).map Rule.dupValue).getD (T.dup v t) := by
  rw [← foldl_write Rule.CoversDup Rule.dupValue (fun k => T.dup k.1 k.2) rules (v, t)]
  induction rules generalizing T with
  | nil => rfl
  | cons r rules ih => exact ih (T.apply r)

/-- **Last writer wins.** From zeroed tables, let `attacker_add_rule` be called on any sequence of
rows, the accepted ones among them with a message type that is the wildcard or from `0` to `34`. A
cell of the drop table then holds the probability of the last `DROP` rule that covers it, or `0`,
and a cell of the dup table the count of the last `DUP` rule that covers it, or `0`. So drop cells
are percentages, and a nonzero dup cell was set by a `DUP` rule. Every single call writes at most
the table of its own action; one that returns `1` changes neither, and so does a `DELAY` or `LIE`
row.

**Proof sketch.** A table fill writes exactly the covered cells (`fillTable_eq`), so a call is a
write in the sense of `LastWriter`, and a run of calls is a sequence of writes. -/
theorem rules_last_writer (past : Past) (calls : List RowCall) (rules : List Rule)
    (hmeans : List.Forall₂ (RowCall.Means past) calls rules) (hrange : ∀ r ∈ rules, r.InRange) :
    (∃ T, Runs.run (addRuleStep past) Tables.zero calls = .ok T ∧
      (∀ v t, T.drop v t =
        ((lastWrite Rule.CoversDrop rules (v, t)).map Rule.dropValue).getD 0) ∧
      (∀ v t, T.dup v t = ((lastWrite Rule.CoversDup rules (v, t)).map Rule.dupValue).getD 0) ∧
      T.Percent ∧
      (∀ v t, T.dup v t ≠ 0 → ∃ ofpVer msgType dupCount, .dup ofpVer msgType dupCount ∈ rules ∧
        Covers ofpVer msgType v t ∧ T.dup v t = dupCount)) ∧
    (∀ (T : Tables) (c : RowCall) (r : Rule) (m' : List UInt8),
      attackerParseRule past c.mem c.data c.len = .ok (r, m') → r.InRange →
      ∃ ret T', attackerAddRule past T c.mem c.data c.len = .ok (ret, T', m') ∧
        (ret = 1 ↔ r = .refused) ∧ (ret = 1 → T' = T) ∧
        (∀ a, r = .unimplemented a → (a = actionIdDelay ∨ a = actionIdLie) ∧ T' = T) ∧
        (∀ ofpVer msgType prob, r = .drop ofpVer msgType prob → T'.dup = T.dup) ∧
        (∀ ofpVer msgType dupCount, r = .dup ofpVer msgType dupCount → T'.drop = T.drop)) := by
  refine ⟨⟨_, run_addRule hmeans hrange Tables.zero, fun v t => Tables.foldl_apply_drop _ _ v t,
    fun v t => Tables.foldl_apply_dup _ _ v t, fun v t => ?_, fun v t hne => ?_⟩, ?_⟩
  · -- a drop cell is zero or the value of a rule, which is a percentage
    rw [Tables.foldl_apply_drop]
    cases hlast : lastWrite Rule.CoversDrop rules (v, t) with
    | none => exact ⟨le_rfl, (by decide : (0 : Int8).toInt ≤ 100)⟩
    | some r =>
      obtain ⟨hmem, hcov⟩ := lastWrite_mem Rule.CoversDrop hlast
      have hsound := sound_of_means hmeans r hmem
      cases r with
      | drop ofpVer msgType prob => exact hsound.2.2
      | refused => exact absurd hcov id
      | dup ofpVer msgType dupCount => exact absurd hcov id
      | unimplemented actionType => exact absurd hcov id
  · -- a nonzero dup cell is the value of a rule
    rw [Tables.foldl_apply_dup] at hne ⊢
    cases hlast : lastWrite Rule.CoversDup rules (v, t) with
    | none =>
      rw [hlast] at hne
      exact absurd rfl hne
    | some r =>
      obtain ⟨hmem, hcov⟩ := lastWrite_mem Rule.CoversDup hlast
      cases r with
      | dup ofpVer msgType dupCount => exact ⟨ofpVer, msgType, dupCount, hmem, hcov, rfl⟩
      | refused => exact absurd hcov id
      | drop ofpVer msgType prob => exact absurd hcov id
      | unimplemented actionType => exact absurd hcov id
  · intro T c r m' hm' hr
    refine ⟨_, _, attackerAddRule_eq T hm' hr, ?_, fun h => ?_, ?_, ?_, ?_⟩
    · split_ifs with h <;> simp [h]
    · have href : r = .refused := by
        by_contra hne
        rw [if_neg hne] at h
        exact absurd h (by decide)
      rw [href]
      rfl
    · rintro a rfl
      exact ⟨attackerParseRule_sound hm', rfl⟩
    · rintro ofpVer msgType prob rfl
      rfl
    · rintro ofpVer msgType dupCount rfl
      rfl

end History

/-- A row by itself, behind a byte that is no blank, as `attacker_read_rows` passes it. -/
def RowCall.alone (row : String) : RowCall where
  mem := nul :: (cstr row ++ [nul])
  data := 1
  len := (cstr row).length + 1

/-- What a row means can be found by evaluation. -/
lemma RowCall.means_of_eval {past : Past} {c : RowCall} {r : Rule}
    (h : (attackerParseRule past c.mem c.data c.len).toOption.map Prod.fst = some r) :
    c.Means past r := by
  obtain ⟨p, hp, rfl⟩ := Option.map_eq_some_iff.mp h
  exact ⟨p.2, Runs.ok_of_toOption hp⟩

/-- A call of `attacker_add_rule` that is known by evaluation, up to what is read of its tables. -/
lemma attackerAddRule_of_eval {α : Type} (past : Past) (T : Tables) (c : RowCall) (f : Tables → α)
    (ret : ℕ) (a : α)
    (h : (attackerAddRule past T c.mem c.data c.len).toOption.map (fun p => (p.1, f p.2.1)) =
      some (ret, a)) :
    ∃ T' m', attackerAddRule past T c.mem c.data c.len = .ok (ret, T', m') ∧ f T' = a := by
  obtain ⟨p, hp, heq⟩ := Option.map_eq_some_iff.mp h
  obtain ⟨rfl, rfl⟩ := Prod.mk.inj heq
  exact ⟨p.2.1, p.2.2, Runs.ok_of_toOption hp, rfl⟩

/-- Two overlapping `DROP` rules, a useless `DUP` rule and a `DELAY` rule. -/
theorem rules_last_writer_overlap :
    ∃ T, Runs.run (addRuleStep fun _ _ => none) Tables.zero
        [.alone "1,1,*,*,*,*,DROP,p=30", .alone "1,1,*,1.0, Hello ,*,DROP,p = 120",
          .alone "1,1,*,1.0,Hello,*,DUP,r=1", .alone "1,1,*,*,*,*,DELAY,"] = .ok T ∧
      T.drop 0 0 = 100 ∧ T.drop 4 34 = 30 ∧ T.dup 0 0 = 0 := by
  obtain ⟨⟨T, hrun, hdrop, hdup, -⟩, -⟩ := rules_last_writer (fun _ _ => none)
    [.alone "1,1,*,*,*,*,DROP,p=30", .alone "1,1,*,1.0, Hello ,*,DROP,p = 120",
      .alone "1,1,*,1.0,Hello,*,DUP,r=1", .alone "1,1,*,*,*,*,DELAY,"]
    [.drop 0 (-1) 30, .drop 1 0 100, .refused, .unimplemented 1]
    (.cons (RowCall.means_of_eval (by decide +kernel))
      (.cons (RowCall.means_of_eval (by decide +kernel))
        (.cons (RowCall.means_of_eval (by decide +kernel))
          (.cons (RowCall.means_of_eval (by decide +kernel)) .nil))))
    (by
      intro r hr
      simp only [List.mem_cons, List.not_mem_nil, or_false] at hr
      rcases hr with rfl | rfl | rfl | rfl
      · exact Or.inl rfl
      · exact Or.inr (by decide)
      · trivial
      · trivial)
  refine ⟨T, hrun, ?_, ?_, ?_⟩
  · rw [hdrop]; decide
  · rw [hdrop]; decide
  · rw [hdup]; decide

end Mproxy
