import Mproxy.Proxy.Delivered
import Mproxy.RuleValues
import Mproxy.Rules.Grammar
import Mproxy.Rules.Reading
import Mproxy.Rules.RowLayout

set_option relaxedAutoImplicit false
set_option autoImplicit false

/-!
# Policies

What a profile is for, without its bytes: a policy is a list of rules, each of which drops a
percentage of some messages or sends them more often, and of the rules of one kind for a message the
last one counts. A profile spells a policy if each of its lines is blank, a comment, or a row that
spells the next rule, in any of the ways to write versions, message types, numbers, arguments and
blanks.

Such a profile is compiled to the tables of `attack.c` without a loss: `attacker_read_rows` ends
without a fault, whatever the allocator finds, and the tables then say what the policy says. So
the proxy does to the messages that pass it what the profile asks for.

## Main definitions

* `Mproxy.PolicyRule`, `Mproxy.Policy.percent`, `Mproxy.Policy.extra` — policies and what they say.
* `Mproxy.PolicyRule.Spelled`, `Mproxy.PolicyFile` — how a policy is written.
* `Mproxy.Tables.Meets` — the tables say what the policy says.

## Main results

* `Mproxy.parseProfile_meets` — reading a profile makes tables that meet its policy.
* `Mproxy.policy_enforced` — the process delivers what the policy of its profiles prescribes.
-/

namespace Mproxy

open Memory Framing LastWriter

/-! ## Policies -/

/-- What is done with a message: it is dropped with a probability in percent, or it is sent that
many times more. -/
inductive Effect
  | drop (percent : Fin 101)
  | dup (extra : { n : ℕ // 1 ≤ n ∧ n ≤ 255 })

/-- The probability of being dropped. -/
def Effect.percent : Effect → ℕ
  | .drop percent => percent
  | .dup _ => 0

/-- The number of additional copies. -/
def Effect.extra : Effect → ℕ
  | .drop _ => 0
  | .dup extra => extra

/-- The number of the alias array of a version or, with `none`, of all versions. -/
def versionIndex : Option (Fin 5) → Fin 6
  | none => ⟨0, by decide⟩
  | some v => v.succ

/-- A rule of a policy, for one version or all of them and for one message type or all of them. A
message type has a name in its version. -/
structure PolicyRule where
  version : Option (Fin 5)
  msgType : Option (Fin 35)
  effect : Effect
  named : ∀ t ∈ msgType, (aliasName (versionIndex version) t).isSome

/-- The rules in the order in which they were given. -/
abbrev Policy : Type := List PolicyRule

namespace PolicyRule

/-- The rule is one for messages of version `k.1 + 1` and type `k.2`. -/
def Governs (r : PolicyRule) (k : Fin 5 × Fin 35) : Prop :=
  (∀ v ∈ r.version, v = k.1) ∧ ∀ t ∈ r.msgType, t = k.2

instance (r : PolicyRule) (k : Fin 5 × Fin 35) : Decidable (r.Governs k) :=
  inferInstanceAs (Decidable (_ ∧ _))

/-- The rule says which of these messages are dropped. -/
def Drops (r : PolicyRule) (k : Fin 5 × Fin 35) : Prop :=
  match r.effect with
  | .drop _ => r.Governs k
  | .dup _ => False

/-- The rule says how often these messages are sent. -/
def Dups (r : PolicyRule) (k : Fin 5 × Fin 35) : Prop :=
  match r.effect with
  | .drop _ => False
  | .dup _ => r.Governs k

instance (r : PolicyRule) (k : Fin 5 × Fin 35) : Decidable (r.Drops k) := by
  unfold Drops
  cases r.effect <;> infer_instance

instance (r : PolicyRule) (k : Fin 5 × Fin 35) : Decidable (r.Dups k) := by
  unfold Dups
  cases r.effect <;> infer_instance

end PolicyRule

namespace Policy

variable (π : Policy) (v : Fin 5) (t : Fin 35)

/-- How many of a hundred messages of version `v + 1` and type `t` are dropped. -/
def percent : ℕ := ((lastWrite PolicyRule.Drops π (v, t)).map fun r => r.effect.percent).getD 0

/-- How many times more a message of version `v + 1` and type `t` is sent. -/
def extra : ℕ := ((lastWrite PolicyRule.Dups π (v, t)).map fun r => r.effect.extra).getD 0

/-- How often a message of version `v + 1` and type `t` is sent, if `rand()` returns `rand`. -/
def copies (rand : ℕ) : ℕ := if rand % 100 < π.percent v t then 0 else 1 + π.extra v t

/-- What the policy prescribes for messages in order, with the values of `rand()` from `ρ n` on. -/
def delivered {L : Loci} (ρ : ℕ → ℕ) (n : ℕ) (ms : List (Message L)) : List UInt8 :=
  ((withRand ρ n ms).map fun p =>
    (List.replicate (π.copies p.1.version p.1.type p.2) p.1.bytes).flatten).flatten

end Policy

/-! ## Rules in the tables -/

/-- The tables say what the policy says. -/
structure Tables.Meets (T : Tables) (π : Policy) : Prop where
  percent : ∀ v t, (T.drop v t).toInt = π.percent v t
  extra : ∀ v t, (T.dup v t).toNat = π.extra v t

namespace PolicyRule

/-- The version of a rule, as `normalize_ofp_ver_str` has it. -/
def ofpVer (r : PolicyRule) : ℤ := versionIndex r.version

/-- The message type of a rule, as `normalize_ofp_msg_type` has it. -/
def ofpType (r : PolicyRule) : ℤ := r.msgType.elim ofpMsgTypeAll fun t => t

/-- The rule that `attacker_add_rule` makes of it. -/
def code (r : PolicyRule) : Rule :=
  match r.effect with
  | .drop percent => .drop r.ofpVer r.ofpType (Int8.ofNat percent)
  | .dup extra => .dup r.ofpVer r.ofpType (UInt8.ofNat extra)

/-- A rule covers the messages that it governs. -/
lemma covers_iff (r : PolicyRule) (v : Fin 5) (t : Fin 35) :
    Covers r.ofpVer r.ofpType v t ↔ r.Governs (v, t) := by
  obtain ⟨version, msgType, effect, named⟩ := r
  refine and_congr ?_ ?_
  · cases version with
    | none => simp [ofpVer, versionIndex, ofpVerAll]
    | some w =>
      have hsome : (∀ u ∈ some w, u = v) ↔ w = v := by simp
      rw [hsome, Fin.ext_iff]
      simp only [ofpVer, versionIndex, ofpVerAll, Fin.val_succ]
      omega
  · cases msgType with
    | none => simp [ofpType]
    | some u =>
      have hsome : (∀ s ∈ some u, s = t) ↔ u = t := by simp
      rw [hsome, Fin.ext_iff]
      simp only [ofpType, ofpMsgTypeAll, Option.elim_some]
      omega

/-- The type of a rule is one of the table. -/
lemma typeInRange (r : PolicyRule) : TypeInRange r.ofpType := by
  rw [ofpType]
  cases r.msgType with
  | none => exact Or.inl rfl
  | some t => exact Or.inr ⟨by simp, by simp only [Option.elim_some]; omega⟩

/-- The version and the type of a rule lie in the table. -/
lemma code_inRange (r : PolicyRule) : r.code.InRange := by
  rw [code]
  cases r.effect with
  | drop percent => exact r.typeInRange
  | dup extra => exact r.typeInRange

end PolicyRule

namespace Tables

variable {T : Tables} {π : Policy}

/-- Tables of zeros meet the policy without rules. -/
lemma meets_zero : Tables.zero.Meets [] := ⟨fun _ _ => rfl, fun _ _ => rfl⟩

/-- **One rule.** Tables that meet a policy meet it with one rule more when this was applied. -/
lemma Meets.apply (h : T.Meets π) (r : PolicyRule) : (T.apply r.code).Meets (π ++ [r]) := by
  have hgov := r.covers_iff
  constructor
  · intro v t
    rw [Policy.percent, lastWrite_concat]
    cases heff : r.effect with
    | drop percent =>
      have hle : (percent : ℕ) ≤ 100 := by omega
      have hval : (Int8.ofNat percent).toInt = percent := Int8.toInt_ofNat_of_lt (by omega)
      simp only [Tables.apply, write, PolicyRule.code, PolicyRule.Drops, heff, Rule.CoversDrop,
        Rule.dropValue, hgov]
      by_cases hg : r.Governs (v, t)
      · rw [if_pos hg, if_pos hg, hval, Option.map_some, heff]
        rfl
      · rw [if_neg hg, if_neg hg]
        exact h.percent v t
    | dup extra =>
      simp only [Tables.apply, write, PolicyRule.code, PolicyRule.Drops, heff, Rule.CoversDrop,
        if_false]
      exact h.percent v t
  · intro v t
    rw [Policy.extra, lastWrite_concat]
    cases heff : r.effect with
    | drop percent =>
      simp only [Tables.apply, write, PolicyRule.code, PolicyRule.Dups, heff, Rule.CoversDup,
        if_false]
      exact h.extra v t
    | dup extra =>
      have hval : (UInt8.ofNat extra).toNat = extra := by
        rw [UInt8.toNat_ofNat']
        have := extra.property
        omega
      simp only [Tables.apply, write, PolicyRule.code, PolicyRule.Dups, heff, Rule.CoversDup,
        Rule.dupValue, hgov]
      by_cases hg : r.Governs (v, t)
      · rw [if_pos hg, if_pos hg, hval, Option.map_some, heff]
        rfl
      · rw [if_neg hg, if_neg hg]
        exact h.extra v t

end Tables
/-! ## How a policy is written -/

/-- The value of the argument is a number, written in any way. -/
def Numeral (l : List Arg) (name : List UInt8) (n : ℕ) : Prop :=
  ∃ ds, Digits ds ∧ digitsValue ds = n ∧
    (l.find? fun a => decide (a.name = name)) = some ⟨name, some ds⟩

/-- The effect is what the columns for the action and the arguments say: a `DROP` with its argument
`p`, or without one if it drops all messages, or a `DUP` with its argument `r`, which counts the
original as well. The action may be given by its number. -/
def Effect.Spelled (action : List UInt8) (l : List Arg) : Effect → Prop
  | .drop percent => (action = cstr "DROP" ∨ Digits action ∧ digitsValue action = 0) ∧
    (Numeral l (cstr "p") percent ∨
      (percent : ℕ) = 100 ∧ (l.find? fun a => decide (a.name = cstr "p")) = none)
  | .dup extra => (action = cstr "DUP" ∨ Digits action ∧ digitsValue action = 2) ∧
    Numeral l (cstr "r") (extra + 1)

/-- A number of an action is read as this action. -/
lemma normalizeActionType_digits {s : List UInt8} (hs : Digits s) (h : digitsValue s ≤ 3) :
    normalizeActionType s = digitsValue s := by
  have hatoi := atoi_digits hs (by omega)
  unfold normalizeActionType
  rw [if_pos (isInt_iff.mpr hs), hatoi, actionIdDrop, actionIdLie, if_neg (by omega)]

/-- The value of an argument that is a numeral, as `attacker_add_rule` gets it. -/
lemma Numeral.typed {l : List Arg} {name : List UInt8} {n : ℕ} (h : Numeral l name n)
    (hn : n ≤ 2147483647) :
    (l.find? fun a => decide (a.name = name)).map Arg.typed = some (.int n) := by
  obtain ⟨ds, hds, rfl, hfind⟩ := h
  rw [hfind, Option.map_some, Arg.typed, Option.map_some, Option.getD_some, typedText_digits hds hn]

/-- A percentage is the probability that is written to the table. -/
lemma dropProb_percentage {n : ℕ} (h : n ≤ 100) : dropProb (some (.int n)) = Int8.ofNat n := by
  have hval : (Int8.ofNat n).toInt = n := Int8.toInt_ofNat_of_lt (by omega)
  rw [← Int8.toInt_inj, dropProb_int, hval, Int.bmod_eq_of_le (by omega) (by omega)]
  omega

/-- For `n + 1` copies, `n` is written to the table. -/
lemma dupCountOf_succ (n : ℕ) :
    dupCountOf (some (.int (n + 1 : ℕ))) = UInt8.ofNat n := by
  rw [← UInt8.toNat_inj, dupCountOf_int, UInt8.toNat_ofNat']
  omega

namespace PolicyRule

/-- The row spells the rule; its other columns do not matter. -/
structure Spelled (r : PolicyRule) (row : RowLayout) : Prop where
  version : match r.version with
    | none => AllVersionsText row.ofpVer.field
    | some v => VersionText (v + 1) row.ofpVer.field
  msgType : match r.msgType with
    | none => row.msgType.field = cstr "*"
    | some t => TypeText (versionIndex r.version) t row.msgType.field
  effect : r.effect.Spelled row.attackType.field row.argList

namespace Spelled

variable {r : PolicyRule} {row : RowLayout}

/-- The version of a rule that is spelled in a row is the one read from it. -/
lemma ofpVer_eq (h : r.Spelled row) : normalizeOfpVerStr row.ofpVer.field = r.ofpVer := by
  have hversion := h.version
  rw [PolicyRule.ofpVer]
  cases hver : r.version with
  | none =>
    rw [hver] at hversion
    exact AllVersionsText.read hversion
  | some v =>
    rw [hver] at hversion
    have hlt := v.isLt
    rw [VersionText.read hversion (Nat.succ_pos _) (by omega)]
    simp [versionIndex]

/-- So is its type. -/
lemma ofpType_eq (h : r.Spelled row) (past : Past) :
    normalizeOfpMsgType past (versionIndex r.version) row.msgType.field = r.ofpType := by
  have htype := h.msgType
  rw [PolicyRule.ofpType]
  cases hmsg : r.msgType with
  | none =>
    rw [hmsg] at htype
    exact normalizeOfpMsgType_of_checked
      (normalizeOfpMsgTypeChecked_star (by rw [htype]; decide +kernel)) past
  | some t =>
    rw [hmsg] at htype
    exact normalizeOfpMsgType_of_checked htype.read past

/-- **A row that spells a rule means it.** -/
lemma rule_eq (h : r.Spelled row) (past : Past) :
    Columns.rule past ⟨row.ofpVer.field, row.msgType.field, row.attackType.field,
      some ((row.argList.find? fun a => decide (a.name = cstr "p")).map Arg.typed),
      some ((row.argList.find? fun a => decide (a.name = cstr "r")).map Arg.typed)⟩ =
        some r.code := by
  have hver : r.ofpVer ≠ ofpVerErr := by
    rw [PolicyRule.ofpVer, ofpVerErr]
    omega
  have hindex : r.ofpVer.toNat = versionIndex r.version := by
    rw [PolicyRule.ofpVer, Int.toNat_natCast]
  have htype : r.ofpType ≠ ofpMsgTypeErr := by
    have := r.typeInRange
    unfold TypeInRange ofpMsgTypeAll at this
    rw [ofpMsgTypeErr]
    omega
  have heffect := h.effect
  unfold Columns.rule
  simp only [h.ofpVer_eq, if_neg hver, hindex, h.ofpType_eq past, if_neg htype, Option.map_some]
  rw [code]
  cases heff : r.effect with
  | drop percent =>
    rw [heff] at heffect
    obtain ⟨haction, harg⟩ := heffect
    have hact : normalizeActionType row.attackType.field = actionIdDrop := by
      rcases haction with haction | ⟨hdigits, hzero⟩
      · rw [haction]
        decide +kernel
      · rw [normalizeActionType_digits hdigits (by omega), hzero]
        rfl
    have hprob : dropProb ((row.argList.find? fun a => decide (a.name = cstr "p")).map Arg.typed) =
        Int8.ofNat percent := by
      rcases harg with harg | ⟨hall, hnone⟩
      · rw [harg.typed (by omega), dropProb_percentage (by omega)]
      · rw [hnone, hall]
        rfl
    have hne : actionIdDrop ≠ actionIdErr := by decide
    rw [hact, if_neg hne, if_pos rfl, hprob]
  | dup extra =>
    rw [heff] at heffect
    obtain ⟨haction, harg⟩ := heffect
    have hextra := extra.property
    have hact : normalizeActionType row.attackType.field = actionIdDup := by
      rcases haction with haction | ⟨hdigits, htwo⟩
      · rw [haction]
        decide +kernel
      · rw [normalizeActionType_digits hdigits (by omega), htwo]
        rfl
    have hcount : dupCountOf ((row.argList.find? fun a => decide (a.name = cstr "r")).map
        Arg.typed) = UInt8.ofNat extra := by
      rw [harg.typed (by omega), dupCountOf_succ]
    have hpos : ¬ UInt8.ofNat extra < 1 := by
      rw [UInt8.lt_iff_toNat_lt, UInt8.toNat_ofNat']
      have hone : (1 : UInt8).toNat = 1 := rfl
      omega
    have hne : actionIdDup ≠ actionIdErr := by decide
    have hne' : actionIdDup ≠ actionIdDrop := by decide
    rw [hact, if_neg hne, if_neg hne', if_pos rfl, hcount, if_neg hpos]

end Spelled

end PolicyRule

/-! ## Profiles -/

/-- A line of a profile: an empty one, a comment, or a row that spells a rule. -/
structure PolicyLine where
  text : List UInt8
  rule : Option PolicyRule
  unbroken : ∀ c ∈ text, ¬ EndsLine c
  spelled : match rule with
    | none => text = [] ∨ text.head? = some hash
    | some r => text.head? ≠ some hash ∧ ∃ row : RowLayout, row.text = text ∧ r.Spelled row

/-- A profile: its first line, which is not read, and the other ones, each behind the byte that ends
the line before it. A line that ends with `"\r\n"` has an empty one behind it. -/
structure PolicyFile where
  header : List UInt8
  unbroken : ∀ c ∈ header, ¬ EndsLine c
  lines : List ({ c : UInt8 // EndsLine c } × PolicyLine)

/-- The rules in the lines. -/
def rulesOf (ls : List ({ c : UInt8 // EndsLine c } × PolicyLine)) : Policy :=
  ls.flatMap fun l => l.2.rule.toList

namespace PolicyFile

variable (P : PolicyFile)

/-- The bytes of a profile. -/
def text : List UInt8 := P.header ++ P.lines.flatMap fun l => l.1.val :: l.2.text

/-- The policy that a profile spells. -/
def policy : Policy := rulesOf P.lines

end PolicyFile

section Reading

variable (past : Past) {T : Tables} {π : Policy}

/-- A row is not empty. -/
lemma RowLayout.text_ne (row : RowLayout) : row.text ≠ [] := by
  rw [RowLayout.text, RowLayout.inits, List.map_cons, rowOf]
  simp

/-- A row that spells a rule means it, wherever it lies. -/
lemma PolicyRule.Spelled.means {r : PolicyRule} {row : RowLayout} (h : r.Spelled row)
    (A B : List UInt8) : (row.call A B).Means past r.code :=
  (RowCall.means_iff (row.columns_call A B) r.code).mpr (h.rule_eq past)

/-- **One line.** A line of a profile is read inside its own text and adds its rule. -/
lemma PolicyLine.effect (l : PolicyLine) (h : T.Meets π) :
    (RuleLine l.text → OwnText past l.text) ∧
      ∃ T', lineEffect past T l.text = .ok T' ∧ T'.Meets (π ++ l.rule.toList) := by
  have hspelled := l.spelled
  cases hrule : l.rule with
  | none =>
    rw [hrule] at hspelled
    have hskip : ¬ RuleLine l.text := fun hl => hspelled.elim hl.1 hl.2
    refine ⟨fun hl => absurd hl hskip, T, if_neg hskip, ?_⟩
    rwa [Option.toList_none, List.append_nil]
  | some r =>
    rw [hrule] at hspelled
    obtain ⟨hhash, row, hrow, hspell⟩ := hspelled
    have hline : RuleLine l.text := ⟨by rw [← hrow]; exact row.text_ne, hhash⟩
    have hmeans : (rowCall l.text []).Means past r.code := by
      rw [← hrow]
      exact hspell.means past [] []
    refine ⟨fun _ => (ownText_iff past l.text).mp ⟨r.code, hmeans⟩, T.apply r.code, ?_, h.apply r⟩
    obtain ⟨m', hparse⟩ := id hmeans
    rw [lineEffect, if_pos hline, hmeans.addRuleStep,
      attackerApplyRule_eq T (attackerParseRule_sound hparse) r.code_inRange, Runs.ok_bind]

/-- **All lines.** -/
lemma lines_effect (ls : List ({ c : UInt8 // EndsLine c } × PolicyLine)) (h : T.Meets π) :
    ∃ T', (ls.map fun l => l.2.text).foldlM (lineEffect past) T = .ok T' ∧
      T'.Meets (π ++ rulesOf ls) := by
  induction ls generalizing T π with
  | nil => exact ⟨T, rfl, by rwa [rulesOf, List.flatMap_nil, List.append_nil]⟩
  | cons l ls ih =>
    obtain ⟨-, T₁, h₁, hmeets₁⟩ := l.2.effect past h
    obtain ⟨T₂, h₂, hmeets₂⟩ := ih hmeets₁
    refine ⟨T₂, ?_, ?_⟩
    · rw [List.map_cons, List.foldlM_cons, h₁, Runs.ok_bind, h₂]
    · rwa [rulesOf, List.flatMap_cons, ← List.append_assoc]

/-- The lines of a file that is put together from lines. -/
lemma fileLines_lines {t : List UInt8} (ht : ∀ c ∈ t, ¬ EndsLine c)
    (ls : List ({ c : UInt8 // EndsLine c } × PolicyLine)) :
    fileLines (t ++ ls.flatMap fun l => l.1.val :: l.2.text) = t :: ls.map fun l => l.2.text := by
  induction ls generalizing t with
  | nil =>
    rw [List.flatMap_nil, List.append_nil]
    exact linesOf_last ht
  | cons l ls ih =>
    rw [List.flatMap_cons, List.cons_append, List.map_cons, ← ih l.2.unbroken]
    exact linesOf_append ht l.1.property

end Reading

/-! ## From the profile to the wire -/

/-- An argument `-f` of the program: a profile, and what the allocator answers while it is read. -/
structure ProfileLoad where
  file : PolicyFile
  fresh : ℕ → UInt8
  realloc : ℕ → Option (ℕ → UInt8)
  enough : ∀ i, (realloc i).isSome

/-- `parse_profile` -/
def parseProfile (past : Past) (T : Tables) (l : ProfileLoad) : Except Fault Tables :=
  attackerReadRows past T (some l.file.text) (some l.fresh) l.realloc

section Enforced

variable {L : Loci} {T T' : Tables} {π : Policy}

/-- **A profile is compiled without a loss.** If a profile that spells a policy is read into tables
that meet one, this ends without a fault, whatever the allocator and the alias arrays hold behind
their ends, and the tables meet both policies, one behind the other. -/
lemma parseProfile_meets (past : Past) (l : ProfileLoad) (h : T.Meets π) :
    ∃ T', parseProfile past T l = .ok T' ∧ T'.Meets (π ++ l.file.policy) := by
  have hlines := fileLines_lines l.file.unbroken l.file.lines
  obtain ⟨T', hfold, hmeets⟩ := lines_effect past l.file.lines h
  refine ⟨T', ?_, hmeets⟩
  rw [parseProfile, attackerReadRows_fold T l.file.text l.fresh l.enough, PolicyFile.text, hlines,
    List.tail_cons, hfold]
  rw [PolicyFile.text, hlines, List.tail_cons]
  intro t ht
  obtain ⟨line, -, rfl⟩ := List.mem_map.mp ht
  exact (line.2.effect past h).1

/-- Profiles are read one behind the other. -/
lemma run_parseProfile (past : Past) (loads : List ProfileLoad) (h : T.Meets π) :
    ∃ T', Runs.run (parseProfile past) T loads = .ok T' ∧
      T'.Meets (π ++ loads.flatMap fun l => l.file.policy) := by
  induction loads generalizing T π with
  | nil => exact ⟨T, rfl, by rwa [List.flatMap_nil, List.append_nil]⟩
  | cons l loads ih =>
    obtain ⟨T₁, hread, hmeets₁⟩ := parseProfile_meets past l h
    obtain ⟨T₂, hrun, hmeets₂⟩ := ih hmeets₁
    refine ⟨T₂, ?_, ?_⟩
    · rw [Runs.run_cons, hread, Runs.ok_bind, hrun]
    · rwa [List.flatMap_cons, ← List.append_assoc]

namespace Tables.Meets

/-- No two tables meet the same policy. -/
lemma unique (h : T.Meets π) (h' : T'.Meets π) : T = T' := by
  obtain ⟨drop, dup⟩ := T
  obtain ⟨drop', dup'⟩ := T'
  have hdrop : drop = drop' := funext fun v => funext fun t =>
    Int8.toInt_inj.mp ((h.percent v t).trans (h'.percent v t).symm)
  have hdup : dup = dup' := funext fun v => funext fun t =>
    UInt8.toNat_inj.mp ((h.extra v t).trans (h'.extra v t).symm)
  rw [hdrop, hdup]

/-- A policy drops at most a hundred of a hundred messages. -/
lemma isPercent (h : T.Meets π) : T.Percent := by
  intro v t
  rw [h.percent v t, Policy.percent]
  cases lastWrite PolicyRule.Drops π (v, t) with
  | none => exact ⟨le_rfl, by simp⟩
  | some r =>
    rw [Option.map_some, Option.getD_some]
    cases r.effect with
    | drop percent =>
      rw [show Effect.percent (.drop percent) = percent from rfl]
      omega
    | dup extra => exact ⟨le_rfl, by simp [Effect.percent]⟩

/-- Tables that meet a policy let through as many copies of a message as it says. -/
lemma copies_eq (h : T.Meets π) (v : Fin 5) (t : Fin 35) (rand : ℕ) :
    T.copies v t rand = π.copies v t rand := by
  have h0 : (0 : Int8).toInt = 0 := rfl
  have hzero : T.drop v t = 0 ↔ (T.drop v t).toInt = 0 := by rw [← Int8.toInt_inj, h0]
  have hiff : (T.drop v t ≠ 0 ∧ ((rand % 100 : ℕ) : ℤ) < (T.drop v t).toInt) ↔
      rand % 100 < π.percent v t := by
    rw [ne_eq, hzero, h.percent v t]
    omega
  rw [Tables.copies, Policy.copies, h.extra v t]
  exact if_congr hiff rfl rfl

/-- Tables that meet a policy prescribe what it delivers. -/
lemma prescribed_eq (h : T.Meets π) (ρ : ℕ → ℕ) (n : ℕ) (ms : List (Message L)) :
    prescribed T ρ n ms = π.delivered ρ n ms := by
  rw [prescribed, Policy.delivered]
  simp only [h.copies_eq]

end Tables.Meets

end Enforced

/-- **The process does what its profiles ask for.** Let any profiles that spell policies be read one
behind the other, from zeroed tables. This ends without a fault, and in every run of the process
behind it, for every client `p` with its mate `q`: if the stream of `p` consists of messages and
possibly the start of another one, cut into chunks in any way, and the pair is up when they arrive,
then what was written to `q` is what the policy of all profiles together prescribes for the messages
that have left the `evbuffer`, with the values of `rand()` from the calls number
`calls 0 < calls 1 < ...`. The bytes of the others, and the start behind them, are what is left in
the stream of `p`, which holds no whole message, and in its `evbuffer`; there are no others if the
last read event of `p` finds memory, or if the `evbuffer` is empty.

**Proof sketch.** The tables meet the policy (`run_parseProfile`), the process delivers what
`deliver` says for them (`process_deliver`), and that is what the policy says. -/
theorem policy_enforced (L : Loci) (past : Past) (loads : List ProfileLoad) :
    ∃ T, Runs.run (parseProfile past) Tables.zero loads = .ok T ∧
      T.Meets (loads.flatMap fun l => l.file.policy) ∧
      ∀ (ρ : ℕ → ℕ) (μ : ℕ → InjectMem) (as : List Action) (s : System ℕ),
        Runs.run (systemStep (allocInject L T ρ μ)) (System.start 0) as = .ok s →
        ∀ p q, s.Mates p q → ∀ (ms : List (Message L)) tail, ofpFraming.Stuck tail →
        (∀ ev ∈ System.events (allocInject L T ρ μ) p q (System.start 0) as, ev.PeerUp) →
        ((System.events (allocInject L T ρ μ) p q (System.start 0) as).map
          ReadEvent.chunk).flatten = (ms.map Message.bytes).flatten ++ tail →
        ∃ calls ms₁ ms₂, StrictMono calls ∧ ms = ms₁ ++ ms₂ ∧
          (∀ d, s.clients q = some d → d.written = (some [],
            some (Policy.delivered (loads.flatMap fun l => l.file.policy) (ρ ∘ calls) 0 ms₁))) ∧
          (LastRead (System.events (allocInject L T ρ μ) p q (System.start 0) as) → ms₂ = []) ∧
          ∀ c, s.clients p = some c → ∃ held waiting, c.received = (some held, some waiting) ∧
            ofpFraming.Stuck held ∧ held ++ waiting = (ms₂.map Message.bytes).flatten ++ tail ∧
            (waiting = [] → ms₂ = [] ∧ held = tail) := by
  obtain ⟨T, hread, hmeets⟩ := run_parseProfile past loads Tables.meets_zero
  rw [List.nil_append] at hmeets
  refine ⟨T, hread, hmeets, ?_⟩
  intro ρ μ as s hrun p q hpq ms tail htail hup hms
  obtain ⟨calls, gs₁, gs₂, hmono, hgs, hlast, hdeliver⟩ :=
    process_deliver hrun hpq hup (messages_cut htail hms)
  obtain ⟨ms₁, ms₂, rfl, rfl, rfl⟩ := List.map_eq_append_iff.mp hgs
  obtain ⟨hwritten, hreceived⟩ :=
    hdeliver _ (deliver_messages hmeets.isPercent (ρ ∘ calls) 0 ms₁)
  refine ⟨calls, ms₁, ms₂, hmono, rfl, fun d hd => ?_,
    fun h => List.map_eq_nil_iff.mp (hlast h), fun c hc => ?_⟩
  · rw [hwritten d hd, hmeets.prescribed_eq]
  · obtain ⟨st, hst, hleft⟩ := hreceived c hc
    exact hleft.received hst

/-- A profile with a comment and two rules: messages of type HELLO and version `1.0` are sent once
more, and those of type `1` are dropped. -/
theorem policy_enforced_hello :
    ∃ (l : ProfileLoad) (T : Tables) (as : List Action) (s : System ℕ)
      (hello : Message Loci.lenient),
      l.file.text = cstr "OFP_VER\n# both\n1,*,*, 1.0 ,Hello,*,DUP, r=2\n1,*,*,1,1,*,DROP," ∧
      Runs.run (parseProfile fun _ _ => none) Tables.zero [l] = .ok T ∧
      as = [.listen (.plain 4 5), .read 0 (.plain [1, 0, 0, 8, 0, 0, 0, 1])] ∧
      Runs.run (systemStep (allocInject Loci.lenient T (fun _ => 99) fun _ => .granted))
        (System.start 0) as = .ok s ∧
      ∀ d, s.clients 1 = some d → d.written = (some [], some (hello.bytes ++ hello.bytes)) := by
  let blanks (s : List UInt8) (h : ∀ c ∈ s, isWhitespace c = true) : Blanks := ⟨s, h⟩
  let word (s : List UInt8) (h : nul ∉ s ∧ equalsSign ∉ s ∧ attackerArgsDelim ∉ s ∧
      (∃ c ∈ s.head?, isWhitespace c = false) ∧ ∃ c ∈ s.getLast?, isWhitespace c = false) :
      Word ArgsDelim.attacker := ⟨s, h.1, h.2.1, h.2.2.1, h.2.2.2.1, h.2.2.2.2⟩
  let e : Blanks := blanks [] (by decide +kernel)
  let space : Blanks := blanks (cstr " ") (by decide +kernel)
  let row : RowLayout :=
    { len := .ofBytes [] (cstr "1") [] (by decide +kernel)
      cid := .ofBytes [] (cstr "*") [] (by decide +kernel)
      sid := .ofBytes [] (cstr "*") [] (by decide +kernel)
      ofpVer := .ofBytes (cstr " ") (cstr "1.0") (cstr " ") (by decide +kernel)
      msgType := .ofBytes [] (cstr "Hello") [] (by decide +kernel)
      field := .ofBytes [] (cstr "*") [] (by decide +kernel)
      attackType := .ofBytes [] (cstr "DUP") [] (by decide +kernel)
      beforeArgs := space
      args := some ⟨⟨e, word (cstr "r") (by decide +kernel),
        some ⟨e, e, word (cstr "2") (by decide +kernel)⟩, e⟩, rfl, [], none⟩
      len_ne := by decide
      args_no_comma := by decide +kernel
      args_no_quote := by decide +kernel }
  let row' : RowLayout :=
    { len := .ofBytes [] (cstr "1") [] (by decide +kernel)
      cid := .ofBytes [] (cstr "*") [] (by decide +kernel)
      sid := .ofBytes [] (cstr "*") [] (by decide +kernel)
      ofpVer := .ofBytes [] (cstr "1") [] (by decide +kernel)
      msgType := .ofBytes [] (cstr "1") [] (by decide +kernel)
      field := .ofBytes [] (cstr "*") [] (by decide +kernel)
      attackType := .ofBytes [] (cstr "DROP") [] (by decide +kernel)
      beforeArgs := e
      args := none
      len_ne := by decide
      args_no_comma := by simp
      args_no_quote := by simp }
  let twice : PolicyRule := ⟨some 0, some 0, .dup ⟨1, by decide⟩, by decide +kernel⟩
  let never : PolicyRule := ⟨some 0, some 1, .drop 100, by decide +kernel⟩
  have htwice : twice.Spelled row :=
    ⟨Or.inl (by decide +kernel), ⟨cstr "Hello", by decide +kernel, Or.inl rfl⟩,
      Or.inl rfl, cstr "2", by decide +kernel, by decide +kernel, by decide +kernel⟩
  have hnever : never.Spelled row' :=
    ⟨Or.inr (Or.inr (by decide +kernel)),
      ⟨cstr "Error", by decide +kernel, Or.inr (by decide +kernel)⟩, Or.inl rfl, Or.inr ⟨rfl, rfl⟩⟩
  let eol : { c : UInt8 // EndsLine c } := ⟨newline, Or.inl rfl⟩
  let file : PolicyFile :=
    { header := cstr "OFP_VER"
      unbroken := by decide +kernel
      lines :=
        [(eol, ⟨cstr "# both", none, by decide +kernel, Or.inr (by decide +kernel)⟩),
          (eol, ⟨row.text, some twice, by decide +kernel, by decide +kernel, row, rfl, htwice⟩),
          (eol, ⟨row'.text, some never, by decide +kernel, by decide +kernel, row', rfl, hnever⟩)] }
  have htext : cstr "OFP_VER" ++ (newline :: (cstr "# both" ++ newline :: (row.text ++
      newline :: row'.text))) =
      cstr "OFP_VER\n# both\n1,*,*, 1.0 ,Hello,*,DUP, r=2\n1,*,*,1,1,*,DROP," := by decide +kernel
  let l : ProfileLoad := ⟨file, fun _ => 0, fun _ => some fun _ => 0, fun _ => rfl⟩
  let T₀ : Tables :=
    { drop := fun v t => if v = 0 ∧ t = 1 then 100 else 0
      dup := fun v t => if v = 0 ∧ t = 0 then 1 else 0 }
  have hT₀ : T₀.Meets [twice, never] := ⟨by decide +kernel, by decide +kernel⟩
  let as : List Action := [.listen (.plain 4 5), .read 0 (.plain [1, 0, 0, 8, 0, 0, 0, 1])]
  let hello : Message Loci.lenient := ⟨0, 0, [0, 8, 0, 0, 0, 1], by decide⟩
  obtain ⟨T, hread, hmeets, hdeliver⟩ := policy_enforced Loci.lenient (fun _ _ => none) [l]
  obtain rfl : T = T₀ := hmeets.unique hT₀
  let inject : Inject ℕ := allocInject Loci.lenient T₀ (fun _ => 99) fun _ => .granted
  have heval : (Runs.run (systemStep inject) (System.start 0) as).toOption.map (·.pairs) =
      some [(0, 1)] := by
    decide +kernel
  obtain ⟨s, hs, hpairs⟩ := Option.map_eq_some_iff.mp heval
  have hmates : s.Mates 0 1 := Or.inl (by rw [hpairs]; decide)
  have hopen : (System.events inject 0 1 (System.start 0) as).all
      (fun ev => ev.peerOpen && ev.realloc.isSome) = true := by
    decide +kernel
  have hfound : ∀ ev ∈ System.events inject 0 1 (System.start 0) as,
      ev.peerOpen = true ∧ ev.realloc.isSome = true := fun ev hev =>
    Bool.and_eq_true_iff.mp (List.all_eq_true.mp hopen ev hev)
  obtain ⟨calls, ms₁, ms₂, -, hms, hwritten, hlast, -⟩ := hdeliver (fun _ => 99)
    (fun _ => .granted) as s (Runs.ok_of_toOption hs) 0 1 hmates [hello] []
    (Or.inl (by decide)) (fun ev hev => by
      obtain ⟨ev', hmem, heq⟩ := System.mem_events hev
      rw [heq]
      simp only [as, List.mem_cons, reduceCtorEq, Action.read.injEq, List.not_mem_nil, or_false,
        false_or] at hmem
      obtain ⟨-, rfl⟩ := hmem
      exact ⟨(hfound ev hev).1, fun _ => rfl, fun _ => rfl⟩)
    (by decide +kernel)
  obtain rfl := hlast fun ev hev => (hfound ev (List.mem_of_getLast? hev)).2
  rw [List.append_nil] at hms
  refine ⟨l, T₀, as, s, hello, ?_, hread, rfl, Runs.ok_of_toOption hs, fun d hd => ?_⟩
  · rw [← htext]
    simp [l, file, PolicyFile.text, eol]
  rw [hwritten d hd, ← hms, ← hmeets.prescribed_eq, prescribed_cons]
  rfl

end Mproxy
