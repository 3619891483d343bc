import Mproxy.Rules.ArgsLayout
import Mproxy.Rules.Columns

set_option relaxedAutoImplicit false
set_option autoImplicit false

/-!
# The texts of a row

What `attacker_add_rule` reads of a row, in terms of the strings in its columns: of the ARGS column,
if it is in good order, the first argument with the name that is looked for.

## Main definitions

* `Mproxy.InOrder`, `Mproxy.argIn` — an ARGS column in good order, and the value of an argument in
  it.
* `Mproxy.ValidRow` — a row whose columns are understood.

## Main results

* `Mproxy.argNamed_inOrder` — what is found of an argument is the value that is written.
* `Mproxy.ValidRow.means_drop`, `Mproxy.ValidRow.means_dup` — what a row means.
-/

namespace Mproxy

open Memory

/-! ## Arguments -/

/-- The type and value that a value's text stands for, without the position of a string. -/
def typedText (v : List UInt8) : ArgValue :=
  if isFloat v = 1 then .float (atof v) else if isFloat v = 0 then .int (atoi v) else .str 0

/-- The value of an argument. -/
def Arg.typed (a : Arg) : ArgValue := (a.value.map typedText).getD .noval

/-- The value of a node that stands for an argument, without the position of its string. -/
lemma ArgNode.Is.anon {m : List UInt8} {node : ArgNode} {a : Arg} (h : node.Is m a) :
    node.value.anon = a.typed := by
  obtain ⟨name, value⟩ := node
  obtain ⟨aname, avalue⟩ := a
  have hvalue := h.2
  cases avalue with
  | none =>
    simp only at hvalue
    rw [hvalue]
    rfl
  | some v =>
    simp only at hvalue
    rw [Arg.typed, Option.map_some, Option.getD_some, typedText]
    cases value with
    | noval => exact hvalue.elim
    | int i => rw [if_neg (by rw [hvalue.1]; decide), if_pos hvalue.1, hvalue.2]; rfl
    | float f => rw [if_pos hvalue.1, hvalue.2]; rfl
    | str p => rw [if_neg hvalue.2.1, if_neg hvalue.1]; rfl

/-- An ARGS column in good order, which starts with a name. -/
def InOrder (s : List UInt8) : Prop :=
  (∀ t ∈ (s.splitOn attackerArgsDelim).head?, Firm t) ∧ Segmented (s.splitOn attackerArgsDelim)

/-- The first argument with a name in an ARGS column. -/
def argIn (s name : List UInt8) : Option Arg :=
  (argsOf (s.splitOn attackerArgsDelim)).find? fun a => decide (a.name = name)

/-- What is found of an argument, once the nodes stand for the arguments. -/
lemma argNamed_of_is {m m' : List UInt8} {p : ℕ} {nodes : List ArgNode} {args : List Arg}
    (hparse : argsParse m p attackerArgsDelim = some (m', nodes))
    (hnodes : List.Forall₂ (ArgNode.Is m') nodes args) (name : List UInt8) :
    argNamed m p name = some ((args.find? fun a => decide (a.name = name)).map Arg.typed) := by
  rw [argNamed, argsLookup, hparse]
  simp only [Option.bind_eq_bind, Option.bind_some, argsFind_eq hnodes, Option.map_some,
    Option.map_map]
  have hrel := find_rel hnodes name
  revert hrel
  generalize (nodes.find? fun node => decide (cstring m' node.name = some name)) = found
  generalize (args.find? fun a => decide (a.name = name)) = written
  intro hrel
  cases hrel with
  | none => rfl
  | some h => simp only [Option.map_some, Function.comp_apply, h.anon]

/-- **What is found of an argument is the value that is written**, if the ARGS column is in good
order. -/
lemma argNamed_inOrder {m s : List UInt8} {p : ℕ} (hcstr : cstring m p = some s) (hs : InOrder s)
    (name : List UInt8) : argNamed m p name = some ((argIn s name).map Arg.typed) := by
  obtain ⟨hnul, A, B, rfl, rfl⟩ := cstring_split hcstr
  obtain ⟨t, us, hsplit, htext, hsegs⟩ := exists_argsText ArgsDelim.attacker hnul
  obtain ⟨hfirm, hseg⟩ := hs
  change s.splitOn attackerArgsDelim = t :: us at hsplit
  rw [hsplit] at hfirm hseg
  obtain ⟨S, nodes, -, hnodes, hrun⟩ := argsRuns_segments ArgsDelim.attacker (A := A) hsegs hseg
    (Or.inr (hfirm t rfl)) []
  have hparse : argsParse (A ++ (s ++ 0 :: B)) A.length attackerArgsDelim =
      some (A ++ (S ++ nul :: B), nodes) := by
    rw [htext]
    exact argsParse_eq_some.mpr ((hrun B _).mpr rfl)
  rw [argIn, hsplit]
  refine argNamed_of_is hparse (hnodes.imp fun node a h => ?_) name
  have := h.append B
  simpa using this

/-- A list of arguments that is written in the format is in good order. -/
lemma ArgsLayout.inOrder (l : ArgsLayout ArgsDelim.attacker) : InOrder l.text := by
  have hsplit : l.text.splitOn attackerArgsDelim = l.first.text :: l.segments :=
    splitOn_argsText ArgsDelim.attacker fun u hu => (l.notMem_segments u hu).1
  unfold InOrder
  rw [hsplit]
  refine ⟨fun t ht => ?_, l.segmented_segments⟩
  obtain rfl := Option.some.inj ht
  rw [l.text_first]
  exact l.first.firm_core

/-- An argument is found in the text of a layout where it is found in the layout. -/
lemma ArgsLayout.argIn_text (l : ArgsLayout ArgsDelim.attacker) (name : List UInt8) :
    argIn l.text name = l.args.find? fun a => decide (a.name = name) := by
  have hsplit : l.text.splitOn attackerArgsDelim = l.first.text :: l.segments :=
    splitOn_argsText ArgsDelim.attacker fun u hu => (l.notMem_segments u hu).1
  rw [argIn, hsplit, l.argsOf_segments]

/-- A single argument is in good order if it starts with a name and does not end behind a `=`. -/
lemma inOrder_single {s : List UInt8} (hdelim : attackerArgsDelim ∉ s) (hfirm : Firm s)
    (hclosed : ¬ OpenEnd s) : InOrder s := by
  unfold InOrder
  rw [List.splitOn_eq_singleton hdelim]
  refine ⟨fun t ht => ?_, hclosed, fun u hu => absurd hu List.not_mem_nil⟩
  obtain rfl := Option.some.inj ht
  exact hfirm

/-! ## Rows -/

/-- A row that is split into eight columns, with a known version, a message type that is the
wildcard or from `0` to `34`, and arguments in good order. -/
structure ValidRow (past : Past) (c : RowCall) where
  version : List UInt8
  msgType : List UInt8
  action : List UInt8
  args : List UInt8
  split : ∃ m F, csvParse c.mem c.data c.len = some (m, F) ∧ F.ret.length = attackerRowNumFields ∧
    cstring m (F.ret.getD 3 0) = some version ∧ cstring m (F.ret.getD 4 0) = some msgType ∧
    cstring m (F.ret.getD 6 0) = some action ∧ cstring m (F.ret.getD 7 0) = some args
  version_known : normalizeOfpVerStr version ≠ ofpVerErr
  type_known : TypeInRange (normalizeOfpMsgType past (normalizeOfpVerStr version).toNat msgType)
  args_inOrder : InOrder args

namespace ValidRow

variable {past : Past} {c : RowCall} (row : ValidRow past c)

/-- The version of the rule. -/
def ofpVer : ℤ := normalizeOfpVerStr row.version

/-- The message type of the rule. -/
def ofpType : ℤ := normalizeOfpMsgType past row.ofpVer.toNat row.msgType

/-- What `attacker_add_rule` reads of such a row, in terms of the row. -/
lemma columns : c.columns = some ⟨row.version, row.msgType, row.action,
    some ((argIn row.args (cstr "p")).map Arg.typed),
    some ((argIn row.args (cstr "r")).map Arg.typed)⟩ := by
  obtain ⟨m, F, hcsv, hnum, hversion, htype, haction, hargs⟩ := row.split
  rw [RowCall.columns, hcsv]
  simp only [Option.bind_eq_bind, Option.bind_some, hnum, ne_eq, not_true_eq_false, if_false,
    hversion, htype, haction, argNamed_inOrder hargs row.args_inOrder]

/-- The message type of the row is one that is read. -/
lemma type_ne_err : row.ofpType ≠ ofpMsgTypeErr := by
  have h := row.type_known
  unfold TypeInRange ofpMsgTypeAll at h
  unfold ofpType ofpVer ofpMsgTypeErr
  omega

/-- What a `DROP` row means. -/
lemma means_drop (hact : normalizeActionType row.action = actionIdDrop) :
    c.Means past (.drop row.ofpVer row.ofpType
      (dropProb ((argIn row.args (cstr "p")).map Arg.typed))) := by
  rw [RowCall.means_iff row.columns, Columns.rule]
  have hne : actionIdDrop ≠ actionIdErr := by decide
  simp only [hact, if_neg row.version_known, if_neg hne, if_true, Option.map_some]
  exact if_neg row.type_ne_err

/-- What a `DUP` row means. -/
lemma means_dup (hact : normalizeActionType row.action = actionIdDup) :
    c.Means past
      (if dupCountOf ((argIn row.args (cstr "r")).map Arg.typed) < 1 then .refused
      else .dup row.ofpVer row.ofpType
        (dupCountOf ((argIn row.args (cstr "r")).map Arg.typed))) := by
  rw [RowCall.means_iff row.columns, Columns.rule]
  have hne : actionIdDup ≠ actionIdErr := by decide
  have hne' : actionIdDup ≠ actionIdDrop := by decide
  simp only [hact, if_neg row.version_known, if_neg hne, if_neg hne', if_true, Option.map_some]
  exact if_neg row.type_ne_err

/-- A rule covers at least one cell. -/
lemma exists_covers : ∃ v t, Covers row.ofpVer row.ofpType v t := by
  have hver := (normalizeOfpVerStr_range row.version).resolve_left row.version_known
  change 0 ≤ row.ofpVer ∧ row.ofpVer ≤ 5 at hver
  have htype : TypeInRange row.ofpType := row.type_known
  have hv : ∃ v : Fin 5, row.ofpVer = ofpVerAll ∨ row.ofpVer = v + 1 := by
    rcases eq_or_ne row.ofpVer 0 with h | h
    · exact ⟨0, Or.inl h⟩
    · exact ⟨⟨(row.ofpVer - 1).toNat, by omega⟩, Or.inr (by simp only; omega)⟩
  have ht : ∃ t : Fin 35, row.ofpType = ofpMsgTypeAll ∨ row.ofpType = t := by
    rcases htype with h | h
    · exact ⟨0, Or.inl h⟩
    · exact ⟨⟨row.ofpType.toNat, by omega⟩, Or.inr (by simp only; omega)⟩
  obtain ⟨v, hv⟩ := hv
  obtain ⟨t, ht⟩ := ht
  exact ⟨v, t, hv, ht⟩

end ValidRow

/-- The split of a row that is known by evaluation. -/
lemma RowCall.split_of_eval {c : RowCall} {version msgType action args : List UInt8}
    (h : (csvParse c.mem c.data c.len).map (fun p =>
        (p.2.ret.length, [3, 4, 6, 7].map fun i => cstring p.1 (p.2.ret.getD i 0))) =
      some (8, [some version, some msgType, some action, some args])) :
    ∃ m F, csvParse c.mem c.data c.len = some (m, F) ∧ F.ret.length = attackerRowNumFields ∧
      cstring m (F.ret.getD 3 0) = some version ∧ cstring m (F.ret.getD 4 0) = some msgType ∧
      cstring m (F.ret.getD 6 0) = some action ∧ cstring m (F.ret.getD 7 0) = some args := by
  obtain ⟨p, hp, heq⟩ := Option.map_eq_some_iff.mp h
  simp only [Prod.mk.injEq, List.map_cons, List.cons.injEq] at heq
  obtain ⟨hnum, hversion, htype, haction, hargs, -⟩ := heq
  exact ⟨p.1, p.2, hp, hnum, hversion, htype, haction, hargs⟩

end Mproxy
