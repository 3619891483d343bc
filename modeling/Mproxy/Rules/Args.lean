import Mproxy.Lib.Memory
import Mproxy.Rules.Csv
import Mproxy.Rules.Libc

set_option relaxedAutoImplicit false
set_option autoImplicit false

/-!
# The arguments of a rule

`args.c`: the last column of a row is a list of `name=value` pairs. It is parsed in place, in one
pass from left to right: names and values are terminated where they end, and the blanks around them
are skipped. The first character of a value is skipped unseen.

## Main definitions

* `Mproxy.isInt`, `Mproxy.isFloat`, `Mproxy.argsParse`, `Mproxy.argsFind` — the functions of
  `args.c`.

## Main results

* `Mproxy.argsParse_frame` — a parse that stays inside a region does the same in every larger one.
-/

namespace Mproxy

open Memory

/-- `'='` -/
def equalsSign : UInt8 := 61

/-- `'.'` -/
def dot : UInt8 := 46

/-- `ATTACKER_ARGS_DELIM` -/
def attackerArgsDelim : UInt8 := 38

/-- `is_int` -/
def isInt (v : List UInt8) : Bool := !v.isEmpty && v.all isDigit

/-- The loop of `is_float`, with `dot_count`. -/
def isFloatLoop : List UInt8 → ℤ → ℤ
  | [], dotCount => if dotCount > 1 then -1 else dotCount
  | c :: v, dotCount =>
    if c = dot then isFloatLoop v (dotCount + 1)
    else if isDigit c then isFloatLoop v dotCount
    else -1

/-- `is_float`: `-1` if the string is not a number, `0` for an integer, `1` for a float. -/
def isFloat (v : List UInt8) : ℤ := if v = [] then -1 else isFloatLoop v 0

/-- `arg_node_t`'s `type` and `value`; a string is the pointer to it. -/
inductive ArgValue
  | noval
  | int (i : ℤ)
  | float (f : ℚ)
  | str (s : ℕ)
  deriving DecidableEq

/-- `arg_node_t`; the list is a Lean list. -/
structure ArgNode where
  name : ℕ
  value : ArgValue
  deriving DecidableEq

/-- `while (*b_pos == ' ' || *b_pos == '\t') --b_pos;` from the byte before `p` on; the result is
`b_pos + 1`. -/
def argsTrimBack (m : List UInt8) : ℕ → Option ℕ
  | 0 => none
  | bPos + 1 => do
    let c ← load m bPos
    if isWhitespace c then argsTrimBack m bPos else some (bPos + 1)

/-- `while (*str == ' ' || *str == '\t') ++str;` -/
def argsSkipBlanks (m : List UInt8) (str : ℕ) : Option ℕ :=
  let next := str + ((m.drop str).takeWhile isWhitespace).length
  if next < m.length then some next else none

/-- The `// parse value` part: `eq_pos` is `NULL` or points to the value. -/
def argsValue (m : List UInt8) : Option ℕ → Option ArgValue
  | none => some .noval
  | some eqPos => do
    let v ← cstring m eqPos
    if isFloat v = 1 then some (.float (atof v))
    else if isFloat v = 0 then some (.int (atoi v))
    else some (.str eqPos)

/-- The variables of `args_parse`. -/
structure ArgsState where
  str : ℕ
  namePos : ℕ
  eqPos : Option ℕ
  nodes : List ArgNode

/-- One round of the loop of `args_parse`, and whether it ends with `break`. -/
def argsStep (delim : UInt8) (m : List UInt8) (st : ArgsState) :
    Option (List UInt8 × ArgsState × Bool) := do
  let c ← load m st.str
  if c = delim ∨ c = nul then do
    let bEnd ← argsTrimBack m st.str
    let m ← store m bEnd nul
    let str := if c = delim then st.str + 1 else st.str
    let value ← argsValue m st.eqPos
    let str ← argsSkipBlanks m str
    let c ← load m str
    some (m, ⟨str, str, none, st.nodes ++ [⟨st.namePos, value⟩]⟩, decide (c = nul))
  else if c = equalsSign then do
    let bEnd ← argsTrimBack m st.str
    let m ← store m bEnd nul
    let eqPos ← argsSkipBlanks m (st.str + 1)
    -- the first character of the value is not looked at
    some (m, { st with str := eqPos + 1, eqPos := some eqPos }, false)
  else some (m, { st with str := st.str + 1 }, false)

/-- `while (1)` of `args_parse`. The first argument bounds the number of rounds; every round that is
followed by another one moves `str` towards the end of the region. -/
def argsLoop (delim : UInt8) : ℕ → List UInt8 → ArgsState → Option (List UInt8 × List ArgNode)
  | 0, _, _ => none
  | fuel + 1, m, st => do
    let (m, st, stop) ← argsStep delim m st
    if stop then some (m, st.nodes) else argsLoop delim fuel m st

/-- `args_parse`: the memory behind the call and the nodes. -/
def argsParse (m : List UInt8) (str : ℕ) (delim : UInt8) : Option (List UInt8 × List ArgNode) :=
  argsLoop delim m.length m ⟨str, str, none, []⟩

/-- `args_find` -/
def argsFind (m : List UInt8) : List ArgNode → List UInt8 → Option (Option ArgNode)
  | [], _ => some none
  | node :: nodes, name => do
    let s ← cstring m node.name
    if s = name then some (some node) else argsFind m nodes name

/-! ## Larger regions -/

/-- A value whose string has moved by `n` bytes. -/
def ArgValue.shift (n : ℕ) : ArgValue → ArgValue
  | .str s => .str (n + s)
  | v => v

/-- A node whose strings have moved by `n` bytes. -/
def ArgNode.shift (n : ℕ) (node : ArgNode) : ArgNode := ⟨n + node.name, node.value.shift n⟩

/-- A state whose pointers have moved by `n` bytes. -/
def ArgsState.shift (n : ℕ) (st : ArgsState) : ArgsState :=
  ⟨n + st.str, n + st.namePos, st.eqPos.map (n + ·), st.nodes.map (ArgNode.shift n)⟩

section Frame

variable {m m' : List UInt8} {p q : ℕ} {delim : UInt8} (pre post : List UInt8)

/-- Trimming that stays inside a region does the same inside a larger one. -/
lemma argsTrimBack_frame (h : argsTrimBack m p = some q) :
    argsTrimBack (pre ++ (m ++ post)) (pre.length + p) = some (pre.length + q) := by
  induction p with
  | zero => simp [argsTrimBack] at h
  | succ p ih =>
    simp only [argsTrimBack, Option.bind_eq_bind, Option.bind_eq_some_iff] at h
    obtain ⟨c, hc, h⟩ := h
    rw [← Nat.add_assoc, argsTrimBack, load_frame pre post hc]
    simp only [Option.bind_eq_bind, Option.bind_some]
    split_ifs at h ⊢
    · exact ih h
    · obtain rfl := Option.some.inj h
      rfl

/-- So does skipping blanks. -/
lemma argsSkipBlanks_frame (h : argsSkipBlanks m p = some q) :
    argsSkipBlanks (pre ++ (m ++ post)) (pre.length + p) = some (pre.length + q) := by
  unfold argsSkipBlanks at h ⊢
  simp only at h ⊢
  split_ifs at h with hlt
  obtain rfl := Option.some.inj h
  have hp : p ≤ m.length := by omega
  have hdrop : (pre ++ (m ++ post)).drop (pre.length + p) = m.drop p ++ post := by
    rw [List.drop_append, List.drop_eq_nil_of_le (by omega), Nat.add_sub_cancel_left,
      List.drop_append_of_le_length hp, List.nil_append]
  have htake : (m.drop p ++ post).takeWhile isWhitespace = (m.drop p).takeWhile isWhitespace := by
    rw [List.takeWhile_append, if_neg]
    rw [List.length_drop]
    omega
  rw [hdrop, htake, if_pos, Nat.add_assoc]
  simp only [List.length_append]
  omega

/-- So does reading a value; its string has moved with the region. -/
lemma argsValue_frame {eqPos : Option ℕ} {v : ArgValue} (h : argsValue m eqPos = some v) :
    argsValue (pre ++ (m ++ post)) (eqPos.map (pre.length + ·)) = some (v.shift pre.length) := by
  cases eqPos with
  | none =>
    obtain rfl := Option.some.inj h
    rfl
  | some e =>
    simp only [argsValue, Option.bind_eq_bind, Option.bind_eq_some_iff] at h
    obtain ⟨s, hs, h⟩ := h
    simp only [Option.map_some, argsValue, cstring_frame pre post hs, Option.bind_eq_bind,
      Option.bind_some]
    split_ifs at h ⊢ <;> obtain rfl := Option.some.inj h <;> rfl

/-- A round that stays inside a region does the same in every larger one. -/
lemma argsStep_frame {st st' : ArgsState} {stop : Bool}
    (h : argsStep delim m st = some (m', st', stop)) :
    argsStep delim (pre ++ (m ++ post)) (st.shift pre.length) =
      some (pre ++ (m' ++ post), st'.shift pre.length, stop) := by
  simp only [argsStep, Option.bind_eq_bind, Option.bind_eq_some_iff] at h
  obtain ⟨c, hc, h⟩ := h
  simp only [argsStep, Option.bind_eq_bind]
  rw [ArgsState.shift, load_frame pre post hc, Option.bind_some]
  by_cases hend : c = delim ∨ c = nul
  · rw [if_pos hend] at h ⊢
    simp only [Option.bind_eq_some_iff] at h
    obtain ⟨bEnd, hb, m₁, hm₁, value, hv, str, hs, d, hd, h⟩ := h
    simp only [Option.some.injEq, Prod.mk.injEq] at h
    obtain ⟨rfl, rfl, rfl⟩ := h
    have hstr : (if c = delim then pre.length + st.str + 1 else pre.length + st.str) =
        pre.length + (if c = delim then st.str + 1 else st.str) := by
      split_ifs <;> omega
    rw [argsTrimBack_frame pre post hb, Option.bind_some, store_frame pre post hm₁,
      Option.bind_some, argsValue_frame pre post hv, Option.bind_some, hstr,
      argsSkipBlanks_frame pre post hs, Option.bind_some, load_frame pre post hd, Option.bind_some]
    simp [ArgsState.shift, ArgNode.shift]
  · rw [if_neg hend] at h ⊢
    by_cases heq : c = equalsSign
    · rw [if_pos heq] at h ⊢
      simp only [Option.bind_eq_some_iff] at h
      obtain ⟨bEnd, hb, m₁, hm₁, eqPos, hs, h⟩ := h
      simp only [Option.some.injEq, Prod.mk.injEq] at h
      obtain ⟨rfl, rfl, rfl⟩ := h
      rw [argsTrimBack_frame pre post hb, Option.bind_some, store_frame pre post hm₁,
        Option.bind_some, Nat.add_assoc, argsSkipBlanks_frame pre post hs, Option.bind_some]
      rfl
    · rw [if_neg heq] at h ⊢
      simp only [Option.some.injEq, Prod.mk.injEq] at h
      obtain ⟨rfl, rfl, rfl⟩ := h
      rfl

/-- More rounds do not change what the loop returns. -/
lemma argsLoop_fuel {fuel fuel' : ℕ} {st : ArgsState} {r : List UInt8 × List ArgNode}
    (h : argsLoop delim fuel m st = some r) (hle : fuel ≤ fuel') :
    argsLoop delim fuel' m st = some r := by
  induction fuel generalizing fuel' m st with
  | zero => simp [argsLoop] at h
  | succ fuel ih =>
    obtain ⟨fuel', rfl⟩ : ∃ k, fuel' = k + 1 := ⟨fuel' - 1, by omega⟩
    simp only [argsLoop, Option.bind_eq_bind, Option.bind_eq_some_iff] at h ⊢
    obtain ⟨⟨m₁, st₁, stop⟩, hstep, h⟩ := h
    refine ⟨_, hstep, ?_⟩
    cases stop with
    | true => exact h
    | false => exact ih h (by omega)

/-- A run of the loop that stays inside a region does the same in every larger one. -/
lemma argsLoop_frame {fuel : ℕ} {st : ArgsState} {nodes : List ArgNode}
    (h : argsLoop delim fuel m st = some (m', nodes)) :
    argsLoop delim fuel (pre ++ (m ++ post)) (st.shift pre.length) =
      some (pre ++ (m' ++ post), nodes.map (ArgNode.shift pre.length)) := by
  induction fuel generalizing m st with
  | zero => simp [argsLoop] at h
  | succ fuel ih =>
    simp only [argsLoop, Option.bind_eq_bind, Option.bind_eq_some_iff] at h
    obtain ⟨⟨m₁, st₁, stop⟩, hstep, h⟩ := h
    simp only [argsLoop, argsStep_frame pre post hstep, Option.bind_eq_bind, Option.bind_some]
    cases stop with
    | true =>
      obtain ⟨rfl, rfl⟩ : m₁ = m' ∧ st₁.nodes = nodes := by simpa using h
      rfl
    | false => exact ih h

/-- **A parse that stays inside a region does the same in every larger one**, wherever the region
lies in it. -/
theorem argsParse_frame {str : ℕ} {nodes : List ArgNode}
    (h : argsParse m str delim = some (m', nodes)) :
    argsParse (pre ++ (m ++ post)) (pre.length + str) delim =
      some (pre ++ (m' ++ post), nodes.map (ArgNode.shift pre.length)) :=
  argsLoop_fuel (argsLoop_frame pre post h) (by simp only [List.length_append]; omega)

/-- Looking for a name inside a region gives the same in every larger one. -/
lemma argsFind_frame {nodes : List ArgNode} {name : List UInt8} {r : Option ArgNode}
    (h : argsFind m nodes name = some r) :
    argsFind (pre ++ (m ++ post)) (nodes.map (ArgNode.shift pre.length)) name =
      some (r.map (ArgNode.shift pre.length)) := by
  induction nodes with
  | nil =>
    obtain rfl := Option.some.inj h
    rfl
  | cons node nodes ih =>
    simp only [argsFind, Option.bind_eq_bind, Option.bind_eq_some_iff] at h
    obtain ⟨s, hs, h⟩ := h
    have hs' := cstring_frame pre post hs
    simp only [List.map_cons, argsFind, Option.bind_eq_bind]
    rw [show (node.shift pre.length).name = pre.length + node.name from rfl, hs', Option.bind_some]
    split_ifs at h ⊢
    · obtain rfl := Option.some.inj h
      rfl
    · exact ih h

end Frame

end Mproxy
