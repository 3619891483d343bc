import Mathlib.Data.List.Forall2
import Mproxy.Rules.Args

set_option relaxedAutoImplicit false
set_option autoImplicit false

/-!
# What the arguments say

A list of arguments is a string whose segments, between its delimiters, each are an argument: a
name, and a value if there is a `=`. Here is what a segment says by itself, and that `args_parse`,
which writes its terminators into the string it still reads, makes of every list in good order a
list of nodes that say the same.

## Main definitions

* `Mproxy.Arg`, `Mproxy.argOf` — an argument, and the one that a text stands for.
* `Mproxy.ArgNode.Is` — a node of `args_parse` stands for an argument.
* `Mproxy.argsOf` — the arguments of a list that is given by its segments.
* `Mproxy.Segmented` — the lists in good order.
* `Mproxy.ArgsRuns` — the loop of `args_parse` gets to its end.

## Main results

* `Mproxy.argsParse_eq_some` — a parse is a run of the loop to its end.
* `Mproxy.argsRuns_segments` — what is parsed of a list in good order.
-/

namespace Mproxy

open Memory

/-- A byte that can delimit arguments: it has no other meaning in a list of arguments. -/
structure ArgsDelim where
  val : UInt8
  ne_nul : val ≠ nul
  ne_equals : val ≠ equalsSign
  not_blank : isWhitespace val = false

/-- The delimiter of the arguments of a rule. -/
def ArgsDelim.attacker : ArgsDelim := ⟨attackerArgsDelim, by decide, by decide, by decide⟩

/-! ## The text of an argument -/

/-- An argument: a name, and the text of a value unless it is a bare name. -/
structure Arg where
  name : List UInt8
  value : Option (List UInt8)
  deriving DecidableEq

/-- A text without the blanks at its end. -/
def trimEnd (s : List UInt8) : List UInt8 := s.rdropWhile isWhitespace

/-- What was read of an argument: its name if a `=` was met, what was read since, and whether the
first character of a value is still to come. -/
structure ArgScan where
  name : Option (List UInt8)
  token : List UInt8
  gap : Bool

/-- One more character. A character that starts a value is not looked at. -/
def ArgScan.next (sc : ArgScan) (c : UInt8) : ArgScan :=
  if sc.gap then if isWhitespace c then sc else ⟨sc.name, [c], false⟩
  else if c = equalsSign then ⟨some (sc.name.getD (trimEnd sc.token)), [], true⟩
  else ⟨sc.name, sc.token ++ [c], false⟩

/-- What was read of a text. -/
def scanOf (t : List UInt8) : ArgScan := t.foldl ArgScan.next ⟨none, [], false⟩

/-- The argument that was read. -/
def ArgScan.arg (sc : ArgScan) : Arg :=
  match sc.name with
  | none => ⟨trimEnd sc.token, none⟩
  | some name => ⟨name, some (trimEnd sc.token)⟩

/-- The argument that a text stands for. -/
def argOf (t : List UInt8) : Arg := (scanOf t).arg

/-- The text ends behind a `=`, with nothing but blanks behind it. -/
def OpenEnd (t : List UInt8) : Prop := (scanOf t).gap = true

instance (t : List UInt8) : Decidable (OpenEnd t) := inferInstanceAs (Decidable (_ = true))

/-- The text starts with a character of a name. -/
def Firm (t : List UInt8) : Prop := ∃ c ∈ t.head?, isWhitespace c = false ∧ c ≠ equalsSign

/-- The segments behind the first one that `args_parse` makes nodes of: it stops before a last
segment that is blank. -/
def yielding : List (List UInt8) → List (List UInt8)
  | [] => []
  | u :: us => if us = [] ∧ body u = [] then [] else u :: yielding us

/-- The arguments of a list of segments. The blanks in front of a segment do not count, but for
those of the first one. -/
def argsOf : List (List UInt8) → List Arg
  | [] => []
  | t :: us => argOf t :: (yielding us).map fun u => argOf (body u)

/-- A list of segments in good order: none ends behind a `=`, and where there are blanks behind a
delimiter a name follows them. -/
def Segmented : List (List UInt8) → Prop
  | [] => True
  | t :: us => ¬ OpenEnd t ∧
    ∀ u ∈ yielding us, ¬ OpenEnd (body u) ∧ (lead u = [] ∨ Firm (body u))

/-- The string with these segments. -/
def argsText (delim : UInt8) (t : List UInt8) : List (List UInt8) → List UInt8
  | [] => t
  | u :: us => t ++ delim :: argsText delim u us

/-! ## What a node says -/

/-- A value of `args_parse` stands for a text: an integer for digits, a float for digits and one
dot, and a string for everything else. -/
def ArgValue.Is (m v : List UInt8) : ArgValue → Prop
  | .noval => False
  | .int i => isFloat v = 0 ∧ i = atoi v
  | .float f => isFloat v = 1 ∧ f = atof v
  | .str p => isFloat v ≠ 0 ∧ isFloat v ≠ 1 ∧ cstring m p = some v

/-- A node of `args_parse` stands for an argument. -/
def ArgNode.Is (m : List UInt8) (node : ArgNode) (a : Arg) : Prop :=
  cstring m node.name = some a.name ∧
    match a.value with
    | none => node.value = .noval
    | some v => node.value.Is m v

/-- More memory behind a string does not change it. -/
lemma cstring_append {m s : List UInt8} {p : ℕ} (post : List UInt8) (h : cstring m p = some s) :
    cstring (m ++ post) p = some s := by
  have := cstring_frame [] post h
  rwa [List.nil_append, List.length_nil, Nat.zero_add] at this

/-- What a node stands for does not depend on what lies behind its strings. -/
lemma ArgNode.Is.append {m : List UInt8} {node : ArgNode} {a : Arg} (h : node.Is m a)
    (post : List UInt8) : node.Is (m ++ post) a := by
  obtain ⟨name, value⟩ := node
  obtain ⟨aname, avalue⟩ := a
  obtain ⟨hname, hvalue⟩ := h
  refine ⟨cstring_append post hname, ?_⟩
  cases avalue with
  | none => exact hvalue
  | some v =>
    cases value with
    | noval => exact hvalue
    | int i => exact hvalue
    | float f => exact hvalue
    | str p =>
      obtain ⟨h₀, h₁, hp⟩ := hvalue
      exact ⟨h₀, h₁, cstring_append post hp⟩

/-! ## Runs of the loop -/

section Runs

variable {delim : UInt8} {m m' : List UInt8} {st st' : ArgsState} {r : List UInt8 × List ArgNode}

/-- The loop of `args_parse` gets to its end. -/
def ArgsRuns (delim : UInt8) (m : List UInt8) (st : ArgsState) (r : List UInt8 × List ArgNode) :
    Prop :=
  ∃ fuel, argsLoop delim fuel m st = some r

/-- A round that goes on leaves the loop with the rest to do. -/
lemma argsRuns_continue (h : argsStep delim m st = some (m', st', false)) :
    ArgsRuns delim m st r ↔ ArgsRuns delim m' st' r := by
  constructor
  · rintro ⟨fuel, hrun⟩
    cases fuel with
    | zero => cases hrun
    | succ fuel =>
      rw [argsLoop, h] at hrun
      exact ⟨fuel, hrun⟩
  · rintro ⟨fuel, hrun⟩
    refine ⟨fuel + 1, ?_⟩
    rw [argsLoop, h]
    exact hrun

/-- A round that stops ends the loop. -/
lemma argsRuns_stop (h : argsStep delim m st = some (m', st', true)) :
    ArgsRuns delim m st r ↔ r = (m', st'.nodes) := by
  constructor
  · rintro ⟨fuel, hrun⟩
    cases fuel with
    | zero => cases hrun
    | succ fuel =>
      rw [argsLoop, h] at hrun
      exact (Option.some.inj hrun).symm
  · rintro rfl
    refine ⟨1, ?_⟩
    rw [argsLoop, h]
    rfl

/-- A round that leaves the memory does not end the loop. -/
lemma not_argsRuns (h : argsStep delim m st = none) : ¬ ArgsRuns delim m st r := by
  rintro ⟨fuel, hrun⟩
  cases fuel with
  | zero => cases hrun
  | succ fuel =>
    rw [argsLoop, h] at hrun
    cases hrun

/-- Where trimming backwards stops: behind a byte that is no blank, with blanks from there on. -/
lemma argsTrimBack_spec {p b : ℕ} (h : argsTrimBack m p = some b) :
    b ≤ p ∧ (∀ q, b ≤ q → q < p → ∃ w, load m q = some w ∧ isWhitespace w = true) ∧
      ∃ w, loadBefore m b = some w ∧ isWhitespace w = false := by
  induction p with
  | zero => cases h
  | succ p ih =>
    simp only [argsTrimBack, Option.bind_eq_bind, Option.bind_eq_some_iff] at h
    obtain ⟨c, hc, h⟩ := h
    split_ifs at h with hblank
    · obtain ⟨hle, hall, hstop⟩ := ih h
      refine ⟨by omega, fun q hq hlt => ?_, hstop⟩
      rcases Nat.lt_succ_iff_lt_or_eq.mp hlt with hlt | rfl
      · exact hall q hq hlt
      · exact ⟨c, hc, hblank⟩
    · obtain rfl := Option.some.inj h
      exact ⟨le_rfl, fun q hq hlt => by omega, c, hc, by simpa using hblank⟩

/-- Where skipping blanks stops: at a byte that is none. -/
lemma argsSkipBlanks_spec {p q : ℕ} (h : argsSkipBlanks m p = some q) :
    p ≤ q ∧ ∃ c, load m q = some c ∧ isWhitespace c = false := by
  unfold argsSkipBlanks at h
  simp only at h
  split_ifs at h with hlt
  obtain rfl := Option.some.inj h
  refine ⟨Nat.le_add_right _ _, ?_⟩
  change p + (lead (m.drop p)).length < m.length at hlt
  have hm : m = m.take p ++ (lead (m.drop p) ++ body (m.drop p)) := by
    rw [lead_append_body, List.take_append_drop]
  have hlen : (m.take p ++ lead (m.drop p)).length = p + (lead (m.drop p)).length := by
    rw [List.length_append, List.length_take_of_le (by omega)]
  cases hbody : body (m.drop p) with
  | nil =>
    have := congrArg List.length hm
    rw [hbody, List.append_nil, hlen] at this
    omega
  | cons c t =>
    refine ⟨c, ?_, body_head hbody⟩
    change load m (p + (lead (m.drop p)).length) = some c
    rw [hbody, ← List.append_assoc] at hm
    have := load_seam (b := c) (B := t) hlen
    rwa [← hm] at this

/-- What a round of the loop did: it ended a segment, met a `=`, or went on in a token. -/
inductive Round (delim : UInt8) (m : List UInt8) (st : ArgsState) :
    List UInt8 → ArgsState → Bool → Prop
  | segment {c e : UInt8} {b str : ℕ} {m' : List UInt8} {value : ArgValue}
      (hc : load m st.str = some c) (hend : c = delim ∨ c = nul)
      (htrim : argsTrimBack m st.str = some b) (hstore : store m b nul = some m')
      (hvalue : argsValue m' st.eqPos = some value)
      (hskip : argsSkipBlanks m' (if c = delim then st.str + 1 else st.str) = some str)
      (he : load m' str = some e) :
      Round delim m st m' ⟨str, str, none, st.nodes ++ [⟨st.namePos, value⟩]⟩ (decide (e = nul))
  | equals {b e : ℕ} {m' : List UInt8} (hc : load m st.str = some equalsSign)
      (hdelim : equalsSign ≠ delim) (htrim : argsTrimBack m st.str = some b)
      (hstore : store m b nul = some m') (hskip : argsSkipBlanks m' (st.str + 1) = some e) :
      Round delim m st m' { st with str := e + 1, eqPos := some e } false
  | token {c : UInt8} (hc : load m st.str = some c)
      (hother : c ≠ delim ∧ c ≠ nul ∧ c ≠ equalsSign) :
      Round delim m st m { st with str := st.str + 1 } false

/-- What a round of the loop did, read off its result. -/
lemma argsStep_round {stop : Bool} (h : argsStep delim m st = some (m', st', stop)) :
    Round delim m st m' st' stop := by
  simp only [argsStep, Option.bind_eq_bind, Option.bind_eq_some_iff] at h
  obtain ⟨c, hc, h⟩ := h
  by_cases hend : c = delim ∨ c = nul
  · rw [if_pos hend] at h
    simp only [Option.bind_eq_some_iff] at h
    obtain ⟨b, htrim, m₁, hstore, value, hvalue, str, hskip, e, he, h⟩ := h
    simp only [Option.some.injEq, Prod.mk.injEq] at h
    obtain ⟨rfl, rfl, rfl⟩ := h
    exact .segment hc hend htrim hstore hvalue hskip he
  · rw [if_neg hend] at h
    obtain ⟨hdelim, hnul⟩ := not_or.mp hend
    by_cases heq : c = equalsSign
    · subst heq
      rw [if_pos rfl] at h
      simp only [Option.bind_eq_some_iff] at h
      obtain ⟨b, htrim, m₁, hstore, e, hskip, h⟩ := h
      simp only [Option.some.injEq, Prod.mk.injEq] at h
      obtain ⟨rfl, rfl, rfl⟩ := h
      exact .equals hc hdelim htrim hstore hskip
    · rw [if_neg heq] at h
      simp only [Option.some.injEq, Prod.mk.injEq] at h
      obtain ⟨rfl, rfl, rfl⟩ := h
      exact .token hc ⟨hdelim, hnul, heq⟩

/-- What is read behind a write. -/
lemma load_store {b p : ℕ} {c : UInt8} (h : store m b c = some m') :
    load m' p = if p = b then some c else load m p := by
  unfold store at h
  split_ifs at h with hlt
  obtain rfl := Option.some.inj h
  unfold load
  rw [List.getElem?_set]
  split_ifs with h₁ h₂ h₂
  · rfl
  · exact absurd h₁.symm h₂
  · exact absurd h₂.symm h₁
  · rfl

/-- A round does not change the length of the memory. -/
lemma Round.length {stop : Bool} (h : Round delim m st m' st' stop) : m'.length = m.length := by
  cases h with
  | segment _ _ _ hstore => exact length_store hstore
  | equals _ _ _ hstore => exact length_store hstore
  | token => rfl

/-- A round that is followed by another one gets on. -/
lemma Round.advances (h : Round delim m st m' st' false) : st.str < st'.str := by
  generalize hstop : false = stop at h
  cases h with
  | @segment c e b str _ value hc hend htrim hstore hvalue hskip he =>
    have hle := (argsSkipBlanks_spec hskip).1
    split_ifs at hskip hle with hdelim
    · exact hle
    · -- the terminator is where the loop ends
      exfalso
      obtain rfl := hend.resolve_left hdelim
      have hnul : load m' st.str = some nul := by
        rw [load_store hstore]
        split_ifs
        · rfl
        · exact hc
      have hdrop : m'.drop st.str = nul :: m'.drop (st.str + 1) := by
        obtain ⟨hlt, hget⟩ := List.getElem?_eq_some_iff.mp hnul
        rw [List.drop_eq_getElem_cons hlt, hget]
      unfold argsSkipBlanks at hskip
      rw [hdrop, List.takeWhile_cons_of_neg (by decide)] at hskip
      simp only [List.length_nil, Nat.add_zero] at hskip
      split_ifs at hskip
      obtain rfl := Option.some.inj hskip
      rw [hnul] at he
      obtain rfl := Option.some.inj he
      exact absurd hstop (by decide)
  | equals _ _ _ _ hskip =>
    have := (argsSkipBlanks_spec hskip).1
    simp only
    omega
  | token => exact Nat.lt_succ_self _

/-- A byte that is no blank stays as it is once the loop is behind it, or at it with a blank before
it: terminators are written behind the last byte that is no blank. -/
lemma Round.keeps {stop : Bool} (h : Round delim m st m' st' stop) {p : ℕ} {c : UInt8}
    (hc : load m p = some c) (hblank : isWhitespace c = false)
    (hp : p < st.str ∨ p = st.str ∧ ∃ w, loadBefore m p = some w ∧ isWhitespace w = true) :
    load m' p = some c := by
  have hkeep : ∀ {b m₁}, argsTrimBack m st.str = some b → store m b nul = some m₁ →
      load m₁ p = some c := by
    intro b m₁ htrim hstore
    obtain ⟨hle, hall, w, hw, hstop⟩ := argsTrimBack_spec htrim
    have hne : p ≠ b := by
      rintro rfl
      rcases hp with hlt | ⟨-, w', hw', hblank'⟩
      · obtain ⟨w', hw', hblank'⟩ := hall p le_rfl hlt
        rw [hc] at hw'
        obtain rfl := Option.some.inj hw'
        rw [hblank] at hblank'
        exact Bool.false_ne_true hblank'
      · rw [hw] at hw'
        obtain rfl := Option.some.inj hw'
        rw [hstop] at hblank'
        exact Bool.false_ne_true hblank'
    rw [load_store hstore, if_neg hne]
    exact hc
  cases h with
  | segment _ _ htrim hstore => exact hkeep htrim hstore
  | equals _ _ htrim hstore => exact hkeep htrim hstore
  | token => exact hc

/-- More rounds than bytes are left do not help. -/
lemma argsLoop_rounds {fuel : ℕ} (hfuel : m.length ≤ fuel + st.str)
    (h : argsLoop delim fuel m st = none) (fuel' : ℕ) : argsLoop delim fuel' m st = none := by
  induction fuel generalizing fuel' m st with
  | zero =>
    have hload : load m st.str = none := List.getElem?_eq_none (by omega)
    cases fuel' with
    | zero => rfl
    | succ fuel' =>
      rw [argsLoop, argsStep, hload]
      rfl
  | succ fuel ih =>
    cases fuel' with
    | zero => rfl
    | succ fuel' =>
      rw [argsLoop] at h ⊢
      cases hstep : argsStep delim m st with
      | none => rfl
      | some p =>
        obtain ⟨m', st', stop⟩ := p
        rw [hstep] at h
        cases stop with
        | true => exact h
        | false =>
          have hround := argsStep_round hstep
          have hlt := hround.advances
          have hlen := hround.length
          exact ih (by omega) h fuel'

/-- A parse is a run of the loop to its end. -/
lemma argsParse_eq_some {str : ℕ} :
    argsParse m str delim = some r ↔ ArgsRuns delim m ⟨str, str, none, []⟩ r := by
  refine ⟨fun h => ⟨_, h⟩, fun ⟨fuel, h⟩ => ?_⟩
  cases hparse : argsParse m str delim with
  | none =>
    rw [argsLoop_rounds (Nat.le_add_right _ _) hparse fuel] at h
    cases h
  | some r' =>
    have h₁ := argsLoop_fuel hparse (Nat.le_max_left m.length fuel)
    have h₂ := argsLoop_fuel h (Nat.le_max_right m.length fuel)
    rw [← h₁, h₂]

end Runs

/-! ## Texts -/

/-- Trimming backwards from the end of these bytes stops there. -/
def EndsFirm (A : List UInt8) : Prop := ∃ y ∈ A.getLast?, isWhitespace y = false

/-- Trimming depends on the last byte only. -/
lemma EndsFirm.append {A B : List UInt8} (hB : EndsFirm B) : EndsFirm (A ++ B) := by
  obtain ⟨y, hy, hblank⟩ := hB
  refine ⟨y, ?_, hblank⟩
  rw [List.getLast?_append]
  simp only [Option.mem_def] at hy ⊢
  rw [hy]
  rfl

/-- A text is itself without the blanks at its end, and blanks. -/
lemma exists_trimEnd (s : List UInt8) : ∃ ws, s = trimEnd s ++ ws ∧ Blank ws :=
  ⟨s.rtakeWhile isWhitespace, List.rdropWhile_append_rtakeWhile.symm,
    fun _ hc => List.mem_rtakeWhile_imp hc⟩

/-- A text that starts with no blank is not trimmed away. -/
lemma endsFirm_trimEnd {s : List UInt8} (h : ∃ c ∈ s.head?, isWhitespace c = false) :
    EndsFirm (trimEnd s) := by
  obtain ⟨c, hc, hblank⟩ := h
  have hne : trimEnd s ≠ [] := by
    intro hnil
    rw [trimEnd, List.rdropWhile_eq_nil_iff] at hnil
    have := hnil c (List.mem_of_mem_head? hc)
    rw [hblank] at this
    exact Bool.false_ne_true this
  exact ⟨_, List.getLast?_eq_some_getLast hne,
    by simpa [trimEnd] using List.rdropWhile_last_not isWhitespace s hne⟩

/-- Where trimming a text backwards stops, if something before it or the text itself stops it. -/
lemma EndsFirm.append_trimEnd {A s : List UInt8}
    (h : EndsFirm A ∨ ∃ c ∈ s.head?, isWhitespace c = false) : EndsFirm (A ++ trimEnd s) := by
  by_cases hnil : trimEnd s = []
  · rw [hnil, List.append_nil]
    rcases h with h | h
    · exact h
    · obtain ⟨y, hy, -⟩ := endsFirm_trimEnd h
      rw [hnil] at hy
      cases hy
  · exact EndsFirm.append ⟨_, List.getLast?_eq_some_getLast hnil,
      by simpa [trimEnd] using List.rdropWhile_last_not isWhitespace s hnil⟩

/-- Trimming adds no character. -/
lemma notMem_trimEnd {s : List UInt8} {c : UInt8} (h : c ∉ s) : c ∉ trimEnd s := by
  obtain ⟨ws, hws, -⟩ := exists_trimEnd s
  intro hc
  apply h
  rw [hws]
  exact List.mem_append_left ws hc

/-- A text that ends behind a `=`, split there. -/
lemma openEnd_split {sc : ArgScan} (t : List UInt8) (hsc : sc.gap = false)
    (h : (t.foldl ArgScan.next sc).gap = true) : ∃ t' g, t = t' ++ equalsSign :: g ∧ Blank g ∧
      (t'.foldl ArgScan.next sc).gap = false := by
  induction t using List.reverseRecOn with
  | nil =>
    rw [List.foldl_nil, hsc] at h
    cases h
  | append_singleton t c ih =>
    rw [List.foldl_append, List.foldl_cons, List.foldl_nil, ArgScan.next] at h
    by_cases hgap : (t.foldl ArgScan.next sc).gap = true
    · rw [if_pos hgap] at h
      by_cases hblank : isWhitespace c = true
      · obtain ⟨t', g, rfl, hg, ht'⟩ := ih hgap
        refine ⟨t', g ++ [c], by simp, fun d hd => ?_, ht'⟩
        rcases List.mem_append.mp hd with hd | hd
        · exact hg d hd
        · rwa [List.mem_singleton.mp hd]
      · rw [if_neg hblank] at h
        cases h
    · rw [if_neg hgap] at h
      by_cases heq : c = equalsSign
      · exact ⟨t, [], by rw [heq], by simp [Blank], by simpa using hgap⟩
      · rw [if_neg heq] at h
        cases h

/-- Blanks do not end a gap. -/
lemma foldl_next_blank {name : Option (List UInt8)} {g : List UInt8} (hg : Blank g) :
    g.foldl ArgScan.next ⟨name, [], true⟩ = ⟨name, [], true⟩ := by
  induction g with
  | nil => rfl
  | cons c g ih =>
    rw [List.foldl_cons, ArgScan.next, if_pos rfl, if_pos (hg c List.mem_cons_self)]
    exact ih fun d hd => hg d (List.mem_cons_of_mem c hd)

/-- What a gap that ends is followed by. -/
lemma exists_of_gap {name : Option (List UInt8)} {t : List UInt8}
    (h : (t.foldl ArgScan.next ⟨name, [], true⟩).gap = false) :
    ∃ g c t', t = g ++ c :: t' ∧ Blank g ∧ isWhitespace c = false ∧
      t.foldl ArgScan.next ⟨name, [], true⟩ = t'.foldl ArgScan.next ⟨name, [c], false⟩ := by
  induction t with
  | nil => cases h
  | cons c t ih =>
    rw [List.foldl_cons, ArgScan.next, if_pos rfl] at h ⊢
    by_cases hblank : isWhitespace c = true
    · rw [if_pos hblank] at h ⊢
      obtain ⟨g, d, t', rfl, hg, hd, hfold⟩ := ih h
      exact ⟨c :: g, d, t', rfl, List.forall_mem_cons.mpr ⟨hblank, hg⟩, hd, hfold⟩
    · rw [if_neg hblank]
      exact ⟨[], c, t, rfl, by simp [Blank], by simpa using hblank, rfl⟩

/-! ## Scanning a segment -/

section Scan

variable {delim : UInt8} {Y Z R : List UInt8}

/-- Trimming stops in front of the blanks. -/
lemma argsTrimBack_firm (hZ : EndsFirm Z) {ws : List UInt8} (hws : Blank ws) :
    argsTrimBack (Z ++ (ws ++ R)) (Z.length + ws.length) = some Z.length := by
  induction ws using List.reverseRecOn generalizing R with
  | nil =>
    obtain ⟨y, hy, hblank⟩ := hZ
    obtain ⟨Z, rfl⟩ := List.getLast?_eq_some_iff.mp hy
    rw [List.length_nil, Nat.add_zero, List.length_append, List.length_singleton, argsTrimBack,
      List.append_assoc, List.singleton_append, load_seam rfl]
    simp [hblank]
  | append_singleton ws w ih =>
    have hw : isWhitespace w = true := hws w (by simp)
    rw [List.length_append, List.length_singleton, ← Nat.add_assoc, argsTrimBack,
      List.append_assoc ws, List.singleton_append, ← List.append_assoc Z,
      load_seam List.length_append]
    simp only [Option.bind_eq_bind, Option.bind_some, hw, if_true]
    rw [List.append_assoc]
    exact ih fun c hc => hws c (List.mem_append_left _ hc)

/-- Skipping stops behind the blanks. -/
lemma argsSkipBlanks_seam {g : List UInt8} (hg : Blank g) {c : UInt8}
    (hc : isWhitespace c = false) :
    argsSkipBlanks (Y ++ (g ++ c :: R)) Y.length = some (Y.length + g.length) := by
  unfold argsSkipBlanks
  have htake : (g ++ c :: R).takeWhile isWhitespace = g := by
    rw [List.takeWhile_append_of_pos hg, List.takeWhile_cons_of_neg (by simp [hc]), List.append_nil]
  simp only [List.drop_left, htake]
  rw [if_pos]
  simp only [List.length_append, List.length_cons]
  omega

/-- Blanks and the byte behind them, with a terminator over the first of these bytes. -/
def terminated (ws : List UInt8) (e : UInt8) : List UInt8 := nul :: (ws ++ [e]).tail

/-- The terminator does not change the length. -/
@[simp] lemma length_terminated (ws : List UInt8) (e : UInt8) :
    (terminated ws e).length = ws.length + 1 := by
  simp [terminated]

/-- The write of the terminator, in the middle of the memory. -/
lemma store_terminated (ws : List UInt8) (e : UInt8) :
    store (Z ++ (ws ++ e :: R)) Z.length nul = some (Z ++ (terminated ws e ++ R)) := by
  cases ws with
  | nil => exact store_seam rfl
  | cons w ws =>
    rw [List.cons_append, store_seam rfl]
    simp [terminated]

/-- The last of these bytes is a terminator or stays as it is. -/
lemma terminated_last (ws : List UInt8) (e : UInt8) :
    ∃ X e', terminated ws e = X ++ [e'] ∧ X.length = ws.length ∧ (e' = e ∨ e' = nul) := by
  cases ws with
  | nil => exact ⟨[], nul, rfl, rfl, Or.inr rfl⟩
  | cons w ws => exact ⟨nul :: ws, e, rfl, rfl, Or.inl rfl⟩

/-- The round at a `=`. -/
lemma argsStep_equals (hdelim : equalsSign ≠ delim) (hZ : EndsFirm Z) {ws g : List UInt8}
    (hws : Blank ws) (hg : Blank g) {c : UInt8} (hc : isWhitespace c = false) {st : ArgsState}
    (hstr : st.str = Z.length + ws.length) :
    argsStep delim (Z ++ (ws ++ equalsSign :: (g ++ c :: R))) st =
      some (Z ++ (terminated ws equalsSign ++ (g ++ c :: R)),
        { st with
          str := Z.length + ws.length + 1 + g.length + 1
          eqPos := some (Z.length + ws.length + 1 + g.length) }, false) := by
  have hload : load (Z ++ (ws ++ equalsSign :: (g ++ c :: R))) (Z.length + ws.length) =
      some equalsSign := by
    rw [← List.append_assoc]
    exact load_seam List.length_append
  have hskip := argsSkipBlanks_seam (Y := Z ++ terminated ws equalsSign) (R := R) hg hc
  have hlen : (Z ++ terminated ws equalsSign).length = Z.length + ws.length + 1 := by
    rw [List.length_append, length_terminated, Nat.add_assoc]
  have hne : ¬ (equalsSign = delim ∨ equalsSign = nul) := not_or.mpr ⟨hdelim, by decide⟩
  rw [List.append_assoc, hlen] at hskip
  rw [argsStep, hstr, hload]
  simp only [Option.bind_eq_bind, Option.bind_some, if_neg hne, if_true, argsTrimBack_firm hZ hws,
    store_terminated, hskip]

/-- The round at the end of a segment. -/
lemma argsStep_segment (hZ : EndsFirm Z) {ws : List UInt8} (hws : Blank ws) {b : UInt8}
    (hb : b = delim ∨ b = nul) {st : ArgsState} (hstr : st.str = Z.length + ws.length)
    {value : ArgValue} {str : ℕ} {e : UInt8}
    (hvalue : argsValue (Z ++ (terminated ws b ++ R)) st.eqPos = some value)
    (hskip : argsSkipBlanks (Z ++ (terminated ws b ++ R))
      (if b = delim then st.str + 1 else st.str) = some str)
    (he : load (Z ++ (terminated ws b ++ R)) str = some e) :
    argsStep delim (Z ++ (ws ++ b :: R)) st =
      some (Z ++ (terminated ws b ++ R), ⟨str, str, none, st.nodes ++ [⟨st.namePos, value⟩]⟩,
        decide (e = nul)) := by
  have hload : load (Z ++ (ws ++ b :: R)) (Z.length + ws.length) = some b := by
    rw [← List.append_assoc]
    exact load_seam List.length_append
  rw [argsStep]
  rw [hstr] at hskip ⊢
  rw [hload]
  simp only [Option.bind_eq_bind, Option.bind_some, if_pos hb, argsTrimBack_firm hZ hws,
    store_terminated, hvalue, hskip, he]

/-- Where the loop is in a segment that starts behind `A`: `P` is what was read up to the `=`, with
terminators written into it, and behind it stands what was read since as it was. -/
structure ScanAt (A P : List UInt8) (sc : ArgScan) (st : ArgsState) : Prop where
  str : st.str = A.length + (P.length + sc.token.length)
  namePos : st.namePos = A.length
  gap : sc.gap = false
  no_nul : nul ∉ sc.token
  bare : sc.name = none → P = [] ∧ st.eqPos = none
  named : ∀ name, sc.name = some name → cstring (A ++ P) A.length = some name ∧
    st.eqPos = some (A.length + P.length) ∧ ∃ c ∈ sc.token.head?, isWhitespace c = false

/-- Up to a `=`, a text starts as it does with it. -/
lemma firm_of_append {s t : List UInt8} (h : Firm (s ++ equalsSign :: t)) : Firm s := by
  obtain ⟨c, hc, hfirm, hne⟩ := h
  cases s with
  | nil => exact absurd (Option.some.inj hc).symm hne
  | cons c' s => exact ⟨c, hc, hfirm, hne⟩

/-- Trimming what was read stops in front of the segment at the latest. -/
lemma ScanAt.trim {A P : List UInt8} {sc : ArgScan} {st : ArgsState} (h : ScanAt A P sc st)
    (hopen : sc.name = none → EndsFirm A ∨ Firm sc.token) :
    ∃ ws, Blank ws ∧ EndsFirm (A ++ (P ++ trimEnd sc.token)) ∧
      st.str = (A ++ (P ++ trimEnd sc.token)).length + ws.length ∧
      sc.token.length = (trimEnd sc.token).length + ws.length ∧
      ∀ B, A ++ (P ++ (sc.token ++ B)) = (A ++ (P ++ trimEnd sc.token)) ++ (ws ++ B) := by
  obtain ⟨ws, hws, hblank⟩ := exists_trimEnd sc.token
  have hlen : sc.token.length = (trimEnd sc.token).length + ws.length := by
    conv_lhs => rw [hws]
    exact List.length_append
  refine ⟨ws, hblank, ?_, ?_, hlen, fun B => ?_⟩
  · rw [← List.append_assoc]
    apply EndsFirm.append_trimEnd
    cases hname : sc.name with
    | some name => exact Or.inr (h.named name hname).2.2
    | none =>
      obtain ⟨rfl, -⟩ := h.bare hname
      rw [List.append_nil]
      rcases hopen hname with hA | ⟨c, hc, hfirm, -⟩
      · exact Or.inl hA
      · exact Or.inr ⟨c, hc, hfirm⟩
  · simp only [h.str, hlen, List.length_append]
    omega
  · conv_lhs => rw [hws]
    simp

/-- The state behind a round at a character of a token. -/
lemma ScanAt.next_char {A P : List UInt8} {sc : ArgScan} {st : ArgsState} (hat : ScanAt A P sc st)
    {c : UInt8} (hnul : c ≠ nul) :
    ScanAt A P ⟨sc.name, sc.token ++ [c], false⟩ { st with str := st.str + 1 } := by
  refine ⟨?_, hat.namePos, rfl, ?_, hat.bare, fun name hname => ?_⟩
  · simp only [hat.str, List.length_append, List.length_singleton]
    omega
  · intro h
    rcases List.mem_append.mp h with h | h
    · exact hat.no_nul h
    · exact hnul (List.mem_singleton.mp h).symm
  · obtain ⟨hstr, heq, d, hd, hblank⟩ := hat.named name hname
    exact ⟨hstr, heq, d, List.mem_head?_append_of_mem_head? hd, hblank⟩

/-- The state behind a round at a `=`, and the blanks `g` and the character `c` behind it: the name
is terminated, and a value starts with `c`. -/
lemma ScanAt.next_equals {A P : List UInt8} {sc : ArgScan} {st : ArgsState} (hat : ScanAt A P sc st)
    {ws g : List UInt8} {c : UInt8} (hc : isWhitespace c = false) (hnul : nul ≠ c) :
    ScanAt A (P ++ (trimEnd sc.token ++ (terminated ws equalsSign ++ g)))
      ⟨some (sc.name.getD (trimEnd sc.token)), [c], false⟩
      { st with
        str := (A ++ (P ++ trimEnd sc.token)).length + ws.length + 1 + g.length + 1
        eqPos := some ((A ++ (P ++ trimEnd sc.token)).length + ws.length + 1 + g.length) } := by
  have hname : cstring (A ++ (P ++ (trimEnd sc.token ++ (terminated ws equalsSign ++ g))))
      A.length = some (sc.name.getD (trimEnd sc.token)) := by
    cases hname : sc.name with
    | none =>
      obtain ⟨rfl, -⟩ := hat.bare hname
      exact cstring_of_not_mem (notMem_trimEnd hat.no_nul) rfl
    | some name =>
      rw [← List.append_assoc]
      exact cstring_append _ (hat.named name hname).1
  have hlen : (A ++ (P ++ trimEnd sc.token)).length + ws.length + 1 + g.length =
      A.length + (P ++ (trimEnd sc.token ++ (terminated ws equalsSign ++ g))).length := by
    simp only [List.length_append, length_terminated]
    omega
  refine ⟨?_, hat.namePos, rfl, ?_, fun h => ?_, fun name h => ?_⟩
  · simp only
    rw [hlen, List.length_singleton, Nat.add_assoc]
  · exact fun h => hnul (List.mem_singleton.mp h)
  · cases h
  · obtain rfl := Option.some.inj h
    exact ⟨hname, by simp only [hlen], c, rfl, hc⟩

/-- **The loop inside a segment** reads what the text says, as long as no `=` is at the end of the
segment, and trimming the name stops.

**Proof sketch.** Induction on the length of the rest of the segment. A character of a token is one
round; a `=` is one round together with the blanks behind it and the first character of the value.
-/
lemma argsRuns_scan (hequals : equalsSign ≠ delim) {A P rest : List UInt8} {sc : ArgScan}
    {st : ArgsState} (hat : ScanAt A P sc st) (hrest : delim ∉ rest ∧ nul ∉ rest)
    (hclosed : (rest.foldl ArgScan.next sc).gap = false)
    (hopen : sc.name = none → EndsFirm A ∨ Firm (sc.token ++ rest)) :
    ∃ P' st', ScanAt A P' (rest.foldl ArgScan.next sc) st' ∧ st'.nodes = st.nodes ∧
      P'.length + (rest.foldl ArgScan.next sc).token.length =
        P.length + sc.token.length + rest.length ∧
      ((rest.foldl ArgScan.next sc).name = none →
        EndsFirm A ∨ Firm (rest.foldl ArgScan.next sc).token) ∧
      ∀ B r, ArgsRuns delim (A ++ (P ++ (sc.token ++ (rest ++ B)))) st r ↔
        ArgsRuns delim (A ++ (P' ++ ((rest.foldl ArgScan.next sc).token ++ B))) st' r := by
  induction hn : rest.length using Nat.strongRecOn generalizing rest P sc st with
  | ind n ih =>
  cases rest with
  | nil =>
    refine ⟨P, st, hat, rfl, ?_, ?_, fun B r => Iff.rfl⟩
    · rw [← hn, List.foldl_nil, List.length_nil, Nat.add_zero]
    · simpa using hopen
  | cons c rest =>
    have hgap := hat.gap
    have hdelim : c ≠ delim := fun h => hrest.1 (h ▸ List.mem_cons_self)
    have hnul : c ≠ nul := fun h => hrest.2 (h ▸ List.mem_cons_self)
    have hrest' : delim ∉ rest ∧ nul ∉ rest :=
      ⟨fun h => hrest.1 (List.mem_cons_of_mem c h), fun h => hrest.2 (List.mem_cons_of_mem c h)⟩
    by_cases heq : c = equalsSign
    · subst heq
      obtain ⟨ws, hblank, hZ, hstr, hlenws, hm⟩ := hat.trim fun hname =>
        (hopen hname).imp_right firm_of_append
      have hnext : sc.next equalsSign = ⟨some (sc.name.getD (trimEnd sc.token)), [], true⟩ := by
        rw [ArgScan.next, if_neg (by rw [hgap]; exact Bool.false_ne_true), if_pos rfl]
      rw [List.foldl_cons, hnext] at hclosed
      obtain ⟨g, c, rest, rfl, hg, hc, hfold⟩ := exists_of_gap hclosed
      have hat' := @ScanAt.next_equals A P sc st hat ws g c hc
        fun h => hrest'.2 (List.mem_append_right g (h ▸ List.mem_cons_self))
      rw [hfold] at hclosed
      obtain ⟨P', st', hat'', hnodes, hlen', hopen', hrun⟩ := ih rest.length
        (by simp at hn; omega) hat'
        ⟨fun h => hrest'.1 (List.mem_append_right g (List.mem_cons_of_mem c h)),
          fun h => hrest'.2 (List.mem_append_right g (List.mem_cons_of_mem c h))⟩
        hclosed (fun h => by cases h) rfl
      rw [List.foldl_cons, hnext, hfold]
      refine ⟨P', st', hat'', hnodes, ?_, hopen', fun B r => ?_⟩
      · rw [hlen', ← hn]
        simp only [List.length_append, List.length_cons, List.length_nil, length_terminated, hlenws]
        omega
      · have hrest : equalsSign :: (g ++ c :: rest) ++ B =
            equalsSign :: (g ++ c :: (rest ++ B)) := by
          simp
        rw [hm, hrest, argsRuns_continue (argsStep_equals hequals hZ hblank hg hc hstr), ← hrun B r]
        simp
    · have hnext : sc.next c = ⟨sc.name, sc.token ++ [c], false⟩ := by
        rw [ArgScan.next, if_neg (by rw [hgap]; exact Bool.false_ne_true), if_neg heq]
      have hstep : ∀ B, argsStep delim (A ++ (P ++ (sc.token ++ (c :: rest ++ B)))) st =
          some (A ++ (P ++ (sc.token ++ (c :: rest ++ B))),
            { st with str := st.str + 1 }, false) := by
        intro B
        have hload : load (A ++ (P ++ (sc.token ++ (c :: rest ++ B)))) st.str = some c := by
          rw [hat.str, ← List.append_assoc P, ← List.append_assoc A, List.cons_append]
          exact load_seam (by simp only [List.length_append])
        rw [argsStep, hload]
        simp only [Option.bind_eq_bind, Option.bind_some, hdelim, hnul, or_self, heq, if_false]
      have hat' : ScanAt A P (sc.next c) { st with str := st.str + 1 } := by
        rw [hnext]
        exact hat.next_char hnul
      have htoken : (sc.next c).token = sc.token ++ [c] := by rw [hnext]
      obtain ⟨P', st', hat'', hnodes, hlen, hopen', hrun⟩ := ih rest.length (by simp at hn; omega)
        hat' hrest' hclosed (by
          intro hname
          rw [htoken, List.append_assoc]
          exact hopen (by rwa [hnext] at hname)) rfl
      refine ⟨P', st', hat'', hnodes, ?_, hopen', fun B r => ?_⟩
      · rw [← hn, List.foldl_cons, hlen, htoken]
        simp only [List.length_append, List.length_cons, List.length_nil]
        omega
      · rw [argsRuns_continue (hstep B), List.foldl_cons, ← hrun B r, htoken]
        simp

/-- The loop from the start of a segment. -/
lemma argsRuns_start (hequals : equalsSign ≠ delim) {A t : List UInt8} (ht : delim ∉ t ∧ nul ∉ t)
    (hclosed : (scanOf t).gap = false) (hopen : EndsFirm A ∨ Firm t) (nodes : List ArgNode) :
    ∃ P st, ScanAt A P (scanOf t) st ∧ st.nodes = nodes ∧
      P.length + (scanOf t).token.length = t.length ∧
      ((scanOf t).name = none → EndsFirm A ∨ Firm (scanOf t).token) ∧
      ∀ B r, ArgsRuns delim (A ++ (t ++ B)) ⟨A.length, A.length, none, nodes⟩ r ↔
        ArgsRuns delim (A ++ (P ++ ((scanOf t).token ++ B))) st r := by
  have hat : ScanAt A [] ⟨none, [], false⟩ ⟨A.length, A.length, none, nodes⟩ :=
    ⟨rfl, rfl, rfl, List.not_mem_nil, fun _ => ⟨rfl, rfl⟩, fun _ h => by cases h⟩
  obtain ⟨P, st, hat', hnodes, hlen, hopen', hrun⟩ := argsRuns_scan hequals hat ht hclosed
    fun _ => hopen
  refine ⟨P, st, hat', hnodes, ?_, hopen', hrun⟩
  rw [scanOf, hlen]
  exact Nat.zero_add _

/-- The value that `args_parse` makes of a string stands for it. -/
lemma argsValue_is {m v : List UInt8} {e : ℕ} (h : cstring m e = some v) :
    ∃ value : ArgValue, value.Is m v ∧ ∀ post, argsValue (m ++ post) (some e) = some value := by
  have hvalue : ∀ post, argsValue (m ++ post) (some e) =
      if isFloat v = 1 then some (.float (atof v))
      else if isFloat v = 0 then some (.int (atoi v))
      else some (.str e) := by
    intro post
    rw [argsValue, cstring_append post h]
    rfl
  by_cases h₁ : isFloat v = 1
  · exact ⟨.float (atof v), ⟨h₁, rfl⟩, fun post => by rw [hvalue, if_pos h₁]⟩
  · by_cases h₀ : isFloat v = 0
    · exact ⟨.int (atoi v), ⟨h₀, rfl⟩, fun post => by rw [hvalue, if_neg h₁, if_pos h₀]⟩
    · exact ⟨.str e, ⟨h₀, h₁, h⟩, fun post => by rw [hvalue, if_neg h₁, if_neg h₀]⟩

/-- **One segment.** From the start of a segment in good order the loop gets to its end, makes a
node that stands for what the segment says, and goes on where the blanks behind the delimiter end,
or stops there. -/
lemma argsRuns_segment (hequals : equalsSign ≠ delim) {A t : List UInt8} {b : UInt8}
    (hb : b = delim ∨ b = nul) (ht : delim ∉ t ∧ nul ∉ t) (hclosed : ¬ OpenEnd t)
    (hopen : EndsFirm A ∨ Firm t) (nodes : List ArgNode) :
    ∃ T e node, T.length = t.length ∧ (e = b ∨ e = nul) ∧ node.Is (A ++ (T ++ [e])) (argOf t) ∧
      ∀ B str c, argsSkipBlanks (A ++ (T ++ e :: B))
          (if b = delim then A.length + t.length + 1 else A.length + t.length) = some str →
        load (A ++ (T ++ e :: B)) str = some c →
        ∀ r, ArgsRuns delim (A ++ (t ++ b :: B)) ⟨A.length, A.length, none, nodes⟩ r ↔
          if c = nul then r = (A ++ (T ++ e :: B), nodes ++ [node])
          else ArgsRuns delim (A ++ (T ++ e :: B)) ⟨str, str, none, nodes ++ [node]⟩ r := by
  obtain ⟨P, st, hat, hnodes, hlen, hopen', hrun⟩ := argsRuns_start hequals ht
    (by simpa [OpenEnd] using hclosed) hopen nodes
  obtain ⟨ws, hblank, hZ, hstr, hlenws, hm⟩ := hat.trim hopen'
  obtain ⟨X, e, hX, hXlen, he⟩ := terminated_last ws b
  have hstr' : st.str = A.length + t.length := by
    rw [hat.str]
    omega
  have hterm : terminated ws b = nul :: (terminated ws b).tail := rfl
  have hshape : ∀ B, (A ++ (P ++ trimEnd (scanOf t).token)) ++ (terminated ws b ++ B) =
      A ++ ((P ++ trimEnd (scanOf t).token ++ X) ++ e :: B) := by
    intro B
    rw [hX]
    simp
  -- the node
  obtain ⟨value, hnode, hvalue⟩ : ∃ value, (⟨A.length, value⟩ : ArgNode).Is
      ((A ++ (P ++ trimEnd (scanOf t).token)) ++ terminated ws b) (argOf t) ∧
      ∀ B, argsValue ((A ++ (P ++ trimEnd (scanOf t).token)) ++ (terminated ws b ++ B)) st.eqPos =
        some value := by
    have hu := notMem_trimEnd hat.no_nul
    cases hname : (scanOf t).name with
    | none =>
      obtain ⟨rfl, heq⟩ := hat.bare hname
      have harg : argOf t = ⟨trimEnd (scanOf t).token, none⟩ := by rw [argOf, ArgScan.arg, hname]
      refine ⟨.noval, ⟨?_, ?_⟩, fun B => by rw [heq]; rfl⟩
      · rw [harg, hterm, List.nil_append, List.append_assoc]
        exact cstring_of_not_mem hu rfl
      · rw [harg]
    | some name =>
      obtain ⟨hcstr, heq, -⟩ := hat.named name hname
      have harg : argOf t = ⟨name, some (trimEnd (scanOf t).token)⟩ := by
        rw [argOf, ArgScan.arg, hname]
      have hv : cstring ((A ++ (P ++ trimEnd (scanOf t).token)) ++ terminated ws b)
          (A.length + P.length) = some (trimEnd (scanOf t).token) := by
        rw [← List.append_assoc A, List.append_assoc (A ++ P), hterm]
        exact cstring_of_not_mem hu List.length_append
      obtain ⟨value, his, hvalue⟩ := argsValue_is hv
      refine ⟨value, ⟨?_, ?_⟩, fun B => ?_⟩
      · rw [harg, ← List.append_assoc A, List.append_assoc (A ++ P)]
        exact cstring_append _ hcstr
      · rw [harg]
        exact his
      · rw [heq, ← List.append_assoc]
        exact hvalue B
  refine ⟨P ++ trimEnd (scanOf t).token ++ X, e, ⟨A.length, value⟩, ?_, he, ?_, ?_⟩
  · simp only [List.length_append, hXlen]
    omega
  · have := hshape []
    rw [List.append_nil] at this
    rwa [this] at hnode
  · intro B str c hskip hc r
    rw [hrun (b :: B) r, hm, ← hshape]
    rw [← hstr', ← hshape] at hskip
    rw [← hshape] at hc
    have hstep := argsStep_segment hZ hblank hb hstr (hvalue B) hskip hc
    rw [hat.namePos, hnodes] at hstep
    by_cases hnul : c = nul
    · rw [if_pos hnul]
      rw [decide_eq_true hnul] at hstep
      exact argsRuns_stop hstep
    · rw [if_neg hnul]
      rw [decide_eq_false hnul] at hstep
      exact argsRuns_continue hstep

end Scan

/-! ## The segments of a list -/

section Segments

variable (d : ArgsDelim) {A t u : List UInt8} {us : List (List UInt8)}

/-- The blanks before the first segment stand at the start of the string. -/
lemma argsText_lead (u : List UInt8) (us : List (List UInt8)) :
    argsText d.val u us = lead u ++ argsText d.val (body u) us := by
  cases us with
  | nil => exact (lead_append_body u).symm
  | cons v us =>
    rw [argsText, argsText, ← List.append_assoc, lead_append_body]

/-- The string of a list is split into its segments. -/
lemma splitOn_argsText (h : ∀ u ∈ t :: us, d.val ∉ u) :
    (argsText d.val t us).splitOn d.val = t :: us := by
  induction us generalizing t with
  | nil => exact List.splitOn_eq_singleton (h t List.mem_cons_self)
  | cons u us ih =>
    rw [argsText, List.splitOn_append_cons_self_of_not_mem (h t List.mem_cons_self),
      ih fun v hv => h v (List.mem_cons_of_mem t hv)]

/-- Every string is that of the list it is split into. -/
lemma exists_argsText {s : List UInt8} (hs : nul ∉ s) :
    ∃ t us, s.splitOn d.val = t :: us ∧ s = argsText d.val t us ∧
      ∀ u ∈ t :: us, d.val ∉ u ∧ nul ∉ u := by
  induction hn : s.length using Nat.strongRecOn generalizing s with
  | ind n ih =>
    by_cases hmem : d.val ∈ s
    · obtain ⟨t, rest, rfl, ht⟩ := List.eq_append_cons_of_mem hmem
      have hnul : nul ∉ t ∧ nul ∉ rest :=
        ⟨fun h => hs (List.mem_append_left _ h),
          fun h => hs (List.mem_append_right t (List.mem_cons_of_mem d.val h))⟩
      obtain ⟨u, us, hsplit, hrest, hus⟩ := ih rest.length (by simp at hn; omega) hnul.2 rfl
      refine ⟨t, u :: us, ?_, by rw [argsText, ← hrest],
        List.forall_mem_cons.mpr ⟨⟨ht, hnul.1⟩, hus⟩⟩
      rw [List.splitOn_append_cons_self_of_not_mem ht, hsplit]
    · refine ⟨s, [], List.splitOn_eq_singleton hmem, rfl, fun u hu => ?_⟩
      obtain rfl := List.mem_singleton.mp hu
      exact ⟨hmem, hs⟩

/-- The string of a list, split behind its first segment. -/
lemma argsText_split (t : List UInt8) (us : List (List UInt8)) :
    ∃ R, argsText d.val t us = t ++ R ∧ (R = [] ∨ ∃ R', R = d.val :: R') := by
  cases us with
  | nil => exact ⟨[], (List.append_nil t).symm, Or.inl rfl⟩
  | cons u us => exact ⟨d.val :: argsText d.val u us, rfl, Or.inr ⟨_, rfl⟩⟩

/-- There is no terminator in the string, if there is none in its segments. -/
lemma nul_notMem_argsText (hsegs : ∀ s ∈ t :: us, nul ∉ s) : nul ∉ argsText d.val t us := by
  induction us generalizing t with
  | nil => exact hsegs t List.mem_cons_self
  | cons u us ih =>
    intro h
    rcases List.mem_append.mp h with h | h
    · exact hsegs t List.mem_cons_self h
    · rcases List.mem_cons.mp h with h | h
      · exact d.ne_nul h.symm
      · exact ih (fun s hs => hsegs s (List.mem_cons_of_mem t hs)) h

variable (us) in
/-- What stands behind the blanks in front of a segment. -/
lemma argsText_head (hu : nul ∉ u) (B : List UInt8) :
    ∃ c R, argsText d.val (body u) us ++ nul :: B = c :: R ∧ isWhitespace c = false ∧
      (c = nul ↔ us = [] ∧ body u = []) := by
  cases hbody : body u with
  | cons c s =>
    have hc : c ≠ nul := by
      rintro rfl
      exact hu ((List.dropWhile_suffix _).subset (by change nul ∈ body u; rw [hbody]; simp))
    have hne : ¬ (us = [] ∧ c :: s = []) := fun h => List.cons_ne_nil c s h.2
    cases us with
    | nil => exact ⟨c, _, rfl, body_head hbody, iff_of_false hc hne⟩
    | cons v us => exact ⟨c, _, rfl, body_head hbody, iff_of_false hc hne⟩
  | nil =>
    cases us with
    | nil => exact ⟨nul, B, rfl, rfl, iff_of_true rfl ⟨rfl, rfl⟩⟩
    | cons v us =>
      exact ⟨d.val, _, rfl, d.not_blank, iff_of_false d.ne_nul fun h => List.cons_ne_nil v us h.1⟩

/-- From the start of the last segment the loop gets to its end. -/
lemma argsRuns_last (ht : d.val ∉ t ∧ nul ∉ t) (hclosed : ¬ OpenEnd t) (hopen : EndsFirm A ∨ Firm t)
    (nodes : List ArgNode) :
    ∃ T node, T.length = t.length ∧ node.Is (A ++ (T ++ [nul])) (argOf t) ∧
      ∀ B r, ArgsRuns d.val (A ++ (t ++ nul :: B)) ⟨A.length, A.length, none, nodes⟩ r ↔
        r = (A ++ (T ++ nul :: B), nodes ++ [node]) := by
  obtain ⟨T, e, node, hT, he, hnode, hrun⟩ := argsRuns_segment d.ne_equals.symm (Or.inr rfl) ht
    hclosed hopen nodes
  obtain rfl := or_self_iff.mp he
  refine ⟨T, node, hT, hnode, fun B r => ?_⟩
  have hlen : (A ++ T).length = A.length + t.length := by rw [List.length_append, hT]
  have hskip := argsSkipBlanks_seam (Y := A ++ T) (R := B) (g := []) (by simp [Blank])
    (c := nul) rfl
  have hload : load ((A ++ T) ++ nul :: B) (A ++ T).length = some nul := load_seam rfl
  rw [List.nil_append, List.length_nil, Nat.add_zero, List.append_assoc, hlen] at hskip
  rw [List.append_assoc, hlen] at hload
  rw [hrun B (A.length + t.length) nul (by rw [if_neg d.ne_nul.symm]; exact hskip) hload r,
    if_pos rfl]

variable (us) in
/-- From the start of a segment that a delimiter follows the loop gets to the next segment, behind
its blanks, or ends there. -/
lemma argsRuns_delim (ht : d.val ∉ t ∧ nul ∉ t) (hu : nul ∉ u) (hclosed : ¬ OpenEnd t)
    (hopen : EndsFirm A ∨ Firm t) (nodes : List ArgNode) :
    ∃ T e node, T.length = t.length ∧ isWhitespace e = false ∧
      node.Is (A ++ (T ++ [e])) (argOf t) ∧
      ∀ B r, ArgsRuns d.val (A ++ (argsText d.val t (u :: us) ++ nul :: B))
          ⟨A.length, A.length, none, nodes⟩ r ↔
        if us = [] ∧ body u = [] then r = (A ++ (T ++ e :: (u ++ nul :: B)), nodes ++ [node])
        else ArgsRuns d.val ((A ++ (T ++ e :: lead u)) ++ (argsText d.val (body u) us ++ nul :: B))
          ⟨(A ++ (T ++ e :: lead u)).length, (A ++ (T ++ e :: lead u)).length, none,
            nodes ++ [node]⟩ r := by
  obtain ⟨T, e, node, hT, he, hnode, hrun⟩ := argsRuns_segment d.ne_equals.symm (Or.inl rfl) ht
    hclosed hopen nodes
  have hfirm : isWhitespace e = false := by
    rcases he with rfl | rfl
    · exact d.not_blank
    · rfl
  refine ⟨T, e, node, hT, hfirm, hnode, fun B r => ?_⟩
  obtain ⟨c, R, hcR, hc, hend⟩ := argsText_head d us hu B
  have hlen : (A ++ (T ++ [e])).length = A.length + t.length + 1 := by
    simp only [List.length_append, List.length_singleton, hT]
    omega
  have hlen' : (A ++ (T ++ e :: lead u)).length = A.length + t.length + 1 + (lead u).length := by
    simp only [List.length_append, List.length_cons, hT]
    omega
  have hm : A ++ (T ++ e :: (lead u ++ c :: R)) = (A ++ (T ++ [e])) ++ (lead u ++ c :: R) := by simp
  have hm' : A ++ (T ++ e :: (lead u ++ c :: R)) = (A ++ (T ++ e :: lead u)) ++ c :: R := by simp
  have htext : A ++ (argsText d.val t (u :: us) ++ nul :: B) =
      A ++ (t ++ d.val :: (lead u ++ c :: R)) := by
    rw [argsText, argsText_lead, ← hcR]
    simp
  have hskip := argsSkipBlanks_seam (Y := A ++ (T ++ [e])) (R := R) (blank_lead u) hc
  rw [← hm, hlen] at hskip
  have hload : load (A ++ (T ++ e :: (lead u ++ c :: R)))
      (A.length + t.length + 1 + (lead u).length) = some c := by
    rw [hm']
    exact load_seam hlen'
  rw [htext, hrun _ _ c (by rw [if_pos rfl]; exact hskip) hload r, hlen', hcR, ← hm']
  by_cases hstop : us = [] ∧ body u = []
  · rw [if_pos hstop, if_pos (hend.mpr hstop)]
    obtain ⟨rfl, hbody⟩ := hstop
    rw [← hcR, hbody, argsText, List.nil_append]
    have hlead : lead u = u := by
      have := lead_append_body u
      rwa [hbody, List.append_nil] at this
    rw [hlead]
  · rw [if_neg hstop, if_neg (mt hend.mp hstop)]

/-- **What is parsed of a list in good order**: the nodes stand for what the segments say, and
nothing but the list itself is written to.

**Proof sketch.** Induction on the segments; the loop gets from one to the next
(`argsRuns_delim`). -/
theorem argsRuns_segments (hsegs : ∀ s ∈ t :: us, d.val ∉ s ∧ nul ∉ s) (hseg : Segmented (t :: us))
    (hopen : EndsFirm A ∨ Firm t) (nodes : List ArgNode) :
    ∃ S new, S.length = (argsText d.val t us).length ∧
      List.Forall₂ (ArgNode.Is (A ++ (S ++ [nul]))) new (argsOf (t :: us)) ∧
      ∀ B r, ArgsRuns d.val (A ++ (argsText d.val t us ++ nul :: B))
          ⟨A.length, A.length, none, nodes⟩ r ↔
        r = (A ++ (S ++ nul :: B), nodes ++ new) := by
  induction us generalizing A t nodes with
  | nil =>
    obtain ⟨T, node, hT, hnode, hrun⟩ := argsRuns_last d (hsegs t List.mem_cons_self) hseg.1 hopen
      nodes
    exact ⟨T, [node], hT, .cons hnode .nil, hrun⟩
  | cons u us ih =>
    have hu := hsegs u (by simp)
    obtain ⟨T, e, node, hT, he, hnode, hrun⟩ := argsRuns_delim d us
      (hsegs t List.mem_cons_self) hu.2 hseg.1 hopen nodes
    by_cases hstop : us = [] ∧ body u = []
    · obtain ⟨rfl, hbody⟩ := hstop
      refine ⟨T ++ e :: u, [node], ?_, ?_, fun B r => ?_⟩
      · simp [argsText, hT]
      · have hargs : argsOf [t, u] = [argOf t] := by simp [argsOf, yielding, hbody]
        rw [hargs]
        refine .cons ?_ .nil
        have := hnode.append (u ++ [nul])
        simpa using this
      · rw [hrun, if_pos ⟨rfl, hbody⟩]
        simp
    · have hyield : yielding (u :: us) = u :: yielding us := by rw [yielding, if_neg hstop]
      have hgood := hseg.2
      rw [hyield] at hgood
      obtain ⟨hclosed', hopen'⟩ := hgood u List.mem_cons_self
      have hbody : d.val ∉ body u ∧ nul ∉ body u :=
        ⟨fun h => hu.1 ((List.dropWhile_suffix _).subset h),
          fun h => hu.2 ((List.dropWhile_suffix _).subset h)⟩
      have hfirm : EndsFirm (A ++ (T ++ e :: lead u)) ∨ Firm (body u) := by
        rcases hopen' with hlead | hfirm
        · left
          rw [hlead, ← List.append_assoc]
          exact EndsFirm.append ⟨e, rfl, he⟩
        · exact Or.inr hfirm
      obtain ⟨S, new, hS, hnew, hrun'⟩ := ih (t := body u) (A := A ++ (T ++ e :: lead u))
        (fun s hs => by
          rcases List.mem_cons.mp hs with rfl | hs
          · exact hbody
          · exact hsegs s (by simp [hs]))
        ⟨hclosed', fun v hv => hgood v (List.mem_cons_of_mem u hv)⟩ hfirm (nodes ++ [node])
      refine ⟨T ++ e :: (lead u ++ S), node :: new, ?_, ?_, fun B r => ?_⟩
      · rw [argsText, argsText_lead]
        simp only [List.length_append, List.length_cons, hT, hS]
      · have hargs : argsOf (t :: u :: us) = argOf t :: argsOf (body u :: us) := by
          rw [argsOf, hyield, argsOf]
          rfl
        have hm : A ++ (T ++ e :: (lead u ++ S) ++ [nul]) =
            (A ++ (T ++ e :: lead u)) ++ (S ++ [nul]) := by simp
        have hm' : A ++ (T ++ e :: (lead u ++ S) ++ [nul]) =
            (A ++ (T ++ [e])) ++ (lead u ++ (S ++ [nul])) := by simp
        rw [hargs]
        refine .cons ?_ ?_
        · rw [hm']
          exact hnode.append _
        · rw [hm]
          exact hnew
      · rw [hrun, if_neg hstop, hrun']
        simp

end Segments

end Mproxy
