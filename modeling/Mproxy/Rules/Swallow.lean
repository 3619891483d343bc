import Mproxy.Rules.ArgsRun

set_option relaxedAutoImplicit false
set_option autoImplicit false

/-!
# Lists of arguments in bad order

`args_parse` does not look at the first character of a value. Where there is no value, that
character is the delimiter or the terminator: the next segment becomes part of the value, or the
parse leaves the string. And where blanks stand behind a delimiter with no name behind them, the
name is terminated in front of its start, so that it goes on up to the next terminator. These are
the only strings for which the nodes do not stand for what their segments say.

## Main results

* `Mproxy.argsRuns_open` — a segment that ends behind a `=` has no node that stands for it.
* `Mproxy.argsRuns_nameless` — nor has a nameless one with blanks in front.
* `Mproxy.argsParse_segments_iff` — the strings of which every segment becomes a node of its own.
-/

namespace Mproxy

open Memory

section Bad

variable {delim : UInt8} {m m' : List UInt8} {st st' : ArgsState} {ns : List ArgNode}

/-- The nodes that are there stay. -/
lemma Round.nodes {stop : Bool} (h : Round delim m st m' st' stop) : st.nodes <+: st'.nodes := by
  cases h with
  | segment => exact List.prefix_append _ _
  | equals => exact List.prefix_rfl
  | token => exact List.prefix_rfl

/-- What holds behind the last round, and before a round if it holds behind it, holds before a run
that gets to its end. -/
lemma ArgsRuns.induction {P : List UInt8 → ArgsState → Prop}
    (hstop : ∀ {m st st₁}, Round delim m st m' st₁ true → st₁.nodes = ns → P m st)
    (hgo : ∀ {m st m₁ st₁}, Round delim m st m₁ st₁ false → ArgsRuns delim m₁ st₁ (m', ns) →
      P m₁ st₁ → P m st)
    (h : ArgsRuns delim m st (m', ns)) : P m st := by
  obtain ⟨fuel, h⟩ := h
  induction fuel generalizing m st with
  | zero => cases h
  | succ fuel ih =>
    rw [argsLoop] at h
    obtain ⟨⟨m₁, st₁, stop⟩, hstep, h⟩ := Option.bind_eq_some_iff.mp h
    have hround := argsStep_round hstep
    cases stop with
    | true =>
      obtain ⟨rfl, hnodes⟩ : m₁ = m' ∧ st₁.nodes = ns := by simpa using h
      exact hstop hround hnodes
    | false => exact hgo hround ⟨fuel, h⟩ (ih h)

/-- The loop only adds nodes. -/
lemma ArgsRuns.nodes (h : ArgsRuns delim m st (m', ns)) : st.nodes <+: ns := by
  refine ArgsRuns.induction (P := fun _ st => st.nodes <+: ns) ?_ ?_ h
  · intro m st st₁ hround hnodes
    exact hnodes ▸ hround.nodes
  · intro m st m₁ st₁ hround _ ih
    exact hround.nodes.trans ih

/-- A byte that is no blank stays as it is once the loop is behind it, or at it with a blank before
it. -/
lemma ArgsRuns.keeps (h : ArgsRuns delim m st (m', ns)) {p : ℕ} {c : UInt8} (hc : load m p = some c)
    (hblank : isWhitespace c = false)
    (hp : p < st.str ∨ p = st.str ∧ ∃ w, loadBefore m p = some w ∧ isWhitespace w = true) :
    load m' p = some c := by
  refine ArgsRuns.induction (P := fun m st => load m p = some c →
    (p < st.str ∨ p = st.str ∧ ∃ w, loadBefore m p = some w ∧ isWhitespace w = true) →
    load m' p = some c) ?_ ?_ h hc hp
  · intro m st st₁ hround _ hc hp
    exact hround.keeps hc hblank hp
  · intro m st m₁ st₁ hround _ ih hc hp
    have hle : p ≤ st.str := by
      rcases hp with hlt | ⟨rfl, -⟩
      · exact hlt.le
      · exact le_rfl
    exact ih (hround.keeps hc hblank hp) (Or.inl (lt_of_le_of_lt hle hround.advances))

/-- The next node gets the name the loop is at. -/
lemma ArgsRuns.node_name (h : ArgsRuns delim m st (m', ns)) :
    ∃ node, ns[st.nodes.length]? = some node ∧ node.name = st.namePos := by
  have hsegment : ∀ {st : ArgsState} {value}, st.nodes ++ [⟨st.namePos, value⟩] <+: ns →
      ∃ node, ns[st.nodes.length]? = some node ∧ node.name = st.namePos := by
    intro st value ⟨rest, hns⟩
    exact ⟨⟨st.namePos, value⟩, by rw [← hns]; simp, rfl⟩
  refine ArgsRuns.induction
    (P := fun _ st => ∃ node, ns[st.nodes.length]? = some node ∧ node.name = st.namePos) ?_ ?_ h
  · intro m st st₁ hround hnodes
    generalize hstop : true = stop at hround
    cases hround with
    | segment => exact hsegment ⟨[], (List.append_nil _).trans hnodes⟩
    | equals => cases hstop
    | token => cases hstop
  · intro m st m₁ st₁ hround hrun ih
    have hnodes := hrun.nodes
    generalize hstop : false = stop at hround
    cases hround with
    | segment => exact hsegment hnodes
    | equals => exact ih
    | token => exact ih

/-- No run goes on where there is no byte. -/
lemma ArgsRuns.str_lt (h : ArgsRuns delim m st (m', ns)) : st.str < m.length := by
  have hlt : ∀ {m st m₁ st₁ stop}, Round delim m st m₁ st₁ stop → st.str < m.length := by
    intro m st m₁ st₁ stop hround
    cases hround with
    | segment hc => exact load_lt hc
    | equals hc => exact load_lt hc
    | token hc => exact load_lt hc
  exact ArgsRuns.induction (P := fun m st => st.str < m.length) (fun hround _ => hlt hround)
    (fun hround _ _ => hlt hround) h

/-- A string that starts with a character is not empty. -/
lemma cstring_of_load {p : ℕ} {c : UInt8} (hc : load m p = some c) (hnul : c ≠ nul) :
    cstring m p ≠ some [] := by
  intro h
  have hzero : c ≠ 0 := hnul
  obtain ⟨hlt, hget⟩ := List.getElem?_eq_some_iff.mp hc
  unfold cstring at h
  split_ifs at h
  rw [List.drop_eq_getElem_cons hlt, hget, Option.some.injEq,
    List.takeWhile_cons_of_pos (by simpa using hzero)] at h
  cases h

/-- The last byte of the memory is the only terminator that is still to come. -/
def LastNul (m : List UInt8) (st : ArgsState) : Prop :=
  ∀ p, st.str ≤ p → load m p = some nul → p + 1 = m.length

/-- A round that goes on keeps this: the terminator that it writes is behind the pointer. -/
lemma Round.lastNul {stop : Bool} (h : Round delim m st m' st' stop) (hlt : st.str < st'.str)
    (hlast : LastNul m st) : LastNul m' st' := by
  have hkeep : ∀ {b m₁ p}, argsTrimBack m st.str = some b → store m b nul = some m₁ →
      st.str < p → load m₁ p = some nul → p + 1 = m₁.length := by
    intro b m₁ p htrim hstore hp hload
    have hle := (argsTrimBack_spec htrim).1
    rw [load_store hstore, if_neg (by omega)] at hload
    rw [length_store hstore]
    exact hlast p hp.le hload
  intro p hp hload
  have hlt' := lt_of_lt_of_le hlt hp
  cases h with
  | segment _ _ htrim hstore => exact hkeep htrim hstore hlt' hload
  | equals _ _ htrim hstore => exact hkeep htrim hstore hlt' hload
  | token => exact hlast p hlt'.le hload

/-- The loop is behind the first character of a value. -/
def InValue (m : List UInt8) (st : ArgsState) : Prop :=
  ∃ e c, st.eqPos = some e ∧ e < st.str ∧ load m e = some c ∧ isWhitespace c = false ∧ c ≠ nul

/-- Behind the first character of a value, a round makes a node with that value, or the loop is
behind the first character of a value again, unless it is at the end of the memory. -/
lemma Round.inValue {stop : Bool} (h : Round delim m st m' st' stop) (hlast : LastNul m st)
    (hin : InValue m st) :
    (∃ value, st'.nodes = st.nodes ++ [⟨st.namePos, value⟩] ∧ argsValue m' st.eqPos = some value) ∨
      stop = false ∧ st'.nodes = st.nodes ∧ (st'.str = m'.length ∨ InValue m' st') := by
  obtain ⟨e, c, heq, he, hc, hblank, hnul⟩ := hin
  have hround := h
  cases h with
  | @segment _ _ _ _ _ value _ _ _ _ hvalue => exact Or.inl ⟨value, rfl, hvalue⟩
  | @equals b e' _ hequals hdelim htrim hstore hskip =>
    refine Or.inr ⟨rfl, rfl, ?_⟩
    obtain ⟨hle, c', hc', hblank'⟩ := argsSkipBlanks_spec hskip
    have hb := (argsTrimBack_spec htrim).1
    by_cases hnul' : c' = nul
    · subst hnul'
      rw [load_store hstore, if_neg (by omega)] at hc'
      exact Or.inl (by rw [length_store hstore]; exact hlast e' (by omega) hc')
    · exact Or.inr ⟨e', c', rfl, Nat.lt_succ_self _, hc', hblank', hnul'⟩
  | token =>
    exact Or.inr ⟨rfl, rfl, Or.inr ⟨e, c, heq, he.trans (Nat.lt_succ_self _), hc, hblank, hnul⟩⟩

/-- **A value that starts with a character that is not looked at.** If the loop is behind the first
character of a value, it gets to the end of the segment, if at all, with a value that is not empty.

**Proof sketch.** Induction on the rounds. The character is no blank, so no terminator is written
over it; and a `=` only makes the next such character the first one. -/
lemma argsRuns_swallow (hrun : ArgsRuns delim m st (m', ns)) (hlast : LastNul m st)
    (hin : InValue m st) :
    ∃ node, ns[st.nodes.length]? = some node ∧ ∀ name, ¬ node.Is m' ⟨name, some []⟩ := by
  have hempty : isFloat [] ≠ 0 ∧ isFloat [] ≠ 1 := by decide
  have hnode : ∀ {m : List UInt8} {st : ArgsState} {m₁ value}, InValue m st →
      (∀ e c, load m e = some c → isWhitespace c = false → e < st.str → load m' e = some c) →
      st.nodes ++ [⟨st.namePos, value⟩] <+: ns → argsValue m₁ st.eqPos = some value →
      ∃ node, ns[st.nodes.length]? = some node ∧ ∀ name, ¬ node.Is m' ⟨name, some []⟩ := by
    intro m st m₁ value ⟨e, c, heq, he, hc, hblank, hnul⟩ hkeep ⟨rest, hns⟩ hvalue
    refine ⟨⟨st.namePos, value⟩, by rw [← hns]; simp, fun name his => ?_⟩
    rw [heq, argsValue] at hvalue
    obtain ⟨v, hv, hvalue⟩ := Option.bind_eq_some_iff.mp hvalue
    have his := his.2
    simp only at his
    split_ifs at hvalue <;> obtain rfl := Option.some.inj hvalue
    · exact hempty.2 his.1
    · exact hempty.1 his.1
    · exact cstring_of_load (hkeep e c hc hblank he) hnul his.2.2
  refine ArgsRuns.induction (P := fun m st => LastNul m st → InValue m st →
    ∃ node, ns[st.nodes.length]? = some node ∧ ∀ name, ¬ node.Is m' ⟨name, some []⟩)
    ?_ ?_ hrun hlast hin
  · intro m st st₁ hround hnodes hlast hin
    rcases hround.inValue hlast hin with ⟨value, heq, hvalue⟩ | ⟨hstop, -⟩
    · exact hnode hin (fun e c hc hblank he => hround.keeps hc hblank (Or.inl he))
        ⟨[], by rw [List.append_nil, ← heq, hnodes]⟩ hvalue
    · cases hstop
  · intro m st m₁ st₁ hround hrun ih hlast hin
    rcases hround.inValue hlast hin with ⟨value, heq, hvalue⟩ | ⟨-, heq, hend | hin'⟩
    · exact hnode hin (fun e c hc hblank he =>
          hrun.keeps (hround.keeps hc hblank (Or.inl he)) hblank
            (Or.inl (he.trans hround.advances)))
        (by rw [← heq]; exact hrun.nodes) hvalue
    · have := hrun.str_lt
      omega
    · rw [← heq]
      exact ih (hround.lastNul hround.advances hlast) hin'

end Bad

/-! ## Segments that do not get what they say -/

section Segments

variable (d : ArgsDelim) {A t u R : List UInt8} {us : List (List UInt8)}

/-- Where the rest of a string starts, the only terminator to come is its own. -/
lemma lastNul_append {Y : List UInt8} (hR : nul ∉ R) {st : ArgsState} (hstr : Y.length ≤ st.str) :
    LastNul (Y ++ (R ++ [nul])) st := by
  intro p hp hload
  unfold load at hload
  rw [List.getElem?_append_right (by omega)] at hload
  by_cases hlt : p - Y.length < R.length
  · rw [List.getElem?_append_left hlt] at hload
    exact absurd (List.mem_of_getElem? hload) hR
  · have := (List.getElem?_eq_some_iff.mp hload).1
    simp only [List.length_append, List.length_singleton] at this ⊢
    omega

/-- What a text that ends behind a `=` says: its value is empty. -/
lemma argOf_openEnd (h : OpenEnd t) : ∃ name, argOf t = ⟨name, some []⟩ := by
  obtain ⟨t', g, rfl, hg, hgap⟩ := openEnd_split t rfl h
  refine ⟨(scanOf t').name.getD (trimEnd (scanOf t').token), ?_⟩
  have hnext : (scanOf t').next equalsSign =
      ⟨some ((scanOf t').name.getD (trimEnd (scanOf t').token)), [], true⟩ := by
    rw [ArgScan.next, if_neg (by rw [scanOf, hgap]; exact Bool.false_ne_true), if_pos rfl]
  have hscan : scanOf (t' ++ equalsSign :: g) =
      g.foldl ArgScan.next ((scanOf t').next equalsSign) := by
    rw [scanOf, List.foldl_append, List.foldl_cons]
    rfl
  rw [argOf, hscan, hnext, foldl_next_blank hg]
  rfl

/-- A name that was read stays. -/
lemma foldl_next_name {name : List UInt8} (t : List UInt8) {sc : ArgScan}
    (h : sc.name = some name) : (t.foldl ArgScan.next sc).name = some name := by
  induction t generalizing sc with
  | nil => exact h
  | cons c t ih =>
    apply ih
    unfold ArgScan.next
    split_ifs
    · exact h
    · exact h
    · rw [h]
      rfl
    · exact h

/-- What a text says that does not start with a name: the name is empty. -/
lemma argOf_nameless (h : ¬ Firm (body u)) : (argOf (body u)).name = [] := by
  cases hbody : body u with
  | nil => rfl
  | cons c t =>
    have hc : c = equalsSign := by
      by_contra hne
      exact h ⟨c, by rw [hbody]; rfl, body_head hbody, hne⟩
    subst hc
    have hname : (t.foldl ArgScan.next (ArgScan.next ⟨none, [], false⟩ equalsSign)).name =
        some [] := foldl_next_name t rfl
    rw [argOf, scanOf, List.foldl_cons, ArgScan.arg, hname]

/-- **A segment that ends behind a `=`** has no node that stands for it: the first character of the
value that is not there is the delimiter, or the terminator, behind which the memory ends. -/
lemma argsRuns_open (ht : d.val ∉ t ∧ nul ∉ t) (hR : nul ∉ R)
    (hhead : R = [] ∨ ∃ R', R = d.val :: R') (hopen : EndsFirm A ∨ Firm t) (hend : OpenEnd t)
    {nodes ns : List ArgNode} {m' : List UInt8}
    (hrun : ArgsRuns d.val (A ++ (t ++ (R ++ [nul]))) ⟨A.length, A.length, none, nodes⟩ (m', ns)) :
    ∃ node, ns[nodes.length]? = some node ∧ ¬ node.Is m' (argOf t) := by
  obtain ⟨name, harg⟩ := argOf_openEnd hend
  rw [harg]
  obtain ⟨t', g, rfl, hg, hgap⟩ := openEnd_split t rfl hend
  have ht' : d.val ∉ t' ∧ nul ∉ t' :=
    ⟨fun h => ht.1 (List.mem_append_left _ h), fun h => ht.2 (List.mem_append_left _ h)⟩
  obtain ⟨P, st, hat, hnodes, hlen, hopen', hstart⟩ := argsRuns_start d.ne_equals.symm ht' hgap
    (hopen.imp_right firm_of_append) nodes
  obtain ⟨ws, hblank, hZ, hstr, hlenws, hm⟩ := hat.trim hopen'
  obtain ⟨c, R', hcR, hc⟩ : ∃ c R', R ++ [nul] = c :: R' ∧ (c = nul ∧ R' = [] ∨ c = d.val) := by
    rcases hhead with rfl | ⟨R', rfl⟩
    · exact ⟨nul, [], rfl, Or.inl ⟨rfl, rfl⟩⟩
    · exact ⟨d.val, R' ++ [nul], rfl, Or.inr rfl⟩
  have hfirm : isWhitespace c = false := by
    rcases hc with ⟨rfl, -⟩ | rfl
    · rfl
    · exact d.not_blank
  -- the run up to the `=`, and the round there
  have htext : A ++ ((t' ++ equalsSign :: g) ++ (R ++ [nul])) =
      A ++ (t' ++ equalsSign :: (g ++ c :: R')) := by
    rw [hcR]
    simp
  rw [htext, hstart, hm,
    argsRuns_continue (argsStep_equals d.ne_equals.symm hZ hblank hg hfirm hstr)] at hrun
  have hlen' : (A ++ (P ++ trimEnd (scanOf t').token)).length + ws.length + 1 + g.length =
      ((A ++ (P ++ trimEnd (scanOf t').token)) ++ (terminated ws equalsSign ++ g)).length := by
    simp only [List.length_append, length_terminated]
    omega
  have hshape : (A ++ (P ++ trimEnd (scanOf t').token)) ++
      (terminated ws equalsSign ++ (g ++ c :: R')) =
      ((A ++ (P ++ trimEnd (scanOf t').token)) ++ (terminated ws equalsSign ++ g)) ++ c :: R' := by
    simp
  rw [hlen', hshape] at hrun
  rcases hc with ⟨rfl, rfl⟩ | rfl
  · -- the terminator is skipped, and the memory ends behind it
    have := hrun.str_lt
    simp only [List.length_append, List.length_singleton] at this
    omega
  · have hswallow := argsRuns_swallow hrun (by rw [← hcR]; exact lastNul_append hR (by simp))
      ⟨_, _, rfl, Nat.lt_succ_self _, load_seam rfl, hfirm, d.ne_nul⟩
    simp only [hnodes] at hswallow
    obtain ⟨node, hnode, hnot⟩ := hswallow
    exact ⟨node, hnode, hnot name⟩

/-- **A nameless segment with blanks in front** has no node that stands for it: its name is not
terminated where it starts, but before. -/
lemma argsRuns_nameless {w c : UInt8} (hw : isWhitespace w = true) (hc : isWhitespace c = false)
    (hnul : c ≠ nul) {nodes ns : List ArgNode} {m' : List UInt8}
    (hrun : ArgsRuns d.val ((A ++ [w]) ++ c :: R)
      ⟨(A ++ [w]).length, (A ++ [w]).length, none, nodes⟩ (m', ns)) :
    ∃ node, ns[nodes.length]? = some node ∧ ∀ a : Arg, a.name = [] → ¬ node.Is m' a := by
  obtain ⟨node, hnode, hname⟩ := hrun.node_name
  have hload : load ((A ++ [w]) ++ c :: R) (A ++ [w]).length = some c := load_seam rfl
  have hbefore : loadBefore ((A ++ [w]) ++ c :: R) (A ++ [w]).length = some w := by
    rw [List.append_assoc]
    exact loadBefore_seam (by simp)
  have hkeep := hrun.keeps hload hc (Or.inr ⟨rfl, w, hbefore, hw⟩)
  refine ⟨node, hnode, fun a ha his => ?_⟩
  have := his.1
  rw [hname, ha] at this
  exact cstring_of_load hkeep hnul this

/-- If the next node stands for what the segment says, the segment does not end behind a `=`. -/
lemma not_openEnd_of_argsRuns (hsegs : ∀ s ∈ t :: us, d.val ∉ s ∧ nul ∉ s)
    (hopen : EndsFirm A ∨ Firm t) {nodes new : List ArgNode} {node : ArgNode} {m' : List UInt8}
    (hrun : ArgsRuns d.val (A ++ (argsText d.val t us ++ [nul])) ⟨A.length, A.length, none, nodes⟩
      (m', nodes ++ node :: new))
    (hnode : node.Is m' (argOf t)) : ¬ OpenEnd t := by
  intro hend
  obtain ⟨R, htext, hhead⟩ := argsText_split d t us
  have hnul := nul_notMem_argsText d fun s hs => (hsegs s hs).2
  rw [htext, List.append_assoc] at hrun
  rw [htext] at hnul
  obtain ⟨node', hnode', hnot⟩ := argsRuns_open d (hsegs t List.mem_cons_self)
    (fun h => hnul (List.mem_append_right t h)) hhead hopen hend hrun
  rw [List.getElem?_append_right le_rfl, Nat.sub_self] at hnode'
  obtain rfl := Option.some.inj hnode'
  exact hnot hnode

/-- **A list whose nodes stand for what its segments say is in good order.**

**Proof sketch.** Induction on the segments. The first segment that is not in good order either ends
behind a `=` (`argsRuns_open`) or is nameless with blanks in front (`argsRuns_nameless`); the
segments before it get their nodes (`argsRuns_delim`), so that the node that does not fit is its
own. -/
theorem segmented_of_argsRuns (hsegs : ∀ s ∈ t :: us, d.val ∉ s ∧ nul ∉ s)
    (hopen : EndsFirm A ∨ Firm t) {nodes new : List ArgNode} {m' : List UInt8}
    (hrun : ArgsRuns d.val (A ++ (argsText d.val t us ++ [nul])) ⟨A.length, A.length, none, nodes⟩
      (m', nodes ++ new))
    (hnew : List.Forall₂ (ArgNode.Is m') new (argsOf (t :: us))) : Segmented (t :: us) := by
  induction us generalizing A t nodes new with
  | nil =>
    cases hnew with
    | cons hnode _ =>
      exact ⟨not_openEnd_of_argsRuns d hsegs hopen hrun hnode,
        fun u hu => absurd hu List.not_mem_nil⟩
  | cons u us ih =>
    rw [argsOf] at hnew
    obtain ⟨n, new, hnode, hrest, rfl⟩ := List.forall₂_cons_right_iff.mp hnew
    have hclosed := not_openEnd_of_argsRuns d hsegs hopen hrun hnode
    have hu := hsegs u (by simp)
    obtain ⟨T, e, node, hT, he, -, hdelim⟩ := argsRuns_delim d us
      (hsegs t List.mem_cons_self) hu.2 hclosed hopen nodes
    rw [hdelim []] at hrun
    by_cases hstop : us = [] ∧ body u = []
    · refine ⟨hclosed, fun v hv => ?_⟩
      rw [yielding, if_pos hstop] at hv
      exact absurd hv List.not_mem_nil
    rw [if_neg hstop] at hrun
    have hyield : yielding (u :: us) = u :: yielding us := by rw [yielding, if_neg hstop]
    have hnew' : List.Forall₂ (ArgNode.Is m') new (argsOf (body u :: us)) := by
      rwa [hyield] at hrest
    obtain rfl : node = n := by
      obtain ⟨rest, hnodes⟩ := hrun.nodes
      simp only [List.append_assoc, List.append_cancel_left_eq, List.singleton_append] at hnodes
      exact (List.cons.inj hnodes).1
    rw [show nodes ++ node :: new = (nodes ++ [node]) ++ new by simp] at hrun
    -- what is behind the blanks is a name, if there are any
    have hfirm : lead u = [] ∨ Firm (body u) := by
      by_contra hbad
      obtain ⟨hlead, hnotfirm⟩ := not_or.mp hbad
      obtain ⟨c, R, hcR, hc, hend⟩ := argsText_head d us hu.2 []
      have hlast := List.dropLast_append_getLast hlead
      have hw : isWhitespace ((lead u).getLast hlead) = true :=
        blank_lead u _ (List.getLast_mem hlead)
      have hA : A ++ (T ++ e :: lead u) =
          (A ++ (T ++ e :: (lead u).dropLast)) ++ [(lead u).getLast hlead] := by
        conv_lhs => rw [← hlast]
        simp
      rw [hcR, hA] at hrun
      obtain ⟨node', hnode', hnot⟩ := argsRuns_nameless d hw hc (mt hend.mp hstop) hrun
      rw [argsOf] at hnew'
      obtain ⟨n', new', hn', -, rfl⟩ := List.forall₂_cons_right_iff.mp hnew'
      rw [List.getElem?_append_right le_rfl, Nat.sub_self] at hnode'
      obtain rfl := Option.some.inj hnode'
      exact hnot _ (argOf_nameless hnotfirm) hn'
    have hopen' : EndsFirm (A ++ (T ++ e :: lead u)) ∨ Firm (body u) := by
      rcases hfirm with hlead | hfirm
      · left
        rw [hlead, ← List.append_assoc]
        exact EndsFirm.append ⟨e, rfl, he⟩
      · exact Or.inr hfirm
    have hbody : ∀ s ∈ body u :: us, d.val ∉ s ∧ nul ∉ s := by
      intro s hs
      rcases List.mem_cons.mp hs with rfl | hs
      · exact ⟨fun h => hu.1 ((List.dropWhile_suffix _).subset h),
          fun h => hu.2 ((List.dropWhile_suffix _).subset h)⟩
      · exact hsegs s (by simp [hs])
    have hseg := ih hbody hopen' hrun hnew'
    refine ⟨hclosed, fun v hv => ?_⟩
    rw [hyield] at hv
    rcases List.mem_cons.mp hv with rfl | hv
    · exact ⟨hseg.1, hfirm⟩
    · exact hseg.2 v hv

/-- **The strings of which every segment becomes a node of its own.** For every string behind a byte
that is no blank, in a memory that ends with its terminator: `args_parse` stays inside the string
and returns nodes that stand for what the segments say, each by itself, exactly if no segment ends
behind a `=`, and where there are blanks behind a delimiter (and anything behind them) a name
follows them. More rounds than it takes do not change what the parse does, so no result is an access
outside.

**Proof sketch.** `argsRuns_segments` one way and `segmented_of_argsRuns` the other. -/
theorem argsParse_segments_iff (d : ArgsDelim) (x : UInt8) (hx : isWhitespace x = false)
    (s : List UInt8) (hs : nul ∉ s) :
    ((∃ m nodes, argsParse ([x] ++ (s ++ [nul])) 1 d.val = some (m, nodes) ∧
        List.Forall₂ (ArgNode.Is m) nodes (argsOf (s.splitOn d.val))) ↔
      Segmented (s.splitOn d.val)) ∧
      ∀ fuel ≥ s.length + 2, argsLoop d.val fuel ([x] ++ (s ++ [nul])) ⟨1, 1, none, []⟩ =
        argsParse ([x] ++ (s ++ [nul])) 1 d.val := by
  have hlen : ([x] ++ (s ++ [nul])).length = s.length + 2 := by
    simp only [List.length_append, List.length_singleton]
    omega
  obtain ⟨t, us, hsplit, htext, hsegs⟩ := exists_argsText d hs
  have hopen : EndsFirm [x] ∨ Firm t := Or.inl ⟨x, rfl, hx⟩
  constructor
  · rw [hsplit, htext]
    constructor
    · rintro ⟨m, nodes, hparse, hnodes⟩
      have hrun : ArgsRuns d.val ([x] ++ (argsText d.val t us ++ [nul])) ⟨1, 1, none, []⟩
          (m, [] ++ nodes) := argsParse_eq_some.mp hparse
      exact segmented_of_argsRuns d hsegs hopen hrun hnodes
    · intro hseg
      obtain ⟨S, nodes, -, hnodes, hrun⟩ := argsRuns_segments d hsegs hseg hopen []
      exact ⟨_, nodes, argsParse_eq_some.mpr ((hrun [] _).mpr rfl), hnodes⟩
  · intro fuel hfuel
    cases hparse : argsParse ([x] ++ (s ++ [nul])) 1 d.val with
    | none => exact argsLoop_rounds (by rw [hlen]; omega) hparse fuel
    | some r => exact argsLoop_fuel hparse (by rw [hlen]; exact hfuel)

/-- Two arguments behind a terminator. -/
theorem argsParse_segments_two :
    isWhitespace nul = false ∧ nul ∉ cstr "p=50& r=2" ∧
      ∃ m nodes, argsParse ([nul] ++ (cstr "p=50& r=2" ++ [nul])) 1 38 = some (m, nodes) ∧
        List.Forall₂ (ArgNode.Is m) nodes
          [⟨cstr "p", some (cstr "50")⟩, ⟨cstr "r", some (cstr "2")⟩] := by
  have hnul : nul ∉ cstr "p=50& r=2" := by decide
  have hsplit : (cstr "p=50& r=2").splitOn 38 = [cstr "p=50", cstr " r=2"] := by decide +kernel
  have hyield : yielding [cstr " r=2"] = [cstr " r=2"] := by decide
  have hseg : Segmented [cstr "p=50", cstr " r=2"] := by
    refine ⟨by decide, fun u hu => ?_⟩
    rw [hyield] at hu
    obtain rfl := List.mem_singleton.mp hu
    exact ⟨by decide, Or.inr ⟨114, by decide, by decide, by decide⟩⟩
  have hargs : argsOf [cstr "p=50", cstr " r=2"] =
      [⟨cstr "p", some (cstr "50")⟩, ⟨cstr "r", some (cstr "2")⟩] := by decide +kernel
  have h := (argsParse_segments_iff ArgsDelim.attacker nul rfl _ hnul).1
  rw [show ArgsDelim.attacker.val = 38 from rfl, hsplit, hargs] at h
  exact ⟨rfl, hnul, h.mpr hseg⟩

/-- An empty value makes the parse leave the string if it is the last one, and take the next
argument for itself if it is not. -/
theorem argsParse_swallows :
    argsParse ([nul] ++ (cstr "p=" ++ [nul])) 1 38 = none ∧
      ∃ m, argsParse ([nul] ++ (cstr "p=&q=3" ++ [nul])) 1 38 = some (m, [⟨1, .int 3⟩]) ∧
        cstring m 1 = some (cstr "p") := by
  refine ⟨by decide +kernel,
    [nul] ++ (cstr "p" ++ [nul] ++ cstr "&q" ++ [nul] ++ cstr "3" ++ [nul]), ?_, ?_⟩
  · decide +kernel
  · decide +kernel

end Segments

end Mproxy
