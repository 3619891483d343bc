import Mproxy.Rules.RowLayout

set_option relaxedAutoImplicit false
set_option autoImplicit false

/-!
# Rows that are read inside their own text

What a row does depends on its own bytes only, if neither `csv_parse` nor `args_parse` gets behind
its terminator. For `csv_parse` the condition is known (`StaysInside`). `args_parse` gets behind the
terminator where it takes it for the first character of a value: directly behind a `=` and blanks.

## Main definitions

* `Mproxy.overruns` — `args_parse` takes the byte behind a string for the start of a value.
* `Mproxy.OwnText` — the rows that are read inside their own text.

## Main results

* `Mproxy.argsRuns_overruns` — where `args_parse` gets to the end of a string.
* `Mproxy.OwnText.means` — such a row means the same, whatever lies behind it.
* `Mproxy.ownText_iff` — only such rows are read without an access behind their terminator.
-/

namespace Mproxy

open Memory

/-! ## Strings that args_parse does not leave -/

/-- What `args_parse` does behind these bytes: `true` if the next byte is taken for the first
character of a value, whatever it is. The flag says whether that is so at the start of the bytes. -/
def overruns : Bool → List UInt8 → Bool
  | gap, [] => gap
  | true, c :: s => if isWhitespace c then overruns true s else overruns false s
  | false, c :: s => if c = nul then false else overruns (decide (c = equalsSign)) s

/-- The pointers of `args_parse` are not behind the position `n`. -/
def ArgsState.Within (n : ℕ) (st : ArgsState) : Prop :=
  (∀ e ∈ st.eqPos, e ≤ n) ∧ st.namePos ≤ n ∧ ∀ node ∈ st.nodes, node.name ≤ n

/-- How the loop of `args_parse` ends in a memory whose last byte, at the position `n`, is a
terminator: inside the memory, with nodes whose names are strings, or not at all. -/
def EndsInside (delim : UInt8) (m : List UInt8) (st : ArgsState) (n : ℕ) : Bool → Prop
  | false => ∃ S nodes, ArgsRuns delim m st (S ++ [nul], nodes) ∧ S.length = n ∧
      ∀ node ∈ nodes, node.name ≤ n
  | true => ∀ r, ¬ ArgsRuns delim m st r

section Overruns

variable {delim : UInt8} {m m' : List UInt8} {st st' : ArgsState} {n : ℕ} {b : Bool}

/-- How the loop ends behind a round that goes on is how it ends. -/
lemma EndsInside.of_continue (h : argsStep delim m st = some (m', st', false))
    (hend : EndsInside delim m' st' n b) : EndsInside delim m st n b := by
  cases b with
  | true =>
    intro r hrun
    exact hend r ((argsRuns_continue h).mp hrun)
  | false =>
    obtain ⟨S, nodes, hrun, hrest⟩ := hend
    exact ⟨S, nodes, (argsRuns_continue h).mpr hrun, hrest⟩

/-- Blanks behind a token do not count. -/
lemma overruns_blank {g : List UInt8} (hg : Blank g) (s : List UInt8) :
    overruns false (g ++ s) = overruns false s := by
  induction g with
  | nil => rfl
  | cons w g ih =>
    have hw : isWhitespace w = true := hg w List.mem_cons_self
    have hnul : w ≠ nul := by
      rintro rfl
      exact absurd hw (by decide)
    have heq : w ≠ equalsSign := by
      rintro rfl
      exact absurd hw (by decide)
    rw [List.cons_append, overruns, if_neg hnul, decide_eq_false heq]
    exact ih fun c hc => hg c (List.mem_cons_of_mem w hc)

/-- A string that is empty, or has a zero byte first, is not overrun. -/
lemma overruns_of_nul {s R : List UInt8} (h : s ++ [nul] = nul :: R) :
    overruns false s = false := by
  cases s with
  | nil => rfl
  | cons c t =>
    obtain rfl : c = nul := (List.cons.inj h).1
    rfl

/-- Behind a `=` the blanks are skipped, and the byte behind them is taken. -/
lemma overruns_gap (s : List UInt8) : (Blank s ∧ overruns true s = true) ∨
    ∃ g c s', s = g ++ c :: s' ∧ Blank g ∧ isWhitespace c = false ∧
      overruns true s = overruns false s' := by
  induction s with
  | nil => exact Or.inl ⟨fun _ h => absurd h List.not_mem_nil, rfl⟩
  | cons w s ih =>
    by_cases hw : isWhitespace w = true
    · rw [overruns, if_pos hw]
      rcases ih with ⟨hblank, hs⟩ | ⟨g, c, s', rfl, hg, hc, hs⟩
      · exact Or.inl ⟨List.forall_mem_cons.mpr ⟨hw, hblank⟩, hs⟩
      · exact Or.inr ⟨w :: g, c, s', rfl, List.forall_mem_cons.mpr ⟨hw, hg⟩, hc, hs⟩
    · refine Or.inr ⟨[], w, s, rfl, fun _ h => absurd h List.not_mem_nil, by simpa using hw, ?_⟩
      rw [overruns, if_neg hw]

/-- Bytes in which trimming backwards stops: what is there, and blanks behind it. -/
lemma Solid.endsFirm {A : List UInt8} (h : Solid A) :
    ∃ Z ws, A = Z ++ ws ∧ EndsFirm Z ∧ Blank ws := by
  obtain ⟨A₀, x, ws, rfl, hx, hws⟩ := h.split
  refine ⟨A₀ ++ [x], ws, by simp, ⟨x, by simp, hx⟩, hws⟩

/-- A pointer that is not behind the last terminator points to a string. -/
lemma cstring_of_le {S : List UInt8} {p : ℕ} (hp : p ≤ S.length) :
    ∃ s, cstring (S ++ [nul]) p = some s := by
  have hm : S ++ [nul] = S.take p ++ (S.drop p ++ nul :: []) := by
    rw [← List.append_assoc, List.take_append_drop]
  rw [hm]
  exact ⟨_, cstring_seam (List.length_take_of_le hp)⟩

/-- A value can be read that starts inside of the memory. -/
lemma argsValue_of_le {S : List UInt8} {eqPos : Option ℕ} (h : ∀ e ∈ eqPos, e ≤ S.length) :
    ∃ value, argsValue (S ++ [nul]) eqPos = some value := by
  cases eqPos with
  | none => exact ⟨.noval, rfl⟩
  | some e =>
    obtain ⟨s, hs⟩ := cstring_of_le (h e rfl)
    obtain ⟨value, -, hvalue⟩ := argsValue_is hs
    have := hvalue []
    rw [List.append_nil] at this
    exact ⟨value, this⟩

/-- The node of an argument that ends is within the bound as well. -/
lemma ArgsState.Within.push (hst : st.Within n) (value : ArgValue) :
    ∀ node ∈ st.nodes ++ [⟨st.namePos, value⟩], node.name ≤ n := by
  intro node hnode
  rcases List.mem_append.mp hnode with h | h
  · exact hst.2.2 node h
  · obtain rfl := List.mem_singleton.mp h
    exact hst.2.1

/-- The round at a zero byte is the last one. -/
lemma endsInside_nul {P R : List UInt8} (hP : Solid P) (hstr : st.str = P.length) {S : List UInt8}
    (hR : nul :: R = S ++ [nul]) (hst : st.Within (P.length + S.length)) (hdelim : nul ≠ delim) :
    EndsInside delim (P ++ nul :: R) st (P.length + S.length) false := by
  obtain ⟨Z, ws, rfl, hZ, hws⟩ := hP.endsFirm
  obtain ⟨X, e, hX, hXlen, he⟩ := terminated_last ws nul
  obtain rfl := or_self_iff.mp he
  have hlen : (Z ++ X).length = (Z ++ ws).length := by simp [hXlen]
  -- the memory behind the round still ends with its terminator
  have hm : Z ++ (terminated ws nul ++ R) = (Z ++ X ++ S) ++ [nul] := by
    have : [nul] ++ R = S ++ [nul] := hR
    rw [hX, List.append_assoc X, this]
    simp
  have hSlen : (Z ++ X ++ S).length = (Z ++ ws).length + S.length := by
    rw [List.length_append, hlen]
  have hpos : ∀ e ∈ st.eqPos, e ≤ (Z ++ X ++ S).length := by
    rw [hSlen]
    exact hst.1
  obtain ⟨value, hvalue⟩ := argsValue_of_le hpos
  have hat : Z ++ (terminated ws nul ++ R) = (Z ++ X) ++ nul :: R := by rw [hX]; simp
  have hskip := argsSkipBlanks_seam (Y := Z ++ X) (R := R) (g := [])
    (fun _ h => absurd h List.not_mem_nil) (c := nul) rfl
  rw [List.nil_append, List.length_nil, Nat.add_zero, hlen] at hskip
  have hstep : argsStep delim (Z ++ (ws ++ nul :: R)) st =
      some (Z ++ (terminated ws nul ++ R),
        ⟨(Z ++ ws).length, (Z ++ ws).length, none, st.nodes ++ [⟨st.namePos, value⟩]⟩,
        decide (nul = nul)) :=
    argsStep_segment hZ hws (Or.inr rfl) (hstr.trans List.length_append) (by rw [hm]; exact hvalue)
      (by rw [if_neg hdelim, hat, hstr]; exact hskip) (by rw [hat]; exact load_seam hlen)
  refine ⟨Z ++ X ++ S, st.nodes ++ [⟨st.namePos, value⟩], ?_, hSlen, hst.push value⟩
  rw [List.append_assoc, ← hm]
  exact (argsRuns_stop hstep).mpr rfl

/-- The round at a delimiter. -/
lemma endsInside_delim (d : ArgsDelim) {P s : List UInt8} (hP : Solid P) (hstr : st.str = P.length)
    (hst : st.Within (P.length + (s.length + 1)))
    (ih : ∀ P' st', Solid P' → P'.length + (body s).length = P.length + (s.length + 1) →
      st'.str = P'.length → st'.Within (P.length + (s.length + 1)) →
      EndsInside d.val (P' ++ (body s ++ [nul])) st' (P.length + (s.length + 1))
        (overruns false (body s))) :
    EndsInside d.val (P ++ (d.val :: s ++ [nul])) st (P.length + (s.length + 1))
      (overruns false (body s)) := by
  obtain ⟨Z, ws, rfl, hZ, hws⟩ := hP.endsFirm
  have hs : s = lead s ++ body s := (lead_append_body s).symm
  have hlens : s.length = (lead s).length + (body s).length := by
    conv_lhs => rw [hs]
    exact List.length_append
  obtain ⟨e, R, hbody, he⟩ : ∃ e R, body s ++ [nul] = e :: R ∧ isWhitespace e = false := by
    cases hbody : body s with
    | nil => exact ⟨nul, [], rfl, rfl⟩
    | cons e R => exact ⟨e, R ++ [nul], rfl, body_head hbody⟩
  have hY : (Z ++ terminated ws d.val).length = (Z ++ ws).length + 1 := by
    simp only [List.length_append, length_terminated]
    omega
  have hmem : Z ++ (terminated ws d.val ++ (s ++ [nul])) =
      (Z ++ terminated ws d.val ++ s) ++ [nul] := by simp
  have hmem' : Z ++ (terminated ws d.val ++ (s ++ [nul])) =
      (Z ++ terminated ws d.val) ++ (lead s ++ e :: R) := by
    rw [← hbody, ← List.append_assoc (lead s), lead_append_body]
    simp
  have hlen : (Z ++ terminated ws d.val ++ s).length = (Z ++ ws).length + (s.length + 1) := by
    rw [List.length_append, hY]
    omega
  have hpos : ∀ e ∈ st.eqPos, e ≤ (Z ++ terminated ws d.val ++ s).length := by
    rw [hlen]
    exact hst.1
  obtain ⟨value, hvalue⟩ := argsValue_of_le hpos
  have hskip := argsSkipBlanks_seam (Y := Z ++ terminated ws d.val) (R := R) (blank_lead s) he
  have hat : (Z ++ terminated ws d.val ++ lead s).length =
      (Z ++ terminated ws d.val).length + (lead s).length := List.length_append
  have hstep : argsStep d.val (Z ++ (ws ++ d.val :: (s ++ [nul]))) st =
      some (Z ++ (terminated ws d.val ++ (s ++ [nul])),
        ⟨(Z ++ terminated ws d.val ++ lead s).length, (Z ++ terminated ws d.val ++ lead s).length,
          none, st.nodes ++ [⟨st.namePos, value⟩]⟩, decide (e = nul)) := by
    refine argsStep_segment hZ hws (Or.inl rfl) (hstr.trans List.length_append)
      (by rw [hmem]; exact hvalue) ?_ ?_
    · rw [if_pos rfl, hstr, ← hY, hat, hmem']
      exact hskip
    · rw [hmem', ← List.append_assoc]
      exact load_seam rfl
  have hm : Z ++ ws ++ (d.val :: s ++ [nul]) = Z ++ (ws ++ d.val :: (s ++ [nul])) := by simp
  rw [hm]
  by_cases hnul : e = nul
  · -- nothing but blanks is left, or a zero byte comes next
    subst hnul
    rw [overruns_of_nul hbody]
    refine ⟨Z ++ terminated ws d.val ++ s, _, ?_, hlen, hst.push value⟩
    rw [← hmem]
    exact (argsRuns_stop hstep).mpr rfl
  · have hgo : decide (e = nul) = false := decide_eq_false hnul
    rw [hgo] at hstep
    have hm' : Z ++ (terminated ws d.val ++ (s ++ [nul])) =
        (Z ++ terminated ws d.val ++ lead s) ++ (body s ++ [nul]) := by
      rw [hmem', hbody]
      simp
    rw [hm'] at hstep
    refine EndsInside.of_continue hstep (ih _ _ ?_ ?_ rfl ⟨by simp, ?_, hst.push value⟩)
    · exact ⟨nul, by simp [terminated], rfl⟩
    · rw [hat, hY]
      omega
    · simp only
      rw [hat, hY]
      omega

/-- The round at a `=`. -/
lemma endsInside_equals (d : ArgsDelim) {P s : List UInt8} (hP : Solid P)
    (hstr : st.str = P.length) (hst : st.Within (P.length + (s.length + 1)))
    (ih : ∀ s' P' st', s'.length < s.length + 1 → Solid P' →
      P'.length + s'.length = P.length + (s.length + 1) → st'.str = P'.length →
      st'.Within (P.length + (s.length + 1)) →
      EndsInside d.val (P' ++ (s' ++ [nul])) st' (P.length + (s.length + 1)) (overruns false s')) :
    EndsInside d.val (P ++ (equalsSign :: s ++ [nul])) st (P.length + (s.length + 1))
      (overruns true s) := by
  obtain ⟨Z, ws, rfl, hZ, hws⟩ := hP.endsFirm
  have hstr' := hstr.trans List.length_append
  rcases overruns_gap s with ⟨hblank, htrue⟩ | ⟨g, c, s', rfl, hg, hc, hs⟩
  · -- the terminator is taken for the first character of the value
    rw [htrue]
    have hm : Z ++ ws ++ (equalsSign :: s ++ [nul]) =
        Z ++ (ws ++ equalsSign :: (s ++ nul :: [])) := by simp
    rw [hm]
    refine EndsInside.of_continue (argsStep_equals d.ne_equals.symm hZ hws hblank rfl hstr') ?_
    intro r
    refine not_argsRuns ?_
    have hload : load (Z ++ (terminated ws equalsSign ++ (s ++ nul :: [])))
        (Z.length + ws.length + 1 + s.length + 1) = none := by
      refine List.getElem?_eq_none ?_
      simp only [List.length_append, length_terminated, List.length_cons, List.length_nil]
      omega
    rw [argsStep, hload]
    rfl
  · rw [hs]
    have hm : Z ++ ws ++ (equalsSign :: (g ++ c :: s') ++ [nul]) =
        Z ++ (ws ++ equalsSign :: (g ++ c :: (s' ++ [nul]))) := by simp
    have hm' : Z ++ (terminated ws equalsSign ++ (g ++ c :: (s' ++ [nul]))) =
        (Z ++ terminated ws equalsSign ++ g ++ [c]) ++ (s' ++ [nul]) := by simp
    have hlen : (Z ++ terminated ws equalsSign ++ g ++ [c]).length =
        Z.length + ws.length + 1 + g.length + 1 := by
      simp only [List.length_append, length_terminated, List.length_singleton]
      omega
    have hn : (Z ++ terminated ws equalsSign ++ g ++ [c]).length + s'.length =
        (Z ++ ws).length + ((g ++ c :: s').length + 1) := by
      simp only [List.length_append, length_terminated, List.length_cons, List.length_nil]
      omega
    have hstep := argsStep_equals (R := s' ++ [nul]) d.ne_equals.symm hZ hws hg hc hstr'
    rw [hm'] at hstep
    rw [hm]
    refine EndsInside.of_continue hstep (ih s' _ _ ?_ ⟨nul, by simp [terminated], rfl⟩ hn hlen.symm
      ⟨fun e he => ?_, hst.2.1, hst.2.2⟩)
    · rw [List.length_append, List.length_cons]
      omega
    · obtain rfl := Option.some.inj he
      rw [← hn, hlen]
      omega

/-- The round at any other character. -/
lemma endsInside_char (d : ArgsDelim) {P s : List UInt8} {c : UInt8} (hnul : c ≠ nul)
    (hdelim : c ≠ d.val) (hequals : c ≠ equalsSign) (hstr : st.str = P.length)
    (ih : EndsInside d.val ((P ++ [c]) ++ (s ++ [nul])) { st with str := st.str + 1 } n
      (overruns false s)) :
    EndsInside d.val (P ++ (c :: s ++ [nul])) st n (overruns false (c :: s)) := by
  have hover : overruns false (c :: s) = overruns false s := by
    rw [overruns, if_neg hnul, decide_eq_false hequals]
  have hload : load (P ++ (c :: s ++ [nul])) st.str = some c := load_seam hstr.symm
  have hne : ¬ (c = d.val ∨ c = nul) := not_or.mpr ⟨hdelim, hnul⟩
  have hstep : argsStep d.val (P ++ (c :: s ++ [nul])) st =
      some ((P ++ [c]) ++ (s ++ [nul]), { st with str := st.str + 1 }, false) := by
    rw [argsStep, hload]
    simp [if_neg hne, if_neg hequals]
  rw [hover]
  exact EndsInside.of_continue hstep ih

/-- **The loop of `args_parse` leaves a string exactly where it overruns it.** It is anywhere in a
string that ends with the memory, with a byte before it that is no blank.

**Proof sketch.** Induction on what is left of the string. A zero byte ends the loop; behind a
delimiter it goes on where the blanks end. Behind a `=` it goes on behind the first byte that is no
blank; if there is none, that byte is the terminator, and behind it there is no memory. -/
lemma argsRuns_overruns (d : ArgsDelim) (r P : List UInt8) (st : ArgsState) (hP : Solid P)
    (hstr : st.str = P.length) (hst : st.Within (P.length + r.length)) :
    EndsInside d.val (P ++ (r ++ [nul])) st (P.length + r.length) (overruns false r) := by
  induction hn : r.length using Nat.strongRecOn generalizing r P st with
  | ind n ih =>
    subst hn
    cases r with
    | nil => exact endsInside_nul (S := []) hP hstr rfl hst d.ne_nul.symm
    | cons c s =>
      rw [List.length_cons] at hst ⊢
      by_cases hnul : c = nul
      · subst hnul
        exact endsInside_nul (S := nul :: s) hP hstr rfl hst d.ne_nul.symm
      by_cases hdelim : c = d.val
      · subst hdelim
        have hover : overruns false (d.val :: s) = overruns false (body s) := by
          rw [overruns, if_neg hnul, decide_eq_false d.ne_equals]
          conv_lhs => rw [← lead_append_body s]
          exact overruns_blank (blank_lead s) _
        have hle : (body s).length ≤ s.length := (List.dropWhile_suffix _).length_le
        rw [hover]
        refine endsInside_delim d hP hstr hst fun P' st' hP' hlen hstr' hst' => ?_
        rw [← hlen] at hst' ⊢
        exact ih _ (by rw [List.length_cons]; omega) (body s) P' st' hP' hstr' hst' rfl
      by_cases hequals : c = equalsSign
      · subst hequals
        rw [show overruns false (equalsSign :: s) = overruns true s from rfl]
        refine endsInside_equals d hP hstr hst fun s' P' st' hlt hP' hlen hstr' hst' => ?_
        rw [← hlen] at hst' ⊢
        exact ih _ hlt s' P' st' hP' hstr' hst' rfl
      · have hn : (P ++ [c]).length + s.length = P.length + (s.length + 1) := by simp; omega
        refine endsInside_char d hnul hdelim hequals hstr ?_
        rw [← hn] at hst ⊢
        refine ih s.length (by simp) s (P ++ [c]) _ ?_ (by simp [hstr]) hst rfl
        obtain ⟨x, hx, hblank⟩ := hP
        exact ⟨x, List.mem_append_left _ hx, hblank⟩

end Overruns

/-! ## Arguments -/

/-- Without its position a string has not moved. -/
lemma ArgValue.anon_shift (n : ℕ) (v : ArgValue) : (v.shift n).anon = v.anon := by
  cases v <;> rfl

/-- An argument that is found inside a region is found in every larger one. -/
lemma argNamed_frame {m name : List UInt8} {p : ℕ} {v : Option ArgValue}
    (h : argNamed m p name = some v) (pre post : List UInt8) :
    argNamed (pre ++ (m ++ post)) (pre.length + p) name = some v := by
  unfold argNamed argsLookup at h ⊢
  obtain ⟨⟨m', targ⟩, hlookup, rfl⟩ := Option.map_eq_some_iff.mp h
  simp only [Option.bind_eq_bind, Option.bind_eq_some_iff] at hlookup
  obtain ⟨⟨m₁, nodes⟩, hparse, found, hfind, hres⟩ := hlookup
  obtain ⟨rfl, rfl⟩ := Prod.mk.inj (Option.some.inj hres)
  simp only [argsParse_frame pre post hparse, argsFind_frame pre post hfind, Option.bind_eq_bind,
    Option.bind_some, Option.map_some, Option.map_map]
  cases found with
  | none => rfl
  | some node => simp [ArgNode.shift, ArgValue.anon_shift]

/-- Among nodes whose names are strings the search gets to its end. -/
lemma argsFind_isSome {S : List UInt8} {nodes : List ArgNode}
    (h : ∀ node ∈ nodes, node.name ≤ S.length) (name : List UInt8) :
    ∃ found, argsFind (S ++ [nul]) nodes name = some found := by
  induction nodes with
  | nil => exact ⟨none, rfl⟩
  | cons node nodes ih =>
    obtain ⟨s, hs⟩ := cstring_of_le (h node List.mem_cons_self)
    obtain ⟨found, hfound⟩ := ih fun node hnode => h node (List.mem_cons_of_mem _ hnode)
    simp only [argsFind, hs, Option.bind_eq_bind, Option.bind_some]
    split_ifs
    · exact ⟨some node, rfl⟩
    · exact ⟨found, hfound⟩

/-- **Arguments are found inside a string exactly if it is not overrun.** -/
lemma argNamed_isSome {P : List UInt8} (hP : Solid P) (r name : List UInt8) :
    (∃ v, argNamed (P ++ (r ++ [nul])) P.length name = some v) ↔ overruns false r = false := by
  have hend := argsRuns_overruns ArgsDelim.attacker r P ⟨P.length, P.length, none, []⟩ hP rfl
    ⟨by simp, Nat.le_add_right _ _, by simp⟩
  unfold argNamed argsLookup
  cases hb : overruns false r with
  | true =>
    rw [hb] at hend
    refine iff_of_false ?_ Bool.true_eq_false.mp
    rintro ⟨v, hv⟩
    obtain ⟨q, hq, -⟩ := Option.map_eq_some_iff.mp hv
    obtain ⟨⟨m', nodes⟩, hparse, -⟩ := Option.bind_eq_some_iff.mp hq
    exact hend _ (argsParse_eq_some.mp hparse)
  | false =>
    rw [hb] at hend
    obtain ⟨S, nodes, hrun, hS, hnodes⟩ := hend
    obtain ⟨found, hfound⟩ := argsFind_isSome (hS ▸ hnodes) name
    have hparse : argsParse (P ++ (r ++ [nul])) P.length attackerArgsDelim =
        some (S ++ [nul], nodes) := argsParse_eq_some.mpr hrun
    refine iff_of_true ?_ rfl
    simp only [hparse, hfound, Option.bind_eq_bind, Option.bind_some, Option.map_some]
    exact ⟨_, rfl⟩

/-- The argument that is found in the last column of a row, whose bytes are `last`, if nothing
behind its terminator is looked at. -/
def argOwn (last name : List UInt8) : Option (Option ArgValue) :=
  argNamed ([nul] ++ (last ++ [nul])) (1 + (lead last).length) name

/-- What is found in the last column of a row that lies somewhere in memory behind a terminator. -/
lemma argNamed_last (D last B name : List UInt8) :
    (overruns false last = false →
      argNamed (D ++ ([nul] ++ (last ++ [nul]) ++ B)) (D.length + (1 + (lead last).length)) name =
        argOwn last name ∧ ∃ v, argOwn last name = some v) ∧
      (overruns false last = true →
        argNamed (D ++ ([nul] ++ (last ++ [nul]))) (D.length + (1 + (lead last).length)) name =
          none) := by
  have hlast : last = lead last ++ body last := (lead_append_body last).symm
  have hover : overruns false last = overruns false (body last) := by
    conv_lhs => rw [hlast]
    exact overruns_blank (blank_lead last) _
  have hm : ∀ D : List UInt8, D ++ ([nul] ++ (last ++ [nul])) =
      (D ++ [nul] ++ lead last) ++ (body last ++ [nul]) := by
    intro D
    conv_lhs => rw [hlast]
    simp
  have hp : ∀ D : List UInt8, D.length + (1 + (lead last).length) =
      (D ++ [nul] ++ lead last).length := by
    intro D
    simp only [List.length_append, List.length_singleton]
    omega
  have hiff : ∀ D : List UInt8, (∃ v, argNamed (D ++ ([nul] ++ (last ++ [nul])))
      (D.length + (1 + (lead last).length)) name = some v) ↔ overruns false last = false := by
    intro D
    rw [hm, hp, hover]
    exact argNamed_isSome ⟨nul, by simp, rfl⟩ (body last) name
  constructor
  · intro hfalse
    obtain ⟨v, hv⟩ := (hiff []).mpr hfalse
    rw [List.nil_append, List.length_nil, Nat.zero_add] at hv
    exact ⟨(argNamed_frame hv D B).trans hv.symm, v, hv⟩
  · intro htrue
    rw [Option.eq_none_iff_forall_ne_some]
    intro v hv
    have := (hiff D).mp ⟨v, hv⟩
    rw [htrue] at this
    cases this

/-! ## Rows -/

/-- The columns for the version, the message type and the action make `attacker_add_rule` read the
arguments. -/
def Columns.Reads (past : Past) (version msgType action : List UInt8) : Prop :=
  normalizeOfpVerStr version ≠ ofpVerErr ∧
    normalizeOfpMsgType past (normalizeOfpVerStr version).toNat msgType ≠ ofpMsgTypeErr ∧
    (normalizeActionType action = actionIdDrop ∨ normalizeActionType action = actionIdDup)

/-- The arguments of a row with these fields are read: it has eight fields, a known version and
message type, and is a `DROP` or a `DUP` rule. -/
def ReadsArgs (past : Past) (fields : List (List UInt8)) : Prop :=
  fields.length = attackerRowNumFields ∧
    Columns.Reads past (fieldText (fields.getD 3 [])) (fieldText (fields.getD 4 []))
      (fieldText (fields.getD 6 []))

/-- A row that is read inside its own text: `csv_parse` stays in it, and so does `args_parse`, where
it is called. -/
def OwnText (past : Past) (row : List UInt8) : Prop :=
  StaysInside row ∧
    (ReadsArgs past (row.splitOn comma) →
      overruns false ((row.splitOn comma).getD 7 []) = false)

/-- The row of a call, with these bytes behind its terminator. -/
def rowCall (row B : List UInt8) : RowCall := ⟨row ++ nul :: B, 0, row.length + 1⟩

/-- What `csv_parse` makes of a row that it does not leave: a pointer for every field, and if there
is more than one field, a string for each but the last one, which stays as it was behind a
terminator. -/
lemma StaysInside.csvParse {row : List UInt8} (h : StaysInside row) (B : List UInt8) :
    ∃ m F, Mproxy.csvParse (row ++ nul :: B) 0 (row.length + 1) = some (m, F) ∧
      F.ret.length = (row.splitOn comma).length ∧
      ∀ inits last, row.splitOn comma = inits ++ [last] → inits ≠ [] →
        ∃ D ps, m = D ++ ([nul] ++ (last ++ [nul]) ++ B) ∧
          F.ret = ps ++ [D.length + (1 + (lead last).length)] ∧
          List.Forall₂ (fun p r => cstring m p = some (fieldText r)) ps inits := by
  obtain ⟨inits, last, hrow, hsplit, hinits, hlast, hmem⟩ := exists_rowOf row
  obtain ⟨hquoted, hfirst⟩ := h
  rw [hsplit] at hquoted hfirst
  rw [← hmem] at hfirst
  have hA : ∀ r ∈ inits.head?, core r = [] → Solid [] := by
    intro r hr hcore
    have hne : inits ≠ [] := by
      rintro rfl
      cases hr
    exact absurd (blank_of_core hcore)
      (hfirst hne r (by rw [List.head?_append_of_ne_nil _ hne]; exact hr))
  obtain ⟨A', X, ps, F, hA', -, hrun, -, hX, hret, hps⟩ := csvParse_unquoted (B := B) hA
    (fun r hr => ⟨hinits r hr, not_or.mp (hquoted r (List.mem_append_left _ hr))⟩)
    (⟨hlast, not_or.mp (hquoted last (by simp))⟩ : Unquoted last)
  obtain rfl := List.length_eq_zero_iff.mp hA'
  rw [List.nil_append, List.length_nil, ← hrow] at hrun
  simp only [List.nil_append] at hrun hret hps
  refine ⟨_, F, hrun, ?_, fun inits' last' hsplit' hne => ?_⟩
  · rw [hsplit, hret, List.length_append, List.length_append, hps.length_eq]
    rfl
  · rw [hsplit] at hsplit'
    obtain ⟨rfl, heq⟩ := List.append_inj' hsplit' rfl
    obtain rfl := (List.cons.inj heq).1
    obtain ⟨D, rfl⟩ := hX hne
    refine ⟨D, ps, by simp, ?_, hps.imp fun p r hp => cstring_append _ hp⟩
    rw [hret, List.length_append, List.length_singleton, Nat.add_assoc]

/-- The fields of a row, one by one. -/
lemma eight_fields {fields : List (List UInt8)} (h : fields.length = attackerRowNumFields) :
    ∃ r₀ r₁ r₂ r₃ r₄ r₅ r₆ r₇, fields = [r₀, r₁, r₂, r₃, r₄, r₅, r₆, r₇] := by
  match fields, h with
  | [r₀, r₁, r₂, r₃, r₄, r₅, r₆, r₇], _ => exact ⟨r₀, r₁, r₂, r₃, r₄, r₅, r₆, r₇, rfl⟩

/-- The columns of a row that `csv_parse` does not leave. -/
lemma StaysInside.columns {row : List UInt8} (h : StaysInside row)
    (hnum : (row.splitOn comma).length = attackerRowNumFields) (B : List UInt8) :
    ∃ D argP argR, (rowCall row B).columns =
        some ⟨fieldText ((row.splitOn comma).getD 3 []), fieldText ((row.splitOn comma).getD 4 []),
          fieldText ((row.splitOn comma).getD 6 []), argP, argR⟩ ∧
      argP = argNamed (D ++ ([nul] ++ ((row.splitOn comma).getD 7 [] ++ [nul]) ++ B))
        (D.length + (1 + (lead ((row.splitOn comma).getD 7 [])).length)) (cstr "p") ∧
      argR = argNamed (D ++ ([nul] ++ ((row.splitOn comma).getD 7 [] ++ [nul]) ++ B))
        (D.length + (1 + (lead ((row.splitOn comma).getD 7 [])).length)) (cstr "r") := by
  obtain ⟨m, F, hrun, hlen, hfields⟩ := h.csvParse B
  obtain ⟨r₀, r₁, r₂, r₃, r₄, r₅, r₆, r₇, hsplit⟩ := eight_fields hnum
  obtain ⟨D, ps, rfl, hret, hps⟩ := hfields [r₀, r₁, r₂, r₃, r₄, r₅, r₆] r₇ hsplit
    (List.cons_ne_nil _ _)
  rcases hps with _ | ⟨-, _ | ⟨-, _ | ⟨-, _ | ⟨h₃, _ | ⟨h₄, _ | ⟨-, _ | ⟨h₆, _ | _⟩⟩⟩⟩⟩⟩⟩
  rw [hnum] at hlen
  rw [hsplit]
  refine ⟨D, _, _, ?_, rfl, rfl⟩
  simp only [List.getD_cons_succ, List.getD_cons_zero]
  generalize D ++ ([nul] ++ (r₇ ++ [nul]) ++ B) = m at hrun h₃ h₄ h₆ ⊢
  rw [RowCall.columns, rowCall]
  simp only [hrun, Option.bind_eq_bind, Option.bind_some, hlen, ne_eq, not_true_eq_false, if_false]
  rw [hret]
  simp only [List.cons_append, List.nil_append, List.getD_cons_succ, List.getD_cons_zero]
  rw [h₃, h₄, h₆]
  rfl

/-- Where the arguments are not read, they do not matter. -/
lemma Columns.rule_of_not_reads {past : Past} {version msgType action : List UInt8}
    (h : ¬ Columns.Reads past version msgType action) :
    ∃ rule, ∀ argP argR, Columns.rule past ⟨version, msgType, action, argP, argR⟩ = some rule := by
  unfold Columns.rule
  simp only
  unfold Columns.Reads at h
  by_cases hver : normalizeOfpVerStr version = ofpVerErr
  · exact ⟨.refused, fun _ _ => if_pos hver⟩
  by_cases htype : normalizeOfpMsgType past (normalizeOfpVerStr version).toNat msgType =
      ofpMsgTypeErr
  · exact ⟨.refused, fun _ _ => by rw [if_neg hver, if_pos htype]⟩
  by_cases herr : normalizeActionType action = actionIdErr
  · exact ⟨.refused, fun _ _ => by rw [if_neg hver, if_neg htype, if_pos herr]⟩
  have hact := not_or.mp fun h' => h ⟨hver, htype, h'⟩
  exact ⟨_, fun _ _ => by
    rw [if_neg hver, if_neg htype, if_neg herr, if_neg hact.1, if_neg hact.2]⟩

/-- Where the arguments are read, a row whose arguments are not found means nothing. -/
lemma Columns.rule_of_reads {past : Past} {version msgType action : List UInt8}
    (h : Columns.Reads past version msgType action) :
    Columns.rule past ⟨version, msgType, action, none, none⟩ = none := by
  obtain ⟨hver, htype, hact⟩ := h
  have herr : normalizeActionType action ≠ actionIdErr := by
    rintro h
    rw [h] at hact
    exact absurd hact (by decide)
  unfold Columns.rule
  simp only
  rw [if_neg hver, if_neg htype, if_neg herr]
  rcases hact with h | h
  · rw [if_pos h]
    rfl
  · have hne : actionIdDup ≠ actionIdDrop := by decide
    rw [h, if_neg hne, if_pos rfl]
    rfl

/-- **A row that is read inside its own text means the same, whatever lies behind it.**

**Proof sketch.** The fields do not depend on what lies behind the row. Where the arguments are
read, the last column is not overrun, and what is found in it is found inside it. -/
theorem OwnText.means {past : Past} {row : List UInt8} (h : OwnText past row) :
    ∃ rule, ∀ B, (rowCall row B).Means past rule := by
  obtain ⟨hinside, hargs⟩ := h
  by_cases hnum : (row.splitOn comma).length = attackerRowNumFields
  · by_cases hreads : Columns.Reads past (fieldText ((row.splitOn comma).getD 3 []))
        (fieldText ((row.splitOn comma).getD 4 [])) (fieldText ((row.splitOn comma).getD 6 []))
    · have hover := hargs ⟨hnum, hreads⟩
      obtain ⟨p, hp⟩ := ((argNamed_last [] _ [] (cstr "p")).1 hover).2
      obtain ⟨r, hr⟩ := ((argNamed_last [] _ [] (cstr "r")).1 hover).2
      obtain ⟨rule, hrule⟩ := Columns.rule_isSome past (fieldText ((row.splitOn comma).getD 3 []))
        (fieldText ((row.splitOn comma).getD 4 [])) (fieldText ((row.splitOn comma).getD 6 [])) p r
      refine ⟨rule, fun B => ?_⟩
      obtain ⟨D, argP, argR, hcols, hargP, hargR⟩ := hinside.columns hnum B
      rw [((argNamed_last D _ B _).1 hover).1] at hargP hargR
      rw [RowCall.means_iff hcols, hargP, hargR, hp, hr]
      exact hrule
    · obtain ⟨rule, hrule⟩ := Columns.rule_of_not_reads hreads
      refine ⟨rule, fun B => ?_⟩
      obtain ⟨D, argP, argR, hcols, -, -⟩ := hinside.columns hnum B
      exact (RowCall.means_iff hcols rule).mpr (hrule argP argR)
  · refine ⟨.refused, fun B => ?_⟩
    obtain ⟨m, F, hrun, hlen, -⟩ := hinside.csvParse B
    exact ⟨m, RowCall.means_refused hrun (by rw [hlen]; exact hnum)⟩

/-- **Only such a row is read without an access behind its terminator.** -/
theorem ownText_iff (past : Past) (row : List UInt8) :
    (∃ rule, (rowCall row []).Means past rule) ↔ OwnText past row := by
  constructor
  · rintro ⟨rule, hmeans⟩
    have hinside : StaysInside row := by
      obtain ⟨m', hparse⟩ := hmeans
      obtain ⟨⟨m, F⟩, hcsv, -⟩ := Runs.bind_eq_ok.mp hparse
      rw [← (csvParse_inside_iff row).1]
      exact Option.isSome_iff_exists.mpr ⟨_, ofMem_eq_ok.mp hcsv⟩
    refine ⟨hinside, fun ⟨hnum, hreads⟩ => ?_⟩
    obtain ⟨D, argP, argR, hcols, hargP, hargR⟩ := hinside.columns hnum []
    cases hover : overruns false ((row.splitOn comma).getD 7 []) with
    | false => rfl
    | true =>
      rw [List.append_nil, (argNamed_last D _ [] _).2 hover] at hargP hargR
      rw [RowCall.means_iff hcols, hargP, hargR, Columns.rule_of_reads hreads] at hmeans
      cases hmeans
  · intro h
    obtain ⟨rule, hrule⟩ := h.means
    exact ⟨rule, hrule []⟩

end Mproxy
