import Mathlib.Order.Monotone.Basic
import Mproxy.Flow.Allocation
import Mproxy.Proxy.Sessions

set_option relaxedAutoImplicit false
set_option autoImplicit false

/-!
# What the process delivers

All clients of the process share the attack tables and `rand()`. A client is served as if it were
alone: its session is one in which `rand()` returns the values that the process got in the calls
that were made for this client, in their order. So what is delivered to its mate is what the tables
prescribe for its messages, whatever the other clients send in between. The rest of what it has sent
is what lies in its stream and its `evbuffer`.

## Main definitions

* `Mproxy.System.events` — the read events of a client in a run of the process.

## Main results

* `Mproxy.onFlowRead_rand` — a callback depends on the values of `rand()` that it asks for only.
* `Mproxy.shared_session` — a session in company is one that is alone.
* `Mproxy.process_alone` — so is every session of the process.
* `Mproxy.systemStep_extends` — a step that succeeds does so with more memory as well.
* `Mproxy.process_prescribed` — the process delivers what the tables prescribe.
-/

namespace Mproxy

open Framing

section Rand

variable {L : Loci} {T : Tables} {ρ ρ' : ℕ → ℕ}

/-- A call of `action_inject` is counted. -/
lemma tableInject_env {n : ℕ} {data : List UInt8} {len : ℕ} {dupCount : UInt8}
    {r : Option StreamT × UInt8 × ℕ} (h : tableInject L T ρ n data len dupCount = .ok r) :
    r.2.2 = n + 1 := allocInject_env (μ := fun _ => .granted) h

/-- `action_inject` only takes numbers from the generator, it gives none back. -/
lemma tableInject_le (e : ℕ) (d : List UInt8) (n : ℕ) (c : UInt8) (r : Option StreamT × UInt8 × ℕ)
    (h : tableInject L T ρ e d n c = .ok r) : e ≤ r.2.2 :=
  allocInject_le (μ := fun _ => .granted) e d n c r h

/-- A call that gets the same value of `rand()` answers in the same way. -/
lemma tableInject_rand {n m : ℕ} (h : ρ n = ρ' m) {data : List UInt8} {len : ℕ} {dupCount : UInt8}
    {r : Option StreamT × UInt8 × ℕ} (hr : tableInject L T ρ n data len dupCount = .ok r) :
    tableInject L T ρ' m data len dupCount = .ok (r.1, r.2.1, m + 1) := by
  obtain ⟨x, hx, hr⟩ := Runs.bind_eq_ok.mp hr
  rw [tableInject, ← h, hx, Runs.ok_bind, ← Except.ok.inj hr]

/-- The loop with another number of the next call of `action_inject`. -/
def Loop.setEnv {σ : Type} (l : Loop σ) (env : σ) : Loop σ := { l with env := env }

/-- The forwarding block does not look at the number of the next call. -/
lemma forward_setEnv (ev : ReadEvent) (l : Loop ℕ) (m : ℕ) (response : Option StreamT) :
    forward ev (l.setEnv m) response =
      ((forward ev l response).1.setEnv m, (forward ev l response).2) := by
  cases response with
  | none => rfl
  | some response =>
    by_cases hfd : ev.fdValid l.responses = false
    · simp [forward, Loop.setEnv, hfd]
    · by_cases hwrite : ev.writeOk l.responses <;> simp [forward, Loop.setEnv, hfd, hwrite]

/-- **The frame loop depends on the values of `rand()` that it asks for only.**

**Proof sketch.** Induction on the bound on the rounds. A round that calls `action_inject` asks for
the first of the values, and the rounds behind it for the others. -/
lemma frameLoop_rand {ev : ReadEvent} {buf : List UInt8} {fuel : ℕ} {l l' : Loop ℕ} {exit : Exit}
    (hrun : frameLoop (tableInject L T ρ) ev buf fuel l = .ok (l', exit)) {m : ℕ}
    (hρ : ∀ i, l.env + i < l'.env → ρ (l.env + i) = ρ' (m + i)) :
    frameLoop (tableInject L T ρ') ev buf fuel (l.setEnv m) =
      .ok (l'.setEnv (m + (l'.env - l.env)), exit) := by
  induction fuel generalizing l m with
  | zero =>
    obtain ⟨rfl, rfl⟩ : l = l' ∧ Exit.finished = exit := by simpa [frameLoop] using hrun
    simp [frameLoop]
  | succ fuel ih =>
    have hmono := frameLoop_env (E := (· ≤ ·)) (fun _ => le_rfl) (fun _ _ _ => le_trans)
      tableInject_le hrun
    have hlp : (l.setEnv m).lenProcessed = l.lenProcessed := rfl
    simp only [frameLoop, hlp] at hrun ⊢
    by_cases hroom : l.lenProcessed + ofpHeaderBytes ≤ buf.length
    swap
    · rw [if_neg hroom] at hrun ⊢
      obtain ⟨rfl, rfl⟩ : l = l' ∧ Exit.finished = exit := by simpa using hrun
      simp
    rw [if_pos hroom] at hrun ⊢
    by_cases hzero : (ofpMsgLen (buf.drop l.lenProcessed)).toNat = 0
    · rw [if_pos hzero] at hrun ⊢
      obtain ⟨rfl, rfl⟩ : l = l' ∧ Exit.zeroLength = exit := by simpa using hrun
      simp
    rw [if_neg hzero] at hrun ⊢
    by_cases hmore : (ofpMsgLen (buf.drop l.lenProcessed)).toNat > buf.length - l.lenProcessed
    · rw [if_pos hmore] at hrun ⊢
      obtain ⟨rfl, rfl⟩ : l = l' ∧ Exit.incomplete = exit := by simpa using hrun
      simp
    rw [if_neg hmore] at hrun ⊢
    obtain ⟨⟨response, dupCount, env⟩, hx, hrun⟩ := Runs.bind_eq_ok.mp hrun
    have henv : env = l.env + 1 := tableInject_env hx
    subst henv
    set l₁ := l.hand (ofpFraming.first (buf.drop l.lenProcessed)) dupCount (l.env + 1) with hl₁
    have hset : (l.setEnv m).hand (ofpFraming.first (buf.drop l.lenProcessed)) dupCount (m + 1) =
        l₁.setEnv (m + 1) := rfl
    -- the first value of `rand()` is asked for here
    have hfirst : l.env < l'.env → ρ l.env = ρ' m := hρ 0
    simp only at hrun
    cases hexit : (forward ev l₁ response).2 with
    | some ex =>
      rw [hexit] at hrun
      simp only [Except.ok.injEq, Prod.mk.injEq] at hrun
      obtain ⟨rfl, rfl⟩ := hrun
      have henv' : (forward ev l₁ response).1.env = l.env + 1 := forward_env ev l₁ response
      rw [henv'] at hfirst
      have hcall := tableInject_rand (hfirst (Nat.lt_succ_self _)) hx
      rw [show (l.setEnv m).env = m from rfl, show (l.setEnv m).dupCount = l.dupCount from rfl,
        hcall, Runs.ok_bind]
      simp only [hset, forward_setEnv, hexit, henv']
      simp
    | none =>
      rw [hexit] at hrun
      simp only at hrun
      set l₂ := (forward ev l₁ response).1.advance
        (ofpMsgLen (buf.drop l.lenProcessed)).toNat with hl₂
      have henv₂ : l₂.env = l.env + 1 := forward_env ev l₁ response
      have hmono₂ := frameLoop_env (E := (· ≤ ·)) (fun _ => le_rfl) (fun _ _ _ => le_trans)
        tableInject_le hrun
      have hcall := tableInject_rand (hfirst (by omega)) hx
      rw [show (l.setEnv m).env = m from rfl, show (l.setEnv m).dupCount = l.dupCount from rfl,
        hcall, Runs.ok_bind]
      simp only [hset, forward_setEnv, hexit]
      have hgo := ih hrun (m := m + 1) fun i hi => by
        have := hρ (i + 1) (by omega)
        rwa [henv₂, Nat.add_right_comm l.env, Nat.add_assoc, Nat.add_right_comm m, Nat.add_assoc m]
      rw [henv₂] at hgo
      rw [show m + (l'.env - l.env) = m + 1 + (l'.env - (l.env + 1)) by omega, ← hgo]
      rfl

/-- The data of a callback with another number of the next call of `action_inject`. -/
def Flow.setEnv {σ : Type} (st : Flow σ) (env : σ) : Flow σ := { st with env := env }

/-- Leaving the loop does not look at the number of the next call. -/
lemma leave_setEnv (st : Flow ℕ) (l : Loop ℕ) (exit : Exit) (m n : ℕ) :
    leave (st.setEnv m) (l.setEnv n) exit =
      (leave st l exit).map fun r => (r.1.setEnv n, r.2) := by
  have hlp : (l.setEnv n).lenProcessed = l.lenProcessed := rfl
  unfold leave
  simp only [hlp]
  by_cases hshift : (exit = .incomplete ∨ exit = .finished) ∧ l.lenProcessed > 0
  · rw [if_pos hshift, if_pos hshift]
    show (streamLeftShift st.msg l.lenProcessed >>= _) = _
    cases streamLeftShift st.msg l.lenProcessed with
    | error e => rfl
    | ok msg => rfl
  · rw [if_neg hshift, if_neg hshift]
    rfl

/-- **A callback depends on the values of `rand()` that it asks for only.** -/
lemma onFlowRead_rand {st : Flow ℕ} {ev : ReadEvent} {r : Flow ℕ × Report}
    (hrun : onFlowRead (tableInject L T ρ) st ev = .ok r) {m : ℕ}
    (hρ : ∀ i, st.env + i < r.1.env → ρ (st.env + i) = ρ' (m + i)) :
    onFlowRead (tableInject L T ρ') (st.setEnv m) ev =
      .ok (r.1.setEnv (m + (r.1.env - st.env)), r.2) := by
  have hmsg : (st.setEnv m).msg = st.msg := rfl
  have hin : (st.setEnv m).input = st.input := rfl
  unfold onFlowRead at hrun ⊢
  simp only [hmsg, hin] at hrun ⊢
  cases hroom : makeRoom st.msg (st.input ++ ev.chunk).length ev.realloc with
  | none =>
    rw [hroom] at hrun
    obtain rfl := Except.ok.inj hrun
    simp [Flow.setEnv]
  | some s =>
    rw [hroom] at hrun
    obtain ⟨msg, hfill, hrun⟩ := Runs.bind_eq_ok.mp hrun
    simp only [hfill, Runs.ok_bind]
    unfold handleInput at hrun ⊢
    simp only at hrun ⊢
    by_cases hshort : msg.len < ofpHeaderBytes
    · rw [if_pos hshort] at hrun ⊢
      obtain rfl := Except.ok.inj hrun
      simp [Flow.setEnv]
    rw [if_neg hshort] at hrun ⊢
    by_cases hclosed : ev.peerOpen = false
    · rw [if_pos hclosed] at hrun ⊢
      obtain rfl := Except.ok.inj hrun
      simp [Flow.setEnv]
    rw [if_neg hclosed] at hrun ⊢
    obtain ⟨⟨l, exit⟩, hl, hrun⟩ := Runs.bind_eq_ok.mp hrun
    have hle := frameLoop_le hl (Nat.zero_le _)
    rw [StreamT.length_bytes] at hle
    obtain ⟨st', rep, hleave, -, -, -, -, -, henv, -⟩ :=
      @leave_ok _ { st with msg := msg, input := [] } l exit hle
    obtain rfl := Except.ok.inj (hleave.symm.trans hrun)
    rw [show (st', rep).1.env = l.env from henv] at hρ ⊢
    have hloop := frameLoop_rand (m := m) hl hρ
    rw [show (st.setEnv m).evBuf = st.evBuf from rfl,
      show (st.setEnv m).output = st.output from rfl, show (st.setEnv m).env = m from rfl]
    have hstart : (⟨0, ev.dupCount, st.evBuf, st.output, m, [], 0⟩ : Loop ℕ) =
        (⟨0, ev.dupCount, st.evBuf, st.output, st.env, [], 0⟩ : Loop ℕ).setEnv m := rfl
    rw [hstart, hloop, Runs.ok_bind]
    have hset := leave_setEnv { st with msg := msg, input := [] } l exit m (m + (l.env - st.env))
    rw [hleave] at hset
    exact hset

/-! ## Sessions in company -/

/-- The next call number of a session. -/
def Session.setEnv {σ : Type} (k : Session σ) (env : σ) : Session σ :=
  { k with flow := k.flow.setEnv env }

/-- **A session in company is one that is alone**: where the others only move on the number of the
next call, it makes its calls at some numbers `calls 0 < calls 1 < ...`, and is the session that
gets the values of `rand()` from there.

**Proof sketch.** Induction on the events. The calls of the first one have the numbers from where
the others left the count, those of the rest are given by the induction hypothesis, behind them. -/
theorem shared_session {gs : List (ℕ × ReadEvent)} {k k' : Session ℕ}
    (halong : Runs.Along (sharedStep (tableInject L T ρ)) (fun k g => k.flow.env ≤ g.1) k gs)
    (hrun : Runs.run (sharedStep (tableInject L T ρ)) k gs = .ok k') :
    ∃ (calls : ℕ → ℕ) (n : ℕ), StrictMono calls ∧ (∀ i, k.flow.env ≤ calls i) ∧
      (∀ i < n, calls i < k'.flow.env) ∧ k.flow.env ≤ k'.flow.env ∧
      ∀ m ρ', (∀ i < n, ρ' (m + i) = ρ (calls i)) →
        Runs.run (sessionStep (tableInject L T ρ')) (k.setEnv m) (gs.map Prod.snd) =
          .ok (k'.setEnv (m + n)) := by
  induction gs generalizing k with
  | nil =>
    obtain rfl : k = k' := by simpa using hrun
    refine ⟨fun i => k.flow.env + i, 0, fun i j hij => Nat.add_lt_add_left hij _,
      fun i => Nat.le_add_right _ i, fun i hi => absurd hi i.not_lt_zero, le_rfl, fun m ρ' _ => rfl⟩
  | cons g gs ih =>
    obtain ⟨k₁, h₁, h₂⟩ := Runs.bind_eq_ok.mp hrun
    obtain ⟨hg, halong₁⟩ := halong k₁ h₁
    obtain ⟨calls, n, hmono, hge, hlt, hle, hgo⟩ := ih halong₁ h₂
    obtain ⟨⟨flow, rep⟩, hcall, hk₁⟩ := Runs.bind_eq_ok.mp h₁
    obtain rfl := Except.ok.inj hk₁
    have hfwd : g.1 ≤ flow.env :=
      onFlowRead_env (E := (· ≤ ·)) (fun _ => le_rfl) (fun _ _ _ => le_trans) tableInject_le hcall
    simp only at hge hle
    -- the first event makes `c` calls
    set c := flow.env - g.1 with hc
    refine ⟨fun i => if i < c then g.1 + i else calls (i - c), c + n, ?_, ?_, ?_,
      hg.trans (hfwd.trans hle), ?_⟩
    · intro i j hij
      simp only
      have hgej := hge (j - c)
      split_ifs with hi hj hj
      · omega
      · omega
      · omega
      · exact hmono (by omega)
    · intro i
      simp only
      have hgei := hge (i - c)
      split_ifs <;> omega
    · intro i hi
      simp only
      split_ifs with hic
      · omega
      · exact hlt (i - c) (by omega)
    · intro m ρ' hρ'
      have hcall' := @onFlowRead_rand L T _ ρ' _ _ _ hcall m fun i hi => by
        have hi' : i < c := by
          have : g.1 + i < flow.env := hi
          omega
        have hval := hρ' i (by omega)
        simp only [if_pos hi'] at hval
        exact hval.symm
      have hrest := hgo (m + c) ρ' fun i hi => by
        have hval := hρ' (c + i) (by omega)
        have hnot : ¬ c + i < c := by omega
        simp only [if_neg hnot, Nat.add_sub_cancel_left] at hval
        rw [Nat.add_assoc]
        exact hval
      rw [List.map_cons, Runs.run_cons, sessionStep]
      have hflow : (k.setEnv m).flow = Flow.setEnv { k.flow with env := g.1 } m := rfl
      rw [hflow, hcall', Runs.ok_bind, Runs.ok_bind, ← Nat.add_assoc]
      exact hrest

end Rand

/-! ## The process -/

/-- The read events of the client `p` in a run of the process; its pair is open as long as its mate
`q` is there. -/
def System.events {σ : Type} (inject : Inject σ) (p q : ClientPtr) (s : System σ)
    (as : List Action) : List ReadEvent :=
  (Runs.seen (systemStep inject) (System.reads p q) s as).map Prod.snd

/-- A client's events are the read events that the run has for it. -/
lemma System.mem_events {σ : Type} {inject : Inject σ} {p q : ClientPtr} {s : System σ}
    {as : List Action} {ev : ReadEvent} (h : ev ∈ System.events inject p q s as) :
    ∃ ev', .read p ev' ∈ as ∧ ev = { ev' with peerOpen := ev.peerOpen } := by
  induction as generalizing s with
  | nil => cases h
  | cons a as ih =>
    rw [System.events, Runs.seen, List.map_append, List.mem_append] at h
    rcases h with h | h
    · obtain ⟨g, hg, rfl⟩ := List.mem_map.mp h
      rw [Option.mem_toList] at hg
      cases a with
      | read r ev =>
        rw [System.reads] at hg
        split_ifs at hg with hr
        obtain ⟨rfl, -⟩ := hr
        obtain rfl := Option.some.inj hg
        exact ⟨ev, List.mem_cons_self, rfl⟩
      | listen it => cases hg
      | delete r => cases hg
      | housekeep first => cases hg
    · cases hstep : systemStep inject s a with
      | error e =>
        rw [hstep] at h
        cases h
      | ok s' =>
        rw [hstep] at h
        obtain ⟨ev', hev', heq⟩ := ih (s := s') h
        exact ⟨ev', List.mem_cons_of_mem a hev', heq⟩

/-! ## Memory -/

section Memory

variable {σ : Type} {inject inject' : Inject σ} (h : inject'.Extends inject)

include h in
/-- A read callback goes on over calls that the other `action_inject` finishes, too. -/
lemma System.flowRead_extends (s : System σ) (p : ClientPtr) (ev : ReadEvent) :
    Runs.Extends (s.flowRead inject' p ev) (s.flowRead inject p ev) := by
  unfold System.flowRead
  by_cases hp : p ∉ s.threads
  · rw [if_pos hp, if_pos hp]
    exact .refl _
  rw [if_neg hp, if_neg hp]
  refine (Runs.Extends.refl _).bind fun c => ?_
  refine (Runs.Extends.refl _).bind fun buffers => ?_
  refine (Runs.Extends.refl _).bind fun msg => ?_
  obtain ⟨input, output⟩ := buffers
  obtain ⟨s₁, fwCli⟩ := s.index c.fwFd
  cases fwCli with
  | none => exact (onFlowRead_extends h _ _).bind fun _ => .refl _
  | some q =>
    refine (Runs.Extends.refl _).bind fun d => ?_
    refine (Runs.Extends.refl _).bind fun dBuffers => ?_
    refine (Runs.Extends.refl _).bind fun dEvBuf => ?_
    exact (onFlowRead_extends h _ _).bind fun _ => .refl _

include h in
/-- **A step that succeeds does so with more memory as well.** -/
lemma systemStep_extends (s : System σ) (a : Action) :
    Runs.Extends (systemStep inject' s a) (systemStep inject s a) := by
  cases a with
  | listen it => exact .refl _
  | read p ev => exact System.flowRead_extends h s p ev
  | delete p => exact .refl _
  | housekeep first => exact .refl _

include h in
/-- With more memory a client reads the same events in a run that does not fault. -/
lemma System.events_extends {s s' : System σ} {as : List Action}
    (hrun : Runs.run (systemStep inject) s as = .ok s') (p q : ClientPtr) :
    System.events inject' p q s as = System.events inject p q s as := by
  rw [System.events, System.events, Runs.seen_extends (systemStep_extends h) hrun]

end Memory

/-! ## Runs of the process -/

section Process

variable {L : Loci} {T : Tables} {ρ : ℕ → ℕ} {μ : ℕ → InjectMem}

/-- **A client is served as if it were alone.** Take any run of the process, and any client `p` of
it with its mate `q`. There are numbers `calls 0 < calls 1 < ...` of calls of `action_inject`, such
that the session of `p` is the one that is alone with its events in the run and gets the values of
`rand()` from the calls with these numbers.

**Proof sketch.** A session is a component of the process, in which the count of the calls never
goes back (`System.session_component`). So it is a session in company, and that is one that is alone
(`shared_session`). -/
theorem process_alone {as : List Action} {s : System ℕ}
    (hrun : Runs.run (systemStep (tableInject L T ρ)) (System.start 0) as = .ok s)
    {p q : ClientPtr} (hpq : s.Mates p q) :
    ∃ calls n fresh k, StrictMono calls ∧ (∀ i < n, calls i < s.env) ∧
      Runs.run (sessionStep (tableInject L T (ρ ∘ calls))) (.start fresh 0)
        (System.events (tableInject L T ρ) p q (System.start 0) as) = .ok k ∧ k.flow.env = n ∧
      (∀ c, s.clients p = some c → c.inbound = (some k.flow.msg, some k.flow.input)) ∧
      ∀ d, s.clients q = some d → d.written = (some k.flow.evBuf, some k.flow.output) := by
  obtain ⟨bs, t, fresh, hbs, hpaired, hlinked, hshows, hseen⟩ := System.exists_session hrun hpq
  have hcomp := @System.session_component _ (tableInject L T ρ) (· ≤ ·)
    (fun _ => le_rfl) (fun _ _ _ => le_trans) tableInject_le p q
  have hstart : t.Shows p q (.start fresh 0) ∧ (Session.start fresh 0).flow.env ≤ t.env :=
    ⟨hshows 0, Nat.zero_le _⟩
  have halong := hcomp.along (P := fun k g => k.flow.env ≤ g.1) (fun {t a g k} _ hk hg => by
    cases a with
    | read r ev =>
      rw [System.reads] at hg
      split_ifs at hg
      rw [← Option.some.inj hg]
      exact hk.2
    | listen it => cases hg
    | delete r => cases hg
    | housekeep first => cases hg) ⟨hpaired, hlinked⟩ hstart hbs
  obtain ⟨k, hk, hshow, henv⟩ := hcomp.run ⟨hpaired, hlinked⟩ hstart hbs
  obtain ⟨calls, n, hmono, -, hlt, -, hgo⟩ := shared_session halong hk
  have halone := hgo 0 (ρ ∘ calls) fun i _ => by rw [Nat.zero_add, Function.comp_apply]
  refine ⟨calls, n, fresh, k.setEnv (0 + n), hmono, fun i hi => (hlt i hi).trans_le henv, ?_,
    Nat.zero_add n, hshow.reader, hshow.writer⟩
  rw [System.events, hseen]
  exact halone

/-- A stream of messages, and maybe the start of one more, has a cut. -/
lemma messages_cut {tail stream : List UInt8} (htail : ofpFraming.Stuck tail)
    {ms : List (Message L)} (hms : stream = (ms.map Message.bytes).flatten ++ tail) :
    ofpFraming.Cuts stream (ms.map fun m => .whole m.bytes) tail := by
  have hwhole := Discipline.Cuts.of_whole (D := ofpFraming) (ms.map Message.bytes) (by
    intro f hf
    obtain ⟨m, -, rfl⟩ := List.mem_map.mp hf
    exact m.framed)
  rw [List.map_map] at hwhole
  have happ := hwhole.append (Discipline.Cuts.stuck htail)
  rwa [List.append_nil, ← hms] at happ

/-- A client whose stream has a cut, whatever the allocations answer: what was written to its mate
is what `deliver` says for the frames that have left the `evbuffer`, and the others are left in its
stream and the `evbuffer`. -/
lemma process_deliver {as : List Action} {s : System ℕ}
    (hrun : Runs.run (systemStep (allocInject L T ρ μ)) (System.start 0) as = .ok s)
    {p q : ClientPtr} (hpq : s.Mates p q)
    (hup : ∀ ev ∈ System.events (allocInject L T ρ μ) p q (System.start 0) as, ev.PeerUp)
    {gs : List (Frame UInt8)} {tail : List UInt8}
    (hcut : ofpFraming.Cuts (((System.events (allocInject L T ρ μ) p q (System.start 0) as).map
      ReadEvent.chunk).flatten) gs tail) :
    ∃ calls gs₁ gs₂, StrictMono calls ∧ gs = gs₁ ++ gs₂ ∧
      (LastRead (System.events (allocInject L T ρ μ) p q (System.start 0) as) → gs₂ = []) ∧
      ∀ out, deliver L T (withRand (ρ ∘ calls) 0 gs₁) = .ok out →
        (∀ d, s.clients q = some d → d.written = (some [], some out)) ∧
        ∀ c, s.clients p = some c → ∃ st : Flow ℕ,
          c.inbound = (some st.msg, some st.input) ∧ st.Left gs₂ tail := by
  have hext := tableInject_extends L T ρ μ
  rw [← System.events_extends hext hrun p q] at hup hcut ⊢
  obtain ⟨calls, n, fresh, k, hmono, -, halone, -, hreader, hwriter⟩ :=
    process_alone (Runs.run_extends (systemStep_extends hext) _ _ _ hrun) hpq
  obtain ⟨gs₁, gs₂, hgs, hfollow, hlast⟩ := session_deliver (L := L) (T := T) (ρ := ρ ∘ calls) hup
    (s := .start fresh 0) rfl Discipline.stuck_nil hcut
  refine ⟨calls, gs₁, gs₂, hmono, hgs, fun h => hlast h fun _ => rfl, fun out hout => ?_⟩
  obtain ⟨k', hk', houtput, hbuf, hleft⟩ := hfollow.ok_right hout
  obtain rfl := Except.ok.inj (halone.symm.trans hk')
  refine ⟨fun d hd => ?_, fun c hc => ⟨k.flow, hreader c hc, hleft⟩⟩
  rw [hwriter d hd, hbuf, houtput]
  rfl

/-- Where messages are left, the stream and the `evbuffer` hold their bytes and the start of another
one. -/
lemma Flow.Left.received {st : Flow ℕ} {ms : List (Message L)} {tail : List UInt8}
    (h : st.Left (ms.map fun m => .whole m.bytes) tail) {c : Client}
    (hc : c.inbound = (some st.msg, some st.input)) :
    ∃ held waiting, c.received = (some held, some waiting) ∧ ofpFraming.Stuck held ∧
      held ++ waiting = (ms.map Message.bytes).flatten ++ tail ∧
      (waiting = [] → ms = [] ∧ held = tail) := by
  rw [Client.inbound, Prod.mk.injEq] at hc
  refine ⟨st.msg.bytes, st.input, Prod.ext ?_ hc.2, h.stuck, h.messages, fun hin => ?_⟩
  · rw [Client.received, hc.1]
    rfl
  · obtain ⟨hms, htail⟩ := h.nil hin
    exact ⟨List.map_eq_nil_iff.mp hms, htail⟩

/-- **The process delivers what the tables prescribe.** Take any run of the process, with any number
of clients that are created, read from and deleted in any order, and any client `p` of it with its
mate `q`. Let the stream of `p` consist of messages and possibly the start of another one, cut into
chunks in any way, and let the pair be up when they arrive. Then there are numbers
`calls 0 < calls 1 < ...` such that what was written to `q` is what the tables prescribe for the
messages that have left the `evbuffer`, with the values of `rand()` from the calls with these
numbers. The bytes of the others, and the start behind them, are what is left in the stream of `p`,
which holds no whole message, and in its `evbuffer`; there are no others if the last read event of
`p` finds memory, or if the `evbuffer` is empty.

**Proof sketch.** The client is served as if it were alone, and a session that is alone delivers
what `deliver` says for the cut of its stream (`process_deliver`), which is the prescription
(`deliver_messages`). -/
theorem process_prescribed (L : Loci) (T : Tables) (hT : T.Percent) (ρ : ℕ → ℕ)
    (μ : ℕ → InjectMem) (as : List Action) (s : System ℕ)
    (hrun : Runs.run (systemStep (allocInject L T ρ μ)) (System.start 0) as = .ok s)
    (p q : ClientPtr) (hpq : s.Mates p q) (ms : List (Message L)) (tail : List UInt8)
    (htail : ofpFraming.Stuck tail)
    (hup : ∀ ev ∈ System.events (allocInject L T ρ μ) p q (System.start 0) as, ev.PeerUp)
    (hms : ((System.events (allocInject L T ρ μ) p q (System.start 0) as).map
      ReadEvent.chunk).flatten = (ms.map Message.bytes).flatten ++ tail) :
    ∃ calls ms₁ ms₂, StrictMono calls ∧ ms = ms₁ ++ ms₂ ∧
      (∀ d, s.clients q = some d → d.written = (some [], some (prescribed T (ρ ∘ calls) 0 ms₁))) ∧
      (LastRead (System.events (allocInject L T ρ μ) p q (System.start 0) as) → ms₂ = []) ∧
      ∀ c, s.clients p = some c → ∃ held waiting, c.received = (some held, some waiting) ∧
        ofpFraming.Stuck held ∧ held ++ waiting = (ms₂.map Message.bytes).flatten ++ tail ∧
        (waiting = [] → ms₂ = [] ∧ held = tail) := by
  obtain ⟨calls, gs₁, gs₂, hmono, hgs, hlast, hdeliver⟩ :=
    process_deliver hrun hpq hup (messages_cut htail hms)
  obtain ⟨ms₁, ms₂, rfl, rfl, rfl⟩ := List.map_eq_append_iff.mp hgs
  obtain ⟨hwritten, hreceived⟩ := hdeliver _ (deliver_messages hT (ρ ∘ calls) 0 ms₁)
  refine ⟨calls, ms₁, ms₂, hmono, rfl, hwritten,
    fun h => List.map_eq_nil_iff.mp (hlast h), fun c hc => ?_⟩
  obtain ⟨st, hst, hleft⟩ := hreceived c hc
  exact hleft.received hst

end Process

/-- Two pairs, whose first clients send at the same time: the hello message of client `0` is sent
once more, its echo request is dropped, for which no memory is asked, and the start of a third
message is left. -/
theorem process_prescribed_two :
    ∃ (T : Tables) (μ : ℕ → InjectMem) (as : List Action) (s : System ℕ)
      (hello : Message Loci.lenient) (calls : ℕ → ℕ),
      as = [.listen (.plain 4 5), .listen (.plain 6 7),
        .read 0 (.plain [1, 0, 0, 8, 0, 0, 0, 1, 1, 1, 0]), .read 2 (.plain [1, 0, 0, 8]),
        .read 0 (.plain [9, 0, 0, 0, 2, 7, 1])] ∧
      Runs.run (systemStep (allocInject Loci.lenient T (fun _ => 99) μ)) (System.start 0) as =
        .ok s ∧ ¬ (μ 1).Granted ∧
      hello.bytes = [1, 0, 0, 8, 0, 0, 0, 1] ∧ StrictMono calls ∧
      (∀ d, s.clients 1 = some d → d.written = (some [], some (hello.bytes ++ hello.bytes))) ∧
      ∀ c, s.clients 0 = some c → c.received = (some [1], some []) := by
  let T : Tables :=
    { drop := fun v t => if v = 0 ∧ t = 1 then 100 else 0
      dup := fun v t => if v = 0 ∧ t = 0 then 1 else 0 }
  let hello : Message Loci.lenient := ⟨0, 0, [0, 8, 0, 0, 0, 1], by decide⟩
  let echo : Message Loci.lenient := ⟨0, 1, [0, 9, 0, 0, 0, 2, 7], by decide⟩
  let as : List Action := [.listen (.plain 4 5), .listen (.plain 6 7),
    .read 0 (.plain [1, 0, 0, 8, 0, 0, 0, 1, 1, 1, 0]), .read 2 (.plain [1, 0, 0, 8]),
    .read 0 (.plain [9, 0, 0, 0, 2, 7, 1])]
  let μ : ℕ → InjectMem := fun n => if n = 1 then ⟨false, false, none⟩ else .granted
  let inject : Inject ℕ := allocInject Loci.lenient T (fun _ => 99) μ
  have hT : T.Percent := by
    intro v t
    simp only [T]
    split_ifs <;> decide
  have heval : (Runs.run (systemStep inject) (System.start 0) as).toOption.map (fun s =>
      (s.pairs, (s.clients 0).map fun c => c.received.2)) =
      some ([(0, 1), (2, 3)], some (some [])) := by
    decide +kernel
  obtain ⟨s, hs, heq⟩ := Option.map_eq_some_iff.mp heval
  rw [Prod.mk.injEq] at heq
  obtain ⟨hpairs, hinput⟩ := heq
  have hmates : s.Mates 0 1 := Or.inl (by rw [hpairs]; decide)
  have hopen : (System.events inject 0 1 (System.start 0) as).all (·.peerOpen) = true := by
    decide +kernel
  obtain ⟨calls, ms₁, ms₂, hmono, hms, hwritten, -, hleft⟩ := process_prescribed Loci.lenient T hT
    (fun _ => 99) μ as s (Runs.ok_of_toOption hs) 0 1 hmates [hello, echo] [1]
    (Or.inl (by decide)) (fun ev hev => by
      obtain ⟨ev', hmem, heq⟩ := System.mem_events hev
      rw [heq]
      have hplain : ∃ chunk, ev' = .plain chunk := by
        simp only [as, List.mem_cons, reduceCtorEq, Action.read.injEq, List.not_mem_nil, or_false,
          false_or] at hmem
        obtain ⟨-, rfl⟩ | ⟨-, rfl⟩ | ⟨-, rfl⟩ := hmem
        · exact ⟨_, rfl⟩
        · exact ⟨_, rfl⟩
        · exact ⟨_, rfl⟩
      obtain ⟨chunk, rfl⟩ := hplain
      exact ⟨List.all_eq_true.mp hopen ev hev, fun _ => rfl, fun _ => rfl⟩)
    (by decide +kernel)
  obtain ⟨c, hc, hin⟩ := Option.map_eq_some_iff.mp hinput
  obtain ⟨held, waiting, hreceived, -, -, hnil⟩ := hleft c hc
  rw [hreceived] at hin
  obtain rfl := Option.some.inj hin
  obtain ⟨rfl, rfl⟩ := hnil rfl
  rw [List.append_nil] at hms
  refine ⟨T, μ, as, s, hello, calls, rfl, Runs.ok_of_toOption hs, by decide, rfl, hmono,
    fun d hd => ?_, fun c' hc' => ?_⟩
  · rw [hwritten d hd, ← hms, prescribed_cons, prescribed_cons, Tables.copies_of_hundred
      (show (T.drop echo.version echo.type).toInt = 100 by decide)]
    rw [show T.copies hello.version hello.type (((fun _ => 99 : ℕ → ℕ) ∘ calls) 0) = 2 from rfl]
    rfl
  · obtain rfl := Option.some.inj (hc.symm.trans hc')
    exact hreceived

end Mproxy
