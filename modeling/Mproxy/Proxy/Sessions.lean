import Mproxy.Lib.Components
import Mproxy.Proxy.Cleanup
import Mproxy.Flow.Prescribed

set_option relaxedAutoImplicit false
set_option autoImplicit false

/-!
# The process as sessions

What one client sends to its mate is a session of its own: a run of the whole process, with any
number of clients that are created, read from and deleted in any order, is for each direction of
each pair a run of `on_flow_read` on that client alone. All that the others do to it is to move on
the state of `action_inject`, which all clients share.

## Main definitions

* `Mproxy.System.Linked` — two mates that are both there have each other's descriptors.
* `Mproxy.System.Shows` — how a session shows in the process.
* `Mproxy.System.reads`, `Mproxy.sharedStep` — what a client reads in a process, and a session that
  shares `action_inject` with others.

## Main results

* `Mproxy.System.flowRead_eq` — the read callback in terms of `on_flow_read`.
* `Mproxy.System.session_component` — a session is a component of the process.
* `Mproxy.process_session` — every run of the process is a run of each of its sessions.
-/

namespace Mproxy

section Sessions

variable {σ : Type}

/-- What was read from the client and is still there: its stream, and the bytes in the input buffer
of `ev_event`. -/
def Client.inbound (c : Client) : Option StreamT × Option (List UInt8) := (c.buf, c.received.2)

/-- What the read callback makes of its client. -/
def Client.afterRead (c : Client) (flow : Flow σ) (output : List UInt8) : Client :=
  { c with buf := some flow.msg, evEvent := .buffers flow.input output }

/-- What the read callback makes of the pair of its client. -/
def Client.afterWrite (d : Client) (flow : Flow σ) (input : List UInt8) : Client :=
  { d with evBuf := some flow.evBuf, evEvent := .buffers input flow.output }

/-- A client whose `Client::init` succeeded has a new stream and nothing in its buffers. -/
lemma Client.inited_start {a : InitAnswers} (ha : a.Ok) (c : Client) :
    (∃ fresh, (c.inited a).inbound = (some (streamNew defaultStreamLen fresh), some [])) ∧
      (c.inited a).written = (some [], some []) := by
  obtain ⟨fresh, evbuffer, base, bufferevent, node⟩ := a
  obtain ⟨hfresh, rfl, rfl, rfl, rfl⟩ := ha
  obtain ⟨fresh, rfl⟩ := Option.isSome_iff_exists.mp hfresh
  exact ⟨⟨fresh, rfl⟩, rfl⟩

/-- A read event in a process whose clients share `action_inject`: the session finds its state as
the others left it. -/
def sharedStep (inject : Inject σ) (k : Session σ) (g : σ × ReadEvent) :
    Except Fault (Session σ) :=
  sessionStep inject { k with flow := { k.flow with env := g.1 } } g.2

/-- Without a pair the callback does nothing with the pair's buffers. -/
lemma onFlowRead_closed (inject : Inject σ) (msg : StreamT) (input evBuf output : List UInt8)
    (env : σ) (ev : ReadEvent) :
    onFlowRead inject ⟨msg, input, evBuf, output, env⟩ { ev with peerOpen := false } =
      (onFlowRead inject ⟨msg, input, [], [], env⟩ { ev with peerOpen := false }).map fun r =>
        ({ r.1 with evBuf := evBuf, output := output }, r.2) := by
  unfold onFlowRead
  simp only
  cases makeRoom msg (input ++ ev.chunk).length ev.realloc with
  | none => rfl
  | some m =>
    simp only
    cases streamFill m (input ++ ev.chunk) with
    | error e => rfl
    | ok m' =>
      simp only [Runs.ok_bind, handleInput, if_true]
      split_ifs <;> rfl

namespace System

variable {s s' : System σ} {p q : ClientPtr} {c : Client}

/-! ## The read callback -/

/-- **The read callback in terms of `on_flow_read`**, without a pair and with one. -/
lemma flowRead_eq (h : s.Paired) (hp : p ∈ s.threads) (inject : Inject σ) (ev : ReadEvent) :
    ∃ c msg input output, s.clients p = some c ∧ c.buf = some msg ∧
      c.evEvent = .buffers input output ∧
      (((∀ q, s.clientMap.find c.fwFd ≠ some (some q)) ∧ s.flowRead inject p ev =
          (onFlowRead inject ⟨msg, input, [], [], s.env⟩ { ev with peerOpen := false } >>= fun r =>
            .ok { (s.index c.fwFd).1.update p (c.afterRead r.1 output) with env := r.1.env })) ∨
        ∃ q d dEvBuf dInput dOutput, s.clientMap.find c.fwFd = some (some q) ∧
          s.clients q = some d ∧ d.evBuf = some dEvBuf ∧ d.evEvent = .buffers dInput dOutput ∧
          s.flowRead inject p ev =
          (onFlowRead inject ⟨msg, input, dEvBuf, dOutput, s.env⟩ { ev with peerOpen := true } >>=
            fun r => .ok
              { ((s.index c.fwFd).1.update p (c.afterRead r.1 output)).update q
                  (d.afterWrite r.1 dInput) with env := r.1.env })) := by
  obtain ⟨c, hc⟩ := (h.running p).mp hp
  have hest := h.established p c hc
  obtain ⟨input, output, hev⟩ := hest.evEvent
  obtain ⟨msg, hmsg⟩ := hest.buf
  have hderef : s.deref p = .ok c := by rw [deref, hc]
  have hbuffers : c.buffers = .ok (input, output) := by rw [Client.buffers, hev]
  have hstream : c.stream = .ok msg := by rw [Client.stream, hmsg]
  refine ⟨c, msg, input, output, hc, hmsg, hev, ?_⟩
  rw [flowRead, if_neg (not_not.mpr hp), hderef, Runs.ok_bind, hbuffers, Runs.ok_bind]
  cases hfind : (s.clientMap.find c.fwFd).getD none with
  | none =>
    left
    have hindex : (s.index c.fwFd).2 = none := by rw [index, IndexMap.index_snd, hfind]
    refine ⟨fun q hq => ?_, ?_⟩
    · rw [hq] at hfind
      cases hfind
    · simp only [hstream, Runs.ok_bind, hindex]
      rfl
  | some q =>
    right
    have hq := find_of_getD hfind
    obtain ⟨d, hd, -⟩ := h.mapped _ q hq
    have hestd := h.established q d hd
    obtain ⟨dInput, dOutput, hdev⟩ := hestd.evEvent
    obtain ⟨dEvBuf, hdbuf⟩ := hestd.evBuf
    have hindex : (s.index c.fwFd).2 = some q := by rw [index, IndexMap.index_snd, hfind]
    have hderefd : (s.index c.fwFd).1.deref q = .ok d := by
      rw [deref, show (s.index c.fwFd).1.clients q = some d from hd]
    have hbuffersd : d.buffers = .ok (dInput, dOutput) := by rw [Client.buffers, hdev]
    have hbytesd : d.evBufBytes = .ok dEvBuf := by rw [Client.evBufBytes, hdbuf]
    refine ⟨q, d, dEvBuf, dInput, dOutput, hq, hd, hdbuf, hdev, ?_⟩
    simp only [hstream, Runs.ok_bind, hindex, hderefd, hbuffersd, hbytesd]
    rfl

/-- The read callback takes bytes in for its own client only. -/
lemma flowRead_inbound (h : s.Paired) {inject : Inject σ} {ev : ReadEvent}
    (hread : s.flowRead inject p ev = .ok s') (hne : q ≠ p) {c d : Client}
    (hc : s.clients q = some c) (hd : s'.clients q = some d) : d.inbound = c.inbound := by
  by_cases hp : p ∈ s.threads
  swap
  · obtain rfl : s = s' := by
      rw [flowRead, if_pos hp] at hread
      exact Except.ok.inj hread
    obtain rfl := Option.some.inj (hc.symm.trans hd)
    rfl
  obtain ⟨c₀, msg, input, output, -, -, -, hcase⟩ := flowRead_eq h hp inject ev
  rcases hcase with ⟨-, heq⟩ | ⟨r, e, eBuf, eInput, eOutput, -, he, -, hev, heq⟩
  · rw [heq] at hread
    obtain ⟨fl, -, hs'⟩ := Runs.bind_eq_ok.mp hread
    obtain rfl := Except.ok.inj hs'
    simp only [update_clients, if_neg hne] at hd
    obtain rfl := Option.some.inj (hc.symm.trans hd)
    rfl
  · rw [heq] at hread
    obtain ⟨fl, -, hs'⟩ := Runs.bind_eq_ok.mp hread
    obtain rfl := Except.ok.inj hs'
    simp only [update_clients, if_neg hne] at hd
    by_cases hqr : q = r
    · subst hqr
      obtain rfl := Option.some.inj (hc.symm.trans he)
      rw [if_pos rfl] at hd
      obtain rfl := Option.some.inj hd
      rw [Client.inbound, Client.inbound, Client.received, Client.received, Client.afterWrite, hev]
    · rw [if_neg hqr] at hd
      obtain rfl := Option.some.inj (hc.symm.trans hd)
      rfl

/-! ## What a step leaves of an older client -/

/-- What the step `a` leaves of a client that was there. -/
structure Kept (s : System σ) (a : Action) (p : ClientPtr) (c : Client) (s' : System σ)
    (c' : Client) : Prop where
  fd : c'.fd = c.fd
  fwFd : c'.fwFd = c.fwFd ∨ ∃ q, s.Mates q p ∧ s'.clients q = none
  inbound : c'.inbound = c.inbound ∨ ∃ ev, a = .read p ev
  written : c'.written = c.written ∨ ∃ q ev, a = .read q ev ∧ s.Mates q p

/-- A step that leaves a client as it is. -/
lemma Kept.refl {a : Action} : s.Kept a p c s' c := ⟨rfl, Or.inl rfl, Or.inl rfl, Or.inl rfl⟩

/-- **What a step leaves of an older client.** A client that is not new behind the step was there
before it; it forgets the descriptor of its mate only where that is gone. -/
lemma Paired.systemStep_kept (h : s.Paired) {inject : Inject σ} {a : Action}
    (hstep : Mproxy.systemStep inject s a = .ok s') (hp : p < s.next) {c' : Client}
    (hc' : s'.clients p = some c') : ∃ c, s.clients p = some c ∧ s.Kept a p c s' c' := by
  have hsame : s'.clients p = s.clients p → ∃ c, s.clients p = some c ∧ s.Kept a p c s' c' :=
    fun hclients => ⟨c', hclients.symm.trans hc', .refl⟩
  have hwrites := h.systemStep_writes hstep hc'
  cases h.effect hstep with
  | listen hout =>
    cases hout with
    | idle _ => exact hsame rfl
    | stopped _ _ => exact hsame rfl
    | refused _ hs _ _ => exact hsame (hs.clients p)
    | abandoned _ hs _ _ _ _ _ => exact hsame (hs.clients p)
    | accepted _ _ hacc => exact hsame (hacc.clients_old hp)
  | noRead => exact hsame rfl
  | @read q ev _ _ hc₀ hby =>
    obtain ⟨c, hc, hfd, hfw, -⟩ := hby.similar.back hc'
    refine ⟨c, hc, hfd, Or.inl hfw, ?_, ?_⟩
    · by_cases hpq : p = q
      · exact Or.inr ⟨ev, by rw [hpq]⟩
      · exact Or.inl (flowRead_inbound h hstep hpq hc hc')
    · rcases hwrites with ⟨hnone, -⟩ | ⟨d, hd, hwritten, -⟩
      · rw [hc] at hnone
        cases hnone
      · obtain rfl := Option.some.inj (hc.symm.trans hd)
        exact hwritten
  | noDelete => exact hsame rfl
  | @delete q c₀ s₁ hc₀ hdel =>
    obtain ⟨hne, c, hc, hcase⟩ := hdel.back_eq hc'
    rcases hcase with rfl | rfl
    · exact ⟨c', hc, .refl⟩
    refine ⟨c, hc, rfl, ?_, Or.inl rfl, Or.inl rfl⟩
    by_cases hpair : s.clientMap.find c₀.fwFd = some (some p)
    · obtain ⟨-, -, hmates, -⟩ := h.pair_found hc₀ hpair hc
      exact Or.inr ⟨q, hmates, (hdel.clients q).trans (if_pos rfl)⟩
    · obtain ⟨d, hd, heq⟩ := hdel.kept hne hc
      obtain rfl := heq hpair
      exact Or.inl (congrArg Client.fwFd (Option.some.inj (hc'.symm.trans hd)))
  | housekeep hkept => exact hsame (hkept.clients p)

/-- No step forgets a pair, or hands out an identity again. -/
lemma Paired.systemStep_grows (h : s.Paired) {inject : Inject σ} {a : Action}
    (hstep : Mproxy.systemStep inject s a = .ok s') :
    s.next ≤ s'.next ∧ (∀ p q, s.Mates p q → s'.Mates p q) := by
  have hsame : s.next ≤ s'.next → s'.pairs = s.pairs →
      s.next ≤ s'.next ∧ (∀ p q, s.Mates p q → s'.Mates p q) := by
    intro hnext hpairs
    refine ⟨hnext, fun p q hpq => ?_⟩
    rwa [Mates, hpairs]
  cases h.effect hstep with
  | listen hout =>
    cases hout with
    | idle _ => exact hsame le_rfl rfl
    | stopped _ _ => exact hsame le_rfl rfl
    | refused _ hs _ _ => exact hsame hs.next hs.pairs
    | abandoned _ hs _ _ _ _ _ => exact hsame hs.next hs.pairs
    | accepted _ _ hacc =>
      refine ⟨by rw [hacc.next]; exact Nat.le_add_right _ 2, fun p q hpq => ?_⟩
      exact hacc.mates_iff.mpr (Or.inl hpq)
  | noRead => exact hsame le_rfl rfl
  | read _ hby => exact hsame hby.next.ge hby.pairs
  | noDelete => exact hsame le_rfl rfl
  | delete _ hdel => exact hsame hdel.next.ge hdel.pairs
  | housekeep hkept => exact hsame hkept.next hkept.pairs

/-! ## Links -/

/-- Two mates that are both there have each other's descriptors. -/
def Linked (s : System σ) : Prop :=
  ∀ p q c d, s.Mates p q → s.clients p = some c → s.clients q = some d → c.fwFd = d.fd

/-- At the start there are no clients to link. -/
lemma start_linked (env : σ) : (start env : System σ).Linked := by
  intro p q c d hpq hp
  cases hp

/-- Mates are each other's. -/
lemma Mates.symm (h : s.Mates p q) : s.Mates q p := Or.symm h

/-- **Every step keeps the links**: a client forgets its mate only where that is deleted. -/
lemma Linked.systemStep (hl : s.Linked) (h : s.Paired) {inject : Inject σ} {a : Action}
    (hstep : Mproxy.systemStep inject s a = .ok s') : s'.Linked := by
  intro p q c' d' hpq hc' hd'
  by_cases hold : s.Mates p q
  · obtain ⟨c, hc, hkc⟩ := h.systemStep_kept hstep (h.mates_old p q hold) hc'
    obtain ⟨d, hd, hkd⟩ := h.systemStep_kept hstep (h.mates_old q p hold.symm) hd'
    rw [hkd.fd, ← hl p q c d hold hc hd]
    rcases hkc.fwFd with hfw | ⟨r, hr, hnone⟩
    · exact hfw
    · obtain rfl := h.mates_unique p r q hr.symm hold
      rw [hnone] at hd'
      cases hd'
  -- the pair was created in this step
  have hpairs : s'.pairs ≠ s.pairs := fun heq => hold (by rwa [Mates, ← heq])
  cases h.effect hstep with
  | listen hout =>
    cases hout with
    | idle _ => exact absurd rfl hpairs
    | stopped _ _ => exact absurd rfl hpairs
    | refused _ hs _ _ => exact absurd hs.pairs hpairs
    | abandoned _ hs _ _ _ _ _ => exact absurd hs.pairs hpairs
    | accepted _ _ hacc =>
      obtain ⟨inCd, outCd, ⟨hin, hifd, hifw⟩, hout, hofd, hofw⟩ := hacc.new_pair
      rcases hacc.mates_iff.mp hpq with hmates | ⟨rfl, rfl⟩ | ⟨rfl, rfl⟩
      · exact absurd hmates hold
      · obtain rfl := Option.some.inj (hin.symm.trans hc')
        obtain rfl := Option.some.inj (hout.symm.trans hd')
        exact hifw.trans hofd.symm
      · obtain rfl := Option.some.inj (hout.symm.trans hc')
        obtain rfl := Option.some.inj (hin.symm.trans hd')
        exact hofw.trans hifd.symm
  | noRead => exact absurd rfl hpairs
  | read _ hby => exact absurd hby.pairs hpairs
  | noDelete => exact absurd rfl hpairs
  | delete _ hdel => exact absurd hdel.pairs hpairs
  | housekeep hkept => exact absurd hkept.pairs hpairs

/-- A client finds its mate in the map exactly if that is still there. -/
lemma Linked.find_mate (hl : s.Linked) (h : s.Paired) (hpq : s.Mates p q)
    (hc : s.clients p = some c) :
    (∃ d, s.clients q = some d ∧ s.clientMap.find c.fwFd = some (some q)) ∨
      s.clients q = none ∧ ∀ r, s.clientMap.find c.fwFd ≠ some (some r) := by
  cases hd : s.clients q with
  | some d =>
    left
    exact ⟨d, rfl, by rw [hl p q c d hpq hc hd]; exact h.listed q d hd⟩
  | none =>
    right
    refine ⟨rfl, fun r hr => ?_⟩
    obtain ⟨e, he, -⟩ := h.mapped _ r hr
    obtain ⟨-, -, hmates, -⟩ := h.pair_found hc hr he
    obtain rfl := h.mates_unique p r q hmates hpq
    rw [hd] at he
    cases he

/-! ## Sessions in the process -/

/-- The session `k` of what the client `p` sends to its mate `q`, as it shows in the process: in
what `p` has taken in, and in what was written to `q`, as long as they are there. -/
structure Shows (s : System σ) (p q : ClientPtr) (k : Session σ) : Prop where
  mates : s.Mates p q
  reader : ∀ c, s.clients p = some c → c.inbound = (some k.flow.msg, some k.flow.input)
  writer : ∀ d, s.clients q = some d → d.written = (some k.flow.evBuf, some k.flow.output)

/-- What the session of `p` reads in a step: the event, and the state of `action_inject` that it
finds. The pair is open as long as the mate is there. -/
def reads (p q : ClientPtr) (s : System σ) : Action → Option (σ × ReadEvent)
  | .read r ev =>
    if r = p ∧ p ∈ s.threads then some (s.env, { ev with peerOpen := (s.clients q).isSome })
    else none
  | _ => none

/-- The buffers of the reading client, as the session has them. -/
lemma Shows.reader_eq {k : Session σ} (hk : s.Shows p q k) (hc : s.clients p = some c)
    {msg : StreamT} {input output : List UInt8} (hmsg : c.buf = some msg)
    (hev : c.evEvent = .buffers input output) : msg = k.flow.msg ∧ input = k.flow.input := by
  have hin := hk.reader c hc
  rw [Client.inbound, Client.received, hmsg, hev, Prod.mk.injEq] at hin
  exact ⟨Option.some.inj hin.1, Option.some.inj hin.2⟩

/-- The buffers of the client that is written to, as the session has them. -/
lemma Shows.writer_eq {k : Session σ} (hk : s.Shows p q k) {d : Client}
    (hd : s.clients q = some d) {evBuf input output : List UInt8} (hbuf : d.evBuf = some evBuf)
    (hev : d.evEvent = .buffers input output) :
    evBuf = k.flow.evBuf ∧ output = k.flow.output := by
  have hout := hk.writer d hd
  rw [Client.written, hbuf, hev, Prod.mk.injEq] at hout
  exact ⟨Option.some.inj hout.1, Option.some.inj hout.2⟩

/-- **A read event of a client is one of its session**: the process faults where the session does,
and otherwise shows the session behind the event. -/
lemma flowRead_session (h : s.Paired) (hl : s.Linked) {k : Session σ} (hk : s.Shows p q k)
    (hp : p ∈ s.threads) (inject : Inject σ) (ev : ReadEvent) :
    Runs.Follows (s.flowRead inject p ev)
      (sharedStep inject k (s.env, { ev with peerOpen := (s.clients q).isSome }))
      fun s' k' => s'.Shows p q k' ∧ s'.env = k'.flow.env := by
  obtain ⟨c, msg, input, output, hc, hmsg, hev, hcase⟩ := flowRead_eq h hp inject ev
  obtain ⟨rfl, rfl⟩ := hk.reader_eq hc hmsg hev
  have hne := h.mates_ne p q hk.mates
  rw [sharedStep, sessionStep]
  rcases hl.find_mate h hk.mates hc with ⟨d, hd, hfind⟩ | ⟨hd, hnone⟩
  · -- the mate is there
    obtain ⟨hno, -⟩ | ⟨r, e, eBuf, eInput, eOutput, hr, he, hebuf, heev, heq⟩ := hcase
    · exact absurd hfind (hno q)
    obtain rfl : r = q := Option.some.inj (Option.some.inj (hr.symm.trans hfind))
    obtain ⟨rfl, rfl⟩ := hk.writer_eq he hebuf heev
    rw [heq, hd]
    cases hrun : onFlowRead inject
        ⟨k.flow.msg, k.flow.input, k.flow.evBuf, k.flow.output, s.env⟩
        { ev with peerOpen := true } with
    | error fault =>
      have hrun' : onFlowRead inject { k.flow with env := s.env }
          { ev with peerOpen := (some d).isSome } = .error fault := hrun
      rw [hrun', Runs.error_bind]
      exact .error fault
    | ok x =>
      have hrun' : onFlowRead inject { k.flow with env := s.env }
          { ev with peerOpen := (some d).isSome } = .ok x := hrun
      rw [hrun', Runs.ok_bind]
      refine .ok ⟨⟨hk.mates, fun c' hc' => ?_, fun d' hd' => ?_⟩, rfl⟩
      · simp only [update_clients, if_neg hne, if_pos] at hc'
        obtain rfl := Option.some.inj hc'
        rfl
      · simp only [update_clients, if_pos] at hd'
        obtain rfl := Option.some.inj hd'
        rfl
  · -- the mate is gone
    obtain ⟨-, heq⟩ | ⟨r, -, -, -, -, hr, -⟩ := hcase
    swap
    · exact absurd hr (hnone r)
    have hclosed := onFlowRead_closed inject k.flow.msg k.flow.input k.flow.evBuf k.flow.output
      s.env ev
    rw [heq, hd]
    cases hrun : onFlowRead inject ⟨k.flow.msg, k.flow.input, [], [], s.env⟩
        { ev with peerOpen := false } with
    | error fault =>
      rw [hrun] at hclosed
      have hrun' : onFlowRead inject { k.flow with env := s.env }
          { ev with peerOpen := (none : Option Client).isSome } = .error fault := hclosed
      rw [hrun', Runs.error_bind]
      exact .error fault
    | ok x =>
      rw [hrun] at hclosed
      have hrun' : onFlowRead inject { k.flow with env := s.env }
          { ev with peerOpen := (none : Option Client).isSome } =
          .ok ({ x.1 with evBuf := k.flow.evBuf, output := k.flow.output }, x.2) := hclosed
      rw [hrun', Runs.ok_bind]
      refine .ok ⟨⟨hk.mates, fun c' hc' => ?_, fun d' hd' => ?_⟩, rfl⟩
      · simp only [update_clients, if_pos] at hc'
        obtain rfl := Option.some.inj hc'
        rfl
      · simp only [update_clients, if_neg hne.symm] at hd'
        have hd'' : s.clients q = some d' := hd'
        rw [hd] at hd''
        cases hd''

/-- A step that the session does not read in leaves it as it is. -/
lemma Shows.systemStep (h : s.Paired) {k : Session σ} (hk : s.Shows p q k) {inject : Inject σ}
    {a : Action} (hnone : s.reads p q a = none)
    (hstep : Mproxy.systemStep inject s a = .ok s') : s'.Shows p q k := by
  -- a read event of a client without a thread does nothing
  have hidle : ∀ ev, a = .read p ev → s' = s := by
    rintro ev rfl
    have hp : p ∉ s.threads := by
      intro hp
      rw [reads, if_pos ⟨rfl, hp⟩] at hnone
      cases hnone
    have hread : s.flowRead inject p ev = .ok s' := hstep
    rw [flowRead, if_pos hp] at hread
    exact (Except.ok.inj hread).symm
  by_cases hread : ∃ ev, a = .read p ev
  · obtain ⟨ev, hev⟩ := hread
    rwa [hidle ev hev]
  refine ⟨(h.systemStep_grows hstep).2 p q hk.mates, fun c' hc' => ?_, fun d' hd' => ?_⟩
  · obtain ⟨c, hc, hkept⟩ := h.systemStep_kept hstep (h.mates_old p q hk.mates) hc'
    rw [← hk.reader c hc]
    exact hkept.inbound.resolve_right hread
  · obtain ⟨d, hd, hkept⟩ := h.systemStep_kept hstep (h.mates_old q p hk.mates.symm) hd'
    rw [← hk.writer d hd]
    refine hkept.written.resolve_right ?_
    rintro ⟨r, ev, rfl, hr⟩
    obtain rfl := h.mates_unique q r p hr.symm hk.mates.symm
    exact hread ⟨ev, rfl⟩

/-! ## The state of `action_inject` -/

/-- The deletion of a client leaves the surroundings of `action_inject`. -/
lemma deleteClient_env (h : s.deleteClient p = .ok s') : s'.env = s.env := by
  obtain ⟨c, hc, h'⟩ := Runs.bind_eq_ok.mp h
  obtain ⟨⟨⟩, hfree, -⟩ := Runs.bind_eq_ok.mp h'
  rw [deleteClient_eq (clients_of_deref hc) hfree] at h
  split at h
  · rw [← Except.ok.inj h]
    rfl
  · obtain ⟨d, -, h⟩ := Runs.bind_eq_ok.mp h
    rw [← Except.ok.inj h]
    rfl

/-- So does `delete` in a round of the listener. -/
lemma delete_env {mapNode : Bool} (h : s.delete p mapNode = .ok s') : s'.env = s.env := by
  unfold delete at h
  split_ifs at h
  exact deleteClient_env h

/-- So does a round from the first `new Client` on. -/
lemma handleRequest_env {inFd outFd : ℤ} {it : Iteration}
    (h : s.handleRequest inFd outFd it = .ok s') : s'.env = s.env := by
  unfold handleRequest at h
  cases hnew : it.newIn with
  | none =>
    rw [hnew] at h
    cases h
  | some null =>
    rw [hnew] at h
    obtain ⟨⟨t, ok⟩, hinit, h⟩ := Runs.bind_eq_ok.mp h
    replace hinit : (s.newClient inFd outFd null).1.clientInit s.next it.initIn = .ok (t, ok) :=
      hinit
    have ht : t.env = (s.newClient inFd outFd null).1.env := (clientInit_kept hinit).2
    replace ht : t.env = s.env := ht
    cases ok with
    | false => exact (delete_env h).trans ht
    | true =>
      cases hnewOut : it.newOut with
      | none =>
        simp only [hnewOut] at h
        cases h
      | some nullOut =>
        simp only [hnewOut] at h
        obtain ⟨⟨t₂, ok₂⟩, hinitOut, h⟩ := Runs.bind_eq_ok.mp h
        replace hinitOut : (t.newClient outFd inFd nullOut).1.clientInit t.next it.initOut =
          .ok (t₂, ok₂) := hinitOut
        have ht₂ : t₂.env = (t.newClient outFd inFd nullOut).1.env := (clientInit_kept hinitOut).2
        replace ht₂ : t₂.env = s.env := ht₂.trans ht
        cases ok₂ with
        | false =>
          obtain ⟨t₃, hdelete, h⟩ := Runs.bind_eq_ok.mp h
          exact (delete_env h).trans ((delete_env hdelete).trans ht₂)
        | true =>
          simp only [Bool.true_eq_false, if_false] at h
          split_ifs at h
          rw [← Except.ok.inj h]
          exact ht₂

/-- The listener does not touch the state of `action_inject`. -/
lemma startListen_env {it : Iteration} (h : s.startListen it = .ok s') : s'.env = s.env := by
  have hopened : ∀ {s t : System σ} {fd : ℤ}, s.openFd fd = some t → t.env = s.env := by
    intro s t fd h
    unfold openFd at h
    split_ifs at h
    rw [← Option.some.inj h]
  unfold startListen at h
  by_cases hphase : s.phase ≠ .listening
  · rw [if_pos hphase] at h
    rw [← Except.ok.inj h]
  rw [if_neg hphase] at h
  cases hin : s.openFd it.inFd with
  | none =>
    rw [hin] at h
    rw [← Except.ok.inj h]
  | some t =>
    rw [hin] at h
    rw [← hopened hin]
    by_cases hnonblock : it.nonblockIn = false
    · simp only [if_pos hnonblock] at h
      rw [← Except.ok.inj h]
      rfl
    simp only [if_neg hnonblock, getOutflowFd] at h
    cases hout : t.openFd it.outFd with
    | none =>
      rw [hout] at h
      rw [← Except.ok.inj h]
      rfl
    | some u =>
      rw [hout] at h
      rw [← hopened hout]
      by_cases hconnect : it.connect = false
      · simp only [if_pos hconnect] at h
        rw [← Except.ok.inj h]
        rfl
      · simp only [if_neg hconnect] at h
        split_ifs at h
        · rw [← Except.ok.inj h]
          rfl
        · exact handleRequest_env h

/-- The state of `action_inject` moves in read callbacks only, and there as its calls do. -/
lemma Paired.systemStep_env {inject : Inject σ} {E : σ → σ → Prop} (hrefl : ∀ e, E e e)
    (htrans : ∀ e f g, E e f → E f g → E e g)
    (hinj : ∀ e d n c r, inject e d n c = .ok r → E e r.2.2) (h : s.Paired) {a : Action}
    (hstep : Mproxy.systemStep inject s a = .ok s') : E s.env s'.env := by
  cases a with
  | listen it =>
    rw [startListen_env hstep]
    exact hrefl _
  | read p ev =>
    have hread : s.flowRead inject p ev = .ok s' := hstep
    by_cases hp : p ∈ s.threads
    swap
    · rw [flowRead, if_pos hp] at hread
      rw [← Except.ok.inj hread]
      exact hrefl _
    obtain ⟨c, msg, input, output, -, -, -, ⟨-, heq⟩ | ⟨r, d, dBuf, dIn, dOut, -, -, -, -, heq⟩⟩ :=
      flowRead_eq h hp inject ev
    · rw [heq] at hread
      obtain ⟨x, hx, hs'⟩ := Runs.bind_eq_ok.mp hread
      rw [← Except.ok.inj hs']
      exact onFlowRead_env hrefl htrans hinj hx
    · rw [heq] at hread
      obtain ⟨x, hx, hs'⟩ := Runs.bind_eq_ok.mp hread
      rw [← Except.ok.inj hs']
      exact onFlowRead_env hrefl htrans hinj hx
  | delete p =>
    have hend : s.endThread p = .ok s' := hstep
    unfold endThread at hend
    by_cases hp : p ∉ s.threads
    · rw [if_pos hp] at hend
      rw [← Except.ok.inj hend]
      exact hrefl _
    · rw [if_neg hp] at hend
      obtain ⟨t, ht, hs'⟩ := Runs.bind_eq_ok.mp hend
      rw [← Except.ok.inj hs', ← deleteClient_env ht]
      exact hrefl _
  | housekeep first =>
    have hkeep : s.housekeep first = .ok s' := hstep
    have henv : s'.env = s.env := by
      unfold housekeep at hkeep
      simp only at hkeep
      split_ifs at hkeep
      · rw [← Except.ok.inj hkeep]
      · rw [← Except.ok.inj hkeep]
      · rw [← Except.ok.inj hkeep]
      · split at hkeep
        · obtain ⟨d, -, hs'⟩ := Runs.bind_eq_ok.mp hkeep
          rw [← Except.ok.inj hs']
        · rw [← Except.ok.inj hkeep]
    rw [henv]
    exact hrefl _

/-! ## The start of a session -/

section Start

variable {it : Iteration}

/-- A round of the listener that gets both descriptors goes on with `new Client(in_fd, out_fd)`. -/
lemma startListen_of_reaches (hreach : s.ReachesNew it) :
    s.startListen it = (s.connected it).handleRequest it.inFd it.outFd it := by
  have hin : s.openFd it.inFd = some (s.withOpen it.inFd) :=
    if_pos ⟨hreach.in_nonneg, hreach.in_closed⟩
  have hout : (s.withOpen it.inFd).openFd it.outFd = some (s.connected it) := by
    refine if_pos ⟨hreach.out_nonneg, ?_⟩
    rw [withOpen_isOpen, if_neg hreach.ne]
    exact hreach.out_closed
  simp [startListen, hreach.listening, hin, hreach.nonblockIn, hout, getOutflowFd, hreach.connect,
    hreach.nonblockOut]

/-- The clients of a round that creates a pair start with new streams and empty buffers. -/
lemma startListen_fresh (hreach : s.ReachesNew it) (hcompletes : it.Completes)
    (hrun : s.startListen it = .ok s') {p : ClientPtr} (hp : p = s.next ∨ p = s.next + 1)
    {c : Client} (hc : s'.clients p = some c) :
    (∃ fresh, c.inbound = (some (streamNew defaultStreamLen fresh), some [])) ∧
      c.written = (some [], some []) := by
  obtain ⟨hnewIn, hokIn, hnewOut, hokOut, hthreadOut, hthreadIn⟩ := hcompletes
  obtain ⟨nullIn, hnullIn⟩ := Option.isSome_iff_exists.mp hnewIn
  obtain ⟨nullOut, hnullOut⟩ := Option.isSome_iff_exists.mp hnewOut
  have hfirst : ((s.connected it).newClient it.inFd it.outFd nullIn).1.clients s.next =
      some (Client.raw it.inFd it.outFd nullIn) := newClient_raw _ _ _ _ rfl
  obtain ⟨t, hinit, hclients, -, hnext⟩ := clientInit_ok hfirst hokIn
  replace hnext : t.next = s.next + 1 := hnext
  obtain ⟨t₂, hinitOut, hclientsOut, -⟩ :=
    clientInit_ok (newClient_raw t it.outFd it.inFd nullOut hnext) hokOut
  rw [startListen_of_reaches hreach, handleRequest, hnullIn] at hrun
  simp only [newClient_snd, show (s.connected it).next = s.next from rfl, hinit, Runs.ok_bind,
    hnullOut, hnext, hinitOut, hthreadOut, hthreadIn, if_false, Bool.true_eq_false,
    Except.ok.injEq] at hrun
  rw [← hrun] at hc
  have hc' := (hclientsOut p).symm.trans hc
  rcases hp with rfl | rfl
  · rw [if_neg (Nat.lt_succ_self _).ne, newClient_clients, hnext,
      if_neg (Nat.lt_succ_self _).ne, hclients, if_pos rfl] at hc'
    rw [← Option.some.inj hc']
    exact Client.inited_start hokIn _
  · rw [if_pos rfl] at hc'
    rw [← Option.some.inj hc']
    exact Client.inited_start hokOut _

end Start

/-- **A pair starts as two fresh sessions**, of clients that were not there before. -/
lemma Paired.new_session (h : s.Paired) {inject : Inject σ} {a : Action}
    (hstep : Mproxy.systemStep inject s a = .ok s') (hnew : ¬ s.Mates p q) (hpq : s'.Mates p q) :
    s.next ≤ p ∧ ∃ fresh, ∀ env, s'.Shows p q (.start fresh env) := by
  have hpairs : s'.pairs ≠ s.pairs := fun heq => hnew (by rwa [Mates, ← heq])
  cases h.effect hstep with
  | listen hout =>
    cases hout with
    | idle _ => exact absurd rfl hpairs
    | stopped _ _ => exact absurd rfl hpairs
    | refused _ hs _ _ => exact absurd hs.pairs hpairs
    | abandoned _ hs _ _ _ _ _ => exact absurd hs.pairs hpairs
    | accepted hreach hcompletes hacc =>
      obtain ⟨inCd, outCd, ⟨hin, -⟩, hout, -⟩ := hacc.new_pair
      have hfresh : ∀ {t c}, t = s.next ∨ t = s.next + 1 → s'.clients t = some c →
          (∃ fresh, c.inbound = (some (streamNew defaultStreamLen fresh), some [])) ∧
            c.written = (some [], some []) := fun ht hc =>
        startListen_fresh hreach hcompletes hstep ht hc
      have hends : ∃ c d, s'.clients p = some c ∧ s'.clients q = some d ∧
          (p = s.next ∨ p = s.next + 1) ∧ (q = s.next ∨ q = s.next + 1) := by
        rcases hacc.mates_iff.mp hpq with hmates | ⟨rfl, rfl⟩ | ⟨rfl, rfl⟩
        · exact absurd hmates hnew
        · exact ⟨inCd, outCd, hin, hout, Or.inl rfl, Or.inr rfl⟩
        · exact ⟨outCd, inCd, hout, hin, Or.inr rfl, Or.inl rfl⟩
      obtain ⟨c, d, hc, hd, hp, hq⟩ := hends
      obtain ⟨⟨fresh, hinbound⟩, -⟩ := hfresh hp hc
      obtain ⟨-, hwritten⟩ := hfresh hq hd
      have hnext : s.next ≤ p := by
        rcases hp with hp | hp
        · exact hp.ge
        · rw [hp]
          exact Nat.le_succ _
      refine ⟨hnext, fresh, fun env => ⟨hpq, fun c' hc' => ?_, fun d' hd' => ?_⟩⟩
      · obtain rfl := Option.some.inj (hc.symm.trans hc')
        exact hinbound
      · obtain rfl := Option.some.inj (hd.symm.trans hd')
        exact hwritten
  | noRead => exact absurd rfl hpairs
  | read _ hby => exact absurd hby.pairs hpairs
  | noDelete => exact absurd rfl hpairs
  | delete _ hdel => exact absurd hdel.pairs hpairs
  | housekeep hkept => exact absurd hkept.pairs hpairs

/-! ## Sessions as components -/

section Components

variable {inject : Inject σ} {E : σ → σ → Prop} (hrefl : ∀ e, E e e)
  (htrans : ∀ e f g, E e f → E f g → E e g)
  (hinj : ∀ e d n c r, inject e d n c = .ok r → E e r.2.2)

include hrefl htrans hinj in
/-- **A session is a component of the process**: the read events of its client are its steps, and no
other step changes it. `E` is any relation along which the calls of `action_inject` move its state.
-/
theorem session_component (p q : ClientPtr) :
    Runs.Component (Mproxy.systemStep inject) (sharedStep inject) (reads p q)
      (fun s => s.Paired ∧ s.Linked) fun s k => s.Shows p q k ∧ E k.flow.env s.env where
  kept h hstep := ⟨h.1.systemStep hstep, h.2.systemStep h.1 hstep⟩
  moves {s a g k} h hk hg := by
    cases a with
    | read r ev =>
      rw [reads] at hg
      split_ifs at hg with hr
      obtain ⟨rfl, hp⟩ := hr
      obtain rfl := Option.some.inj hg
      rcases flowRead_session h.1 h.2 hk.1 hp inject ev with
        ⟨e, he, hk'⟩ | ⟨s', k', hs', hk', hshows, henv⟩
      · exact Or.inl ⟨e, he, hk'⟩
      · exact Or.inr ⟨s', k', hs', hk', hshows, by rw [henv]; exact hrefl _⟩
    | listen it => cases hg
    | delete r => cases hg
    | housekeep first => cases hg
  rests h hk hnone hstep :=
    ⟨hk.1.systemStep h.1 hnone hstep,
      htrans _ _ _ hk.2 (h.1.systemStep_env hrefl htrans hinj hstep)⟩

end Components

/-! ## Runs of the process -/

section ProcessRuns

variable {inject : Inject σ} {as : List Action}

/-- In a run the next client only becomes a later one. -/
lemma Paired.run_grows (h : s.Paired)
    (hrun : Runs.run (Mproxy.systemStep inject) s as = .ok s') : s.next ≤ s'.next := by
  have hstep : ∀ (t : System σ) (a : Action) (t' : System σ), t.Paired ∧ s.next ≤ t.next → True →
      Mproxy.systemStep inject t a = .ok t' → t'.Paired ∧ s.next ≤ t'.next :=
    fun _ _ _ ht _ hstep => ⟨ht.1.systemStep hstep, ht.2.trans (ht.1.systemStep_grows hstep).1⟩
  exact (Runs.invariant hstep ⟨h, le_rfl⟩ (fun _ _ => trivial) hrun).2

/-- A session reads nothing as long as its client is not there. -/
lemma Paired.reads_new (h : s.Paired) (hp : s.next ≤ p) (a : Action) : reads p q s a = none := by
  cases a with
  | read r ev =>
    refine if_neg ?_
    rintro ⟨-, hthread⟩
    obtain ⟨c, hc⟩ := (h.running p).mp hthread
    exact absurd (h.old p c hc) hp.not_gt
  | listen it => rfl
  | delete r => rfl
  | housekeep first => rfl

/-- A client that is not there yet has seen nothing. -/
lemma Paired.seen_new (h : s.Paired)
    (hrun : Runs.run (Mproxy.systemStep inject) s as = .ok s') (hp : s'.next ≤ p) :
    Runs.seen (Mproxy.systemStep inject) (reads p q) s as = [] := by
  induction as generalizing s with
  | nil => rfl
  | cons a as ih =>
    obtain ⟨s₁, h₁, h₂⟩ := Runs.bind_eq_ok.mp hrun
    have hnext : s.next ≤ p := (h.run_grows hrun).trans hp
    rw [Runs.seen_cons h₁, h.reads_new hnext, ih (h.systemStep h₁) h₂]
    rfl

/-- A run cut at the step that creates the pair of `p` and `q`: behind it there is a fresh session,
which reads in the rest of the run what it reads in the whole. -/
lemma exists_session {env : σ}
    (hrun : Runs.run (Mproxy.systemStep inject) (start env) as = .ok s) (hpq : s.Mates p q) :
    ∃ (bs : List Action) (t : System σ) (fresh : ℕ → UInt8),
      Runs.run (Mproxy.systemStep inject) t bs = .ok s ∧ t.Paired ∧ t.Linked ∧
        (∀ env', t.Shows p q (.start fresh env')) ∧
        Runs.seen (Mproxy.systemStep inject) (reads p q) (start env) as =
          Runs.seen (Mproxy.systemStep inject) (reads p q) t bs := by
  have hstart : ¬ (start env : System σ).Mates p q := by simp [Mates, start]
  obtain ⟨cs, a, bs, t, t', rfl, hcs, hstep, hold, hnew, hbs⟩ :=
    Runs.exists_first (P := fun t => t.Mates p q) hstart hpq hrun
  have hpaired : t.Paired ∧ t.Linked := by
    have hinv : ∀ (t : System σ) (a : Action) (t' : System σ), t.Paired ∧ t.Linked → True →
        Mproxy.systemStep inject t a = .ok t' → t'.Paired ∧ t'.Linked := fun _ _ _ ht _ hstep =>
      ⟨ht.1.systemStep hstep, ht.2.systemStep ht.1 hstep⟩
    exact Runs.invariant hinv ⟨start_paired env, start_linked env⟩ (fun _ _ => trivial) hcs
  obtain ⟨hp, fresh, hshows⟩ := hpaired.1.new_session hstep hold hnew
  refine ⟨bs, t', fresh, hbs, hpaired.1.systemStep hstep, hpaired.2.systemStep hpaired.1 hstep,
    hshows, ?_⟩
  rw [Runs.seen_append hcs, (start_paired env).seen_new hcs hp, Runs.seen_cons hstep,
    hpaired.1.reads_new hp]
  rfl

end ProcessRuns

end System

/-- **Every run of the process is a run of each of its sessions.** Take any run of the process from
its start, and any client `p` of it with its mate `q`. What `p` has taken in and what was written to
`q`, as long as they are there, is what a fresh session has after the read events of `p` in the run,
each with the state of `action_inject` that it found there; and the next read event of `p` faults
exactly if it does in the session. Nothing else in the run matters.

**Proof sketch.** The run is cut at the step that creates the pair, behind which a fresh session
shows (`System.exists_session`). A session is a component of the process
(`System.session_component`), so the rest of the run is a run of it. -/
theorem process_session (inject : Inject σ) (env : σ) (as : List Action) (s : System σ)
    (hrun : Runs.run (systemStep inject) (System.start env) as = .ok s) (p q : ClientPtr)
    (hpq : s.Mates p q) :
    ∃ fresh k, Runs.run (sharedStep inject) (.start fresh env)
        (Runs.seen (systemStep inject) (System.reads p q) (System.start env) as) = .ok k ∧
      (∀ c, s.clients p = some c → c.inbound = (some k.flow.msg, some k.flow.input)) ∧
      (∀ d, s.clients q = some d → d.written = (some k.flow.evBuf, some k.flow.output)) ∧
      ∀ ev e, p ∈ s.threads → (systemStep inject s (.read p ev) = .error e ↔
        sharedStep inject k (s.env, { ev with peerOpen := (s.clients q).isSome }) = .error e) := by
  obtain ⟨bs, t, fresh, hbs, hpaired, hlinked, hshows, hseen⟩ := System.exists_session hrun hpq
  have hcomp := @System.session_component _ inject (fun _ _ => True)
    (fun _ => trivial) (fun _ _ _ _ _ => trivial) (fun _ _ _ _ _ _ => trivial) p q
  obtain ⟨k, hk, hshow, -⟩ := hcomp.run ⟨hpaired, hlinked⟩ ⟨hshows env, trivial⟩ hbs
  have hend : s.Paired ∧ s.Linked := by
    exact Runs.invariant (fun _ _ _ ht _ hstep => hcomp.kept ht hstep) ⟨hpaired, hlinked⟩
      (fun _ _ => trivial) hbs
  refine ⟨fresh, k, hseen ▸ hk, hshow.reader, hshow.writer, fun ev e hp => ?_⟩
  exact (System.flowRead_session hend.1 hend.2 hshow hp inject ev).error_iff e

end Sessions

/-- Two pairs, on the same descriptors, one behind the other: the session of client `2` has sent
what it read itself, the second half of it behind a read event of its mate. -/
theorem process_session_two :
    ∃ as s fresh k,
      as = [.listen (.plain 4 5), .read 0 (.plain [1, 0, 0, 8, 0, 0, 0, 7]), .delete 0, .delete 1,
        .listen (.plain 4 5), .read 2 (.plain [1, 2, 0, 8, 0]), .read 3 (.plain [1, 3, 0]),
        .read 2 (.plain [0, 0, 9])] ∧
      Runs.run (systemStep (tableInject Loci.lenient Tables.zero fun _ => 0)) (System.start 0) as =
        .ok s ∧ s.Mates 2 3 ∧
      Runs.run (sharedStep (tableInject Loci.lenient Tables.zero fun _ => 0)) (.start fresh 0)
        (Runs.seen (systemStep (tableInject Loci.lenient Tables.zero fun _ => 0))
          (System.reads 2 3) (System.start 0) as) = .ok k ∧
      k.flow.output = [1, 2, 0, 8, 0, 0, 0, 9] := by
  let as : List Action := [.listen (.plain 4 5), .read 0 (.plain [1, 0, 0, 8, 0, 0, 0, 7]),
    .delete 0, .delete 1, .listen (.plain 4 5), .read 2 (.plain [1, 2, 0, 8, 0]),
    .read 3 (.plain [1, 3, 0]), .read 2 (.plain [0, 0, 9])]
  have heval : (Runs.run (systemStep (tableInject Loci.lenient Tables.zero fun _ => 0))
      (System.start 0) as).toOption.map (fun s => (s.pairs, (s.clients 3).map Client.written)) =
      some ([(0, 1), (2, 3)], some (some [], some [1, 2, 0, 8, 0, 0, 0, 9])) := by
    decide +kernel
  obtain ⟨s, hs, heq⟩ := Option.map_eq_some_iff.mp heval
  rw [Prod.mk.injEq] at heq
  obtain ⟨hpairs, hwritten⟩ := heq
  obtain ⟨d, hd, hout⟩ := Option.map_eq_some_iff.mp hwritten
  have hmates : s.Mates 2 3 := Or.inl (by rw [hpairs]; decide)
  obtain ⟨fresh, k, hk, -, hwriter, -⟩ := process_session
    (tableInject Loci.lenient Tables.zero fun _ => 0) 0 as s (Runs.ok_of_toOption hs) 2 3 hmates
  have hsame := (hwriter d hd).symm.trans hout
  rw [Prod.mk.injEq] at hsame
  exact ⟨as, s, fresh, k, rfl, Runs.ok_of_toOption hs, hmates, hk, Option.some.inj hsame.2⟩

end Mproxy
