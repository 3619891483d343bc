import Mproxy.Proxy.Teardown
import Mproxy.Proxy.Sessions

set_option relaxedAutoImplicit false
set_option autoImplicit false

/-!
# Descriptors and the shutdown

Each open descriptor of the process is that of exactly one client that is there: whatever fails, no
round of the listener and no deletion leaves a descriptor open or closes one of another client. So
when the housekeeping of `main` has ended, no client and no open descriptor is left.

The housekeeping breaks the event loop of one client in each round, and the thread of that client
deletes it then. As long as no round of the listener has failed late it needs no more rounds than
there are clients, and one more to see that none is left, whatever the other threads do in between.

## Main definitions

* `Mproxy.System.Owned` — each open descriptor is that of a client.
* `Mproxy.roundStep`, `Mproxy.System.Serves` — a round of the housekeeping with all that happens up
  to the next one, and what is asked of it.

## Main results

* `Mproxy.process_descriptors` — the open descriptors are those of the clients.
* `Mproxy.shutdown_rounds` — the housekeeping ends after as many rounds as there are clients.
-/

namespace Mproxy

section Shutdown

variable {σ : Type}

/-- A round of the housekeeping, in which `client_map.begin()` points to the key `r.1`, and what
happens in the other threads up to the next round. -/
def roundStep (inject : Inject σ) (s : System σ) (r : ℤ × List Action) : Except Fault (System σ) :=
  Runs.run (systemStep inject) s (.housekeep r.1 :: r.2)

namespace System

variable {s s' : System σ} {p q : ClientPtr} {c : Client} {inject : Inject σ} {a : Action}

/-! ## Descriptors -/

/-- Each open descriptor is that of a client. -/
def Owned (s : System σ) : Prop := ∀ f, s.isOpen f = true → ∃ p c, s.clients p = some c ∧ c.fd = f

/-- Behind the housekeeping no client is there. -/
def Swept (s : System σ) : Prop := s.phase = .ended → ∀ p, s.clients p = none

/-- At the start no descriptor is open. -/
lemma start_owned (env : σ) : (start env : System σ).Owned := by
  intro f hf
  cases hf

/-- A step of the main thread that leaves all clients alone. -/
lemma SameClients.owned (hown : s.Owned) (hsame : s.SameClients s') : s'.Owned := by
  intro f hf
  rw [hsame.isOpen] at hf
  obtain ⟨p, c, hc, hfd⟩ := hown f hf
  exact ⟨p, c, (hsame.clients p).trans hc, hfd⟩

/-- The descriptors of a new pair are those of its clients. -/
lemma Accepted.owned (h : s.Paired) (hown : s.Owned) {inFd outFd : ℤ}
    (hacc : s.Accepted inFd outFd s') : s'.Owned := by
  obtain ⟨inCd, outCd, ⟨hin, hifd, -⟩, hout, hofd, -⟩ := hacc.new_pair
  intro f hf
  by_cases hfo : f = outFd
  · exact ⟨_, outCd, hout, hofd.trans hfo.symm⟩
  by_cases hfi : f = inFd
  · exact ⟨_, inCd, hin, hifd.trans hfi.symm⟩
  rw [hacc.isOpen, if_neg (not_or.mpr ⟨hfo, hfi⟩)] at hf
  obtain ⟨p, c, hc, hfd⟩ := hown f hf
  exact ⟨p, c, (hacc.clients_old (h.old p c hc)).trans hc, hfd⟩

/-- A deletion closes the descriptor of its own client. -/
lemma Deleted.owned (h : s.Paired) (hown : s.Owned) (hp : s.clients p = some c)
    (hdel : s.Deleted p c s') : s'.Owned := by
  intro f hf
  rw [hdel.isOpen] at hf
  split_ifs at hf with hclosed
  obtain ⟨q, d, hd, hfd⟩ := hown f hf
  have hqp : q ≠ p := by
    rintro rfl
    obtain rfl := Option.some.inj (hp.symm.trans hd)
    have hpos := (h.opened q c hp).1
    exact hclosed ⟨hfd.symm, by omega⟩
  obtain ⟨d', hd', -⟩ := hdel.kept hqp hd
  obtain ⟨-, e, he, hefd, -⟩ := hdel.back hd'
  obtain rfl := Option.some.inj (hd.symm.trans he)
  exact ⟨q, d', hd', hefd.trans hfd⟩

/-- **Every step keeps the descriptors owned.** -/
lemma Owned.systemStep (hown : s.Owned) (h : s.Paired)
    (hstep : Mproxy.systemStep inject s a = .ok s') : s'.Owned := by
  cases h.effect hstep with
  | listen hout =>
    cases hout with
    | idle _ => exact hown
    | stopped _ _ => exact hown
    | refused _ hs _ _ => exact hs.owned hown
    | abandoned _ hs _ _ _ _ _ => exact hs.owned hown
    | accepted _ _ hacc => exact hacc.owned h hown
  | noRead => exact hown
  | read _ hby =>
    intro f hf
    rw [hby.isOpen] at hf
    obtain ⟨q, d, hd, hfd⟩ := hown f hf
    obtain ⟨d', hd', hfd', -⟩ := hby.kept q d hd
    exact ⟨q, d', hd', hfd'.trans hfd⟩
  | noDelete => exact hown
  | delete hc hdel => exact fun f hf => hdel.owned h hown hc f hf
  | housekeep hkept => exact hkept.toSameClients.owned hown

/-! ## Behind the listener -/

/-- What a step does behind the listener: no client is created, and one that is deleted is gone. -/
structure Wanes (s : System σ) (a : Action) (s' : System σ) : Prop where
  phase : s'.phase ≠ .listening
  threads : s'.threads.Sublist s.threads
  deleted : ∀ p, a = .delete p → p ∉ s'.threads
  ended : s.phase = .ended → s'.phase = .ended

/-- A step that creates and deletes no client. -/
lemma Wanes.of_same (hphase : s'.phase ≠ .listening) (hthreads : s'.threads = s.threads)
    (ha : ∀ p, a ≠ .delete p) (hended : s.phase = .ended → s'.phase = .ended) : s.Wanes a s' :=
  ⟨hphase, by rw [hthreads], fun p hp => absurd hp (ha p), hended⟩

/-- **Behind the listener the clients only get fewer.** -/
lemma Paired.systemStep_wanes (h : s.Paired) (hphase : s.phase ≠ .listening)
    (hstep : Mproxy.systemStep inject s a = .ok s') : s.Wanes a s' := by
  cases a with
  | listen it =>
    have hlisten : s.startListen it = .ok s' := hstep
    rw [startListen, if_pos hphase] at hlisten
    obtain rfl := Except.ok.inj hlisten
    exact .of_same hphase rfl (by simp) id
  | read p ev =>
    cases h.effect hstep with
    | noRead => exact .of_same hphase rfl (by simp) id
    | read _ hby => exact .of_same (hby.phase ▸ hphase) hby.threads (by simp) (hby.phase ▸ id)
  | delete p =>
    rcases endThread_cases h p with ⟨hp, hend⟩ | ⟨c, s₁, -, hdel, hend⟩
    · obtain rfl := Except.ok.inj (hend.symm.trans hstep)
      refine ⟨hphase, List.Sublist.refl _, fun q hq => ?_, id⟩
      obtain rfl := Action.delete.inj hq
      exact hp
    · obtain rfl := Except.ok.inj (hend.symm.trans hstep)
      have hthreads : s₁.threads.erase p = s.threads.erase p := by rw [hdel.threads]
      refine ⟨fun hl => hphase (hdel.phase.symm.trans hl), ?_, fun q hq => ?_, fun he =>
        hdel.phase.trans he⟩
      · show (s₁.threads.erase p).Sublist s.threads
        rw [hthreads]
        exact List.erase_sublist
      · obtain rfl := Action.delete.inj hq
        show p ∉ s₁.threads.erase p
        rw [hthreads]
        exact h.nodup.not_mem_erase
  | housekeep first =>
    obtain ⟨s₁, hkeep, hkept⟩ := housekeep_cases h first
    obtain rfl := Except.ok.inj (hkeep.symm.trans hstep)
    by_cases hhouse : s.phase = .housekeeping
    · refine .of_same ?_ hkept.threads (by simp) fun he => absurd (hhouse.symm.trans he) (by simp)
      rcases hkept.phase hhouse with ⟨-, hended⟩ | ⟨-, hgoes⟩
      · rw [hended]
        simp
      · rw [hgoes]
        simp
    · rw [housekeep, if_pos hhouse] at hkeep
      obtain rfl := Except.ok.inj hkeep
      exact .of_same hphase rfl (by simp) id

/-- Behind the housekeeping no client is there, in every state that is reached. -/
lemma Swept.systemStep (hswept : s.Swept) (h : s.Paired)
    (hstep : Mproxy.systemStep inject s a = .ok s') : s'.Swept := by
  intro hended p
  by_cases hphase : s.phase = .ended
  · -- nothing is created any more
    have hwanes := h.systemStep_wanes (by rw [hphase]; simp) hstep
    have hempty : s.threads = [] := by
      refine List.eq_nil_iff_forall_not_mem.mpr fun q hq => ?_
      obtain ⟨c, hc⟩ := (h.running q).mp hq
      rw [hswept hphase q] at hc
      cases hc
    have hthreads : s'.threads = [] := by
      have hsub := hwanes.threads
      rw [hempty] at hsub
      exact List.sublist_nil.mp hsub
    exact (h.systemStep hstep).clients_none hthreads p
  -- the step ends the housekeeping
  cases h.effect hstep with
  | listen hout =>
    cases hout with
    | idle _ => exact absurd hended hphase
    | stopped _ _ => cases hended
    | refused _ _ hsame _ => exact absurd (hsame.symm.trans hended) hphase
    | abandoned _ _ hsame _ _ _ _ => exact absurd (hsame.symm.trans hended) hphase
    | accepted _ _ hacc => exact absurd (hacc.phase.symm.trans hended) hphase
  | noRead => exact absurd hended hphase
  | read _ hby => exact absurd (hby.phase.symm.trans hended) hphase
  | noDelete => exact absurd hended hphase
  | delete _ hdel => exact absurd (hdel.phase.symm.trans hended) hphase
  | @housekeep first _ hkept =>
    have hhouse : s.phase = .housekeeping := by
      by_contra hno
      have hkeep : s.housekeep first = .ok s' := hstep
      rw [System.housekeep, if_pos hno] at hkeep
      exact hphase ((congrArg phase (Except.ok.inj hkeep)).trans hended)
    rcases hkept.phase hhouse with ⟨hkeys, -⟩ | ⟨-, hgoes⟩
    · rw [hkept.clients]
      cases hc : s.clients p with
      | none => rfl
      | some c =>
        have hpos := (h.opened p c hc).1
        have hfind := h.listed p c hc
        rw [hkeys c.fd (by omega)] at hfind
        cases hfind
    · rw [hgoes] at hended
      cases hended

/-! ## Rounds of the housekeeping -/

/-- What is asked of a round: as long as the map has a key other than `-1`, `begin()` points to such
a one behind `erase(-1)`, and the client whose loop is broken is deleted before the next round. -/
def Serves (s : System σ) (r : ℤ × List Action) : Prop :=
  (∃ f, f ≠ -1 ∧ s.clientMap.find f ≠ none) →
    (r.1 ≠ -1 ∧ s.clientMap.find r.1 ≠ none) ∧
      ∀ d, s.clientMap.find r.1 = some (some d) → .delete d ∈ r.2

/-- A round that breaks the loop of a client serves, if the client is deleted in it. -/
lemma Serves.of_find {f : ℤ} {d : ClientPtr} {as : List Action} (hne : f ≠ -1)
    (hfind : s.clientMap.find f = some (some d)) (hmem : .delete d ∈ as) : s.Serves (f, as) := by
  intro _
  refine ⟨⟨hne, by rw [hfind]; simp⟩, fun e he => ?_⟩
  obtain rfl := Option.some.inj (Option.some.inj (hfind.symm.trans he))
  exact hmem

/-- Each round serves where the map has no key but `-1`. -/
lemma Serves.of_isEmpty (hempty : (s.clientMap.erase (-1)).isEmpty = true)
    (r : ℤ × List Action) : s.Serves r := by
  rintro ⟨f, hf, hfind⟩
  have hnone := (IndexMap.isEmpty_iff _).mp hempty f
  rw [IndexMap.find_erase, if_neg hf] at hnone
  exact absurd hnone hfind

/-- What a run does behind the listener. -/
lemma Paired.run_wanes (h : s.Paired) (hres : s.NoResidue) (hphase : s.phase ≠ .listening)
    {as : List Action} (hrun : Runs.run (Mproxy.systemStep inject) s as = .ok s') :
    s'.Paired ∧ s'.NoResidue ∧ s'.phase ≠ .listening ∧ s'.threads.Sublist s.threads ∧
      (∀ p, .delete p ∈ as → p ∉ s'.threads) ∧ (s.phase = .ended → s'.phase = .ended) := by
  induction as generalizing s with
  | nil =>
    obtain rfl : s = s' := by simpa using hrun
    exact ⟨h, hres, hphase, List.Sublist.refl _, fun p hp => absurd hp List.not_mem_nil, id⟩
  | cons a as ih =>
    obtain ⟨s₁, h₁, h₂⟩ := Runs.bind_eq_ok.mp hrun
    have hwanes := h.systemStep_wanes hphase h₁
    have hres₁ : s₁.NoResidue := by
      refine (h.systemStep_residue_iff hres h₁).mpr fun hlate => ?_
      cases a with
      | listen it => exact hphase hlate.1.listening
      | read p ev => exact hlate
      | delete p => exact hlate
      | housekeep first => exact hlate
    obtain ⟨h', hres', hphase', hsub, hdeleted, hended⟩ :=
      ih (h.systemStep h₁) hres₁ hwanes.phase h₂
    refine ⟨h', hres', hphase', hsub.trans hwanes.threads, fun p hp hmem => ?_, fun he =>
      hended (hwanes.ended he)⟩
    rcases List.mem_cons.mp hp with ha | hp
    · exact hwanes.deleted p ha.symm (hsub.subset hmem)
    · exact hdeleted p hp hmem

/-- **A round ends the housekeeping or leaves fewer clients.** -/
lemma Paired.round_fewer (h : s.Paired) (hres : s.NoResidue) (hphase : s.phase = .housekeeping)
    {r : ℤ × List Action} (hserves : s.Serves r) (hrun : roundStep inject s r = .ok s') :
    s'.phase = .ended ∨ s'.threads.length < s.threads.length := by
  obtain ⟨s₁, hkeep, hrest⟩ := Runs.bind_eq_ok.mp hrun
  obtain ⟨s₂, hkeep₂, hkept⟩ := housekeep_cases h r.1
  obtain rfl := Except.ok.inj (hkeep₂.symm.trans hkeep)
  have hwanes := h.systemStep_wanes (by rw [hphase]; simp) hkeep
  have hres₁ := (h.systemStep_residue_iff hres hkeep).mpr id
  obtain ⟨-, -, -, hsub, hdeleted, hended⟩ :=
    (h.systemStep hkeep).run_wanes hres₁ hwanes.phase hrest
  rcases hkept.phase hphase with ⟨-, hend⟩ | ⟨hkeys, -⟩
  · exact Or.inl (hended hend)
  right
  -- the round points to a client, which is gone at the end of it
  have hkey : ∃ f, f ≠ -1 ∧ s.clientMap.find f ≠ none := by
    by_contra hno
    refine hkeys fun f hf => ?_
    by_contra hfind
    exact hno ⟨f, hf, hfind⟩
  obtain ⟨⟨hne, hfind⟩, hserved⟩ := hserves hkey
  obtain ⟨d, hd⟩ : ∃ d, s.clientMap.find r.1 = some (some d) := by
    cases ho : s.clientMap.find r.1 with
    | none => exact absurd ho hfind
    | some o =>
      cases o with
      | none => exact absurd (hres r.1 ho) hne
      | some d => exact ⟨d, rfl⟩
  have hgone := hdeleted d (hserved d hd)
  have hthere : d ∈ s.threads := by
    obtain ⟨c, hc, -⟩ := h.mapped r.1 d hd
    exact (h.running d).mpr ⟨c, hc⟩
  have hall : s'.threads.Sublist s.threads := hsub.trans hwanes.threads
  refine lt_of_le_of_ne hall.length_le fun hlen => hgone ?_
  rw [hall.eq_of_length hlen]
  exact hthere

/-- **As many rounds as there are clients, and one more, end the housekeeping.** -/
lemma Paired.rounds_end (h : s.Paired) (hres : s.NoResidue) (hphase : s.phase ≠ .listening)
    {rs : List (ℤ × List Action)} (hserves : Runs.Along (roundStep inject) Serves s rs)
    (hrun : Runs.run (roundStep inject) s rs = .ok s') (hlen : s.threads.length < rs.length) :
    s'.phase = .ended := by
  induction rs generalizing s with
  | nil => exact absurd hlen (Nat.not_lt_zero _)
  | cons r rs ih =>
    obtain ⟨s₁, h₁, h₂⟩ := Runs.bind_eq_ok.mp hrun
    obtain ⟨hserved, hrest⟩ := hserves s₁ h₁
    obtain ⟨h', hres', hphase', -, -, hkept⟩ := h.run_wanes hres hphase h₁
    -- the rounds behind the end of the housekeeping do nothing
    have hstays : s₁.phase = .ended → s'.phase = .ended := by
      intro he
      have hinv : ∀ (t : System σ) (r : ℤ × List Action) (t' : System σ),
          t.Paired ∧ t.NoResidue ∧ t.phase = .ended → True → roundStep inject t r = .ok t' →
          t'.Paired ∧ t'.NoResidue ∧ t'.phase = .ended := by
        rintro t r t' ⟨ht, htres, hte⟩ - hstep
        obtain ⟨ht', htres', -, -, -, hte'⟩ := ht.run_wanes htres (by rw [hte]; simp) hstep
        exact ⟨ht', htres', hte' hte⟩
      exact (Runs.invariant hinv ⟨h', hres', he⟩ (fun _ _ => trivial) h₂).2.2
    by_cases hended : s.phase = .ended
    · exact hstays (hkept hended)
    have hhouse : s.phase = .housekeeping := by
      cases hp : s.phase with
      | listening => exact absurd hp hphase
      | housekeeping => rfl
      | ended => exact absurd hp hended
    rcases h.round_fewer hres hhouse hserved h₁ with he | hfewer
    · exact hstays he
    · refine ih h' hres' hphase' hrest h₂ ?_
      rw [List.length_cons] at hlen
      omega

/-- The rounds of the housekeeping make up a run of the process. -/
lemma run_rounds (s : System σ) (rs : List (ℤ × List Action)) :
    Runs.run (roundStep inject) s rs =
      Runs.run (Mproxy.systemStep inject) s (rs.flatMap fun r => .housekeep r.1 :: r.2) := by
  induction rs generalizing s with
  | nil => rfl
  | cons r rs ih =>
    rw [List.flatMap_cons, Runs.run_append, Runs.run_cons]
    show (Runs.run _ s _ >>= _) = _
    congr 1
    funext t
    exact ih t

/-- What holds of every state that is reached. -/
lemma run_owned {env : σ} {as : List Action}
    (hrun : Runs.run (Mproxy.systemStep inject) (start env) as = .ok s) :
    s.Paired ∧ s.Owned ∧ s.Swept := by
  have hinv : ∀ (t : System σ) (a : Action) (t' : System σ), t.Paired ∧ t.Owned ∧ t.Swept →
      True → Mproxy.systemStep inject t a = .ok t' → t'.Paired ∧ t'.Owned ∧ t'.Swept :=
    fun _ _ _ ht _ hstep => ⟨ht.1.systemStep hstep, ht.2.1.systemStep ht.1 hstep,
      ht.2.2.systemStep ht.1 hstep⟩
  exact Runs.invariant hinv ⟨start_paired env, start_owned env, fun hp => by cases hp⟩
    (fun _ _ => trivial) hrun

/-- Behind the housekeeping no thread runs, and no descriptor is open. -/
lemma run_ended {env : σ} {as : List Action}
    (hrun : Runs.run (Mproxy.systemStep inject) (start env) as = .ok s)
    (hended : s.phase = .ended) : s.threads = [] ∧ ∀ f, s.isOpen f = false := by
  obtain ⟨h, hown, hswept⟩ := run_owned hrun
  constructor
  · refine List.eq_nil_iff_forall_not_mem.mpr fun q hq => ?_
    obtain ⟨c, hc⟩ := (h.running q).mp hq
    rw [hswept hended q] at hc
    cases hc
  · intro f
    refine Bool.eq_false_of_not_eq_true fun hf => ?_
    obtain ⟨p, c, hc, -⟩ := hown f hf
    rw [hswept hended p] at hc
    cases hc

end System

/-- **The open descriptors are those of the clients.** In every state that a run of the process
reaches, a descriptor is open exactly if it is that of a client that is there, and then of only one;
so no descriptor is leaked, none is closed under a client, and when the housekeeping of `main` has
ended, no thread runs and no descriptor is open. -/
theorem process_descriptors (inject : Inject σ) (env : σ) (as : List Action) (s : System σ)
    (hrun : Runs.run (systemStep inject) (System.start env) as = .ok s) :
    (∀ f, s.isOpen f = true ↔ ∃! p, ∃ c, s.clients p = some c ∧ c.fd = f) ∧
      (s.phase = .ended → s.threads = [] ∧ ∀ f, s.isOpen f = false) := by
  obtain ⟨h, hown, -⟩ := System.run_owned hrun
  refine ⟨fun f => ⟨fun hf => ?_, ?_⟩, System.run_ended hrun⟩
  · obtain ⟨p, c, hc, hfd⟩ := hown f hf
    refine ⟨p, ⟨c, hc, hfd⟩, ?_⟩
    rintro q ⟨d, hd, hdfd⟩
    exact h.fd_inj hd hc (hdfd.trans hfd.symm)
  · rintro ⟨p, ⟨c, hc, rfl⟩, -⟩
    exact (h.opened p c hc).2

/-- A pair of which one client was deleted: only the descriptor of the other one is open. -/
theorem process_descriptors_pair :
    ∃ s, Runs.run (systemStep (tableInject Loci.lenient Tables.zero fun _ => 0)) (System.start 0)
        [.listen (.plain 4 5), .read 0 (.plain [1, 0, 0, 8, 0, 0, 0, 7]), .delete 0] = .ok s ∧
      (∃! p, ∃ c, s.clients p = some c ∧ c.fd = 5) ∧
      ¬ ∃! p, ∃ c, s.clients p = some c ∧ c.fd = 4 := by
  have heval : (Runs.run (systemStep (tableInject Loci.lenient Tables.zero fun _ => 0))
      (System.start 0) [.listen (.plain 4 5), .read 0 (.plain [1, 0, 0, 8, 0, 0, 0, 7]),
        .delete 0]).toOption.map (fun s => (s.isOpen 4, s.isOpen 5)) = some (false, true) := by
    decide +kernel
  obtain ⟨s, hs, heq⟩ := Option.map_eq_some_iff.mp heval
  rw [Prod.mk.injEq] at heq
  have hrun := Runs.ok_of_toOption hs
  obtain ⟨hopen, -⟩ := process_descriptors _ 0 _ s hrun
  refine ⟨s, hrun, (hopen 5).mp heq.2, fun h => ?_⟩
  rw [(hopen 4).mpr h] at heq
  exact absurd heq.1 (by simp)

/-- **The shutdown ends.** Let `main` be in its housekeeping loop, behind a run of the process in
which no round of the listener failed late. Let each round of the loop break the loop of a client,
as long as there is one, and let the thread of that client end before the next round; the other
threads do what they like. Then the housekeeping has ended behind one round more than there were
clients, and no thread runs and no descriptor is open.

**Proof sketch.** Such a run leaves no null pointer in the map, so a round that does not end the
loop points to a client, and that one is gone when the next round comes
(`System.Paired.round_fewer`). -/
theorem shutdown_rounds (inject : Inject σ) (env : σ) (as : List Action) (s : System σ)
    (has : Runs.Along (systemStep inject) (fun s a => ¬ s.LateFailure a) (System.start env) as)
    (hrun : Runs.run (systemStep inject) (System.start env) as = .ok s)
    (hphase : s.phase = .housekeeping) (rs : List (ℤ × List Action)) (s' : System σ)
    (hserves : Runs.Along (roundStep inject) System.Serves s rs)
    (hrounds : Runs.run (roundStep inject) s rs = .ok s') (hlen : s.threads.length < rs.length) :
    s'.phase = .ended ∧ s'.threads = [] ∧ ∀ f, s'.isOpen f = false := by
  have hres := (System.run_noResidue_iff inject env as).mpr has as s (List.prefix_refl _) hrun
  have hended := (System.run_paired hrun).rounds_end hres (by rw [hphase]; simp) hserves hrounds
    hlen
  rw [System.run_rounds] at hrounds
  have hwhole : Runs.run (systemStep inject) (System.start env)
      (as ++ rs.flatMap fun r => .housekeep r.1 :: r.2) = .ok s' := by
    rw [Runs.run_append, hrun, Runs.ok_bind, hrounds]
  exact ⟨hended, System.run_ended hwhole hended⟩

end Shutdown

/-- A pair whose clients are deleted in the first two rounds. -/
theorem shutdown_rounds_pair :
    ∃ s s', Runs.run (systemStep (tableInject Loci.lenient Tables.zero fun _ => 0)) (System.start 0)
        [.listen (.plain 4 5), .listen (.plain (-1) 5)] = .ok s ∧
      Runs.run (roundStep (tableInject Loci.lenient Tables.zero fun _ => 0)) s
        [(4, [.read 1 (.plain [1]), .delete 0]), (5, [.delete 1]), (-1, [])] = .ok s' ∧
      s'.phase = .ended ∧ s'.threads = [] := by
  let inject : Inject ℕ := tableInject Loci.lenient Tables.zero fun _ => 0
  let as : List Action := [.listen (.plain 4 5), .listen (.plain (-1) 5)]
  let r₁ : ℤ × List Action := (4, [.read 1 (.plain [1]), .delete 0])
  let r₂ : ℤ × List Action := (5, [.delete 1])
  let r₃ : ℤ × List Action := (-1, [])
  have heval : (Runs.run (systemStep inject) (System.start 0) as).toOption.map (fun s =>
      (s.threads, s.phase, s.clientMap.find 4)) =
      some ([1, 0], .housekeeping, some (some 0)) := by
    decide +kernel
  obtain ⟨s, hs, heq⟩ := Option.map_eq_some_iff.mp heval
  simp only [Prod.mk.injEq] at heq
  obtain ⟨hthreads, hphase, hfirst⟩ := heq
  have hrun := Runs.ok_of_toOption hs
  have hbind : ∀ rs, (Runs.run (systemStep inject) (System.start 0) as >>= fun t =>
      Runs.run (roundStep inject) t rs) = Runs.run (roundStep inject) s rs := fun rs => by
    rw [hrun, Runs.ok_bind]
  -- the states behind the rounds
  have heval₁ : (Runs.run (systemStep inject) (System.start 0) as >>= fun t =>
      Runs.run (roundStep inject) t [r₁]).toOption.map (fun s => s.clientMap.find 5) =
      some (some (some 1)) := by
    decide +kernel
  have heval₂ : (Runs.run (systemStep inject) (System.start 0) as >>= fun t =>
      Runs.run (roundStep inject) t [r₁, r₂]).toOption.map
        (fun s => (s.clientMap.erase (-1)).isEmpty) = some true := by
    decide +kernel
  have heval₃ : (Runs.run (systemStep inject) (System.start 0) as >>= fun t =>
      Runs.run (roundStep inject) t [r₁, r₂, r₃]).toOption.isSome = true := by
    decide +kernel
  rw [hbind] at heval₁ heval₂ heval₃
  obtain ⟨s', hs'⟩ := Option.isSome_iff_exists.mp heval₃
  have hserves : Runs.Along (roundStep inject) System.Serves s [r₁, r₂, r₃] := by
    refine fun s₁ h₁ => ⟨.of_find (by decide) hfirst (by simp), fun s₂ h₂ => ⟨?_, fun s₃ h₃ =>
      ⟨?_, trivial⟩⟩⟩
    · rw [Runs.run_cons, h₁, Runs.ok_bind, Runs.run_nil] at heval₁
      exact .of_find (by decide) (Option.some.inj heval₁) (by simp)
    · rw [Runs.run_cons, h₁, Runs.ok_bind, Runs.run_cons, h₂, Runs.ok_bind, Runs.run_nil] at heval₂
      exact .of_isEmpty (Option.some.inj heval₂) r₃
  have hlate : Runs.Along (systemStep inject) (fun s a => ¬ s.LateFailure a) (System.start 0) as :=
    fun _ _ => ⟨Iteration.plain_not_failsLate _ 4 5, fun _ _ =>
      ⟨Iteration.plain_not_failsLate _ (-1) 5, trivial⟩⟩
  obtain ⟨hended, hnone, -⟩ := shutdown_rounds inject 0 as s hlate hrun hphase [r₁, r₂, r₃] s'
    hserves (Runs.ok_of_toOption hs') (by rw [hthreads]; decide)
  exact ⟨s, s', hrun, Runs.ok_of_toOption hs', hended, hnone⟩

end Mproxy
