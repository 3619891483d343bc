import Mproxy.Proxy.Crossing

set_option relaxedAutoImplicit false
set_option autoImplicit false

/-!
# Teardown

The housekeeping loop of `main` erases the key `-1` and waits for `client_map` to become empty. An
entry goes when the client of its descriptor is deleted. A null pointer that the index operator
enters for another descriptor stays until a client with that descriptor comes and goes.

`on_flow_read` and `~Client` look up the descriptor of the pair, which is `-1` or that of a client
that is there. In a round of the listener whose `Client::init` fails it is neither, and the null
pointer is left.

## Main definitions

* `Mproxy.System.NoResidue` — the map has no null pointer except under `-1`.

## Main results

* `Mproxy.System.Paired.systemStep_residue_iff` — a step leaves a null pointer exactly if it is a
  round of the listener whose `Client::init` fails.
* `Mproxy.teardown_empties_map` — without such rounds the housekeeping ends once no client is there.
* `Mproxy.System.Paired.residue_never_ends` — with a null pointer left it never ends.
-/

namespace Mproxy

section Teardown

variable {σ : Type}

namespace System

variable {s s' : System σ} {p q : ClientPtr} {c : Client} {inject : Inject σ} {a : Action}

/-- The map has no null pointer except under `-1`. -/
def NoResidue (s : System σ) : Prop := ∀ f, s.clientMap.find f = some none → f = -1

/-- The action is a round of the listener that fails in one of the two calls of `Client::init`. -/
def LateFailure (s : System σ) : Action → Prop
  | .listen it => s.FailsLate it
  | _ => False

/-- Where a client looks up its pair, there is a client, or else the key is `-1`. -/
lemma Paired.find_pair (h : s.Paired) (hc : s.clients p = some c) :
    c.fwFd = -1 ∨ ∃ q, s.clientMap.find c.fwFd = some (some q) := by
  by_cases hfw : c.fwFd = -1
  · exact Or.inl hfw
  · obtain ⟨q, -, hfind, -⟩ := h.mated p c hc hfw
    exact Or.inr ⟨q, hfind⟩

/-- The index operator on the descriptor of the pair leaves no null pointer but under `-1`. -/
lemma NoResidue.index_pair (hres : s.NoResidue) (h : s.Paired) (hc : s.clients p = some c) {f : ℤ}
    (hf : (if f = c.fwFd then some ((s.clientMap.find f).getD none) else s.clientMap.find f) =
      some none) : f = -1 := by
  split_ifs at hf with hfw
  · rcases h.find_pair hc with hneg | ⟨q, hfind⟩
    · exact hfw.trans hneg
    · rw [hfw, hfind] at hf
      cases hf
  · exact hres f hf

/-- A round of the listener leaves a null pointer exactly if it fails late. -/
lemma NoResidue.listen_iff (hres : s.NoResidue) {it : Iteration}
    (hout : s.ListenOutcome it (.ok s')) : s'.NoResidue ↔ ¬ s.FailsLate it := by
  cases hout with
  | idle hphase => exact iff_of_true hres fun hfail => hphase hfail.1.listening
  | stopped _ hno =>
    exact iff_of_true hres fun hfail => hno ⟨hfail.1.in_nonneg, hfail.1.in_closed⟩
  | refused hearly _ _ hmap =>
    refine iff_of_true (fun f hf => ?_) fun hfail => hearly hfail.1
    rw [hmap] at hf
    exact hres f hf
  | abandoned hfail _ _ left erased hfds hmap =>
    refine iff_of_false (fun hres' => ?_) (not_not.mpr hfail)
    have hne : left ≠ erased := by
      rcases hfds with ⟨rfl, rfl⟩ | ⟨rfl, rfl⟩
      · exact hfail.1.ne.symm
      · exact hfail.1.ne
    have hpos : 0 ≤ left := by
      rcases hfds with ⟨rfl, -⟩ | ⟨rfl, -⟩
      · exact hfail.1.in_nonneg
      · exact hfail.1.out_nonneg
    have hleft := hres' left (by rw [hmap, if_neg hne, if_pos rfl])
    omega
  | accepted _ hcompletes hacc =>
    refine iff_of_true (fun f hf => ?_) fun hfail => hfail.2.not_completes hcompletes
    rw [hacc.clientMap] at hf
    split_ifs at hf
    · cases hf
    · cases hf
    · exact hres f hf

/-- **A step leaves a null pointer exactly if it is a round of the listener whose `Client::init`
fails.** -/
lemma Paired.systemStep_residue_iff (h : s.Paired) (hres : s.NoResidue)
    (hstep : Mproxy.systemStep inject s a = .ok s') : s'.NoResidue ↔ ¬ s.LateFailure a := by
  cases h.effect hstep with
  | listen hout => exact hres.listen_iff hout
  | noRead => exact iff_of_true hres id
  | read hc hby =>
    refine iff_of_true (fun f hf => ?_) id
    rw [hby.clientMap] at hf
    exact hres.index_pair h hc hf
  | noDelete => exact iff_of_true hres id
  | @delete p c s₁ hc hdel =>
    refine iff_of_true (fun f hf => ?_) id
    rw [show System.clientMap _ = s₁.clientMap from rfl, hdel.clientMap] at hf
    by_cases hfd : f = c.fd
    · rw [if_pos hfd] at hf
      cases hf
    · rw [if_neg hfd] at hf
      exact hres.index_pair h hc hf
  | housekeep hkept =>
    refine iff_of_true (fun f hf => ?_) id
    rcases hkept.clientMap f with heq | ⟨hneg, -⟩
    · exact hres f (heq.symm.trans hf)
    · exact hneg

/-- At the start the map is empty. -/
lemma start_noResidue (env : σ) : (start env : System σ).NoResidue := by
  intro f hf
  rw [show (start env : System σ).clientMap = ∅ from rfl, IndexMap.find_empty] at hf
  cases hf

/-- **In all states that a run reaches there is no null pointer left exactly if in none of its
rounds of the listener a `Client::init` fails.** -/
theorem run_noResidue_iff (inject : Inject σ) (env : σ) (as : List Action) :
    (∀ bs s, bs <+: as → Runs.run (Mproxy.systemStep inject) (start env) bs = .ok s → s.NoResidue) ↔
      Runs.Along (Mproxy.systemStep inject) (fun s a => ¬ s.LateFailure a) (start env) as := by
  have hgood : ∀ (s : System σ) (a : Action) (s' : System σ), s.Paired ∧ s.NoResidue →
      Mproxy.systemStep inject s a = .ok s' → (s'.Paired ∧ s'.NoResidue ↔ ¬ s.LateFailure a) := by
    rintro s a s' ⟨h, hres⟩ hstep
    rw [← h.systemStep_residue_iff hres hstep]
    exact and_iff_right (h.systemStep hstep)
  rw [← Runs.along_iff hgood ⟨start_paired env, start_noResidue env⟩]
  constructor
  · intro h bs s hbs hrun
    exact ⟨run_paired hrun, h bs s hbs hrun⟩
  · intro h bs s hbs hrun
    exact (h bs s hbs hrun).2

/-- Where no client is there and no null pointer is left, the map has no key but `-1`. -/
lemma NoResidue.find_none (hres : s.NoResidue) (h : s.Paired)
    (hnone : ∀ p, s.clients p = none) {f : ℤ} (hf : f ≠ -1) : s.clientMap.find f = none := by
  cases hfind : s.clientMap.find f with
  | none => rfl
  | some o =>
    cases o with
    | none => exact absurd (hres f hfind) hf
    | some p =>
      obtain ⟨c, hc, -⟩ := h.mapped f p hfind
      rw [hnone p] at hc
      cases hc

/-- A null pointer under another key than `-1` keeps the housekeeping from ending, and behind the
listener no step erases it. -/
lemma Paired.systemStep_residue (h : s.Paired) (hphase : s.phase = .housekeeping) {f : ℤ}
    (hf : f ≠ -1) (hfind : s.clientMap.find f = some none)
    (hstep : Mproxy.systemStep inject s a = .ok s') :
    s'.phase = .housekeeping ∧ s'.clientMap.find f = some none := by
  have hindex : ∀ g, (if f = g then some ((s.clientMap.find f).getD none) else s.clientMap.find f) =
      some none := by
    intro g
    rw [hfind]
    exact ite_self _
  cases h.effect hstep with
  | listen hout =>
    cases hout with
    | idle _ => exact ⟨hphase, hfind⟩
    | stopped hlisten _ => exact absurd (hlisten.symm.trans hphase) nofun
    | refused _ _ hsame hmap => exact ⟨hsame.trans hphase, (hmap f).trans hfind⟩
    | abandoned hlate _ _ _ _ _ _ => exact absurd (hlate.1.listening.symm.trans hphase) nofun
    | accepted hreach _ _ => exact absurd (hreach.listening.symm.trans hphase) nofun
  | noRead => exact ⟨hphase, hfind⟩
  | read _ hby => exact ⟨hby.phase.trans hphase, (hby.clientMap f).trans (hindex _)⟩
  | noDelete => exact ⟨hphase, hfind⟩
  | @delete p c s₁ hc hdel =>
    have hfd : f ≠ c.fd := by
      rintro rfl
      rw [h.listed p c hc] at hfind
      cases hfind
    exact ⟨hdel.phase.trans hphase, (hdel.clientMap f).trans ((if_neg hfd).trans (hindex _))⟩
  | housekeep hkept =>
    rcases hkept.phase hphase with ⟨hkeys, -⟩ | ⟨-, hgoes⟩
    · rw [hkeys f hf] at hfind
      cases hfind
    · rcases hkept.clientMap f with heq | ⟨hneg, -⟩
      · exact ⟨hgoes, heq.trans hfind⟩
      · exact absurd hneg hf

/-- **With a null pointer left the housekeeping never ends**, whatever else happens. -/
theorem Paired.residue_never_ends (h : s.Paired) (hphase : s.phase = .housekeeping) {f : ℤ}
    (hf : f ≠ -1) (hfind : s.clientMap.find f = some none) {as : List Action}
    (hrun : Runs.run (Mproxy.systemStep inject) s as = .ok s') : s'.phase = .housekeeping := by
  have hinv : ∀ (s : System σ) (a : Action) (s' : System σ),
      s.Paired ∧ s.phase = .housekeeping ∧ s.clientMap.find f = some none → True →
      Mproxy.systemStep inject s a = .ok s' →
      s'.Paired ∧ s'.phase = .housekeeping ∧ s'.clientMap.find f = some none :=
    fun _ _ _ hs _ hstep => ⟨hs.1.systemStep hstep, hs.1.systemStep_residue hs.2.1 hf hs.2.2 hstep⟩
  exact (Runs.invariant hinv ⟨h, hphase, hfind⟩ (fun _ _ => trivial) hrun).2.1

end System

/-- **Teardown.** Take any run of the process in which no round of the listener fails in one of the
two calls of `Client::init`. In every state that is reached, if no client is there, `client_map` has
no key but `-1`, and if `main` is in its housekeeping loop, the next round ends it.

**Proof sketch.** Such a run leaves no null pointer except under `-1` (`System.run_noResidue_iff`),
and what else the map points to is a client that is there. -/
theorem teardown_empties_map (inject : Inject σ) (env : σ) (as : List Action)
    (has : Runs.Along (systemStep inject) (fun s a => ¬ s.LateFailure a) (System.start env) as) :
    ∀ bs s, bs <+: as → Runs.run (systemStep inject) (System.start env) bs = .ok s →
      (∀ p, s.clients p = none) →
      (∀ f, f ≠ -1 → s.clientMap.find f = none) ∧
      (s.phase = .housekeeping → ∀ first, ∃ s', systemStep inject s (.housekeep first) = .ok s' ∧
        s'.phase = .ended) := by
  intro bs s hbs hrun hnone
  have h := System.run_paired hrun
  have hres := (System.run_noResidue_iff inject env as).mpr has bs s hbs hrun
  have hkeys : ∀ f, f ≠ -1 → s.clientMap.find f = none := fun f hf => hres.find_none h hnone hf
  refine ⟨hkeys, fun hphase first => ?_⟩
  obtain ⟨s', hkeep, hkept⟩ := System.housekeep_cases h first
  rcases hkept.phase hphase with ⟨-, hended⟩ | ⟨hno, -⟩
  · exact ⟨s', hkeep, hended⟩
  · exact absurd hkeys hno

end Teardown

/-- Answers with which `Client::init` succeeds. -/
def InitAnswers.plain : InitAnswers := ⟨some fun _ => 0, true, true, true, true⟩

/-- A round of the listener in which everything succeeds, if the descriptors are closed. -/
def Iteration.plain (inFd outFd : ℤ) : Iteration where
  inFd := inFd
  nonblockIn := true
  outFd := outFd
  connect := true
  nonblockOut := true
  newIn := some true
  initIn := .plain
  deleteIn := true
  newOut := some true
  initOut := .plain
  deleteOut := true
  threadOut := true
  threadIn := true

/-- A round in which nothing fails completes. -/
lemma Iteration.plain_completes (inFd outFd : ℤ) : (Iteration.plain inFd outFd).Completes := by
  have hok : InitAnswers.plain.Ok := by decide
  exact ⟨rfl, hok, rfl, hok, rfl, rfl⟩

/-- It does not fail late. -/
lemma Iteration.plain_not_failsLate {σ : Type} (s : System σ) (inFd outFd : ℤ) :
    ¬ s.FailsLate (.plain inFd outFd) :=
  fun h => h.2.not_completes (Iteration.plain_completes inFd outFd)

/-- A pair that is created and deleted, and the end of the listener. -/
theorem teardown_empties_map_pair :
    ∃ s, Runs.run (systemStep (tableInject Loci.lenient Tables.zero fun _ => 0)) (System.start 0)
        [.listen (.plain 4 5), .delete 0, .delete 1, .listen (.plain (-1) 5)] = .ok s ∧
      (∀ p, s.clients p = none) ∧ (∀ f, f ≠ -1 → s.clientMap.find f = none) ∧
      ∃ s', systemStep (tableInject Loci.lenient Tables.zero fun _ => 0) s (.housekeep (-1)) =
        .ok s' ∧ s'.phase = .ended := by
  have heval : (Runs.run (systemStep (tableInject Loci.lenient Tables.zero fun _ => 0))
      (System.start 0)
      [.listen (.plain 4 5), .delete 0, .delete 1, .listen (.plain (-1) 5)]).toOption.map
      (fun s => (s.threads, s.phase)) = some ([], .housekeeping) := by
    decide
  obtain ⟨s, hs, hthreads⟩ := Option.map_eq_some_iff.mp heval
  have hrun := Runs.ok_of_toOption hs
  have hnone : ∀ p, s.clients p = none :=
    (System.run_paired hrun).clients_none (congrArg Prod.fst hthreads)
  obtain ⟨hkeys, hends⟩ := teardown_empties_map (tableInject Loci.lenient Tables.zero fun _ => 0) 0
    [.listen (.plain 4 5), .delete 0, .delete 1, .listen (.plain (-1) 5)]
    (fun _ _ => ⟨Iteration.plain_not_failsLate _ 4 5, fun _ _ => ⟨id, fun _ _ => ⟨id, fun _ _ =>
      ⟨Iteration.plain_not_failsLate _ (-1) 5, trivial⟩⟩⟩⟩)
    _ s (List.prefix_refl _) hrun hnone
  exact ⟨s, hrun, hnone, hkeys, hends (congrArg Prod.snd hthreads) (-1)⟩

/-- A round of the listener whose first `bufferevent_socket_new` fails, and the end of the listener:
no client is there, a null pointer is left under the other descriptor, and the housekeeping never
ends. -/
theorem teardown_leaves_key :
    ∃ s, Runs.run (systemStep (tableInject Loci.lenient Tables.zero fun _ => 0)) (System.start 0)
        [.listen { Iteration.plain 4 5 with
            initIn := { InitAnswers.plain with buffereventNew := false } },
          .listen (.plain (-1) 5)] = .ok s ∧
      (∀ p, s.clients p = none) ∧ s.clientMap.find 5 = some none ∧ s.phase = .housekeeping ∧
      ∀ as s', Runs.run (systemStep (tableInject Loci.lenient Tables.zero fun _ => 0)) s as =
        .ok s' → s'.phase = .housekeeping := by
  have heval : (Runs.run (systemStep (tableInject Loci.lenient Tables.zero fun _ => 0))
      (System.start 0)
      [.listen { Iteration.plain 4 5 with
          initIn := { InitAnswers.plain with buffereventNew := false } },
        .listen (.plain (-1) 5)]).toOption.map
      (fun s => (s.threads, s.clientMap.find 5, s.phase)) =
      some ([], some none, .housekeeping) := by
    decide
  obtain ⟨s, hs, heq⟩ := Option.map_eq_some_iff.mp heval
  simp only [Prod.mk.injEq] at heq
  obtain ⟨hthreads, hfind, hphase⟩ := heq
  have hrun := Runs.ok_of_toOption hs
  have h := System.run_paired hrun
  exact ⟨s, hrun, h.clients_none hthreads, hfind, hphase,
    fun _ _ has => h.residue_never_ends hphase (by decide) hfind has⟩

end Mproxy
