import Mproxy.Proxy.Overlap

set_option relaxedAutoImplicit false
set_option autoImplicit false

/-!
# Overlapping calls, one behind the other

What is behind the look-up of `fw_cli` could as well be done in a call that begins now, as long as
the client that was looked up is still there: it is still found under the same descriptor, because a
client keeps the descriptor of its pair until the pair is deleted. So calls that overlap do what
calls one behind the other do, unless a destructor ends while another thread holds a pointer to its
client.

## Main definitions

* `Mproxy.System.Points` — what a pointer to the pair is worth.
* `Mproxy.Overlap.Sound` — what holds between two steps.
* `Mproxy.Overlap.Effect` — what a step can do.
* `Mproxy.Overlap.held` — the client that a thread has looked up.
* `Mproxy.Overlap.Exclusive` — the condition on the ends of destructors.

## Main results

* `Mproxy.Overlap.Sound.effect`, `Mproxy.Overlap.Sound.overlapStep` — what a step can do, and that
  it keeps the invariant.
* `Mproxy.Overlap.Sound.holder` — who holds a pointer to a client.
* `Mproxy.overlap_serial` — calls that overlap do what calls one behind the other do.
-/

namespace Mproxy

section Serial

variable {σ : Type}

namespace System

variable {a b s s' : System σ} {p q : ClientPtr} {c : Client} {fwCli : Option ClientPtr}

/-! ## Steps that create and delete no client -/

/-- Two steps behind each other that create and delete no client. -/
lemma Similar.trans {t : System σ} (h : s.Similar s') (h' : s'.Similar t) : s.Similar t where
  kept q d hq := by
    obtain ⟨d', hq', hfd, hfw, -⟩ := h.kept q d hq
    obtain ⟨e, he, hfd', hfw', hest⟩ := h'.kept q d' hq'
    exact ⟨e, he, hfd'.trans hfd, hfw'.trans hfw, hest⟩
  only q hq := h'.only q (h.only q hq)
  clientMap f q := (h'.clientMap f q).trans (h.clientMap f q)
  isOpen f := (h'.isOpen f).trans (h.isOpen f)
  next := h.next.trans h'.next
  threads := h'.threads.trans h.threads
  pairs := h'.pairs.trans h.pairs

/-- Where nothing happens, no client is created or deleted. -/
lemma Paired.similar_refl (h : s.Paired) : s.Similar s := (Alike.refl s).similar h

/-- Another state of a client, with its descriptors. -/
lemma Paired.similar_update (h : s.Paired) (hc : s.clients p = some c) {c' : Client}
    (hfd : c'.fd = c.fd) (hfw : c'.fwFd = c.fwFd) (hest : c'.Established) :
    s.Similar (s.update p c') where
  kept q d hq := by
    rw [update_clients]
    split_ifs with hqp
    · subst hqp
      obtain rfl := Option.some.inj (hc.symm.trans hq)
      exact ⟨c', rfl, hfd, hfw, hest⟩
    · exact ⟨d, hq, rfl, rfl, h.established q d hq⟩
  only q hq := by
    rw [update_clients, if_neg, hq]
    rintro rfl
    rw [hc] at hq
    cases hq
  clientMap _ _ := Iff.rfl
  isOpen _ := rfl
  next := le_rfl
  threads := rfl
  pairs := rfl

/-- The index operator creates and deletes no client: it only adds a null pointer. -/
lemma Paired.similar_index (h : s.Paired) (fd : ℤ) : s.Similar (s.index fd).1 where
  kept q d hq := ⟨d, hq, rfl, rfl, h.established q d hq⟩
  only _ hq := hq
  clientMap f q := by
    rw [index_find]
    split_ifs
    · constructor
      · intro hf
        exact find_of_getD (Option.some.inj hf)
      · intro hf
        rw [hf]
        rfl
    · rfl
  isOpen _ := rfl
  next := le_rfl
  threads := rfl
  pairs := rfl

/-- A round of the housekeeping creates and deletes no client. -/
lemma Housekept.similar (hkept : s.Housekept s') (h : s.Paired) : s.Similar s' := by
  refine hkept.toSameClients.similar h fun f q => ?_
  rcases hkept.clientMap f with heq | ⟨rfl, hnone⟩
  · rw [heq]
  · rw [hnone]
    exact iff_of_false (by simp) (h.find_closed (Or.inl (by decide)) q)

/-- A client that is there can be deleted. -/
lemma Paired.deletes (h : s.Paired) (hc : s.clients p = some c) :
    ∃ s', s.deleteClient p = .ok s' ∧ s.Deleted p c s' := by
  have hpair : ∀ q, s.clientMap.find c.fwFd = some (some q) → ∃ d, s.clients q = some d := by
    intro q hq
    obtain ⟨d, hd, -⟩ := h.mapped _ q hq
    exact ⟨d, hd⟩
  rcases deleteClient_cases hc hpair with ⟨-, hunset⟩ | ⟨-, s', hs', hdel⟩
  · obtain ⟨input, output, hev⟩ := (h.established p c hc).evEvent
    rw [hev] at hunset
    cases hunset
  · exact ⟨s', hs', hdel⟩

/-- A round of the listener creates a pair, or no client at all. -/
lemma Paired.listen_cases (h : s.Paired) {it : Iteration} (hstep : s.startListen it = .ok s') :
    s.Similar s' ∨ s.ReachesNew it ∧ s.Accepted it.inFd it.outFd s' := by
  have hout := h.listen it
  rw [hstep] at hout
  cases hout with
  | idle _ => exact Or.inl h.similar_refl
  | stopped _ _ =>
    exact Or.inl (SameClients.similar h ⟨fun _ => rfl, fun _ => rfl, le_rfl, rfl, rfl⟩
      fun _ _ => Iff.rfl)
  | refused _ hsame _ hmap => exact Or.inl (hsame.similar h fun f q => by rw [hmap])
  | abandoned hlate hsame _ left erased hfds hmap =>
    refine Or.inl (hsame.similar h (h.abandoned_iff ?_ ?_ hmap))
    · rcases hfds with ⟨rfl, -⟩ | ⟨rfl, -⟩
      · exact hlate.1.in_closed
      · exact hlate.1.out_closed
    · rcases hfds with ⟨-, rfl⟩ | ⟨-, rfl⟩
      · exact hlate.1.out_closed
      · exact hlate.1.in_closed
  | accepted hreach _ hacc => exact Or.inr ⟨hreach, hacc⟩

/-- The rest of `on_flow_read` creates and deletes no client. -/
lemma Paired.finishRead_similar (h : s.Paired) {inject : Inject σ} {fwFd : ℤ}
    {fwCli : Option ClientPtr} {ev : ReadEvent}
    (hrun : s.finishRead inject p fwFd fwCli ev = .ok s') : s.Similar s' := by
  obtain ⟨c, hderef, hrun⟩ := Runs.bind_eq_ok.mp hrun
  have hc := clients_of_deref hderef
  have hest := h.established p c hc
  obtain ⟨⟨input, output⟩, -, hrun⟩ := Runs.bind_eq_ok.mp hrun
  obtain ⟨msg, -, hrun⟩ := Runs.bind_eq_ok.mp hrun
  have hread : ∀ flow : Flow σ, s.Similar (s.update p (c.afterRead flow output)) := fun flow =>
    h.similar_update hc rfl rfl (hest.afterRead flow output)
  have henv : ∀ {t : System σ} (env : σ), s.Similar t → s.Similar { t with env := env } :=
    fun _ ht => ⟨ht.kept, ht.only, ht.clientMap, ht.isOpen, ht.next, ht.threads, ht.pairs⟩
  cases fwCli with
  | none =>
    obtain ⟨⟨flow, report⟩, -, hs'⟩ := Runs.bind_eq_ok.mp hrun
    obtain rfl := Except.ok.inj hs'
    exact henv flow.env (hread flow)
  | some q =>
    cases hd : s.clients q with
    | none =>
      simp only [hd] at hrun
      obtain ⟨⟨flow, report⟩, -, hs'⟩ := Runs.bind_eq_ok.mp hrun
      split_ifs at hs'
      obtain rfl := Except.ok.inj hs'
      exact henv flow.env (hread flow)
    | some d =>
      simp only [hd] at hrun
      obtain ⟨⟨dInput, dOutput⟩, -, hrun⟩ := Runs.bind_eq_ok.mp hrun
      obtain ⟨dEvBuf, -, hrun⟩ := Runs.bind_eq_ok.mp hrun
      obtain ⟨⟨flow, report⟩, -, hs'⟩ := Runs.bind_eq_ok.mp hrun
      obtain rfl := Except.ok.inj hs'
      obtain ⟨d₁, hd₁, hfd, hfw, -⟩ := (hread flow).kept q d hd
      exact henv flow.env ((hread flow).trans ((h.of_similar (hread flow)).similar_update hd₁
        hfd.symm hfw.symm ((h.established q d hd).afterWrite flow dInput)))

/-! ## Held pointers -/

/-- What a pointer `fw_cli` is worth that a call of the client `c` holds. -/
structure Points (s : System σ) (c : Client) (fwCli : Option ClientPtr) : Prop where
  /-- where no pair was found, none will be -/
  alone : fwCli = none → c.fwFd = -1
  old : ∀ q, fwCli = some q → q < s.next
  /-- a client that is still there is still found -/
  found : ∀ q, fwCli = some q → s.clients q ≠ none → s.clientMap.find c.fwFd = some (some q)

/-- The look-up. -/
lemma Paired.points_index (h : s.Paired) (hc : s.clients p = some c) :
    (s.index c.fwFd).1.Points c (s.index c.fwFd).2 := by
  have hsnd : (s.index c.fwFd).2 = (s.clientMap.find c.fwFd).getD none := by
    rw [index, IndexMap.index_snd]
  rw [hsnd]
  refine ⟨fun hnone => ?_, fun q hq => ?_, fun q hq _ => ?_⟩
  · rcases h.find_pair hc with hneg | ⟨q, hq⟩
    · exact hneg
    · rw [hq] at hnone
      cases hnone
  · obtain ⟨d, hd, -⟩ := h.mapped _ q (find_of_getD hq)
    exact h.old q d hd
  · rw [index_find, if_pos rfl, hq]

/-- A pointer to a client that is still there is what the look-up gives now. -/
lemma Points.index_eq (hpt : a.Points c fwCli) (ha : a.Paired)
    (hlive : ∀ q, fwCli = some q → a.clients q ≠ none) (h : a.Alike b) :
    (b.index c.fwFd).2 = fwCli := by
  rw [index, IndexMap.index_snd, ← h.agree.getD]
  cases fwCli with
  | none =>
    cases hfind : (a.clientMap.find c.fwFd).getD none with
    | none => rfl
    | some q =>
      rw [hpt.alone rfl] at hfind
      exact absurd (find_of_getD hfind) (ha.find_closed (Or.inl (by decide)) q)
  | some q => rw [hpt.found q rfl (hlive q rfl), Option.getD_some]

/-- The look-up of a pair leaves a process as it is, except for the key `-1`. -/
lemma Alike.index_pair (h : a.Alike b) (ha : a.Paired) (hc : a.clients p = some c) :
    a.Alike (b.index c.fwFd).1 := by
  obtain ⟨m, hm⟩ := h
  refine .intro _ (hm.index_right ?_)
  rcases ha.find_pair hc with hneg | ⟨q, hq⟩
  · exact Or.inl hneg
  · by_cases hneg : c.fwFd = -1
    · exact Or.inl hneg
    · rw [← hm.other _ hneg, hq]
      exact Or.inr rfl

/-- **The rest of `on_flow_read`**, where the pair is still there, does what the whole call would do
now. -/
lemma Points.finishRead_follows (hpt : a.Points c fwCli) (ha : a.Paired)
    (hc : a.clients p = some c) (hlive : ∀ q, fwCli = some q → a.clients q ≠ none) (h : a.Alike b)
    (inject : Inject σ) (fwFd : ℤ) (ev : ReadEvent) :
    Outcomes (a.finishRead inject p fwFd fwCli ev)
      (b.flowRead inject p { ev with fdValid := fun _ => a.isOpen fwFd }) := by
  have hb := (h.symm).paired ha
  have hindex := hpt.index_eq ha hlive h
  have halike := h.index_pair ha hc
  obtain ⟨m, hm⟩ := h
  rw [show a.isOpen = System.isOpen { a with clientMap := m } from rfl,
    flowRead_eq_finishRead ((hb.running p).mpr ⟨c, hc⟩) hc (fun q hq => ?_), hindex]
  · exact halike.finishRead inject p fwFd fwCli ev
  · obtain ⟨d, hd, -⟩ := hb.mapped _ q hq
    exact ⟨d, hd⟩

/-- **The rest of `~Client`**, where the pair is still there, does what the whole call would do now.
-/
lemma Points.destroy_follows (hpt : a.Points c fwCli) (ha : a.Paired)
    (hc : a.clients p = some c) (hlive : ∀ q, fwCli = some q → a.clients q ≠ none) (h : a.Alike b) :
    Outcomes (a.destroy p fwCli) (b.deleteClient p) := by
  have hindex := hpt.index_eq ha hlive h
  have halike := h.index_pair ha hc
  have hc' : b.clients p = some c := by
    obtain ⟨m, -⟩ := h
    exact hc
  rw [deleteClient_eq_destroy hc', hindex]
  exact halike.destroy p fwCli

/-- The rest of `~Client` looks at the pair. -/
lemma destroy_live (hrun : s.destroy p fwCli = .ok s') :
    ∀ q, fwCli = some q → s.clients q ≠ none := by
  rintro q rfl hnone
  obtain ⟨c, -, hrun⟩ := Runs.bind_eq_ok.mp hrun
  obtain ⟨-, -, hrun⟩ := Runs.bind_eq_ok.mp hrun
  obtain ⟨d, hd, -⟩ := Runs.bind_eq_ok.mp hrun
  have hclients : (if c.fd ≠ -1 then s.close c.fd else s).clients = s.clients := by
    split_ifs <;> rfl
  have hq : (if c.fd ≠ -1 then s.close c.fd else s).clients q = some d := clients_of_deref hd
  rw [hclients, hnone] at hq
  cases hq

/-- Pointers are worth as much behind a step that creates and deletes no client. -/
lemma Points.of_similar (hpt : s.Points c fwCli) (hsim : s.Similar s') {c' : Client}
    (hfw : c'.fwFd = c.fwFd) : s'.Points c' fwCli where
  alone hnone := hfw.trans (hpt.alone hnone)
  old q hq := (hpt.old q hq).trans_le hsim.next
  found q hq hlive := by
    rw [hfw, hsim.clientMap]
    exact hpt.found q hq fun hnone => hlive (hsim.only q hnone)

/-- Pointers are worth as much behind the creation of a pair. -/
lemma Points.of_accepted (hpt : s.Points c fwCli) (h : s.Paired) {it : Iteration}
    (hreach : s.ReachesNew it) (hacc : s.Accepted it.inFd it.outFd s') : s'.Points c fwCli where
  alone := hpt.alone
  old q hq := (hpt.old q hq).trans_le (by rw [hacc.next]; exact Nat.le_add_right _ 2)
  found q hq hlive := by
    rw [hacc.clients_old (hpt.old q hq)] at hlive
    have hfind := hpt.found q hq hlive
    obtain ⟨d, hd, hfd⟩ := h.mapped _ q hfind
    obtain ⟨hout, hin⟩ := h.fd_ne hreach hd
    rw [hfd] at hout hin
    rw [hacc.find_old hout hin]
    exact hfind

/-- Pointers in the calls of other clients are worth as much behind the deletion of a client. -/
lemma Points.of_deleted (h : s.Paired) (hp : s.clients p = some c) (hdel : s.Deleted p c s')
    {r : ClientPtr} {e : Client} (hr : s.clients r = some e) (hne : r ≠ p)
    (hpt : s.Points e fwCli) : ∃ e', s'.clients r = some e' ∧ s'.Points e' fwCli := by
  obtain ⟨e', he', hsame⟩ := hdel.kept hne hr
  obtain ⟨-, e₀, he₀, hcase⟩ := hdel.back_eq he'
  obtain rfl := Option.some.inj (hr.symm.trans he₀)
  refine ⟨e', he', fun hnone => ?_, fun q hq => ?_, fun q hq hlive => ?_⟩
  · rcases hcase with rfl | rfl
    · exact hpt.alone hnone
    · rfl
  · rw [hdel.next]
    exact hpt.old q hq
  · have hqp : q ≠ p := by
      rintro rfl
      exact hlive ((hdel.clients q).trans (if_pos rfl))
    have hlive' : s.clients q ≠ none := by
      intro hnone
      cases hd : s'.clients q with
      | none => exact hlive hd
      | some d =>
        obtain ⟨-, d₀, hd₀, -⟩ := hdel.back_eq hd
        rw [hnone] at hd₀
        cases hd₀
    have hfind := hpt.found q hq hlive'
    obtain ⟨d, hd, hfd⟩ := h.mapped _ q hfind
    -- the client was not the pair of the deleted one, which would be its own pair
    have hother : s.clientMap.find c.fwFd ≠ some (some r) := by
      intro hpair
      obtain ⟨-, -, hmates, -⟩ := h.pair_found hp hpair hr
      obtain ⟨-, -, hmates', -⟩ := h.pair_found hr hfind hd
      exact hqp (h.mates_unique r q p hmates' hmates.symm)
    obtain rfl := hsame hother
    refine (hdel.find_iff ?_).mpr hfind
    rw [← hfd]
    exact fun heq => hqp (h.fd_inj hd hp heq)

end System

/-! ## The invariant -/

namespace Overlap

variable {t t' : Overlap σ} {s s' : System σ} {p q : ClientPtr} {c : Client} {i : Inside}
  {inject : Inject σ} {a : OverlapAction}

/-- What holds between two steps. -/
structure Sound (t : Overlap σ) : Prop where
  paired : t.sys.Paired
  /-- a client whose thread is in a call is there -/
  inside : ∀ p i, t.inside p = some i → ∃ c, t.sys.clients p = some c ∧ t.sys.Points c i.fwCli
  main : ∀ d, t.main = some d → d < t.sys.next

/-- At the start no call holds a pointer. -/
lemma start_sound (env : σ) : (start env).Sound :=
  ⟨System.start_paired env, fun p i hi => (by cases hi), fun d hd => (by cases hd)⟩

/-- What a step can do that does not fault. -/
inductive Effect (t : Overlap σ) : OverlapAction → Overlap σ → Prop
  /-- there is nothing to do for the thread -/
  | idle {a : OverlapAction}
      (noDelete : ∀ q fwCli, a = .finishDelete q → t.inside q ≠ some (.deleting fwCli)) :
      Effect t a t
  | listen {it : Iteration} {s : System σ} (round : t.sys.startListen it = .ok s) :
      Effect t (.listen it) { t with sys := s }
  /-- a call begins -/
  | start {a : OverlapAction} {p : ClientPtr} {c : Client} {i : Inside}
      (client : t.sys.clients p = some c) (lookUp : i.fwCli = (t.sys.index c.fwFd).2)
      (noDelete : ∀ q, a ≠ .finishDelete q) :
      Effect t a ({ t with sys := (t.sys.index c.fwFd).1 }.enter p i)
  | read {p : ClientPtr} {ev : ReadEvent} {s : System σ} (similar : t.sys.Similar s) :
      Effect t (.finishRead p ev) ({ t with sys := s }.exit p)
  | delete {p : ClientPtr} {fwCli : Option ClientPtr} {s : System σ}
      (inside : t.inside p = some (.deleting fwCli)) (run : t.sys.destroy p fwCli = .ok s) :
      Effect t (.finishDelete p)
        ({ t with sys := { s with threads := s.threads.erase p } }.exit p)
  | housekeep {first : ℤ} {s : System σ} {m : Option ClientPtr} (similar : t.sys.Similar s)
      (found : ∀ d, m = some d → ∃ c, t.sys.clients d = some c) :
      Effect t (.startHousekeep first) { t with sys := s, main := m }
  | housekept : Effect t .finishHousekeep { t with main := none }

namespace Sound

variable (h : t.Sound)

include h

/-- A change that creates and deletes no client keeps what the held pointers are worth. -/
lemma of_similar (hsim : t.sys.Similar s) : Sound { t with sys := s } where
  paired := h.paired.of_similar hsim
  inside p i hi := by
    obtain ⟨c, hc, hpt⟩ := h.inside p i hi
    obtain ⟨c', hc', -, hfw, -⟩ := hsim.kept p c hc
    exact ⟨c', hc', hpt.of_similar hsim hfw⟩
  main d hd := (h.main d hd).trans_le hsim.next

/-- A call may begin with a pointer that is worth what it should be. -/
lemma enter (hc : t.sys.clients p = some c) (hpt : t.sys.Points c i.fwCli) :
    (t.enter p i).Sound where
  paired := h.paired
  inside r j hj := by
    rw [enter_inside] at hj
    split_ifs at hj with hr
    · obtain rfl := Option.some.inj hj
      exact ⟨c, hr ▸ hc, hpt⟩
    · exact h.inside r j hj
  main := h.main

/-- A call may end. -/
lemma exit (p : ClientPtr) : (t.exit p).Sound where
  paired := h.paired
  inside r j hj := by
    rw [exit_inside] at hj
    split_ifs at hj
    exact h.inside r j hj
  main := h.main

/-- A round of the listener. -/
lemma listen {it : Iteration} (hstep : t.sys.startListen it = .ok s) :
    Sound { t with sys := s } := by
  rcases h.paired.listen_cases hstep with hsim | ⟨hreach, hacc⟩
  · exact h.of_similar hsim
  refine ⟨h.paired.of_accepted hreach hacc, fun p i hi => ?_, fun d hd => ?_⟩
  · obtain ⟨c, hc, hpt⟩ := h.inside p i hi
    exact ⟨c, (hacc.clients_old (h.paired.old p c hc)).trans hc,
      hpt.of_accepted h.paired hreach hacc⟩
  · exact (h.main d hd).trans_le (by rw [hacc.next]; exact Nat.le_add_right _ 2)

/-- The beginning of a call. -/
lemma start_call (hc : t.sys.clients p = some c) (hi : i.fwCli = (t.sys.index c.fwFd).2) :
    ({ t with sys := (t.sys.index c.fwFd).1 }.enter p i).Sound :=
  (h.of_similar (h.paired.similar_index c.fwFd)).enter (p := p) hc
    (hi ▸ h.paired.points_index hc)

/-- What the end of `~Client` deletes. -/
lemma destroy_cases (hi : t.inside p = some i) (hrun : t.sys.destroy p i.fwCli = .ok s) :
    ∃ c s', t.sys.clients p = some c ∧ t.sys.Deleted p c s' ∧ s.Alike s' := by
  obtain ⟨c, hc, hpt⟩ := h.inside p i hi
  obtain ⟨s', hdelete, hdel⟩ := h.paired.deletes hc
  obtain ⟨s₁, hs₁, halike⟩ :=
    (hpt.destroy_follows h.paired hc (System.destroy_live hrun) (.refl t.sys)).ok_right hdelete
  obtain rfl := Except.ok.inj (hrun.symm.trans hs₁)
  exact ⟨c, s', hc, hdel, halike⟩

/-- The end of `~Client`. -/
lemma finishDelete (hi : t.inside p = some i) (hrun : t.sys.destroy p i.fwCli = .ok s) :
    ({ t with sys := { s with threads := s.threads.erase p } }.exit p).Sound := by
  obtain ⟨c, s', hc, hdel, halike⟩ := h.destroy_cases hi hrun
  have hpaired := h.paired.of_deleted hc hdel
  have hsim : System.Similar { s' with threads := s'.threads.erase p }
      { s with threads := s.threads.erase p } :=
    (halike.map (f := fun t : System σ => { t with threads := t.threads.erase p })
      (fun _ _ => rfl) rfl).similar hpaired
  refine ⟨hpaired.of_similar hsim, fun r j hj => ?_, fun d hd => ?_⟩
  · rw [exit_inside] at hj
    split_ifs at hj with hr
    obtain ⟨e, he, hpt⟩ := h.inside r j hj
    obtain ⟨e', he', hpt'⟩ := hpt.of_deleted h.paired hc hdel he hr
    obtain ⟨e'', he'', -, hfw, -⟩ := hsim.kept r e' he'
    have hpt'' : System.Points { s' with threads := s'.threads.erase p } e' j.fwCli :=
      ⟨hpt'.alone, hpt'.old, hpt'.found⟩
    exact ⟨e'', he'', hpt''.of_similar hsim hfw⟩
  · exact ((h.main d hd).trans_eq hdel.next.symm).trans_le hsim.next

/-- The beginning of a round of housekeeping does what the whole round does, and finds a client that
is there, if it finds one. -/
lemma startHousekeep_cases (hmain : t.main = none) (first : ℤ) : ∃ s m,
    t.startHousekeep first = { t with sys := s, main := m } ∧ t.sys.housekeep first = .ok s ∧
      ∀ d, m = some d → ∃ c, t.sys.clients d = some c := by
  have hnone : ∀ d, t.main = some d → ∃ c, t.sys.clients d = some c := fun d hd => by
    rw [hmain] at hd
    cases hd
  unfold startHousekeep System.housekeep
  rw [if_neg (by rw [hmain]; simp)]
  split_ifs with hphase hempty
  · exact ⟨t.sys, t.main, rfl, rfl, hnone⟩
  · exact ⟨_, t.main, rfl, rfl, hnone⟩
  simp only
  split_ifs with hone
  · exact ⟨_, t.main, rfl, rfl, hnone⟩
  have herase : ∀ d, (t.sys.clientMap.erase (-1)).find first = some (some d) →
      ∃ c, t.sys.clients d = some c := by
    intro d hd
    rw [IndexMap.find_erase] at hd
    split_ifs at hd
    obtain ⟨c, hc, -⟩ := h.paired.mapped first d hd
    exact ⟨c, hc⟩
  refine ⟨_, _, rfl, ?_, fun d hd => herase d (System.find_of_getD hd)⟩
  split
  · rename_i d hd
    obtain ⟨c, hc⟩ := herase d hd
    rw [System.deref, show System.clients _ d = some c from hc]
    rfl
  · rfl

/-- **What a step can do.** -/
theorem effect (hstep : Mproxy.overlapStep inject t a = .ok t') : t.Effect a t' := by
  cases a with
  | listen it =>
    obtain ⟨s, hs, ht'⟩ := Runs.bind_eq_ok.mp hstep
    obtain rfl := Except.ok.inj ht'
    exact .listen hs
  | startRead p =>
    replace hstep : t.startRead p = .ok t' := hstep
    unfold startRead at hstep
    split_ifs at hstep
    · obtain ⟨c, hc, ht'⟩ := Runs.bind_eq_ok.mp hstep
      obtain rfl := Except.ok.inj ht'
      exact .start (System.clients_of_deref hc) rfl fun q ha => by cases ha
    · obtain rfl := Except.ok.inj hstep
      exact .idle fun q fwCli ha => by cases ha
  | finishRead p ev =>
    replace hstep : t.finishRead inject p ev = .ok t' := hstep
    unfold finishRead at hstep
    split at hstep
    · obtain ⟨s, hs, ht'⟩ := Runs.bind_eq_ok.mp hstep
      obtain rfl := Except.ok.inj ht'
      exact .read (h.paired.finishRead_similar hs)
    · obtain rfl := Except.ok.inj hstep
      exact .idle fun q fwCli ha => by cases ha
  | startDelete p =>
    replace hstep : t.startDelete p = .ok t' := hstep
    unfold startDelete at hstep
    split_ifs at hstep
    · obtain ⟨c, hc, ht'⟩ := Runs.bind_eq_ok.mp hstep
      obtain rfl := Except.ok.inj ht'
      exact .start (System.clients_of_deref hc) rfl fun q ha => by cases ha
    · obtain rfl := Except.ok.inj hstep
      exact .idle fun q fwCli ha => by cases ha
  | finishDelete p =>
    replace hstep : t.finishDelete p = .ok t' := hstep
    unfold Overlap.finishDelete at hstep
    split at hstep
    · rename_i fwCli hi
      obtain ⟨s, hs, ht'⟩ := Runs.bind_eq_ok.mp hstep
      obtain rfl := Except.ok.inj ht'
      exact .delete hi hs
    · rename_i hno
      obtain rfl := Except.ok.inj hstep
      exact .idle fun q fwCli ha hi => hno fwCli (OverlapAction.finishDelete.inj ha ▸ hi)
  | startHousekeep first =>
    obtain rfl := Except.ok.inj (show Except.ok (t.startHousekeep first) = .ok t' from hstep)
    cases hmain : t.main with
    | some d =>
      rw [startHousekeep, hmain]
      exact .idle fun q fwCli ha => by cases ha
    | none =>
      obtain ⟨s, m, heq, hkeep, hm⟩ := h.startHousekeep_cases hmain first
      obtain ⟨s', hs', hkept⟩ := System.housekeep_cases h.paired first
      obtain rfl := Except.ok.inj (hkeep.symm.trans hs')
      rw [heq]
      exact .housekeep (hkept.similar h.paired) hm
  | finishHousekeep =>
    replace hstep : t.finishHousekeep = .ok t' := hstep
    unfold finishHousekeep at hstep
    split at hstep
    · obtain rfl := Except.ok.inj hstep
      exact .idle fun q fwCli ha => by cases ha
    · obtain ⟨c, -, ht'⟩ := Runs.bind_eq_ok.mp hstep
      obtain rfl := Except.ok.inj ht'
      exact .housekept

/-- **Every step keeps the invariant.** -/
theorem overlapStep (hstep : Mproxy.overlapStep inject t a = .ok t') : t'.Sound := by
  cases h.effect hstep with
  | listen hs => exact h.listen hs
  | idle _ => exact h
  | start hc hi _ => exact h.start_call hc hi
  | read hsim => exact (h.of_similar hsim).exit _
  | delete hi hs => exact h.finishDelete hi hs
  | housekeep hsim hm =>
    refine ⟨(h.of_similar hsim).paired, (h.of_similar hsim).inside, fun d hd => ?_⟩
    obtain ⟨c, hc⟩ := hm d hd
    exact (h.paired.old d c hc).trans_le hsim.next
  | housekept => exact ⟨h.paired, h.inside, fun d hd => by cases hd⟩

end Sound

/-! ## Who holds a pointer to whom -/

/-- The client that a thread has looked up in the call that it is in. -/
def held (t : Overlap σ) : Thread → Option ClientPtr
  | .main => t.main
  | .client p => (t.inside p).bind Inside.fwCli

/-- The pointer that the thread of a client holds in a call. -/
lemma held_client (hi : t.inside p = some i) : t.held (.client p) = i.fwCli := by
  rw [held, hi]
  rfl

/-- In every state that is reached, the held pointers are worth what they should be. -/
lemma run_sound {env : σ} {as : List OverlapAction}
    (hrun : Runs.run (Mproxy.overlapStep inject) (start env) as = .ok t) : t.Sound := by
  have hinv : ∀ (t : Overlap σ) (a : OverlapAction) (t' : Overlap σ), t.Sound → True →
      Mproxy.overlapStep inject t a = .ok t' → t'.Sound := fun _ _ _ h _ hstep =>
    h.overlapStep hstep
  exact Runs.invariant hinv (start_sound env) (fun _ _ => trivial) hrun

/-- **Who holds a pointer to a client** that is there: the thread of its mate, and `main`. -/
lemma Sound.holder (h : t.Sound) {τ : Thread} (hτ : t.held τ = some q)
    (hq : t.sys.clients q ≠ none) : τ = .main ∨ ∃ p, τ = .client p ∧ t.sys.Mates p q := by
  cases τ with
  | main => exact Or.inl rfl
  | client p =>
    obtain ⟨i, hi, hfw⟩ := Option.bind_eq_some_iff.mp hτ
    obtain ⟨c, hc, hpt⟩ := h.inside p i hi
    obtain ⟨d, hd⟩ := Option.ne_none_iff_exists'.mp hq
    obtain ⟨-, -, hmates, -⟩ := h.paired.pair_found hc (hpt.found q hfw hq) hd
    exact Or.inr ⟨p, rfl, hmates⟩

namespace Effect

variable {τ : Thread}

/-- A pointer that a thread holds behind a step was held before, or is to a client that is there. -/
lemma held (he : t.Effect a t') (h : t.Sound) (hτ : t'.held τ = some q) :
    t.held τ = some q ∨ t'.sys.clients q ≠ none := by
  have hexit : ∀ {s : System σ} {p : ClientPtr}, ({ t with sys := s }.exit p).held τ = some q →
      t.held τ = some q := by
    intro s p hτ
    cases τ with
    | main => exact hτ
    | client r =>
      rw [Overlap.held, exit_inside] at hτ
      split_ifs at hτ
      · cases hτ
      · exact hτ
  cases he with
  | idle _ => exact Or.inl hτ
  | listen _ => exact Or.inl hτ
  | @start _ p c i hc hi _ =>
    cases τ with
    | main => exact Or.inl hτ
    | client r =>
      rw [Overlap.held, enter_inside] at hτ
      split_ifs at hτ
      · right
        replace hτ : i.fwCli = some q := hτ
        rw [hi, System.index, IndexMap.index_snd] at hτ
        obtain ⟨d, hd, -⟩ := h.paired.mapped _ q (System.find_of_getD hτ)
        exact Option.ne_none_iff_exists'.mpr ⟨d, hd⟩
      · exact Or.inl hτ
  | read _ => exact Or.inl (hexit hτ)
  | delete _ _ => exact Or.inl (hexit hτ)
  | housekeep hsim hm =>
    cases τ with
    | main =>
      obtain ⟨c, hc⟩ := hm q hτ
      obtain ⟨c', hc', -⟩ := hsim.kept q c hc
      exact Or.inr (Option.ne_none_iff_exists'.mpr ⟨c', hc'⟩)
    | client r => exact Or.inl hτ
  | housekept =>
    cases τ with
    | main => cases hτ
    | client r => exact Or.inl hτ

/-- A client that goes in a step is the one whose destructor ends in it. -/
lemma kept (he : t.Effect a t') (h : t.Sound) (hq : t.sys.clients q ≠ none)
    (hq' : t'.sys.clients q = none) : a = .finishDelete q ∧
      ∃ fwCli, t.inside q = some (.deleting fwCli) := by
  have hsimilar : ∀ {s : System σ}, t.sys.Similar s → s.clients q = none →
      t.sys.clients q = none := by
    intro s hsim hnone
    cases hd : t.sys.clients q with
    | none => rfl
    | some d =>
      obtain ⟨d', hd', -⟩ := hsim.kept q d hd
      rw [hnone] at hd'
      cases hd'
  cases he with
  | idle _ => exact absurd hq' hq
  | listen hs =>
    rcases h.paired.listen_cases hs with hsim | ⟨-, hacc⟩
    · exact absurd (hsimilar hsim hq') hq
    · obtain ⟨d, hd⟩ := Option.ne_none_iff_exists'.mp hq
      rw [hacc.clients_old (h.paired.old q d hd)] at hq'
      exact absurd hq' hq
  | start _ _ _ => exact absurd hq' hq
  | read hsim => exact absurd (hsimilar hsim hq') hq
  | @delete p fwCli s hi hs =>
    obtain ⟨c, s', hc, hdel, halike⟩ := h.destroy_cases hi hs
    obtain ⟨m, -⟩ := halike.symm
    by_cases hqp : q = p
    · subst hqp
      exact ⟨rfl, fwCli, hi⟩
    · obtain ⟨d, hd⟩ := Option.ne_none_iff_exists'.mp hq
      obtain ⟨d', hd', -⟩ := hdel.kept hqp hd
      exact absurd (hd'.symm.trans hq') (by simp)
  | housekeep hsim _ => exact absurd (hsimilar hsim hq') hq
  | housekept => exact absurd hq' hq

/-- A client that was deleted does not come back. -/
lemma gone (he : t.Effect a t') (h : t.Sound) (hold : q < t.sys.next)
    (hq : t.sys.clients q = none) : t'.sys.clients q = none ∧ q < t'.sys.next := by
  cases he with
  | idle _ => exact ⟨hq, hold⟩
  | listen hs =>
    rcases h.paired.listen_cases hs with hsim | ⟨-, hacc⟩
    · exact ⟨hsim.only q hq, hold.trans_le hsim.next⟩
    · exact ⟨(hacc.clients_old hold).trans hq,
        hold.trans_le (by rw [hacc.next]; exact Nat.le_add_right _ 2)⟩
  | start _ _ _ => exact ⟨hq, hold⟩
  | read hsim => exact ⟨hsim.only q hq, hold.trans_le hsim.next⟩
  | delete hi hs =>
    obtain ⟨c, s', hc, hdel, halike⟩ := h.destroy_cases hi hs
    obtain ⟨m, -⟩ := halike.symm
    refine ⟨?_, hold.trans_eq hdel.next.symm⟩
    cases hd : s'.clients q with
    | none => exact hd
    | some d =>
      obtain ⟨-, e, he, -⟩ := hdel.back_eq hd
      rw [hq] at he
      cases he
  | housekeep hsim _ => exact ⟨hsim.only q hq, hold.trans_le hsim.next⟩
  | housekept => exact ⟨hq, hold⟩

/-- The end of a destructor deletes the client. -/
lemma deleted (he : t.Effect (.finishDelete q) t') (h : t.Sound)
    {fwCli : Option ClientPtr} (hi : t.inside q = some (.deleting fwCli)) :
    t'.sys.clients q = none ∧ q < t'.sys.next := by
  cases he with
  | idle hno => exact absurd hi (hno q fwCli rfl)
  | start _ _ hno => exact absurd rfl (hno q)
  | delete hi' hs =>
    obtain ⟨c, s', hc, hdel, halike⟩ := h.destroy_cases hi' hs
    obtain ⟨m, -⟩ := halike.symm
    exact ⟨(hdel.clients q).trans (if_pos rfl), (h.paired.old q c hc).trans_eq hdel.next.symm⟩

end Effect

/-! ## Calls one behind the other -/

/-- No call holds a pointer to a client that was deleted. -/
def Live (t : Overlap σ) : Prop := ∀ τ q, t.held τ = some q → t.sys.clients q ≠ none

/-- The step is not the end of a destructor whose client another call has looked up. -/
def Exclusive (t : Overlap σ) : OverlapAction → Prop
  | .finishDelete p => ∀ fwCli, t.inside p = some (.deleting fwCli) → ∀ τ, t.held τ ≠ some p
  | _ => True

/-- A step that is exclusive leaves all pointers good. -/
lemma Live.overlapStep (hlive : t.Live) (h : t.Sound) (hex : t.Exclusive a)
    (hstep : Mproxy.overlapStep inject t a = .ok t') : t'.Live := by
  have he := h.effect hstep
  intro τ q hτ hnone
  have hheld := (he.held h hτ).resolve_right (not_not.mpr hnone)
  obtain ⟨rfl, fwCli, hi⟩ := he.kept h (hlive τ q hheld) hnone
  exact hex fwCli hi τ hheld

/-- The whole call that a step stands for: that which ends in it, or the round of housekeeping that
begins in it. -/
def call (t : Overlap σ) : OverlapAction → Option Action
  | .listen it => some (.listen it)
  | .finishRead p ev =>
    match t.inside p with
    | some (.reading fwFd _) => some (.read p { ev with fdValid := fun _ => t.sys.isOpen fwFd })
    | _ => none
  | .finishDelete p =>
    match t.inside p with
    | some (.deleting _) => some (.delete p)
    | _ => none
  | .startHousekeep first => if t.main.isSome then none else some (.housekeep first)
  | _ => none

/-- The beginning of a call changes at most the key `-1`. -/
lemma Sound.index_alike (h : t.Sound) (halike : t.sys.Alike s) (hc : t.sys.clients p = some c) :
    (t.sys.index c.fwFd).1.Alike s := by
  have hc' : s.clients p = some c := by
    obtain ⟨m, -⟩ := halike
    exact hc
  exact (halike.symm.index_pair (halike.symm.paired h.paired) hc').symm

/-- **A step does what its call does**, as long as no call holds a pointer to a client that was
deleted. -/
lemma Sound.follows (h : t.Sound) (hlive : t.Live) (halike : t.sys.Alike s) (inject : Inject σ)
    (a : OverlapAction) : Runs.Follows (Mproxy.overlapStep inject t a)
      (Runs.run (systemStep inject) s (t.call a).toList) fun t s => t.sys.Alike s := by
  have hheld : ∀ {p i}, t.inside p = some i → ∀ q, i.fwCli = some q → t.sys.clients q ≠ none :=
    fun {p i} hi q hq => hlive (.client p) q ((held_client hi).trans hq)
  cases a with
  | listen it => exact (halike.startListen it).bind fun _ _ hab => .ok hab
  | startRead p =>
    show Runs.Follows (t.startRead p) (.ok s) _
    unfold startRead
    split_ifs with hidle
    · obtain ⟨c, hc⟩ := (h.paired.running p).mp hidle.1
      rw [System.deref, hc]
      exact .ok (h.index_alike halike hc)
    · exact .ok halike
  | finishRead p ev =>
    simp only [Mproxy.overlapStep, finishRead, call]
    cases hi : t.inside p with
    | none => exact .ok halike
    | some i =>
      obtain ⟨c, hc, hpt⟩ := h.inside p i hi
      cases i with
      | reading fwFd fwCli =>
        exact (hpt.finishRead_follows h.paired hc (hheld hi) halike inject fwFd ev).bind
          fun _ _ hab => .ok hab
      | deleting fwCli => exact .ok halike
  | startDelete p =>
    show Runs.Follows (t.startDelete p) (.ok s) _
    unfold startDelete
    split_ifs with hidle
    · obtain ⟨c, hc⟩ := (h.paired.running p).mp hidle.1
      rw [System.deref, hc]
      exact .ok (h.index_alike halike hc)
    · exact .ok halike
  | finishDelete p =>
    simp only [Mproxy.overlapStep, Overlap.finishDelete, call]
    cases hi : t.inside p with
    | none => exact .ok halike
    | some i =>
      obtain ⟨c, hc, hpt⟩ := h.inside p i hi
      cases i with
      | reading fwFd fwCli => exact .ok halike
      | deleting fwCli =>
        have hp : p ∈ s.threads := by
          obtain ⟨m, -⟩ := halike
          exact (h.paired.running p).mpr ⟨c, hc⟩
        have hend : s.endThread p = s.deleteClient p >>= fun s =>
            .ok { s with threads := s.threads.erase p } := by
          rw [System.endThread, if_neg (not_not.mpr hp)]
        show Runs.Follows (t.sys.destroy p fwCli >>= _) (s.endThread p >>= .ok) _
        rw [hend]
        have hfollows : System.Outcomes (t.sys.destroy p fwCli) (s.deleteClient p) :=
          hpt.destroy_follows h.paired hc (hheld hi) halike
        rcases hfollows with ⟨e, he, he'⟩ | ⟨b, b', hb, hb', hab⟩
        · rw [he, he']
          exact .error e
        · rw [hb, hb']
          exact .ok (hab.map (f := fun t : System σ => { t with threads := t.threads.erase p })
            (fun _ _ => rfl) rfl)
  | startHousekeep first =>
    simp only [Mproxy.overlapStep, call]
    cases hmain : t.main with
    | some d =>
      rw [startHousekeep, hmain]
      exact .ok halike
    | none =>
      obtain ⟨b, m, heq, hkeep, -⟩ := h.startHousekeep_cases hmain first
      rw [heq]
      obtain ⟨b', hb', hab⟩ : ∃ b', s.housekeep first = .ok b' ∧ b.Alike b' := by
        rcases halike.housekeep first with ⟨e, he, -⟩ | ⟨b₁, b', hb₁, hb', hab⟩
        · rw [hkeep] at he
          cases he
        · obtain rfl := Except.ok.inj (hkeep.symm.trans hb₁)
          exact ⟨b', hb', hab⟩
      show Runs.Follows _ (s.housekeep first >>= .ok) _
      rw [hb']
      exact .ok hab
  | finishHousekeep =>
    show Runs.Follows t.finishHousekeep (.ok s) _
    unfold finishHousekeep
    cases hmain : t.main with
    | none => exact .ok halike
    | some d =>
      obtain ⟨c, hc⟩ := Option.ne_none_iff_exists'.mp (hlive .main d hmain)
      simp only [System.deref, hc]
      exact .ok halike

end Overlap

/-- **Overlapping calls do what calls one behind the other do.** Take any steps of the listener, of
the housekeeping and of the threads of any number of clients, in which the calls of `on_flow_read`
and of `~Client` are cut between the look-up of `fw_cli` and what is behind it. If no destructor
ends while another thread holds a pointer to its client, then the calls could as well have been made
one behind the other, in the order in which they ended, with a round of the housekeeping where it
began: the process ends in the same state, except for the key `-1` of the map, or with the same
fault.

**Proof sketch.** A step that is exclusive leaves all pointers good (`Overlap.Live.overlapStep`).
Where they are, the rest of a call does what the whole call would do now: the pair that was looked
up is still found, or its descriptor is forgotten (`Overlap.Sound.follows`). -/
theorem overlap_serial (inject : Inject σ) (env : σ) (as : List OverlapAction)
    (has : Runs.Along (overlapStep inject) Overlap.Exclusive (Overlap.start env) as) :
    Runs.Follows (Runs.run (overlapStep inject) (Overlap.start env) as)
      (Runs.run (systemStep inject) (System.start env)
        (Runs.seen (overlapStep inject) Overlap.call (Overlap.start env) as))
      fun t s => t.sys.Alike s := by
  have hkept : ∀ (t : Overlap σ) (a : OverlapAction) (t' : Overlap σ), t.Sound ∧ t.Live →
      t.Exclusive a → overlapStep inject t a = .ok t' → t'.Sound ∧ t'.Live :=
    fun _ _ _ h hex hstep => ⟨h.1.overlapStep hstep, h.2.overlapStep h.1 hex hstep⟩
  refine has.follows hkept (fun t a s h halike => h.1.follows h.2 halike inject a)
    ⟨Overlap.start_sound env, fun τ q hτ => ?_⟩ (.refl _)
  cases τ with
  | main => cases hτ
  | client p => cases hτ

end Serial

/-- Two callbacks of a pair that overlap, and the deletion of one of the clients behind them. -/
theorem overlap_serial_pair :
    ∃ as t s, as = [.listen (.plain 4 5), .startRead 0, .startRead 1,
        .finishRead 0 (.plain [1, 0, 0, 8, 0, 0, 0, 7]), .finishRead 1 (.plain [1, 2, 0]),
        .startDelete 0, .finishDelete 0] ∧
      Runs.run (overlapStep (tableInject Loci.lenient Tables.zero fun _ => 0)) (.start 0) as =
        .ok t ∧
      Runs.run (systemStep (tableInject Loci.lenient Tables.zero fun _ => 0)) (.start 0)
        (Runs.seen (overlapStep (tableInject Loci.lenient Tables.zero fun _ => 0)) Overlap.call
          (.start 0) as) = .ok s ∧
      t.sys.Alike s ∧ t.sys.threads = [1] := by
  have heval : (Runs.run (overlapStep (tableInject Loci.lenient Tables.zero fun _ => 0)) (.start 0)
      [.listen (.plain 4 5), .startRead 0, .startRead 1,
        .finishRead 0 (.plain [1, 0, 0, 8, 0, 0, 0, 7]), .finishRead 1 (.plain [1, 2, 0]),
        .startDelete 0, .finishDelete 0]).toOption.map (fun t => t.sys.threads) = some [1] := by
    decide +kernel
  have hbefore : (Runs.run (overlapStep (tableInject Loci.lenient Tables.zero fun _ => 0))
      (.start 0) [.listen (.plain 4 5), .startRead 0, .startRead 1,
        .finishRead 0 (.plain [1, 0, 0, 8, 0, 0, 0, 7]), .finishRead 1 (.plain [1, 2, 0]),
        .startDelete 0]).toOption.map
        (fun t => ((t.sys.clients 0).isSome, t.sys.pairs, (t.inside 1).isNone, t.main.isNone)) =
      some (true, [(0, 1)], true, true) := by
    decide +kernel
  have hexclusive : ∀ t, Runs.run (overlapStep (tableInject Loci.lenient Tables.zero fun _ => 0))
      (.start 0) [.listen (.plain 4 5), .startRead 0, .startRead 1,
        .finishRead 0 (.plain [1, 0, 0, 8, 0, 0, 0, 7]), .finishRead 1 (.plain [1, 2, 0]),
        .startDelete 0] = .ok t → t.Exclusive (.finishDelete 0) := by
    intro t hrun fwCli hi τ hτ
    rw [hrun, Except.toOption, Option.map_some] at hbefore
    simp only [Option.some.injEq, Prod.mk.injEq] at hbefore
    obtain ⟨hclient, hpairs, hinside, hmain⟩ := hbefore
    rcases (Overlap.run_sound hrun).holder hτ (Option.isSome_iff_ne_none.mp hclient) with
      rfl | ⟨p, rfl, hmates⟩
    · rw [Overlap.held, Option.isNone_iff_eq_none.mp hmain] at hτ
      cases hτ
    · obtain rfl : p = 1 := by simpa [System.Mates, hpairs] using hmates
      rw [Overlap.held, Option.isNone_iff_eq_none.mp hinside] at hτ
      cases hτ
  obtain ⟨t, ht, hthreads⟩ := Option.map_eq_some_iff.mp heval
  have hrun := Runs.ok_of_toOption ht
  have halong : Runs.Along (overlapStep (tableInject Loci.lenient Tables.zero fun _ => 0))
      Overlap.Exclusive (.start 0) [.listen (.plain 4 5), .startRead 0, .startRead 1,
        .finishRead 0 (.plain [1, 0, 0, 8, 0, 0, 0, 7]), .finishRead 1 (.plain [1, 2, 0]),
        .startDelete 0, .finishDelete 0] := by
    refine fun t₁ h₁ => ⟨trivial, fun t₂ h₂ => ⟨trivial, fun t₃ h₃ => ⟨trivial, fun t₄ h₄ =>
      ⟨trivial, fun t₅ h₅ => ⟨trivial, fun t₆ h₆ => ⟨trivial, fun t₇ h₇ =>
        ⟨hexclusive t₆ ?_, trivial⟩⟩⟩⟩⟩⟩⟩
    simp only [Runs.run_cons, Runs.run_nil, h₁, h₂, h₃, h₄, h₅, h₆, Runs.ok_bind]
  rcases overlap_serial (tableInject Loci.lenient Tables.zero fun _ => 0) 0 _ halong with
    ⟨e, he, -⟩ | ⟨t', s, ht', hs, halike⟩
  · rw [hrun] at he
    cases he
  · obtain rfl := Except.ok.inj (hrun.symm.trans ht')
    exact ⟨_, t, s, rfl, hrun, hs, halike, hthreads⟩

end Mproxy
