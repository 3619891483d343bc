import Mproxy.Proxy.Serial

set_option relaxedAutoImplicit false
set_option autoImplicit false

/-!
# Races

Where calls overlap, a client can be used after it was deleted. The pointer to it was looked up by
the thread of its mate, or by the housekeeping loop, while it was still there, its destructor ended,
and then the thread went on: always with a use of the client in `~Client` and in the housekeeping
loop, and in `on_flow_read` if the call comes to a frame of length `0`, or, with the descriptor open
again, to a response.

## Main definitions

* `Mproxy.System.Touches` — when the rest of `on_flow_read` comes to `fw_cli`.
* `Mproxy.Overlap.Uses` — a step in which a thread goes on and uses the client that it looked up.

## Main results

* `Mproxy.Overlap.Sound.useAfterFree_iff` — which steps use a client that was deleted.
* `Mproxy.overlap_useAfterFree_iff` — which runs do.
-/

namespace Mproxy

section Race

variable {σ : Type}

/-- The rest of `on_flow_read` comes to `fw_cli`: to a frame of length `0`, or to a response, if
`fw_fd` is open. -/
def System.Touches (s : System σ) (inject : Inject σ) (p : ClientPtr) (fwFd : ℤ) (ev : ReadEvent) :
    Prop :=
  ∃ c msg input output flow report, s.clients p = some c ∧ c.buf = some msg ∧
    c.evEvent = .buffers input output ∧
    onFlowRead inject ⟨msg, input, [], [], s.env⟩
      { ev with peerOpen := true, fdValid := fun _ => false } = .ok (flow, report) ∧
    (report.exit = .zeroLength ∨ report.exit = .fdClosed ∧ s.isOpen fwFd = true)

/-- In the step the thread goes on with its call, and uses the client that it has looked up. -/
def Overlap.Uses (t : Overlap σ) (inject : Inject σ) : Thread → OverlapAction → Prop
  | .client p, .finishRead r ev => r = p ∧ ∃ fwFd fwCli,
      t.inside p = some (.reading fwFd fwCli) ∧ t.sys.Touches inject p fwFd ev
  | .client p, .finishDelete r => r = p ∧ ∃ fwCli, t.inside p = some (.deleting fwCli)
  | .main, .finishHousekeep => True
  | _, _ => False

namespace System

variable {s : System σ} {p q : ClientPtr} {c : Client} {inject : Inject σ}

/-- The rest of `on_flow_read`, where the pair was deleted. -/
lemma finishRead_dead (h : s.Paired) (hc : s.clients p = some c) (hq : s.clients q = none)
    (hinj : FaultsOnly inject .useAfterFree fun _ => False) (fwFd : ℤ) (ev : ReadEvent) :
    s.finishRead inject p fwFd (some q) ev = .error .useAfterFree ↔
      s.Touches inject p fwFd ev := by
  have hest := h.established p c hc
  obtain ⟨input, output, hev⟩ := hest.evEvent
  obtain ⟨msg, hmsg⟩ := hest.buf
  have hderef : s.deref p = .ok c := by rw [deref, hc]
  have hbuffers : c.buffers = .ok (input, output) := by rw [Client.buffers, hev]
  have hstream : c.stream = .ok msg := by rw [Client.stream, hmsg]
  rw [finishRead, hderef, Runs.ok_bind, hbuffers, Runs.ok_bind]
  simp only [hstream, Runs.ok_bind, hq]
  constructor
  · intro hrun
    rcases Runs.bind_eq_error.mp hrun with hfault | ⟨⟨flow, report⟩, hok, hrest⟩
    · exact absurd hfault (onFlowRead_no_fault hinj [] fun _ _ => id)
    · split_ifs at hrest with huse
      exact ⟨c, msg, input, output, flow, report, hc, hmsg, hev, hok, huse⟩
  · rintro ⟨c', msg', input', output', flow, report, hc', hmsg', hev', hok, huse⟩
    obtain rfl := Option.some.inj (hc.symm.trans hc')
    obtain rfl := Option.some.inj (hmsg.symm.trans hmsg')
    obtain ⟨rfl, rfl⟩ := EvEvent.buffers.inj (hev.symm.trans hev')
    rw [hok, Runs.ok_bind]
    exact if_pos huse

/-- The rest of `~Client`, where the pair was deleted. -/
lemma destroy_dead (h : s.Paired) (hc : s.clients p = some c) (hq : s.clients q = none) :
    s.destroy p (some q) = .error .useAfterFree := by
  have hderef : s.deref p = .ok c := by rw [deref, hc]
  have hfree : c.freeEvent = .ok () := by
    obtain ⟨input, output, hev⟩ := (h.established p c hc).evEvent
    rw [Client.freeEvent, hev]
  have hclients : (if c.fd ≠ -1 then s.close c.fd else s).clients = s.clients := by
    split_ifs <;> rfl
  have hnone : (if c.fd ≠ -1 then s.close c.fd else s).clients q = none := by
    rw [hclients, hq]
  rw [destroy, hderef, Runs.ok_bind, hfree, Runs.ok_bind]
  simp only [deref, hnone, Runs.error_bind]

end System

namespace Overlap

variable {t t' : Overlap σ} {p q : ClientPtr} {i : Inside} {τ : Thread} {inject : Inject σ}
  {a : OverlapAction}

/-- A call whose pair is still there uses no client that was deleted. -/
lemma Sound.finish_no_useAfterFree (h : t.Sound) (hi : t.inside p = some i)
    (hlive : ∀ q, i.fwCli = some q → t.sys.clients q ≠ none)
    (hinj : FaultsOnly inject .useAfterFree fun _ => False) :
    (∀ fwFd ev, t.sys.finishRead inject p fwFd i.fwCli ev ≠ .error .useAfterFree) ∧
      t.sys.destroy p i.fwCli ≠ .error .useAfterFree := by
  obtain ⟨c, hc, hpt⟩ := h.inside p i hi
  constructor
  · intro fwFd ev hrun
    rw [(hpt.finishRead_follows h.paired hc hlive (.refl t.sys) inject fwFd ev).error_iff] at hrun
    exact h.paired.systemStep_no_useAfterFree hinj (a := .read p _) hrun
  · intro hrun
    rw [(hpt.destroy_follows h.paired hc hlive (.refl t.sys)).error_iff] at hrun
    obtain ⟨s', hs', -⟩ := h.paired.deletes hc
    rw [hs'] at hrun
    cases hrun

/-- **Which steps use a client that was deleted**: those in which a thread that has looked it up
goes on to use it. -/
lemma Sound.useAfterFree_iff (h : t.Sound)
    (hinj : FaultsOnly inject .useAfterFree fun _ => False) :
    Mproxy.overlapStep inject t a = .error .useAfterFree ↔
      ∃ τ q, t.held τ = some q ∧ t.sys.clients q = none ∧ t.Uses inject τ a := by
  cases a with
  | listen it =>
    refine iff_of_false (fun hrun => ?_) ?_
    · rcases Runs.bind_eq_error.mp hrun with hfault | ⟨s, -, hok⟩
      · exact h.paired.systemStep_no_useAfterFree hinj (a := .listen it) hfault
      · cases hok
    · rintro ⟨τ, q, -, -, huse⟩
      cases τ <;> exact huse
  | startRead p =>
    refine iff_of_false (fun hrun => ?_) ?_
    · replace hrun : t.startRead p = .error .useAfterFree := hrun
      unfold startRead at hrun
      split_ifs at hrun with hidle
      obtain ⟨c, hc⟩ := (h.paired.running p).mp hidle.1
      rw [System.deref, hc] at hrun
      cases hrun
    · rintro ⟨τ, q, -, -, huse⟩
      cases τ <;> exact huse
  | startDelete p =>
    refine iff_of_false (fun hrun => ?_) ?_
    · replace hrun : t.startDelete p = .error .useAfterFree := hrun
      unfold startDelete at hrun
      split_ifs at hrun with hidle
      obtain ⟨c, hc⟩ := (h.paired.running p).mp hidle.1
      rw [System.deref, hc] at hrun
      cases hrun
    · rintro ⟨τ, q, -, -, huse⟩
      cases τ <;> exact huse
  | finishRead p ev =>
    constructor
    · intro hrun
      replace hrun : t.finishRead inject p ev = .error .useAfterFree := hrun
      unfold finishRead at hrun
      split at hrun
      swap
      · cases hrun
      rename_i fwFd fwCli hi
      have hfault : t.sys.finishRead inject p fwFd fwCli ev = .error .useAfterFree := by
        rcases Runs.bind_eq_error.mp hrun with hfault | ⟨s, -, hok⟩
        · exact hfault
        · cases hok
      obtain ⟨q, rfl, hq⟩ : ∃ q, fwCli = some q ∧ t.sys.clients q = none := by
        by_contra hno
        push Not at hno
        exact (h.finish_no_useAfterFree hi hno hinj).1 fwFd ev hfault
      obtain ⟨c, hc, -⟩ := h.inside p _ hi
      exact ⟨.client p, q, held_client hi, hq, rfl, fwFd, some q, hi,
        (System.finishRead_dead h.paired hc hq hinj fwFd ev).mp hfault⟩
    · rintro ⟨τ, q, hτ, hq, huse⟩
      cases τ with
      | main => exact huse.elim
      | client r =>
        obtain ⟨rfl, fwFd, fwCli, hi, htouches⟩ := huse
        obtain rfl : fwCli = some q := (held_client hi).symm.trans hτ
        obtain ⟨c, hc, -⟩ := h.inside _ _ hi
        show t.finishRead inject _ ev = _
        rw [finishRead, hi]
        simp only
        rw [(System.finishRead_dead h.paired hc hq hinj fwFd ev).mpr htouches]
        rfl
  | finishDelete p =>
    constructor
    · intro hrun
      replace hrun : t.finishDelete p = .error .useAfterFree := hrun
      unfold Overlap.finishDelete at hrun
      split at hrun
      swap
      · cases hrun
      rename_i fwCli hi
      have hfault : t.sys.destroy p fwCli = .error .useAfterFree := by
        rcases Runs.bind_eq_error.mp hrun with hfault | ⟨s, -, hok⟩
        · exact hfault
        · cases hok
      obtain ⟨q, rfl, hq⟩ : ∃ q, fwCli = some q ∧ t.sys.clients q = none := by
        by_contra hno
        push Not at hno
        exact (h.finish_no_useAfterFree hi hno hinj).2 hfault
      exact ⟨.client p, q, held_client hi, hq, rfl, some q, hi⟩
    · rintro ⟨τ, q, hτ, hq, huse⟩
      cases τ with
      | main => exact huse.elim
      | client r =>
        obtain ⟨rfl, fwCli, hi⟩ := huse
        obtain rfl : fwCli = some q := (held_client hi).symm.trans hτ
        obtain ⟨c, hc, -⟩ := h.inside _ _ hi
        show t.finishDelete _ = _
        rw [Overlap.finishDelete, hi]
        simp only
        rw [System.destroy_dead h.paired hc hq]
        rfl
  | startHousekeep first =>
    refine iff_of_false (fun hrun => ?_) ?_
    · cases hrun
    · rintro ⟨τ, q, -, -, huse⟩
      cases τ <;> exact huse
  | finishHousekeep =>
    constructor
    · intro hrun
      replace hrun : t.finishHousekeep = .error .useAfterFree := hrun
      unfold finishHousekeep at hrun
      split at hrun
      · cases hrun
      rename_i d hmain
      cases hd : t.sys.clients d with
      | none => exact ⟨.main, d, hmain, hd, trivial⟩
      | some c =>
        rw [System.deref, hd] at hrun
        cases hrun
    · rintro ⟨τ, q, hτ, hq, huse⟩
      cases τ with
      | client r => exact huse.elim
      | main =>
        show t.finishHousekeep = _
        rw [finishHousekeep, show t.main = some q from hτ]
        simp only [System.deref, hq, Runs.error_bind]

/-- A client that was deleted is gone for the rest of a run. -/
lemma run_gone (h : t.Sound) {as : List OverlapAction}
    (hrun : Runs.run (Mproxy.overlapStep inject) t as = .ok t') (hold : q < t.sys.next)
    (hq : t.sys.clients q = none) : t'.Sound ∧ t'.sys.clients q = none := by
  have hinv : ∀ (t : Overlap σ) (a : OverlapAction) (t' : Overlap σ),
      t.Sound ∧ t.sys.clients q = none ∧ q < t.sys.next → True →
      Mproxy.overlapStep inject t a = .ok t' →
      t'.Sound ∧ t'.sys.clients q = none ∧ q < t'.sys.next := fun _ _ _ ht _ hstep =>
    ⟨ht.1.overlapStep hstep, (ht.1.effect hstep).gone ht.1 ht.2.2 ht.2.1⟩
  obtain ⟨h', hq', -⟩ := Runs.invariant hinv ⟨h, hq, hold⟩ (fun _ _ => trivial) hrun
  exact ⟨h', hq'⟩

/-- **How a pointer goes bad**: the thread holds it when the destructor of its client ends. -/
lemma exists_deleted {env : σ} {as : List OverlapAction}
    (hrun : Runs.run (Mproxy.overlapStep inject) (start env) as = .ok t) (hτ : t.held τ = some q)
    (hq : t.sys.clients q = none) : ∃ bs ms fwCli t₀ t₁, as = bs ++ .finishDelete q :: ms ∧
      Runs.run (Mproxy.overlapStep inject) (start env) bs = .ok t₀ ∧
      t₀.inside q = some (.deleting fwCli) ∧ t₀.held τ = some q ∧
      Mproxy.overlapStep inject t₀ (.finishDelete q) = .ok t₁ ∧
      Runs.run (Mproxy.overlapStep inject) t₁ ms = .ok t := by
  have hstart : ¬ ((start env).held τ = some q ∧ (start env).sys.clients q = none) := by
    rintro ⟨hheld, -⟩
    cases τ <;> cases hheld
  obtain ⟨bs, a, ms, t₀, t₁, rfl, hbs, hstep, hbefore, ⟨hheld, hgone⟩, hms⟩ :=
    Runs.exists_first (P := fun t => t.held τ = some q ∧ t.sys.clients q = none) hstart ⟨hτ, hq⟩
      hrun
  have h := run_sound hbs
  have he := h.effect hstep
  have hheld₀ := (he.held h hheld).resolve_right (not_not.mpr hgone)
  obtain ⟨rfl, fwCli, hi⟩ := he.kept h (fun hnone => hbefore ⟨hheld₀, hnone⟩) hgone
  exact ⟨bs, ms, fwCli, t₀, t₁, rfl, hbs, hi, hheld₀, hstep, hms⟩

end Overlap

end Race

/-- **Which runs use a client after it was deleted.** Take any steps of the listener, of the
housekeeping and of the threads of any number of clients, with calls that may overlap. A client is
used after it was deleted exactly in such a run: the destructor of a client `q` ends while another
thread `τ` holds a pointer to `q`, and later on `τ`, which still holds it, goes on with the call
that it is in and uses `q`.

**Proof sketch.** A step uses such a client exactly if a thread that holds a pointer to it goes on
and comes to it (`Overlap.Sound.useAfterFree_iff`). There is a first step behind which the pointer
is bad. No thread looks up a client that is not there, so the thread held it before, and the client
is deleted in this step (`Overlap.exists_deleted`). The other way round, a client that was deleted
does not come back (`Overlap.run_gone`). -/
theorem overlap_useAfterFree_iff (L : Loci) (T : Tables) (ρ : ℕ → ℕ) (as : List OverlapAction) :
    Runs.run (overlapStep (tableInject L T ρ)) (.start 0) as = .error .useAfterFree ↔
      ∃ bs ms a cs τ q fwCli t₀ t₁ t, as = bs ++ .finishDelete q :: (ms ++ a :: cs) ∧
        Runs.run (overlapStep (tableInject L T ρ)) (.start 0) bs = .ok t₀ ∧
        t₀.inside q = some (.deleting fwCli) ∧ t₀.held τ = some q ∧
        overlapStep (tableInject L T ρ) t₀ (.finishDelete q) = .ok t₁ ∧
        Runs.run (overlapStep (tableInject L T ρ)) t₁ ms = .ok t ∧
        t.held τ = some q ∧ t.Uses (tableInject L T ρ) τ a := by
  have hinj := tableInject_no_useAfterFree L T ρ
  constructor
  · intro hrun
    obtain ⟨ds, a, cs, t, rfl, hds, hstep⟩ := Runs.exists_fault hrun
    obtain ⟨τ, q, hτ, hq, huse⟩ := ((Overlap.run_sound hds).useAfterFree_iff hinj).mp hstep
    obtain ⟨bs, ms, fwCli, t₀, t₁, rfl, hbs, hi, hheld, hend, hms⟩ :=
      Overlap.exists_deleted hds hτ hq
    exact ⟨bs, ms, a, cs, τ, q, fwCli, t₀, t₁, t, by simp, hbs, hi, hheld, hend, hms, hτ, huse⟩
  · rintro ⟨bs, ms, a, cs, τ, q, fwCli, t₀, t₁, t, rfl, hbs, hi, -, hend, hms, hτ, huse⟩
    have h := Overlap.run_sound hbs
    obtain ⟨hq₁, hold₁⟩ := (h.effect hend).deleted h hi
    obtain ⟨ht, hq⟩ := Overlap.run_gone (h.overlapStep hend) hms hold₁ hq₁
    have hstep := (ht.useAfterFree_iff hinj).mpr ⟨τ, q, hτ, hq, huse⟩
    rw [Runs.run_append, hbs, Runs.ok_bind, Runs.run_cons, hend, Runs.ok_bind, Runs.run_append, hms,
      Runs.ok_bind, Runs.run_cons, hstep, Runs.error_bind]

/-- Both clients of a pair are deleted at the same time. -/
example : Runs.run (overlapStep (tableInject Loci.lenient Tables.zero fun _ => 0)) (.start 0)
    [.listen (.plain 4 5), .startDelete 0, .startDelete 1, .finishDelete 0, .finishDelete 1] =
      .error .useAfterFree := rfl

end Mproxy
