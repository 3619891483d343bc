import Mproxy.Flow.Session

set_option relaxedAutoImplicit false
set_option autoImplicit false

/-!
# What a session delivers

`on_flow_read` with the real `action_inject`: the bytes written to the client's pair as a function
of the frames in the received stream, the attack tables and what `rand()` returns.

The delivery is first described frame by frame (`deliver`), without streams, buffers or events.
A session then follows that description: it writes what `deliver` gives for the frames of the
stream, and it faults where `deliver` does, however the stream is segmented.

## Main definitions

* `Mproxy.tableInject` — `action_inject` with given tables and given values of `rand()`.
* `Mproxy.deliver` — the bytes delivered for a sequence of frames, each with its `rand()` value.
* `Mproxy.Flow.Left` — the frames that a client has left, in its stream and its `evbuffer`.

## Main results

* `Mproxy.frameLoop_deliver` — the frame loop delivers what `deliver` says.
* `Mproxy.session_deliver` — so does a whole session.
-/

namespace Mproxy

open Framing

/-- `action_inject` as the parameter of `on_flow_read`: its state counts the calls, and `ρ n` is
what `rand()` returns in the call number `n`, if it is asked there. All its allocations succeed. -/
def tableInject (L : Loci) (T : Tables) (ρ : ℕ → ℕ) : Inject ℕ := fun n data len dupCount => do
  let (response, dupCount) ← actionInject L T (ρ n) data len dupCount
  .ok (response, dupCount, n + 1)

/-- What is written for a frame: nothing for `NULL`, otherwise the response and `dup_count` more
copies of it. -/
def sentFor : Option StreamT × UInt8 → List UInt8
  | (none, _) => []
  | (some response, dupCount) => (List.replicate (1 + dupCount.toNat) response.bytes).flatten

/-- What is delivered for one frame. -/
def frameOutput (L : Loci) (T : Tables) (rand : ℕ) (f : Frame UInt8) :
    Except Fault (List UInt8) := do
  let r ← actionInject L T rand f.view f.len 0
  .ok (sentFor r)

/-- What is delivered for frames in order, each with what `rand()` returns for it. -/
def deliver (L : Loci) (T : Tables) : List (Frame UInt8 × ℕ) → Except Fault (List UInt8)
  | [] => .ok []
  | p :: ps => do
    let out ← frameOutput L T p.2 p.1
    let outs ← deliver L T ps
    .ok (out ++ outs)

/-- Frames with the values of `rand()` from call number `n` on. -/
def withRand {α : Type} (ρ : ℕ → ℕ) (n : ℕ) (fs : List α) : List (α × ℕ) :=
  (fs.zipIdx n).map fun p => (p.1, ρ p.2)

/-- No frames take no numbers. -/
@[simp] lemma withRand_nil {α : Type} (ρ : ℕ → ℕ) (n : ℕ) : withRand ρ n ([] : List α) = [] := rfl

/-- The first frame takes the first number, and the others those behind it. -/
@[simp] lemma withRand_cons {α : Type} (ρ : ℕ → ℕ) (n : ℕ) (f : α) (fs : List α) :
    withRand ρ n (f :: fs) = (f, ρ n) :: withRand ρ (n + 1) fs := rfl

/-- The frames of the second list take the numbers behind those of the first one. -/
lemma withRand_append {α : Type} (ρ : ℕ → ℕ) (n : ℕ) (fs gs : List α) :
    withRand ρ n (fs ++ gs) = withRand ρ n fs ++ withRand ρ (n + fs.length) gs := by
  simp [withRand, List.zipIdx_append]

/-- What two lists of frames deliver is what the one delivers, and then the other. -/
lemma deliver_append (L : Loci) (T : Tables) (ps qs : List (Frame UInt8 × ℕ)) :
    deliver L T (ps ++ qs) = (deliver L T ps >>= fun out => deliver L T qs >>= fun outs =>
      .ok (out ++ outs)) := by
  induction ps with
  | nil =>
    simp only [List.nil_append, deliver, Runs.ok_bind]
    cases deliver L T qs <;> rfl
  | cons p ps ih =>
    simp only [List.cons_append, deliver, ih]
    cases frameOutput L T p.2 p.1 with
    | error e => rfl
    | ok out =>
      cases deliver L T ps with
      | error e => rfl
      | ok outs =>
        cases deliver L T qs with
        | error e => rfl
        | ok outs' => simp only [Runs.ok_bind, List.append_assoc]

section Sessions

variable {L : Loci} {T : Tables} {ρ : ℕ → ℕ}

/-- The call `on_flow_read` makes for the first frame of a stream, in terms of the frame alone. -/
lemma actionInject_first {rest : List UInt8} (hlen : ofpFraming.announced rest ≤ rest.length)
    (rand : ℕ) (dupCount : UInt8) {mem : InjectMem} :
    actionInject L T rand rest (ofpFraming.announced rest) dupCount mem =
      (actionInject L T rand (ofpFraming.first rest).view (ofpFraming.first rest).len 0 mem).map
        fun r => if r.1.isSome then r else (none, dupCount) := by
  have hview : 8 ≤ max ofpFraming.hdr (ofpFraming.announced rest) := le_max_left _ _
  rw [actionInject_dupCount L T rand dupCount hlen]
  simp only [Discipline.first]
  rw [actionInject_take L T rand 0 hview (le_max_right _ _)]

/-- What the forwarding block does with a response, where the pair is up and its buffer empty. -/
lemma forward_hand {ev : ReadEvent} (hev : ev.PeerUp) {l : Loop ℕ} (hbuf : l.evBuf = [])
    (f : Frame UInt8) (r : Option StreamT × UInt8) (env : ℕ) :
    ∃ l', forward ev (l.hand f (if r.1.isSome then r else (none, l.dupCount)).2 env) r.1 =
        (l', none) ∧ l'.lenProcessed = l.lenProcessed ∧ l'.evBuf = [] ∧
      l'.output = l.output ++ sentFor r ∧ l'.env = env ∧ l'.handed = l.handed ++ [f] := by
  obtain ⟨_ | response, dupCount⟩ := r
  · exact ⟨_, rfl, rfl, hbuf, by simp [Loop.hand, sentFor], rfl, rfl⟩
  · refine ⟨_, forward_some hev _ response, rfl, rfl, ?_, rfl, rfl⟩
    simp [Loop.hand, sentFor, hbuf]

/-- A round of the frame loop that has a whole frame in front of it. -/
lemma frameLoop_whole {ev : ReadEvent} {buf s : List UInt8} {fuel : ℕ} {l : Loop ℕ}
    (hs : buf.drop l.lenProcessed = s) (hlp : l.lenProcessed ≤ buf.length)
    (hhdr : ofpFraming.hdr ≤ s.length) (hpos : 0 < ofpFraming.announced s)
    (hlen : ofpFraming.announced s ≤ s.length) :
    frameLoop (tableInject L T ρ) ev buf (fuel + 1) l =
      (tableInject L T ρ l.env s (ofpFraming.announced s) l.dupCount >>= fun x =>
        match (forward ev (l.hand (ofpFraming.first s) x.2.1 x.2.2) x.1).2 with
        | some exit => .ok ((forward ev (l.hand (ofpFraming.first s) x.2.1 x.2.2) x.1).1, exit)
        | none => frameLoop (tableInject L T ρ) ev buf fuel
            ((forward ev (l.hand (ofpFraming.first s) x.2.1 x.2.2) x.1).1.advance
              (ofpFraming.announced s))) := by
  have hdr : ofpFraming.hdr = 8 := rfl
  have hslen : s.length = buf.length - l.lenProcessed := by rw [← hs, List.length_drop]
  have h₁ : ¬ (ofpMsgLen s).toNat = 0 := Nat.pos_iff_ne_zero.mp hpos
  have h₂ : ¬ (ofpMsgLen s).toNat > buf.length - l.lenProcessed := by
    rw [← hslen]
    exact Nat.not_lt.mpr hlen
  simp only [frameLoop, ofpHeaderBytes, hs]
  rw [if_pos (by omega), if_neg h₁, if_neg h₂]
  rfl

/-- **The frame loop delivers what `deliver` says** for the frames of the cut of the buffer from
where it starts, and ends with the rest of the cut unprocessed.

**Proof sketch.** Induction on the cut. A stuck rest ends the loop. At a frame the loop calls
`action_inject` on the rest of the buffer, which answers as on the frame itself. -/
lemma frameLoop_deliver {ev : ReadEvent} (hev : ev.PeerUp) {buf s r : List UInt8}
    {fs : List (Frame UInt8)} (hcut : ofpFraming.Cuts s fs r) (fuel : ℕ) {l : Loop ℕ}
    (hs : buf.drop l.lenProcessed = s) (hlp : l.lenProcessed ≤ buf.length)
    (hfuel : buf.length - l.lenProcessed ≤ fuel) (hbuf : l.evBuf = []) :
    Runs.Follows (frameLoop (tableInject L T ρ) ev buf fuel l)
      (deliver L T (withRand ρ l.env fs)) fun p out =>
        (p.2 = .incomplete ∨ p.2 = .finished) ∧ p.1.lenProcessed ≤ buf.length ∧
        buf.drop p.1.lenProcessed = r ∧ p.1.evBuf = [] ∧ p.1.output = l.output ++ out ∧
          p.1.env = l.env + fs.length := by
  have hdr : ofpFraming.hdr = 8 := rfl
  have hslen : s.length = buf.length - l.lenProcessed := by rw [← hs, List.length_drop]
  induction hcut generalizing fuel l with
  | @stuck s hstuck =>
    have hexit : ∃ ex, (ex = .incomplete ∨ ex = .finished) ∧
        frameLoop (tableInject L T ρ) ev buf fuel l = .ok (l, ex) := by
      cases fuel with
      | zero => exact ⟨.finished, Or.inr rfl, rfl⟩
      | succ fuel =>
        simp only [frameLoop, ofpHeaderBytes, hs]
        by_cases hroom : l.lenProcessed + 8 ≤ buf.length
        · have hmore : s.length < (ofpMsgLen s).toNat := by
            rcases hstuck with h | h
            · omega
            · exact h
          rw [if_pos hroom, if_neg (by omega), if_pos (by omega)]
          exact ⟨.incomplete, Or.inl rfl, rfl⟩
        · rw [if_neg hroom]
          exact ⟨.finished, Or.inr rfl, rfl⟩
    obtain ⟨ex, hex, hrun⟩ := hexit
    rw [hrun]
    exact .ok ⟨hex, hlp, hs, hbuf, by simp, by simp⟩
  | @frame s fs r hhdr hpos hlen hrest ih =>
    obtain ⟨fuel, rfl⟩ : ∃ n, fuel = n + 1 := ⟨fuel - 1, by omega⟩
    rw [frameLoop_whole hs hlp hhdr hpos hlen, withRand_cons, deliver, frameOutput, tableInject,
      actionInject_first hlen (ρ l.env) l.dupCount]
    cases hinj : actionInject L T (ρ l.env) (ofpFraming.first s).view
        (ofpFraming.first s).len 0 with
    | error e => exact .error e
    | ok x =>
      obtain ⟨l', hfw, hlp', hbuf', hout', henv', -⟩ :=
        forward_hand hev hbuf (ofpFraming.first s) x (l.env + 1)
      have hfst : (if x.1.isSome then x else (none, l.dupCount)).1 = x.1 := by
        obtain ⟨_ | response, d⟩ := x <;> rfl
      simp only [Except.map, Runs.ok_bind, hfst, hfw]
      have hgo := @ih fuel (l'.advance (ofpFraming.announced s))
        (by rw [Loop.advance_lenProcessed, hlp', ← List.drop_drop, hs])
        (by rw [Loop.advance_lenProcessed, hlp']; omega)
        (by rw [Loop.advance_lenProcessed, hlp']; omega) hbuf'
        (by rw [Loop.advance_lenProcessed, hlp', List.length_drop]; omega)
      rw [show (l'.advance (ofpFraming.announced s)).env = l.env + 1 from henv',
        show (l'.advance (ofpFraming.announced s)).output = l.output ++ sentFor x from hout'] at hgo
      rw [← bind_pure (frameLoop _ _ _ _ _)]
      refine hgo.bind fun p out h => .ok ⟨h.1, h.2.1, h.2.2.1, h.2.2.2.1, ?_, ?_⟩
      · rw [h.2.2.2.2.1, List.append_assoc]
      · rw [h.2.2.2.2.2, List.length_cons]; omega

/-- Handling the input of a client whose pair is up delivers what `deliver` says for the cut of what
the stream holds. -/
lemma handleInput_deliver {ev : ReadEvent} (hev : ev.PeerUp) (st : Flow ℕ) (hbuf : st.evBuf = [])
    {fs : List (Frame UInt8)} {r : List UInt8} (hcut : ofpFraming.Cuts st.msg.bytes fs r) :
    Runs.Follows (handleInput (tableInject L T ρ) st ev) (deliver L T (withRand ρ st.env fs))
      fun p out => p.1.msg.bytes = r ∧ p.1.input = st.input ∧ p.1.evBuf = [] ∧
        p.1.output = st.output ++ out ∧ p.1.env = st.env + fs.length := by
  have hlen := st.msg.length_bytes
  unfold handleInput ofpHeaderBytes
  simp only [hev.1, Bool.true_eq_false, if_false]
  by_cases hshort : st.msg.len < 8
  · obtain ⟨rfl, rfl⟩ := hcut.unique (.stuck (Or.inl (hlen ▸ hshort)))
    rw [if_pos hshort]
    exact .ok ⟨rfl, rfl, hbuf, by simp, by simp⟩
  · rw [if_neg hshort]
    have hloop := frameLoop_deliver (L := L) (T := T) (ρ := ρ) hev hcut st.msg.len
      (l := ⟨0, ev.dupCount, st.evBuf, st.output, st.env, [], 0⟩) List.drop_zero (Nat.zero_le _)
      (by simp only; omega) hbuf
    rw [← bind_pure (deliver L T (withRand ρ st.env fs))]
    refine hloop.bind fun p out h => ?_
    obtain ⟨l, exit⟩ := p
    obtain ⟨hexit, hle, hr, hev', hout, henv⟩ := h
    rw [hlen] at hle
    obtain ⟨st', rep, hleave, -, -, hin, hbuf', hout', henv', hmsg, -⟩ := leave_ok exit hle
    rw [hleave]
    exact .ok ⟨by rw [hmsg hexit, hr], hin, hbuf'.trans hev', hout'.trans hout, henv'.trans henv⟩

/-- One callback of a client whose pair is up: the allocator failed and the bytes stay in the
`evbuffer`, or it delivers what `deliver` says for the cut of what it has. -/
lemma onFlowRead_deliver {ev : ReadEvent} (hev : ev.PeerUp) {st : Flow ℕ} (hbuf : st.evBuf = [])
    {fs : List (Frame UInt8)} {r : List UInt8}
    (hcut : ofpFraming.Cuts (st.msg.bytes ++ (st.input ++ ev.chunk)) fs r) :
    (ev.realloc = none ∧ ∃ rep, onFlowRead (tableInject L T ρ) st ev =
        .ok ({ st with input := st.input ++ ev.chunk }, rep)) ∨
      Runs.Follows (onFlowRead (tableInject L T ρ) st ev) (deliver L T (withRand ρ st.env fs))
        fun p out => p.1.msg.bytes = r ∧ p.1.input = [] ∧ p.1.evBuf = [] ∧
          p.1.output = st.output ++ out ∧ p.1.env = st.env + fs.length := by
  cases hroom : makeRoom st.msg (st.input ++ ev.chunk).length ev.realloc with
  | none => exact Or.inl ⟨makeRoom_none hroom, _, onFlowRead_noMemory hroom⟩
  | some m =>
    obtain ⟨m, hbytes, hm⟩ := onFlowRead_room (tableInject L T ρ) hroom
    rw [hm]
    rw [← hbytes] at hcut
    exact Or.inr (handleInput_deliver hev { st with msg := m, input := [] } hbuf hcut)

/-- What a client holds in its stream and its `evbuffer` are the frames `gs` and the rest `r`, and
no frame is whole in the stream already. -/
structure Flow.Left {σ : Type} (st : Flow σ) (gs : List (Frame UInt8)) (r : List UInt8) : Prop where
  stuck : ofpFraming.Stuck st.msg.bytes
  cuts : ofpFraming.Cuts (st.msg.bytes ++ st.input) gs r

/-- With an empty `evbuffer` there is the rest only. -/
lemma Flow.Left.nil {σ : Type} {st : Flow σ} {gs : List (Frame UInt8)} {r : List UInt8}
    (h : st.Left gs r) (hin : st.input = []) : gs = [] ∧ st.msg.bytes = r := by
  have hcut := h.cuts
  rw [hin, List.append_nil] at hcut
  obtain ⟨hgs, hr⟩ := (Discipline.Cuts.stuck h.stuck).unique hcut
  exact ⟨hgs.symm, hr⟩

/-- The last event of the run, if there is one, finds memory: nothing is left in the `evbuffer`. -/
def LastRead (evs : List ReadEvent) : Prop :=
  ∀ ev, evs.getLast? = some ev → ev.realloc.isSome

/-- **A session delivers what `deliver` says**, for the frames of the received bytes that have left
the `evbuffer`, and faults where `deliver` does. The other frames are left: they begin in the stream
or in the `evbuffer`, and end in the `evbuffer`. There are none if the last event finds memory.

**Proof sketch.** Induction on the events. A prefix of a stream that has a cut has one, so the bytes
up to the end of the first event have one, and the cut of all bytes goes on from its rest. The first
callback follows `deliver` on the frames of the former, the other ones on those of the latter. -/
theorem session_deliver {evs : List ReadEvent} (hevs : ∀ ev ∈ evs, ev.PeerUp) {s : Session ℕ}
    (hbuf : s.flow.evBuf = []) (hstuck : ofpFraming.Stuck s.flow.msg.bytes)
    {gs : List (Frame UInt8)} {r : List UInt8}
    (hcut : ofpFraming.Cuts
      (s.flow.msg.bytes ++ (s.flow.input ++ (evs.map ReadEvent.chunk).flatten)) gs r) :
    ∃ gs₁ gs₂, gs = gs₁ ++ gs₂ ∧
      Runs.Follows (Runs.run (sessionStep (tableInject L T ρ)) s evs)
        (deliver L T (withRand ρ s.flow.env gs₁)) (fun s' out =>
          s'.flow.output = s.flow.output ++ out ∧ s'.flow.evBuf = [] ∧
            s'.flow.Left gs₂ r) ∧
      (LastRead evs → (evs = [] → s.flow.input = []) → gs₂ = []) := by
  induction evs generalizing s gs with
  | nil =>
    have hleft : s.flow.Left gs r := ⟨hstuck, by simpa using hcut⟩
    exact ⟨[], gs, rfl, .ok ⟨by simp, hbuf, hleft⟩, fun _ h => (hleft.nil (h rfl)).1⟩
  | cons ev evs ih =>
    have hev := hevs ev List.mem_cons_self
    have hevs' : ∀ e ∈ evs, e.PeerUp := fun e he => hevs e (List.mem_cons_of_mem ev he)
    rw [List.map_cons, List.flatten_cons, ← List.append_assoc s.flow.input,
      ← List.append_assoc s.flow.msg.bytes] at hcut
    obtain ⟨fs, r₁, hs, hcut₁, rfl, hcut₂⟩ := hcut.exists_cut_left
    rw [Runs.run_cons]
    rcases onFlowRead_deliver (L := L) (T := T) (ρ := ρ) hev hbuf hcut₁ with
      ⟨hmem, rep, hcall⟩ | hfollow
    · -- the allocator failed: the frames of this event are still to come
      have hstep : sessionStep (tableInject L T ρ) s ev = .ok
          { flow := { s.flow with input := s.flow.input ++ ev.chunk }
            received := s.received ++ ev.chunk
            handed := s.handed ++ rep.handed
            exits := s.exits ++ [rep.exit] } := by
        simp only [sessionStep, hcall, Runs.ok_bind]
      rw [hstep, Runs.ok_bind]
      obtain ⟨gs₁, gs₂, hgs, hrun, hlast⟩ := ih hevs'
        (s := { flow := { s.flow with input := s.flow.input ++ ev.chunk }
                received := s.received ++ ev.chunk
                handed := s.handed ++ rep.handed
                exits := s.exits ++ [rep.exit] }) hbuf hstuck
        (by rw [← List.append_assoc]; exact hcut₁.append hcut₂)
      refine ⟨gs₁, gs₂, hgs, hrun, fun hl _ => hlast (fun e he => hl e ?_) fun h => ?_⟩
      · rw [List.getLast?_cons, he]; rfl
      · subst h
        have := hl ev rfl
        rw [hmem] at this
        exact absurd this Bool.false_ne_true
    · rcases hfollow with ⟨e, hcall, hdel⟩ |
        ⟨⟨flow, rep⟩, out, hcall, hdel, hr₁, hin, hbuf₁, hout, henv⟩
      · -- the callback faults, and with it the run
        have hstep : sessionStep (tableInject L T ρ) s ev = .error e := by
          simp only [sessionStep, hcall, Runs.error_bind]
        refine ⟨fs ++ hs, [], by simp, ?_, fun _ _ => rfl⟩
        rw [hstep, Runs.error_bind, withRand_append, deliver_append, hdel, Runs.error_bind]
        exact .error e
      · simp only at hr₁ hin hbuf₁ hout henv
        have hstep : sessionStep (tableInject L T ρ) s ev = .ok
            ⟨flow, s.received ++ ev.chunk, s.handed ++ rep.handed, s.exits ++ [rep.exit]⟩ := by
          simp only [sessionStep, hcall, Runs.ok_bind]
        obtain ⟨gs₁, gs₂, rfl, hrun, hlast⟩ := ih hevs'
          (s := ⟨flow, s.received ++ ev.chunk, s.handed ++ rep.handed, s.exits ++ [rep.exit]⟩)
          hbuf₁ (hr₁ ▸ hcut₁.stuck_rest) (by rw [hr₁, hin]; exact hcut₂)
        refine ⟨fs ++ gs₁, gs₂, (List.append_assoc _ _ _).symm, ?_,
          fun hl _ => hlast ?_ fun _ => hin⟩
        · rw [hstep, Runs.ok_bind, withRand_append, deliver_append, hdel, Runs.ok_bind]
          rw [← bind_pure (Runs.run _ _ _), ← henv]
          refine hrun.bind fun s' outs h => .ok ⟨?_, h.2⟩
          rw [h.1, hout, List.append_assoc]
        · intro e he
          refine hl e ?_
          rw [List.getLast?_cons, he]; rfl

/-- A new session whose last event finds memory faults exactly where the delivery of its frames
does. -/
lemma session_error_iff (fresh : ℕ → UInt8) {evs : List ReadEvent} (hevs : ∀ ev ∈ evs, ev.PeerUp)
    (hlast : LastRead evs) {gs : List (Frame UInt8)} {r : List UInt8}
    (hcut : ofpFraming.Cuts (evs.map ReadEvent.chunk).flatten gs r) (e : Fault) :
    Runs.run (sessionStep (tableInject L T ρ)) (.start fresh 0) evs = .error e ↔
      deliver L T (withRand ρ 0 gs) = .error e := by
  obtain ⟨gs₁, gs₂, rfl, hrun, hall⟩ := session_deliver (L := L) (T := T) (ρ := ρ) hevs
    (s := .start fresh 0) rfl Discipline.stuck_nil hcut
  obtain rfl := hall hlast fun _ => rfl
  rw [List.append_nil]
  exact hrun.error_iff e

/-- A callback in which nothing fails finds memory. -/
lemma lastRead_plain (chunk : List UInt8) : LastRead [.plain chunk] := by
  rintro ev h
  obtain rfl := Option.some.inj h
  rfl

/-- A new session with a single event faults exactly where the delivery of its frames does. -/
lemma session_plain_error_iff (fresh : ℕ → UInt8) {chunk : List UInt8} {gs : List (Frame UInt8)}
    {r : List UInt8} (hcut : ofpFraming.Cuts chunk gs r) (e : Fault) :
    Runs.run (sessionStep (tableInject L T ρ)) (.start fresh 0) [.plain chunk] = .error e ↔
      deliver L T (withRand ρ 0 gs) = .error e := by
  have hchunks : (([.plain chunk] : List ReadEvent).map ReadEvent.chunk).flatten = chunk := by
    simp [ReadEvent.plain]
  rw [← hchunks] at hcut
  exact session_error_iff fresh (by simp [ReadEvent.plain_peerUp]) (lastRead_plain chunk) hcut e

end Sessions

end Mproxy
