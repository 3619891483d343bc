import Mproxy.Lib.Runs
import Mproxy.Flow.OnFlowRead

set_option relaxedAutoImplicit false
set_option autoImplicit false

/-!
# Sessions: the read callbacks of one client

A session is a run of `on_flow_read` on one client, from the client's fresh stream. The session's
state adds to the data of the callback what the run has seen so far: the bytes received, the frames
handed to `action_inject` and where each call returned.

As long as no header of length `0` is met, the stream of received bytes is cut into frames the same
way however it was segmented: what was handed over, what the stream holds and what waits in the
`evbuffer` make up what was received.

## Main definitions

* `Mproxy.Session`, `Mproxy.sessionStep` — the session and one callback in it.
* `Mproxy.Session.Cut` — the invariant: the frames handed over and the stream's bytes are the cut
  of the bytes that left the `evbuffer`.
* `Mproxy.Session.Framed` — what the invariant says about the received bytes.

## Main results

* `Mproxy.session_cut` — the invariant holds in every run that met no header of length `0`.
* `Mproxy.session_framing` — framing is independent of segmentation and loses or repeats nothing.
-/

namespace Mproxy

open Framing

/-- A client's session: the callback's data and what the run has seen. -/
structure Session (σ : Type) where
  flow : Flow σ
  received : List UInt8
  handed : List (Frame UInt8)
  exits : List Exit

/-- The session of a client that was just initialised: `Client::init` gives it a new stream. -/
def Session.start {σ : Type} (fresh : ℕ → UInt8) (env : σ) : Session σ where
  flow := ⟨streamNew defaultStreamLen fresh, [], [], [], env⟩
  received := []
  handed := []
  exits := []

/-- One read event. -/
def sessionStep {σ : Type} (inject : Inject σ) (s : Session σ) (ev : ReadEvent) :
    Except Fault (Session σ) := do
  let (flow, r) ← onFlowRead inject s.flow ev
  .ok
    { flow := flow
      received := s.received ++ ev.chunk
      handed := s.handed ++ r.handed
      exits := s.exits ++ [r.exit] }

/-- A function in the place of `action_inject` that returns `NULL` or a response and faults
nowhere. -/
def pureInject {σ : Type} (f : σ → List UInt8 → ℕ → UInt8 → Option StreamT × UInt8 × σ) :
    Inject σ := fun env data len dupCount => .ok (f env data len dupCount)

namespace Session

variable {σ : Type}

/-- The frames handed over and the stream's bytes are the cut of the bytes that left the
`evbuffer`. -/
def Cut (s : Session σ) : Prop :=
  ∃ done, ofpFraming.Cuts done s.handed s.flow.msg.bytes ∧ done ++ s.flow.input = s.received

/-- What a session that met no header of length `0` has done with the bytes it received. -/
structure Framed (s : Session σ) : Prop where
  /-- the frames in order, the stream and the `evbuffer` make up what was received -/
  nothing_lost : (s.handed.map Frame.body).flatten ++ s.flow.msg.bytes ++ s.flow.input = s.received
  /-- the length of a frame is the big-endian value of the bytes at offsets `2` and `3` from its
  start -/
  frame_length : ∀ (i : ℕ) (hi : i < s.handed.length), ∃ o b₂ b₃,
    o = ((s.handed.take i).map Frame.body).flatten.length ∧ s.received[o + 2]? = some b₂ ∧
      s.received[o + 3]? = some b₃ ∧ s.handed[i].body.length = 256 * b₂.toNat + b₃.toNat
  /-- the stream holds less than a header, or less than its header announces -/
  no_frame_left : s.flow.msg.len < 8 ∨ ∃ b₂ b₃, s.flow.msg.bytes[2]? = some b₂ ∧
    s.flow.msg.bytes[3]? = some b₃ ∧ s.flow.msg.len < 256 * b₂.toNat + b₃.toNat

/-- The announced length in terms of the two bytes that hold it. -/
lemma announced_getElem? {s : List UInt8} (hs : 8 ≤ s.length) :
    ∃ b₂ b₃, s[2]? = some b₂ ∧ s[3]? = some b₃ ∧
      ofpFraming.announced s = 256 * b₂.toNat + b₃.toNat := by
  have h₂ : s[2]? = some s[2] := List.getElem?_eq_getElem (by omega)
  have h₃ : s[3]? = some s[3] := List.getElem?_eq_getElem (by omega)
  refine ⟨_, _, h₂, h₃, ?_⟩
  rw [announced_eq, ofMessageLengthGet, List.getD_eq_getElem?_getD, List.getD_eq_getElem?_getD,
    h₂, h₃]
  rfl

/-- What the invariant says about the received bytes. -/
lemma Cut.framed {s : Session σ} (h : s.Cut) : s.Framed := by
  obtain ⟨done, hcut, hrec⟩ := h
  have hdr : ofpFraming.hdr = 8 := rfl
  refine ⟨by rw [hcut.flatten_append, hrec], fun i hi => ?_, ?_⟩
  · obtain ⟨o, ho, hhdr, -, hlen, hfirst⟩ := hcut.frame_at i hi
    obtain ⟨b₂, b₃, h₂, h₃, hann⟩ := announced_getElem? (hdr ▸ hhdr)
    have hget : ∀ (k : ℕ) (b : UInt8), (done.drop o)[k]? = some b →
        s.received[o + k]? = some b := by
      intro k b hk
      rw [List.getElem?_drop] at hk
      rw [← hrec, List.getElem?_append_left (List.getElem?_eq_some_iff.mp hk).1, hk]
    have hfl : s.handed[i].len = ofpFraming.announced (done.drop o) := by rw [hfirst]; rfl
    refine ⟨o, b₂, b₃, ho, hget 2 b₂ h₂, hget 3 b₃ h₃, ?_⟩
    rw [hfirst, Discipline.body_first, List.length_take_of_le (by omega), hann]
  · rw [← StreamT.length_bytes]
    rcases lt_or_ge s.flow.msg.bytes.length 8 with hlt | hge
    · exact Or.inl hlt
    · right
      obtain ⟨b₂, b₃, h₂, h₃, hann⟩ := announced_getElem? hge
      refine ⟨b₂, b₃, h₂, h₃, ?_⟩
      rcases hcut.stuck_rest with h | h
      · omega
      · omega

/-- A fresh session satisfies the invariant. -/
lemma cut_start (fresh : ℕ → UInt8) (env : σ) : (Session.start fresh env).Cut :=
  ⟨[], .stuck Discipline.stuck_nil, rfl⟩

end Session

section Runs

variable {σ : Type} {inject : Inject σ}

/-- **One callback preserves the invariant**, unless it meets a header of length `0`. -/
lemma sessionStep_cut {s s' : Session σ} {ev : ReadEvent} (hev : ev.PeerUp)
    (hrun : sessionStep inject s ev = .ok s') (hzero : .zeroLength ∉ s'.exits) (h : s.Cut) :
    s'.Cut := by
  obtain ⟨⟨flow, r⟩, hcall, hs'⟩ := Runs.bind_eq_ok.mp hrun
  obtain rfl := Except.ok.inj hs'
  obtain ⟨done, hcut, hrec⟩ := h
  have hexit : r.exit ≠ .zeroLength := by
    intro h; exact hzero (by simp [h])
  rcases onFlowRead_cuts hev hcall with ⟨-, hhanded, rfl⟩ | ⟨-, hinput, hz | hcut'⟩
  · -- the allocator failed: the new bytes wait in the `evbuffer`
    refine ⟨done, by simpa [hhanded] using hcut, ?_⟩
    simp only [← hrec, List.append_assoc]
  · exact absurd hz hexit
  · refine ⟨done ++ (s.flow.input ++ ev.chunk), hcut.append hcut', ?_⟩
    simp only [hinput, ← hrec, List.append_assoc, List.append_nil]

/-- What was received in a run is what the events delivered. -/
lemma session_received {s s' : Session σ} {evs : List ReadEvent}
    (hrun : Runs.run (sessionStep inject) s evs = .ok s') :
    s'.received = s.received ++ (evs.map ReadEvent.chunk).flatten ∧
      ∃ es, s'.exits = s.exits ++ es := by
  induction evs generalizing s with
  | nil =>
    obtain rfl : s = s' := by simpa using hrun
    exact ⟨by simp, [], by simp⟩
  | cons ev evs ih =>
    obtain ⟨s₁, hstep, hrun⟩ := Runs.bind_eq_ok.mp hrun
    obtain ⟨⟨flow, r⟩, -, hs₁⟩ := Runs.bind_eq_ok.mp hstep
    obtain rfl := Except.ok.inj hs₁
    obtain ⟨hrec, es, hes⟩ := ih hrun
    exact ⟨by simp [hrec], r.exit :: es, by simp [hes]⟩

/-- **The invariant holds in every run** that met no header of length `0`. -/
theorem session_cut {s s' : Session σ} {evs : List ReadEvent} (hevs : ∀ ev ∈ evs, ev.PeerUp)
    (hrun : Runs.run (sessionStep inject) s evs = .ok s') (hzero : .zeroLength ∉ s'.exits)
    (h : s.Cut) : s'.Cut := by
  induction evs generalizing s with
  | nil =>
    obtain rfl : s = s' := by simpa using hrun
    exact h
  | cons ev evs ih =>
    obtain ⟨s₁, hstep, hrun⟩ := Runs.bind_eq_ok.mp hrun
    obtain ⟨es, hes⟩ := (session_received hrun).2
    have hzero₁ : .zeroLength ∉ s₁.exits := fun hmem => hzero (by rw [hes]; simp [hmem])
    exact ih (fun e he => hevs e (List.mem_cons_of_mem ev he)) hrun
      (sessionStep_cut (hevs ev List.mem_cons_self) hstep hzero₁ h)

/-- Two sessions that received the same bytes and have taken all of them out of the `evbuffer` have
handed over the same frames and hold the same bytes. -/
lemma Session.Cut.unique {σ' : Type} {s : Session σ} {s' : Session σ'} (h : s.Cut) (h' : s'.Cut)
    (hrec : s.received = s'.received) (hs : s.flow.input = []) (hs' : s'.flow.input = []) :
    s.handed = s'.handed ∧ s.flow.msg.bytes = s'.flow.msg.bytes := by
  obtain ⟨done, hcut, hd⟩ := h
  obtain ⟨done', hcut', hd'⟩ := h'
  rw [hs, List.append_nil] at hd
  rw [hs', List.append_nil] at hd'
  obtain rfl : done = done' := by rw [hd, hd', hrec]
  exact hcut.unique hcut'

/-- A session faults only where `action_inject` does. -/
lemma session_total (f : σ → List UInt8 → ℕ → UInt8 → Option StreamT × UInt8 × σ) (s : Session σ)
    (evs : List ReadEvent) : ∃ s', Runs.run (sessionStep (pureInject f)) s evs = .ok s' := by
  have hstep : ∀ (s : Session σ) (ev : ReadEvent), True → True →
      ∃ s', sessionStep (pureInject f) s ev = .ok s' ∧ True := by
    intro s ev _ _
    have hpure : ∀ e d n c, ∃ r, pureInject f e d n c = .ok r := fun e d n c => ⟨f e d n c, rfl⟩
    obtain ⟨⟨flow, r⟩, hr⟩ := onFlowRead_total hpure s.flow ev
    exact ⟨_, by simp only [sessionStep, hr, Runs.ok_bind]; rfl, trivial⟩
  obtain ⟨s', hs', -⟩ := Runs.total hstep trivial fun ev _ => (trivial : (fun _ => True) ev)
  exact ⟨s', hs'⟩

end Runs

/-- **Framing is independent of segmentation and loses or repeats nothing.** For every function in
the place of `action_inject`, every run of read events whose pair stays up ends without a fault;
if it met no header of length `0`, the frames handed over, the stream and the `evbuffer` make up
what was received, each frame is as long as its header announces, and the stream holds no whole
frame. Two such runs on the same bytes, cut into chunks in any way, hand over the same frames and
leave the same bytes in the stream once the `evbuffer` is empty.

**Proof sketch.** The invariant `Session.Cut` holds in every run (`session_cut`), because a callback
resumes the cut where the last one stopped. It gives the first part by `Session.Cut.framed`, and
the second because a stream has at most one cut. -/
theorem session_framing {σ : Type}
    (f : σ → List UInt8 → ℕ → UInt8 → Option StreamT × UInt8 × σ) (fresh : ℕ → UInt8) (env : σ)
    (evs : List ReadEvent) (hevs : ∀ ev ∈ evs, ev.PeerUp) :
    ∃ s, Runs.run (sessionStep (pureInject f)) (.start fresh env) evs = .ok s ∧
      s.received = (evs.map ReadEvent.chunk).flatten ∧
      (.zeroLength ∉ s.exits → s.Framed ∧
        ∀ (σ' : Type) (f' : σ' → List UInt8 → ℕ → UInt8 → Option StreamT × UInt8 × σ')
          (fresh' : ℕ → UInt8) (env' : σ') (evs' : List ReadEvent) (s' : Session σ'),
          (∀ ev ∈ evs', ev.PeerUp) →
          Runs.run (sessionStep (pureInject f')) (.start fresh' env') evs' = .ok s' →
          .zeroLength ∉ s'.exits →
          (evs'.map ReadEvent.chunk).flatten = (evs.map ReadEvent.chunk).flatten →
          s.flow.input = [] → s'.flow.input = [] →
          s'.handed = s.handed ∧ s'.flow.msg.bytes = s.flow.msg.bytes) := by
  obtain ⟨s, hrun⟩ := session_total f (.start fresh env) evs
  have hrec : s.received = (evs.map ReadEvent.chunk).flatten := (session_received hrun).1
  refine ⟨s, hrun, hrec, fun hzero => ?_⟩
  have hcut := session_cut hevs hrun hzero (Session.cut_start fresh env)
  refine ⟨hcut.framed, fun σ' f' fresh' env' evs' s' hevs' hrun' hzero' hsame hin hin' => ?_⟩
  have hrec' : s'.received = (evs'.map ReadEvent.chunk).flatten := (session_received hrun').1
  have hcut' := session_cut hevs' hrun' hzero' (Session.cut_start fresh' env')
  exact hcut'.unique hcut (by rw [hrec, hrec', hsame]) hin' hin

/-- A read event of a client whose pair is up and for which `realloc` succeeds. -/
def ReadEvent.plain (chunk : List UInt8) : ReadEvent where
  chunk := chunk
  realloc := some fun _ => 0
  peerOpen := true
  dupCount := 0
  fdValid := fun _ => true
  writeOk := fun _ => true

/-- The pair is there in a callback where nothing fails. -/
lemma ReadEvent.plain_peerUp (chunk : List UInt8) : (ReadEvent.plain chunk).PeerUp :=
  ⟨rfl, fun _ => rfl, fun _ => rfl⟩

/-- A hello message and the start of another one, cut inside the header of the first. -/
theorem session_framing_hello :
    ∃ s, Runs.run (sessionStep (pureInject fun (_ : Unit) data len _ =>
        (some (StreamT.full (data.take len)), 0, ()))) (.start (fun _ => 0) ())
        [.plain [1, 0, 0], .plain [8, 0, 0, 0, 7, 1, 0]] = .ok s ∧
      s.handed = [.whole [1, 0, 0, 8, 0, 0, 0, 7]] ∧ s.flow.msg.bytes = [1, 0] ∧ s.Framed := by
  obtain ⟨s, hrun, -, hframed⟩ := session_framing (fun (_ : Unit) data len _ =>
    (some (StreamT.full (data.take len)), 0, ())) (fun _ => 0) ()
    [.plain [1, 0, 0], .plain [8, 0, 0, 0, 7, 1, 0]]
    (by simp [ReadEvent.plain_peerUp])
  have heval : (Runs.run (sessionStep (pureInject fun (_ : Unit) data len _ =>
      (some (StreamT.full (data.take len)), 0, ()))) (.start (fun _ => 0) ())
      [.plain [1, 0, 0], .plain [8, 0, 0, 0, 7, 1, 0]]).toOption.map
        (fun s => (s.handed, s.flow.msg.bytes, s.exits)) =
      some ([.whole [1, 0, 0, 8, 0, 0, 0, 7]], [1, 0], [.short, .finished]) := by
    decide +kernel
  rw [hrun] at heval
  simp only [Except.toOption, Option.map_some, Option.some.injEq, Prod.mk.injEq] at heval
  obtain ⟨hhanded, hbytes, hexits⟩ := heval
  exact ⟨s, hrun, hhanded, hbytes, (hframed (by rw [hexits]; decide)).1⟩

end Mproxy
