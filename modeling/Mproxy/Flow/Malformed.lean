import Mproxy.Flow.Delivery
import Mproxy.Flow.Faults
import Mproxy.Flow.Walk

set_option relaxedAutoImplicit false
set_option autoImplicit false

/-!
# Malformed headers

No message is shorter than its header. A header that announces less is malformed, but the read
callback only stops at one that announces `0`. After a header that announces `1` to `7` bytes it
reads the next one inside of it. So what is handed on are whole messages exactly if the stream has
no such header up to the first one that announces `0`.

## Main results

* `Mproxy.handed_frames` — what is handed over are frames of the received stream.
* `Mproxy.session_whole_messages` — when only whole messages are handed on.
-/

namespace Mproxy

open Framing

section Walk

variable {σ : Type} {inject : Inject σ} {ev : ReadEvent} {buf : List UInt8}

/-- What the loop hands over are frames of what lay before it. -/
lemma Walk.frames {l l' : Loop σ} {exit : Exit} (h : Walk inject ev buf l l' exit) :
    ∃ fs, l'.handed = l.handed ++ fs ∧ ∀ f ∈ fs, ofpFraming.FrameOf (l.rest buf) f := by
  induction h with
  | finished _ => exact ⟨[], by simp, by simp⟩
  | zeroLength _ _ => exact ⟨[], by simp, by simp⟩
  | incomplete _ _ => exact ⟨[], by simp, by simp⟩
  | @returned l x exit hat _ _ =>
    refine ⟨[ofpFraming.first (l.rest buf)], by simp, fun f hf => ?_⟩
    obtain rfl := List.mem_singleton.mp hf
    exact .here hat.header hat.positive hat.whole
  | @round l l' x exit hat _ _ _ ih =>
    obtain ⟨fs, hfs, hall⟩ := ih
    refine ⟨ofpFraming.first (l.rest buf) :: fs, by simp [hfs], fun f hf => ?_⟩
    rcases List.mem_cons.mp hf with rfl | hf
    · exact .here hat.header hat.positive hat.whole
    · refine .later hat.header hat.positive hat.whole ?_
      simpa [Loop.rest, List.drop_drop] using hall f hf

/-- A loop that is not left from within a round has handed over all frames up to where it is left.
-/
lemma Walk.all_frames {l l' : Loop σ} {exit : Exit} (h : Walk inject ev buf l l' exit)
    (hexit : exit ≠ .fdClosed ∧ exit ≠ .writeFailed) (rest : List UInt8) {f : Frame UInt8}
    (hf : ofpFraming.FrameOf (l.rest buf ++ rest) f) :
    f ∈ l'.handed ∨ ofpFraming.FrameOf (l'.rest buf ++ rest) f := by
  induction h with
  | finished _ => exact Or.inr hf
  | zeroLength _ _ => exact Or.inr hf
  | incomplete _ _ => exact Or.inr hf
  | returned _ _ hfw =>
    obtain ⟨-, -, h⟩ := Loop.sent_snd_eq_some hfw
    exact absurd h (not_or.mpr hexit)
  | @round l l' x exit hat _ _ hrest ih =>
    rcases hf.of_append hat.header hat.whole with rfl | hf
    · obtain ⟨fs, hfs, -⟩ := hrest.frames
      left
      rw [hfs]
      simp
    · exact ih hexit (by simpa [Loop.rest, List.drop_drop] using hf)

/-- Nothing whole lies before the point where the loop is left, unless it is left from within a
round. -/
lemma Walk.nothing_left {l l' : Loop σ} {exit : Exit} (h : Walk inject ev buf l l' exit)
    (hexit : exit ≠ .fdClosed ∧ exit ≠ .writeFailed) (f : Frame UInt8) :
    ¬ ofpFraming.FrameOf (l'.rest buf) f := by
  induction h with
  | finished hroom => exact fun hf => hf.not_stuck (Or.inl hroom)
  | @zeroLength l hhdr hzero =>
    intro hf
    cases hf with
    | here _ hpos _ => omega
    | later _ hpos _ _ => omega
  | incomplete _ hmore => exact fun hf => hf.not_stuck (Or.inr hmore)
  | returned _ _ hfw =>
    obtain ⟨-, -, h⟩ := Loop.sent_snd_eq_some hfw
    exact absurd h (not_or.mpr hexit)
  | round _ _ _ _ ih => exact ih hexit

/-- Where the pair is up, the loop is not left from within a round. -/
lemma Walk.not_returned {l l' : Loop σ} {exit : Exit} (h : Walk inject ev buf l l' exit)
    (hev : ev.PeerUp) : exit ≠ .fdClosed ∧ exit ≠ .writeFailed := by
  induction h with
  | finished _ => simp
  | zeroLength _ _ => simp
  | incomplete _ _ => simp
  | @returned l x exit _ _ hfw =>
    rw [Loop.sent_snd_eq_none.mpr fun _ => ⟨hev.2.1 _, hev.2.2 _⟩] at hfw
    cases hfw
  | round _ _ _ _ ih => exact ih

end Walk

section Sessions

variable {σ : Type} {inject : Inject σ}

/-- The frames of what the session holds are frames of what it received, and so are those it handed
over. -/
def Session.Sound (s : Session σ) : Prop :=
  (∀ f rest, ofpFraming.FrameOf (s.flow.msg.bytes ++ (s.flow.input ++ rest)) f →
    ofpFraming.FrameOf (s.received ++ rest) f) ∧
  ∀ f ∈ s.handed, ofpFraming.FrameOf s.received f

/-- The frames of what left the `evbuffer` were handed over. -/
def Session.Complete (s : Session σ) : Prop :=
  ∃ done, done ++ s.flow.input = s.received ∧
    (∀ f rest, ofpFraming.FrameOf (done ++ rest) f →
      f ∈ s.handed ∨ ofpFraming.FrameOf (s.flow.msg.bytes ++ rest) f) ∧
    ∀ f, ofpFraming.FrameOf s.flow.msg.bytes f → f ∈ s.handed

/-- One callback hands over frames of the received stream only. -/
lemma sessionStep_sound {s s' : Session σ} {ev : ReadEvent}
    (hrun : sessionStep inject s ev = .ok s') (h : s.Sound) : s'.Sound := by
  obtain ⟨⟨flow, r⟩, hcall, hs'⟩ := Runs.bind_eq_ok.mp hrun
  obtain rfl := Except.ok.inj hs'
  have hpend : ∀ f, ofpFraming.FrameOf (s.flow.pending ev) f →
      ofpFraming.FrameOf (s.received ++ ev.chunk) f := fun f hf => h.1 f ev.chunk hf
  have hhanded : ∀ f ∈ r.handed, ofpFraming.FrameOf (s.flow.pending ev) f := by
    intro f hf
    cases onFlowRead_cases hcall with
    | noMemory _ => cases hf
    | early _ _ _ _ _ => cases hf
    | shifted _ _ hwalk _ _ _ _ =>
      obtain ⟨fs, hfs, hall⟩ := hwalk.frames
      obtain rfl : _ = fs := hfs
      exact hall f hf
    | kept _ _ hwalk _ _ _ _ =>
      obtain ⟨fs, hfs, hall⟩ := hwalk.frames
      obtain rfl : _ = fs := hfs
      exact hall f hf
  refine ⟨fun f rest hf => ?_, fun f hf => ?_⟩
  · rw [List.append_assoc]
    exact h.1 f _ (onFlowRead_frames hcall rest hf)
  · rcases List.mem_append.mp hf with hf | hf
    · exact (h.2 f hf).append ev.chunk
    · exact hpend f (hhanded f hf)

/-- One callback of a client whose pair is up hands over all frames it finds. -/
lemma sessionStep_complete {s s' : Session σ} {ev : ReadEvent} (hev : ev.PeerUp)
    (hrun : sessionStep inject s ev = .ok s') (h : s.Complete) : s'.Complete := by
  obtain ⟨⟨flow, r⟩, hcall, hs'⟩ := Runs.bind_eq_ok.mp hrun
  obtain rfl := Except.ok.inj hs'
  obtain ⟨done, hdone, hall, hhold⟩ := h
  have hpend : ∀ f rest, ofpFraming.FrameOf (done ++ (s.flow.input ++ ev.chunk) ++ rest) f →
      f ∈ s.handed ∨ ofpFraming.FrameOf (s.flow.pending ev ++ rest) f := by
    intro f rest hf
    rw [List.append_assoc] at hf
    rw [Flow.pending, List.append_assoc]
    exact hall f _ hf
  have hdone' : done ++ (s.flow.input ++ ev.chunk) = s.received ++ ev.chunk := by
    rw [← hdone, List.append_assoc]
  cases onFlowRead_cases hcall with
  | noMemory _ =>
    refine ⟨done, hdone', fun f rest hf => ?_, fun f hf => ?_⟩
    · simpa using hall f rest hf
    · simpa using hhold f hf
  | early _ hexit hbytes _ hinput =>
    refine ⟨done ++ (s.flow.input ++ ev.chunk), by rw [hinput, List.append_nil, hdone'],
      fun f rest hf => ?_, fun f hf => ?_⟩
    · simpa [hbytes] using hpend f rest hf
    · rcases hexit with ⟨-, hshort⟩ | ⟨-, hclosed⟩
      · rw [hbytes] at hf
        exact absurd (Or.inl hshort) hf.not_stuck
      · rw [hev.1] at hclosed
        cases hclosed
  | @shifted m _ l exit _ _ hwalk hexit hbytes _ hinput =>
    have hne := hwalk.not_returned hev
    refine ⟨done ++ (s.flow.input ++ ev.chunk), by rw [hinput, List.append_nil, hdone'],
      fun f rest hf => ?_, fun f hf => ?_⟩
    · rcases hpend f rest hf with hf | hf
      · exact Or.inl (List.mem_append_left _ hf)
      · rw [hbytes]
        rcases hwalk.all_frames hne rest hf with hf | hf
        · exact Or.inl (List.mem_append_right _ hf)
        · exact Or.inr hf
    · rw [hbytes] at hf
      exact absurd hf (hwalk.nothing_left hne f)
  | @kept m _ l exit _ _ hwalk _ hbytes _ hinput =>
    have hne := hwalk.not_returned hev
    refine ⟨done ++ (s.flow.input ++ ev.chunk), by rw [hinput, List.append_nil, hdone'],
      fun f rest hf => ?_, fun f hf => ?_⟩
    · rw [hbytes]
      rcases hpend f rest hf with hf | hf
      · exact Or.inl (List.mem_append_left _ hf)
      · exact Or.inr hf
    · rw [hbytes] at hf
      rcases hwalk.all_frames hne [] (by simpa [Loop.rest, Flow.enter] using hf) with hf | hf
      · exact List.mem_append_right _ hf
      · exact absurd (by simpa using hf) (hwalk.nothing_left hne f)

/-- **What is handed over are frames of the received stream**, in every run: nothing behind a header
that announces `0` is ever taken for a message. -/
theorem handed_frames {fresh : ℕ → UInt8} {env : σ} {evs : List ReadEvent} {s : Session σ}
    (hrun : Runs.run (sessionStep inject) (.start fresh env) evs = .ok s) :
    ∀ f ∈ s.handed, ofpFraming.FrameOf s.received f := by
  have hstep : ∀ (s : Session σ) (ev : ReadEvent) (s' : Session σ), s.Sound → True →
      sessionStep inject s ev = .ok s' → s'.Sound := fun _ _ _ h _ hs => sessionStep_sound hs h
  have hstart : (Session.start fresh env).Sound := ⟨fun _ _ hf => hf, by simp [Session.start]⟩
  exact (Runs.invariant hstep hstart (fun _ _ => trivial) hrun).2

/-- Every frame of what was received and has left the `evbuffer` was handed over, in every run whose
pair stays up. -/
theorem frames_handed {fresh : ℕ → UInt8} {env : σ} {evs : List ReadEvent} {s : Session σ}
    (hevs : ∀ ev ∈ evs, ev.PeerUp)
    (hrun : Runs.run (sessionStep inject) (.start fresh env) evs = .ok s)
    (hinput : s.flow.input = []) {f : Frame UInt8} (hf : ofpFraming.FrameOf s.received f) :
    f ∈ s.handed := by
  have hstep : ∀ (s : Session σ) (ev : ReadEvent) (s' : Session σ), s.Complete → ev.PeerUp →
      sessionStep inject s ev = .ok s' → s'.Complete :=
    fun _ _ _ h hev hs => sessionStep_complete hev hs h
  have hstart : (Session.start fresh env).Complete :=
    ⟨[], rfl, fun _ _ hf => Or.inr hf, fun _ hf => absurd Discipline.stuck_nil hf.not_stuck⟩
  obtain ⟨done, hdone, hall, hhold⟩ := Runs.invariant hstep hstart hevs hrun
  rw [hinput, List.append_nil] at hdone
  subst hdone
  rcases hall f [] (by simpa using hf) with hf | hf
  · exact hf
  · exact hhold f (by simpa using hf)

/-- **Only whole messages are handed on** if the stream has no header that announces `1` to `7`
bytes, up to the first one that announces `0`. For every function in the place of `action_inject`
and every run of read events, whatever the callbacks run into: what is handed over are frames of the
received stream, so none that lies behind a header announcing `0`. If no frame of the stream is
shorter than a header, then none is handed over; and if the pair stays up and all bytes were read,
only then.

**Proof sketch.** The loop goes from the start of a frame to the start of a frame, and keeps the
stream at one (`handed_frames`). Where the pair is up it stops only where no whole frame lies before
it, so no frame is left out (`frames_handed`). -/
theorem session_whole_messages (inject : Inject σ) (fresh : ℕ → UInt8) (env : σ)
    (evs : List ReadEvent) (s : Session σ)
    (hrun : Runs.run (sessionStep inject) (.start fresh env) evs = .ok s) :
    s.received = (evs.map ReadEvent.chunk).flatten ∧
    (∀ f ∈ s.handed, ofpFraming.FrameOf (evs.map ReadEvent.chunk).flatten f) ∧
    ((∀ f, ofpFraming.FrameOf (evs.map ReadEvent.chunk).flatten f → ofpHeaderBytes ≤ f.len) →
      ∀ f ∈ s.handed, ofpHeaderBytes ≤ f.len) ∧
    ((∀ ev ∈ evs, ev.PeerUp) → s.flow.input = [] →
      ((∀ f ∈ s.handed, ofpHeaderBytes ≤ f.len) ↔
        ∀ f, ofpFraming.FrameOf (evs.map ReadEvent.chunk).flatten f → ofpHeaderBytes ≤ f.len)) := by
  have hrec : s.received = (evs.map ReadEvent.chunk).flatten := (session_received hrun).1
  have hframes := handed_frames hrun
  rw [hrec] at hframes
  refine ⟨hrec, hframes, fun hall f hf => hall f (hframes f hf), fun hevs hinput => ?_⟩
  refine ⟨fun hhanded f hf => hhanded f ?_, fun hall f hf => hall f (hframes f hf)⟩
  exact frames_handed hevs hrun hinput (by rw [hrec]; exact hf)

end Sessions

/-- A hello message, and behind it a header that announces `0`. -/
theorem session_whole_messages_hello :
    ∃ s, Runs.run (sessionStep (tableInject Loci.lenient Tables.zero fun _ => 0))
        (.start (fun _ => 0) 0) [.plain [1, 0, 0, 8, 0, 0, 0, 1, 1, 0, 0, 0, 0, 0, 0, 0]] = .ok s ∧
      s.exits = [.zeroLength] ∧
      ((∀ f ∈ s.handed, ofpHeaderBytes ≤ f.len) ↔
        ∀ f, ofpFraming.FrameOf [1, 0, 0, 8, 0, 0, 0, 1, 1, 0, 0, 0, 0, 0, 0, 0] f →
          ofpHeaderBytes ≤ f.len) := by
  have heval : (Runs.run (sessionStep (tableInject Loci.lenient Tables.zero fun _ => 0))
      (.start (fun _ => 0) 0)
      [.plain [1, 0, 0, 8, 0, 0, 0, 1, 1, 0, 0, 0, 0, 0, 0, 0]]).toOption.map
        (fun s => (s.exits, s.flow.input)) = some ([.zeroLength], []) := by
    decide +kernel
  obtain ⟨s, hs, hfields⟩ := Option.map_eq_some_iff.mp heval
  obtain ⟨hexits, hinput⟩ := Prod.mk.inj hfields
  have hrun := Runs.ok_of_toOption hs
  obtain ⟨-, -, -, hiff⟩ := session_whole_messages _ _ _ _ s hrun
  exact ⟨s, hrun, hexits, hiff (by simp [ReadEvent.plain_peerUp]) hinput⟩

/-- A header that announces `4` bytes: these are handed over, the next header is read inside of it,
and what it announces is forwarded. -/
theorem session_hands_over_part :
    ∃ s, Runs.run (sessionStep (tableInject Loci.lenient Tables.zero fun _ => 0))
        (.start (fun _ => 0) 0) [.plain [6, 0, 0, 4, 1, 0, 0, 8, 0, 0, 0, 1]] = .ok s ∧
      s.handed.map Frame.len = [4, 8] ∧ s.exits = [.finished] ∧
      s.flow.output = [1, 0, 0, 8, 0, 0, 0, 1] := by
  have heval : (Runs.run (sessionStep (tableInject Loci.lenient Tables.zero fun _ => 0))
      (.start (fun _ => 0) 0) [.plain [6, 0, 0, 4, 1, 0, 0, 8, 0, 0, 0, 1]]).toOption.map
        (fun s => (s.handed.map Frame.len, s.exits, s.flow.output)) =
      some ([4, 8], [.finished], [1, 0, 0, 8, 0, 0, 0, 1]) := by
    decide +kernel
  obtain ⟨s, hs, hfields⟩ := Option.map_eq_some_iff.mp heval
  obtain ⟨hlens, hrest⟩ := Prod.mk.inj hfields
  obtain ⟨hexits, houtput⟩ := Prod.mk.inj hrest
  exact ⟨s, Runs.ok_of_toOption hs, hlens, hexits, houtput⟩

end Mproxy
