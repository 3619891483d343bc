import Mproxy.Flow.Session

set_option relaxedAutoImplicit false
set_option autoImplicit false

/-!
# Where a session faults

The read callback itself faults nowhere: a fault is one of the function in the place of
`action_inject`, on one of the frames of the received stream. This holds for every run, also for
those in which the pair goes away, a write fails or a header of length `0` is met.

## Main definitions

* `Mproxy.FaultsOnly` — the function in the place of `action_inject` raises a fault on bad frames
  only.
* `Mproxy.FaultyCall` — a call that raises a fault, behind the calls before it.

## Main results

* `Mproxy.frameLoop_frames` — the loop goes from the start of a frame to the start of a frame.
* `Mproxy.onFlowRead_fault` — a fault of the callback is one of a call that it makes.
* `Mproxy.session_no_fault` — a fault that no frame of the stream can raise is not raised.
* `Mproxy.session_raises` — a fault of a run is one of the function in the place of
  `action_inject`.
-/

namespace Mproxy

open Framing

/-- The function in the place of `action_inject` raises the fault `e` on bad frames only. -/
def FaultsOnly {σ : Type} (inject : Inject σ) (e : Fault) (Bad : Frame UInt8 → Prop) : Prop :=
  ∀ (env : σ) (s : List UInt8) (dupCount : UInt8), ofpFraming.hdr ≤ s.length →
    ofpFraming.announced s ≤ s.length →
    inject env s (ofpFraming.announced s) dupCount = .error e → Bad (ofpFraming.first s)

/-- The function in the place of `action_inject` raises the fault `e` in some call. -/
def Raises {σ : Type} (inject : Inject σ) (e : Fault) : Prop :=
  ∃ env data len dupCount, inject env data len dupCount = .error e

/-- A fault that is raised in no call is raised on no frame. -/
lemma faultsOnly_of_not_raises {σ : Type} {inject : Inject σ} {e : Fault} (h : ¬ Raises inject e) :
    FaultsOnly inject e fun _ => False :=
  fun env s dupCount _ _ herr => h ⟨env, s, ofpFraming.announced s, dupCount, herr⟩

/-- A call for the frame `f` that raises the fault `e`. `E` relates the states of `action_inject` to
those that its calls lead to, and the call is one of those behind the state `env`. -/
def FaultyCall {σ : Type} (inject : Inject σ) (E : σ → σ → Prop) (env : σ) (e : Fault)
    (f : Frame UInt8) : Prop :=
  ∃ (env' : σ) (s : List UInt8) (dupCount : UInt8), E env env' ∧ ofpFraming.hdr ≤ s.length ∧
    ofpFraming.announced s ≤ s.length ∧ ofpFraming.first s = f ∧
    inject env' s (ofpFraming.announced s) dupCount = .error e

/-- Where the function raises the fault on bad frames only, the frame of such a call is bad. -/
lemma FaultyCall.bad {σ : Type} {inject : Inject σ} {E : σ → σ → Prop} {env : σ} {e : Fault}
    {f : Frame UInt8} {Bad : Frame UInt8 → Prop} (h : FaultyCall inject E env e f)
    (hinj : FaultsOnly inject e Bad) : Bad f := by
  obtain ⟨env', s, dupCount, -, hhdr, hlen, rfl, hfault⟩ := h
  exact hinj env' s dupCount hhdr hlen hfault

section Loop

variable {σ : Type} {inject : Inject σ} {ev : ReadEvent} {buf : List UInt8}

/-- What a round of the frame loop does with a whole frame. -/
lemma frameLoop_round {fuel : ℕ} {l : Loop σ} {r : Except Fault (Loop σ × Exit)}
    (hround : frameLoop inject ev buf (fuel + 1) l = r) :
    (∃ exit, r = .ok (l, exit)) ∨
    (ofpFraming.hdr ≤ (buf.drop l.lenProcessed).length ∧
      0 < ofpFraming.announced (buf.drop l.lenProcessed) ∧
      ofpFraming.announced (buf.drop l.lenProcessed) ≤ (buf.drop l.lenProcessed).length ∧
      ((∃ e, r = .error e ∧ inject l.env (buf.drop l.lenProcessed)
          (ofpFraming.announced (buf.drop l.lenProcessed)) l.dupCount = .error e) ∨
        ∃ (x : Option StreamT × UInt8 × σ) (l₁ : Loop σ),
          inject l.env (buf.drop l.lenProcessed)
            (ofpFraming.announced (buf.drop l.lenProcessed)) l.dupCount = .ok x ∧
          l₁.lenProcessed = l.lenProcessed ∧ l₁.env = x.2.2 ∧
          ((∃ exit, r = .ok (l₁, exit)) ∨
            r = frameLoop inject ev buf fuel
              (l₁.advance (ofpFraming.announced (buf.drop l.lenProcessed)))))) := by
  subst hround
  have hlen : (buf.drop l.lenProcessed).length = buf.length - l.lenProcessed := List.length_drop
  simp only [frameLoop, ofpHeaderBytes]
  by_cases hroom : l.lenProcessed + 8 ≤ buf.length
  swap
  · rw [if_neg hroom]
    exact Or.inl ⟨_, rfl⟩
  rw [if_pos hroom]
  by_cases hzero : (ofpMsgLen (buf.drop l.lenProcessed)).toNat = 0
  · rw [if_pos hzero]
    exact Or.inl ⟨_, rfl⟩
  rw [if_neg hzero]
  by_cases hmore : (ofpMsgLen (buf.drop l.lenProcessed)).toNat > buf.length - l.lenProcessed
  · rw [if_pos hmore]
    exact Or.inl ⟨_, rfl⟩
  rw [if_neg hmore]
  refine Or.inr ⟨show 8 ≤ _ by omega, Nat.pos_of_ne_zero hzero,
    show (ofpMsgLen (buf.drop l.lenProcessed)).toNat ≤ _ by omega, ?_⟩
  change (∃ e, _ ∧ inject l.env (buf.drop l.lenProcessed)
    (ofpMsgLen (buf.drop l.lenProcessed)).toNat l.dupCount = .error e) ∨ _
  cases hinj : inject l.env (buf.drop l.lenProcessed)
      (ofpMsgLen (buf.drop l.lenProcessed)).toNat l.dupCount with
  | error e => exact Or.inl ⟨e, rfl, rfl⟩
  | ok p =>
    obtain ⟨response, dupCount, env⟩ := p
    right
    refine ⟨(response, dupCount, env),
      (forward ev (l.hand (ofpFraming.first (buf.drop l.lenProcessed)) dupCount env) response).1,
      hinj, by simp, by simp [Loop.hand], ?_⟩
    simp only [Runs.ok_bind]
    cases (forward ev (l.hand (ofpFraming.first (buf.drop l.lenProcessed)) dupCount env)
      response).2 with
    | some exit => exact Or.inl ⟨exit, rfl⟩
    | none => exact Or.inr rfl

/-- **The loop goes from the start of a frame to the start of a frame**: the frames of what it
leaves unprocessed, with more bytes behind, are among those from where it started. -/
lemma frameLoop_frames {fuel : ℕ} {l l' : Loop σ} {exit : Exit}
    (hrun : frameLoop inject ev buf fuel l = .ok (l', exit)) (rest : List UInt8)
    {f : Frame UInt8} (hf : ofpFraming.FrameOf (buf.drop l'.lenProcessed ++ rest) f) :
    ofpFraming.FrameOf (buf.drop l.lenProcessed ++ rest) f := by
  induction fuel generalizing l with
  | zero =>
    obtain ⟨rfl, -⟩ : l = l' ∧ Exit.finished = exit := by simpa [frameLoop] using hrun
    exact hf
  | succ fuel ih =>
    rcases frameLoop_round hrun with ⟨_, h⟩ |
      ⟨hhdr, hpos, hlen, ⟨e, h, -⟩ | ⟨-, l₁, -, hl₁, -, ⟨_, h⟩ | h⟩⟩
    · cases h
      exact hf
    · cases h
    · cases h
      rwa [hl₁] at hf
    · have := ih h.symm
      rw [Loop.advance_lenProcessed, hl₁, ← List.drop_drop] at this
      exact .of_drop hhdr hpos hlen this

section Calls

variable {E : σ → σ → Prop} (hrefl : ∀ e, E e e) (htrans : ∀ e f g, E e f → E f g → E e g)
  (hcalls : ∀ e d n c r, inject e d n c = .ok r → E e r.2.2)

include hrefl htrans hcalls in
/-- The state of `action_inject` moves along every relation that its calls do. -/
lemma frameLoop_env {fuel : ℕ} {l l' : Loop σ} {exit : Exit}
    (hrun : frameLoop inject ev buf fuel l = .ok (l', exit)) : E l.env l'.env := by
  induction fuel generalizing l with
  | zero =>
    obtain ⟨rfl, -⟩ : l = l' ∧ Exit.finished = exit := by simpa [frameLoop] using hrun
    exact hrefl _
  | succ fuel ih =>
    rcases frameLoop_round hrun with ⟨_, h⟩ |
      ⟨-, -, -, ⟨e, h, -⟩ | ⟨x, l₁, hx, -, hl₁, ⟨_, h⟩ | h⟩⟩
    · cases h
      exact hrefl _
    · cases h
    · cases h
      rw [hl₁]
      exact hcalls _ _ _ _ _ hx
    · have hcall := hcalls _ _ _ _ _ hx
      rw [← hl₁] at hcall
      have hrest := ih h.symm
      exact htrans _ _ _ hcall hrest

include hrefl htrans hcalls in
/-- **A fault of the loop is one of a call that it makes**, for a frame of what lies before it. -/
lemma frameLoop_fault {fuel : ℕ} {l : Loop σ} {e : Fault}
    (hrun : frameLoop inject ev buf fuel l = .error e) (rest : List UInt8) :
    ∃ f, ofpFraming.FrameOf (buf.drop l.lenProcessed ++ rest) f ∧
      FaultyCall inject E l.env e f := by
  induction fuel generalizing l with
  | zero => simp [frameLoop] at hrun
  | succ fuel ih =>
    rcases frameLoop_round hrun with ⟨_, h⟩ |
      ⟨hhdr, hpos, hlen, ⟨e', h, hfault⟩ | ⟨x, l₁, hx, hl₁, henv, ⟨_, h⟩ | h⟩⟩
    · cases h
    · cases h
      refine ⟨_, ?_, l.env, _, l.dupCount, hrefl _, hhdr, hlen, rfl, hfault⟩
      rw [← Discipline.first_append rest hhdr hlen]
      have hann := ofpFraming.announced_append _ rest hhdr
      refine .here ?_ ?_ ?_
      · rw [List.length_append]; omega
      · rw [hann]; exact hpos
      · rw [hann, List.length_append]; omega
    · cases h
    · obtain ⟨f, hf, env', s, dupCount, hE, hcall⟩ := ih h.symm
      rw [Loop.advance_lenProcessed, hl₁, ← List.drop_drop] at hf
      have hfirst := hcalls _ _ _ _ _ hx
      rw [← henv] at hfirst
      exact ⟨f, .of_drop hhdr hpos hlen hf, env', s, dupCount, htrans _ _ _ hfirst hE, hcall⟩

end Calls

end Loop

section Sessions

variable {σ : Type} {inject : Inject σ}

/-- What one callback leaves: the frames of what the client's stream and input then hold, with more
bytes behind, are among those of what they held before and received. -/
lemma onFlowRead_frames {st st' : Flow σ} {ev : ReadEvent} {r : Report}
    (hrun : onFlowRead inject st ev = .ok (st', r)) (rest : List UInt8) {f : Frame UInt8}
    (hf : ofpFraming.FrameOf (st'.msg.bytes ++ (st'.input ++ rest)) f) :
    ofpFraming.FrameOf (st.msg.bytes ++ (st.input ++ (ev.chunk ++ rest))) f := by
  cases hroom : makeRoom st.msg (st.input ++ ev.chunk).length ev.realloc with
  | none =>
    rw [onFlowRead_noMemory hroom, Except.ok.injEq, Prod.mk.injEq] at hrun
    obtain ⟨rfl, -⟩ := hrun
    simpa using hf
  | some s =>
    obtain ⟨m, hbytes, hm⟩ := onFlowRead_room inject hroom
    have hshape : st.msg.bytes ++ (st.input ++ (ev.chunk ++ rest)) = m.bytes ++ rest := by
      rw [hbytes]; simp
    rw [hshape]
    rw [hm, handleInput] at hrun
    split_ifs at hrun with hshort hclosed
    · obtain ⟨rfl, -⟩ := Prod.mk.inj (Except.ok.inj hrun)
      simpa using hf
    · obtain ⟨rfl, -⟩ := Prod.mk.inj (Except.ok.inj hrun)
      simpa using hf
    · obtain ⟨⟨l, exit⟩, hl, hleave⟩ := Runs.bind_eq_ok.mp hrun
      have hle := frameLoop_le hl (Nat.zero_le _)
      rw [StreamT.length_bytes] at hle
      have hgo := frameLoop_frames hl rest (f := f)
      simp only [List.drop_zero] at hgo
      obtain ⟨st₂, r₂, hleave₂, -, -, hinput, -, -, -, hshift, hkeep⟩ := leave_ok exit hle
      simp only at hleave
      rw [hleave₂, Except.ok.injEq, Prod.mk.injEq] at hleave
      obtain ⟨rfl, rfl⟩ := hleave
      rw [hinput, List.nil_append] at hf
      by_cases hexit : exit = .incomplete ∨ exit = .finished
      · rw [hshift hexit] at hf
        exact hgo hf
      · rw [hkeep hexit] at hf
        exact hf

section Calls

variable {E : σ → σ → Prop} (hrefl : ∀ e, E e e) (htrans : ∀ e f g, E e f → E f g → E e g)
  (hcalls : ∀ e d n c r, inject e d n c = .ok r → E e r.2.2)

include hrefl htrans hcalls in
/-- A callback keeps a relation to its surroundings that each call of `action_inject` keeps. -/
lemma onFlowRead_env {st : Flow σ} {ev : ReadEvent} {r : Flow σ × Report}
    (hrun : onFlowRead inject st ev = .ok r) : E st.env r.1.env := by
  cases hroom : makeRoom st.msg (st.input ++ ev.chunk).length ev.realloc with
  | none =>
    rw [onFlowRead_noMemory hroom] at hrun
    obtain rfl := Except.ok.inj hrun
    exact hrefl _
  | some m =>
    obtain ⟨m, -, hm⟩ := onFlowRead_room inject hroom
    rw [hm] at hrun
    unfold handleInput at hrun
    split_ifs at hrun with hshort hclosed
    · obtain rfl := Except.ok.inj hrun
      exact hrefl _
    · obtain rfl := Except.ok.inj hrun
      exact hrefl _
    · obtain ⟨⟨l, exit⟩, hl, hrun⟩ := Runs.bind_eq_ok.mp hrun
      have hle := frameLoop_le hl (Nat.zero_le _)
      rw [StreamT.length_bytes] at hle
      obtain ⟨st', rep, hleave, -, -, -, -, -, henv, -⟩ := leave_ok exit hle
      obtain rfl := Except.ok.inj (hleave.symm.trans hrun)
      simp only [henv]
      exact frameLoop_env hrefl htrans hcalls hl

include hrefl htrans hcalls in
/-- **A fault of the callback is one of a call that it makes**, for a frame of what the client holds
and receives. -/
lemma onFlowRead_fault {st : Flow σ} {ev : ReadEvent} {e : Fault}
    (hrun : onFlowRead inject st ev = .error e) (rest : List UInt8) :
    ∃ f, ofpFraming.FrameOf (st.msg.bytes ++ (st.input ++ (ev.chunk ++ rest))) f ∧
      FaultyCall inject E st.env e f := by
  cases hroom : makeRoom st.msg (st.input ++ ev.chunk).length ev.realloc with
  | none => simp [onFlowRead_noMemory hroom] at hrun
  | some s =>
    obtain ⟨m, hbytes, hm⟩ := onFlowRead_room inject hroom
    have hshape : st.msg.bytes ++ (st.input ++ (ev.chunk ++ rest)) = m.bytes ++ rest := by
      rw [hbytes]; simp
    rw [hshape]
    rw [hm, handleInput] at hrun
    split_ifs at hrun
    rcases Runs.bind_eq_error.mp hrun with hloop | ⟨⟨l, exit⟩, hl, hleave⟩
    · exact frameLoop_fault hrefl htrans hcalls hloop rest
    · have hle := frameLoop_le hl (Nat.zero_le _)
      rw [StreamT.length_bytes] at hle
      obtain ⟨st₂, r₂, hleave₂, -⟩ := leave_ok exit hle
      simp only at hleave
      rw [hleave₂] at hleave
      cases hleave

end Calls

/-- One callback raises no fault that the frames it may meet do not raise. -/
lemma onFlowRead_no_fault {e : Fault} {Bad : Frame UInt8 → Prop} (hinj : FaultsOnly inject e Bad)
    {st : Flow σ} {ev : ReadEvent} (rest : List UInt8)
    (hfree : ∀ f, ofpFraming.FrameOf (st.msg.bytes ++ (st.input ++ (ev.chunk ++ rest))) f →
      ¬ Bad f) :
    onFlowRead inject st ev ≠ .error e := by
  intro hrun
  obtain ⟨f, hf, hcall⟩ := onFlowRead_fault (E := fun _ _ => True) (fun _ => trivial)
    (fun _ _ _ _ _ => trivial) (fun _ _ _ _ _ _ => trivial) hrun rest
  exact hfree f hf (hcall.bad hinj)

/-- **A fault that no frame of the stream can raise is not raised**, in any run of read events.

**Proof sketch.** Induction on the events, with the invariant that the frames of what the session
holds and will receive are frames of the stream (`onFlowRead_frames`). -/
theorem session_no_fault {e : Fault} {Bad : Frame UInt8 → Prop} (hinj : FaultsOnly inject e Bad)
    {evs : List ReadEvent} {s : Session σ}
    (hfree : ∀ f, ofpFraming.FrameOf
      (s.flow.msg.bytes ++ (s.flow.input ++ (evs.map ReadEvent.chunk).flatten)) f → ¬ Bad f) :
    Runs.run (sessionStep inject) s evs ≠ .error e := by
  induction evs generalizing s with
  | nil => simp
  | cons ev evs ih =>
    rw [List.map_cons, List.flatten_cons] at hfree
    intro hrun
    rcases Runs.bind_eq_error.mp hrun with hstep | ⟨s₁, hstep, hrest⟩
    · rcases Runs.bind_eq_error.mp hstep with hcall | ⟨p, -, hok⟩
      · exact onFlowRead_no_fault hinj _ hfree hcall
      · cases hok
    · obtain ⟨⟨flow, rep⟩, hcall, hok⟩ := Runs.bind_eq_ok.mp hstep
      obtain rfl := Except.ok.inj hok
      exact ih (fun f hf => hfree f (onFlowRead_frames hcall _ hf)) hrest

/-- A fault of a callback is one that the function in the place of `action_inject` raised. -/
lemma onFlowRead_raises {e : Fault} {st : Flow σ} {ev : ReadEvent}
    (hrun : onFlowRead inject st ev = .error e) : Raises inject e := by
  by_contra hraises
  exact onFlowRead_no_fault (faultsOnly_of_not_raises hraises) [] (fun _ _ hbad => hbad) hrun

/-- **The read callback itself faults nowhere**: a fault of a run is one that the function in the
place of `action_inject` raised. -/
theorem session_raises {e : Fault} {evs : List ReadEvent} {s : Session σ}
    (hrun : Runs.run (sessionStep inject) s evs = .error e) : Raises inject e := by
  by_contra hraises
  exact session_no_fault (faultsOnly_of_not_raises hraises) (fun _ _ hbad => hbad) hrun

end Sessions

end Mproxy
