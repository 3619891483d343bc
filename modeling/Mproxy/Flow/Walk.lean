import Mathlib.Algebra.GroupWithZero.Nat
import Mproxy.Flow.OnFlowRead

set_option relaxedAutoImplicit false
set_option autoImplicit false

/-!
# The way through the frame loop

The frame loop goes from frame to frame of the buffer until it ends, or until it returns. This is
said once, as a relation without a bound on the rounds, and so is what a callback does around it.

## Main definitions

* `Mproxy.Loop.AtFrame` — the loop has a whole frame before it.
* `Mproxy.Walk` — the way of the frame loop to where it leaves.
* `Mproxy.Interrupted` — the loop is left on the way in spite of frames that were handed over.

## Main results

* `Mproxy.frameLoop_walk` — the frame loop walks.
* `Mproxy.Walk.interrupted_iff` — which exits leave handed over frames behind.
* `Mproxy.onFlowRead_cases` — what a call of `on_flow_read` does.
-/

namespace Mproxy

open Framing

section Walk

variable {σ : Type} (inject : Inject σ) (ev : ReadEvent) (buf : List UInt8)

/-- What the loop has not processed. -/
abbrev Loop.rest (l : Loop σ) : List UInt8 := buf.drop l.lenProcessed

/-- The loop has a whole frame before it. -/
structure Loop.AtFrame (l : Loop σ) : Prop where
  header : ofpFraming.hdr ≤ (l.rest buf).length
  positive : 0 < ofpFraming.announced (l.rest buf)
  whole : ofpFraming.announced (l.rest buf) ≤ (l.rest buf).length

/-- `action_inject` on the frame before the loop. -/
def Loop.call (l : Loop σ) : Except Fault (Option StreamT × UInt8 × σ) :=
  inject l.env (l.rest buf) (ofpFraming.announced (l.rest buf)) l.dupCount

/-- The loop behind the call of `action_inject` and the forwarding block. -/
def Loop.sent (l : Loop σ) (x : Option StreamT × UInt8 × σ) : Loop σ × Option Exit :=
  forward ev (l.hand (ofpFraming.first (l.rest buf)) x.2.1 x.2.2) x.1

/-- `Walk l l' exit`: from `l` the loop gets to `l'` and is left there. -/
inductive Walk : Loop σ → Loop σ → Exit → Prop
  | finished {l : Loop σ} (h : (l.rest buf).length < ofpFraming.hdr) : Walk l l .finished
  | zeroLength {l : Loop σ} (hhdr : ofpFraming.hdr ≤ (l.rest buf).length)
      (hzero : ofpFraming.announced (l.rest buf) = 0) : Walk l l .zeroLength
  | incomplete {l : Loop σ} (hhdr : ofpFraming.hdr ≤ (l.rest buf).length)
      (hmore : (l.rest buf).length < ofpFraming.announced (l.rest buf)) : Walk l l .incomplete
  | returned {l : Loop σ} {x : Option StreamT × UInt8 × σ} {exit : Exit} (hat : l.AtFrame buf)
      (hinj : l.call inject buf = .ok x) (hfw : (l.sent ev buf x).2 = some exit) :
      Walk l (l.sent ev buf x).1 exit
  | round {l l' : Loop σ} {x : Option StreamT × UInt8 × σ} {exit : Exit} (hat : l.AtFrame buf)
      (hinj : l.call inject buf = .ok x) (hfw : (l.sent ev buf x).2 = none)
      (hrest : Walk ((l.sent ev buf x).1.advance (ofpFraming.announced (l.rest buf))) l' exit) :
      Walk l l' exit

/-- The loop is left on the way in spite of frames that were handed over: it meets a header of
length `0` behind a frame, or a response whose descriptor is closed or whose write fails. -/
inductive Interrupted : Loop σ → Prop
  | zeroLength {l : Loop σ} (hhdr : ofpFraming.hdr ≤ (l.rest buf).length)
      (hzero : ofpFraming.announced (l.rest buf) = 0) (hsome : 0 < l.lenProcessed) : Interrupted l
  | refused {l : Loop σ} {response : StreamT} {dupCount : UInt8} {env : σ} (hat : l.AtFrame buf)
      (hinj : l.call inject buf = .ok (some response, dupCount, env))
      (hno : ev.fdValid l.responses = false ∨ ev.writeOk l.responses = false) : Interrupted l
  | round {l : Loop σ} {x : Option StreamT × UInt8 × σ} (hat : l.AtFrame buf)
      (hinj : l.call inject buf = .ok x)
      (htaken : x.1.isSome → ev.fdValid l.responses = true ∧ ev.writeOk l.responses = true)
      (hrest : Interrupted ((l.sent ev buf x).1.advance (ofpFraming.announced (l.rest buf)))) :
      Interrupted l

end Walk

section Walk

variable {σ : Type} {inject : Inject σ} {ev : ReadEvent} {buf : List UInt8}

/-- How many bytes are still to be processed. -/
lemma Loop.length_rest (l : Loop σ) : (l.rest buf).length = buf.length - l.lenProcessed :=
  List.length_drop

/-- A call of `action_inject` and the forwarding of its response process no bytes. -/
@[simp] lemma Loop.sent_lenProcessed (l : Loop σ) (x : Option StreamT × UInt8 × σ) :
    (l.sent ev buf x).1.lenProcessed = l.lenProcessed := by
  simp [Loop.sent]

/-- By them the first frame of the rest is handed on. -/
@[simp] lemma Loop.sent_handed (l : Loop σ) (x : Option StreamT × UInt8 × σ) :
    (l.sent ev buf x).1.handed = l.handed ++ [ofpFraming.first (l.rest buf)] := by
  simp [Loop.sent]

/-- The forwarding block returns where a response meets a closed descriptor or a failed write. -/
lemma forward_snd (ev : ReadEvent) (l : Loop σ) (response : Option StreamT) :
    (forward ev l response).2 =
      if response.isSome ∧ ev.fdValid l.responses = false then some .fdClosed
      else if response.isSome ∧ ev.writeOk l.responses = false then some .writeFailed
      else none := by
  cases response with
  | none => simp [forward_none]
  | some response =>
    by_cases hfd : ev.fdValid l.responses = false
    · simp [forward, hfd]
    · by_cases hwr : ev.writeOk l.responses = true
      · simp [forward, hfd, hwr]
      · simp [forward, hfd, hwr]

/-- How forwarding a response ends the loop: the pair is closed, or the write fails. -/
lemma Loop.sent_snd (l : Loop σ) (x : Option StreamT × UInt8 × σ) :
    (l.sent ev buf x).2 =
      if x.1.isSome ∧ ev.fdValid l.responses = false then some .fdClosed
      else if x.1.isSome ∧ ev.writeOk l.responses = false then some .writeFailed
      else none := by
  rw [Loop.sent]
  exact forward_snd ev _ x.1

/-- The forwarding block goes on where every response is taken. -/
lemma Loop.sent_snd_eq_none {l : Loop σ} {x : Option StreamT × UInt8 × σ} :
    (l.sent ev buf x).2 = none ↔
      (x.1.isSome → ev.fdValid l.responses = true ∧ ev.writeOk l.responses = true) := by
  rw [Loop.sent_snd]
  cases hx : x.1.isSome <;> cases hf : ev.fdValid l.responses <;>
    cases hw : ev.writeOk l.responses <;> simp

/-- Where the loop ends by it, there is a response, and it could not be written. -/
lemma Loop.sent_snd_eq_some {l : Loop σ} {x : Option StreamT × UInt8 × σ} {exit : Exit}
    (h : (l.sent ev buf x).2 = some exit) :
    x.1.isSome ∧ (ev.fdValid l.responses = false ∨ ev.writeOk l.responses = false) ∧
      (exit = .fdClosed ∨ exit = .writeFailed) := by
  rw [Loop.sent_snd] at h
  split_ifs at h with hfd hwr
  · exact ⟨hfd.1, Or.inl hfd.2, Or.inl (Option.some.inj h).symm⟩
  · exact ⟨hwr.1, Or.inr hwr.2, Or.inr (Option.some.inj h).symm⟩

/-- **The frame loop walks.** -/
theorem frameLoop_walk {fuel : ℕ} {l l' : Loop σ} {exit : Exit}
    (hrun : frameLoop inject ev buf fuel l = .ok (l', exit))
    (hfuel : (l.rest buf).length ≤ fuel) : Walk inject ev buf l l' exit := by
  have hdr : ofpFraming.hdr = 8 := rfl
  induction fuel generalizing l with
  | zero =>
    obtain ⟨rfl, rfl⟩ : l = l' ∧ Exit.finished = exit := by simpa [frameLoop] using hrun
    exact .finished (by omega)
  | succ fuel ih =>
    have hlen : (l.rest buf).length = buf.length - l.lenProcessed := l.length_rest
    have hann : (ofpMsgLen (l.rest buf)).toNat = ofpFraming.announced (l.rest buf) := rfl
    simp only [frameLoop, ofpHeaderBytes] at hrun
    by_cases hroom : l.lenProcessed + 8 ≤ buf.length
    swap
    · rw [if_neg hroom] at hrun
      cases hrun
      exact .finished (by omega)
    rw [if_pos hroom] at hrun
    by_cases hzero : (ofpMsgLen (l.rest buf)).toNat = 0
    · rw [if_pos hzero] at hrun
      cases hrun
      exact .zeroLength (by omega) hzero
    rw [if_neg hzero] at hrun
    by_cases hmore : (ofpMsgLen (l.rest buf)).toNat > buf.length - l.lenProcessed
    · rw [if_pos hmore] at hrun
      cases hrun
      exact .incomplete (by omega) (by omega)
    rw [if_neg hmore] at hrun
    obtain ⟨x, hinj, hrun⟩ := Runs.bind_eq_ok.mp hrun
    have hat : l.AtFrame buf := ⟨by omega, by omega, by omega⟩
    cases hfw : (l.sent ev buf x).2 with
    | some exit' =>
      simp only [show (forward ev (l.hand (ofpFraming.first (l.rest buf)) x.2.1 x.2.2) x.1).2 =
        some exit' from hfw] at hrun
      cases hrun
      exact .returned hat hinj hfw
    | none =>
      simp only [show (forward ev (l.hand (ofpFraming.first (l.rest buf)) x.2.1 x.2.2) x.1).2 =
        none from hfw] at hrun
      refine .round hat hinj hfw (ih hrun ?_)
      have hpos := hat.positive
      rw [Loop.length_rest, Loop.advance_lenProcessed, Loop.sent_lenProcessed]
      omega

/-- What the loop hands over on its way starts where the loop started. Where the loop is not left
from within a round, it processes exactly what it hands over; otherwise the last frame is not
counted. -/
theorem Walk.handed {l l' : Loop σ} {exit : Exit} (h : Walk inject ev buf l l' exit)
    (hle : l.lenProcessed ≤ buf.length) :
    ∃ fs, l'.handed = l.handed ++ fs ∧ (∀ f ∈ fs, 0 < f.len) ∧
      l'.lenProcessed ≤ buf.length ∧ l.lenProcessed ≤ l'.lenProcessed ∧
      l.lenProcessed + (fs.map Frame.len).sum ≤ buf.length ∧
      (exit ≠ .fdClosed ∧ exit ≠ .writeFailed →
        l'.lenProcessed = l.lenProcessed + (fs.map Frame.len).sum) ∧
      (exit = .fdClosed ∨ exit = .writeFailed → fs ≠ []) := by
  induction h with
  | finished _ => exact ⟨[], by simp, by simp, hle, le_rfl, by simpa using hle, by simp, by simp⟩
  | zeroLength _ _ =>
    exact ⟨[], by simp, by simp, hle, le_rfl, by simpa using hle, by simp, by simp⟩
  | incomplete _ _ =>
    exact ⟨[], by simp, by simp, hle, le_rfl, by simpa using hle, by simp, by simp⟩
  | @returned l x exit hat _ hfw =>
    have hlen : (l.rest buf).length = buf.length - l.lenProcessed := l.length_rest
    have hwhole := hat.whole
    have hpos := hat.positive
    obtain ⟨-, -, hexit⟩ := Loop.sent_snd_eq_some hfw
    refine ⟨[ofpFraming.first (l.rest buf)], by simp, ?_, by simpa using hle, by simp, ?_, ?_,
      by simp⟩
    · simpa [Discipline.first] using hpos
    · simp only [Discipline.first, List.map_cons, List.map_nil, List.sum_cons, List.sum_nil]
      omega
    · rintro ⟨hfd, hwr⟩
      exact absurd hexit (not_or.mpr ⟨hfd, hwr⟩)
  | @round l l' x exit hat _ _ _ ih =>
    have hlen : (l.rest buf).length = buf.length - l.lenProcessed := l.length_rest
    have hwhole := hat.whole
    have hpos := hat.positive
    obtain ⟨fs, hfs, hall, hle', hge, hsum, hexact, hsome⟩ := ih (by simp; omega)
    simp only [Loop.advance_lenProcessed, Loop.sent_lenProcessed] at hge hsum hexact
    have hfirst : (ofpFraming.first (l.rest buf)).len = ofpFraming.announced (l.rest buf) := rfl
    refine ⟨ofpFraming.first (l.rest buf) :: fs, by simp [hfs], ?_, hle', by omega, ?_, ?_, by simp⟩
    · intro f hf
      rcases List.mem_cons.mp hf with rfl | hf
      · exact hpos
      · exact hall f hf
    · rw [List.map_cons, List.sum_cons, hfirst]
      omega
    · intro hexit
      rw [List.map_cons, List.sum_cons, hfirst, hexact hexit]
      omega

/-- **Which exits leave frames behind** that were handed over. -/
theorem Walk.interrupted_iff {l l' : Loop σ} {exit : Exit} (h : Walk inject ev buf l l' exit) :
    Interrupted inject ev buf l ↔
      (exit = .fdClosed ∨ exit = .writeFailed ∨ (exit = .zeroLength ∧ 0 < l'.lenProcessed)) := by
  induction h with
  | @finished l hroom =>
    refine iff_of_false (fun hint => ?_) (by simp)
    cases hint with
    | zeroLength hhdr _ _ => omega
    | refused hat _ _ => exact absurd hat.header (by omega)
    | round hat _ _ _ => exact absurd hat.header (by omega)
  | @zeroLength l hhdr hzero =>
    constructor
    · intro hint
      cases hint with
      | zeroLength _ _ hsome => exact Or.inr (Or.inr ⟨rfl, hsome⟩)
      | refused hat _ _ => exact absurd hat.positive (by omega)
      | round hat _ _ _ => exact absurd hat.positive (by omega)
    · rintro (h | h | ⟨-, h⟩)
      · cases h
      · cases h
      · exact .zeroLength hhdr hzero h
  | @incomplete l hhdr hmore =>
    refine iff_of_false (fun hint => ?_) (by simp)
    cases hint with
    | zeroLength _ hzero _ => omega
    | refused hat _ _ => exact absurd hat.whole (by omega)
    | round hat _ _ _ => exact absurd hat.whole (by omega)
  | @returned l x exit hat hinj hfw =>
    obtain ⟨hsome, hno, hexit⟩ := Loop.sent_snd_eq_some hfw
    obtain ⟨response, dupCount, env⟩ := x
    obtain ⟨response, rfl⟩ := Option.isSome_iff_exists.mp hsome
    refine iff_of_true (.refused hat hinj hno) ?_
    rcases hexit with rfl | rfl <;> simp
  | @round l l' x exit hat hinj hfw _ ih =>
    rw [← ih]
    constructor
    · intro hint
      cases hint with
      | zeroLength _ hzero _ => exact absurd hat.positive (by omega)
      | refused _ hinj' hno =>
        obtain rfl := Except.ok.inj (hinj.symm.trans hinj')
        obtain ⟨hfd, hwr⟩ := Loop.sent_snd_eq_none.mp hfw rfl
        rw [hfd, hwr] at hno
        rcases hno with h | h <;> cases h
      | round _ hinj' _ hrest =>
        obtain rfl := Except.ok.inj (hinj.symm.trans hinj')
        exact hrest
    · exact fun hint => .round hat hinj (Loop.sent_snd_eq_none.mp hfw) hint

/-- Where the loop shifts, it has cut what lay before it. -/
theorem Walk.cuts {l l' : Loop σ} {exit : Exit} (h : Walk inject ev buf l l' exit)
    (hexit : exit = .incomplete ∨ exit = .finished) :
    ∃ fs, l'.handed = l.handed ++ fs ∧ ofpFraming.Cuts (l.rest buf) fs (l'.rest buf) := by
  induction h with
  | finished hroom => exact ⟨[], by simp, .stuck (Or.inl hroom)⟩
  | zeroLength _ _ => rcases hexit with h | h <;> cases h
  | incomplete _ hmore => exact ⟨[], by simp, .stuck (Or.inr hmore)⟩
  | returned _ _ hfw =>
    obtain ⟨-, -, h⟩ := Loop.sent_snd_eq_some hfw
    rcases h with rfl | rfl <;> rcases hexit with h | h <;> cases h
  | @round l l' x exit hat _ _ _ ih =>
    obtain ⟨fs, hfs, hcut⟩ := ih hexit
    refine ⟨ofpFraming.first (l.rest buf) :: fs, by simp [hfs],
      .frame hat.header hat.positive hat.whole ?_⟩
    simpa [Loop.rest, List.drop_drop] using hcut

/-- Where what lies before the loop has a cut, the loop meets no header of length `0`. -/
theorem Walk.not_zeroLength {l l' : Loop σ} {exit : Exit} (h : Walk inject ev buf l l' exit)
    {fs : List (Frame UInt8)} {r : List UInt8} (hcut : ofpFraming.Cuts (l.rest buf) fs r) :
    exit ≠ .zeroLength := by
  induction h generalizing fs with
  | finished _ => simp
  | @zeroLength l hhdr hzero =>
    cases hcut with
    | stuck hstuck => rcases hstuck with h | h <;> omega
    | frame _ hpos _ _ => omega
  | incomplete _ _ => simp
  | returned _ _ hfw =>
    obtain ⟨-, -, h⟩ := Loop.sent_snd_eq_some hfw
    rcases h with rfl | rfl <;> simp
  | @round l l' x exit hat _ _ _ ih =>
    cases hcut with
    | stuck hstuck => exact absurd hstuck (Discipline.not_stuck hat.header hat.whole)
    | frame _ _ _ hrest => exact ih (by simpa [Loop.rest, List.drop_drop] using hrest)

end Walk

/-! ## The callback around the loop -/

section Call

variable {σ : Type} (inject : Inject σ) (st : Flow σ) (ev : ReadEvent)

/-- What the stream holds when the callback looks at it. -/
def Flow.pending : List UInt8 := st.msg.bytes ++ (st.input ++ ev.chunk)

/-- The frame loop at its start. -/
def Flow.enter : Loop σ := ⟨0, ev.dupCount, st.evBuf, st.output, st.env, [], 0⟩

/-- The callback gets to its frame loop. -/
def Flow.Looks : Prop :=
  (makeRoom st.msg (st.input ++ ev.chunk).length ev.realloc).isSome ∧
    ofpHeaderBytes ≤ (st.pending ev).length ∧ ev.peerOpen = true

/-- `Call inject st ev st' r`: a call of `on_flow_read` leads from `st` to `st'` and reports `r`. -/
inductive Call : Flow σ → Report → Prop
  | noMemory (hroom : makeRoom st.msg (st.input ++ ev.chunk).length ev.realloc = none) :
      Call { st with input := st.input ++ ev.chunk } ⟨.noMemory, [], none⟩
  | early {s : StreamT} {st' : Flow σ} {exit : Exit}
      (hroom : makeRoom st.msg (st.input ++ ev.chunk).length ev.realloc = some s)
      (hexit : (exit = .short ∧ (st.pending ev).length < ofpHeaderBytes) ∨
        (exit = .pairClosed ∧ ev.peerOpen = false))
      (hbytes : st'.msg.bytes = st.pending ev) (hcap : st'.msg.cap = s.cap)
      (hinput : st'.input = []) : Call st' ⟨exit, [], none⟩
  | shifted {s : StreamT} {st' : Flow σ} {l : Loop σ} {exit : Exit} (hlook : st.Looks ev)
      (hroom : makeRoom st.msg (st.input ++ ev.chunk).length ev.realloc = some s)
      (hwalk : Walk inject ev (st.pending ev) (st.enter ev) l exit)
      (hexit : exit = .incomplete ∨ exit = .finished)
      (hbytes : st'.msg.bytes = (st.pending ev).drop l.lenProcessed) (hcap : st'.msg.cap = s.cap)
      (hinput : st'.input = []) :
      Call st' ⟨exit, l.handed,
        if 0 < l.lenProcessed then some (l.lenProcessed, (st.pending ev).length) else none⟩
  | kept {s : StreamT} {st' : Flow σ} {l : Loop σ} {exit : Exit} (hlook : st.Looks ev)
      (hroom : makeRoom st.msg (st.input ++ ev.chunk).length ev.realloc = some s)
      (hwalk : Walk inject ev (st.pending ev) (st.enter ev) l exit)
      (hexit : ¬ (exit = .incomplete ∨ exit = .finished))
      (hbytes : st'.msg.bytes = st.pending ev) (hcap : st'.msg.cap = s.cap)
      (hinput : st'.input = []) : Call st' ⟨exit, l.handed, none⟩

end Call

section Call

variable {σ : Type} {inject : Inject σ} {st st' : Flow σ} {ev : ReadEvent} {r : Report}

/-- Leaving the loop: what is shifted out, and that the block keeps its size. -/
lemma leave_shift {l : Loop σ} {exit : Exit} (hrun : leave st l exit = .ok (st', r)) :
    r = ⟨exit, l.handed, if (exit = .incomplete ∨ exit = .finished) ∧ 0 < l.lenProcessed then
      some (l.lenProcessed, st.msg.len) else none⟩ ∧ st'.msg.cap = st.msg.cap := by
  unfold leave at hrun
  by_cases hshift : (exit = .incomplete ∨ exit = .finished) ∧ l.lenProcessed > 0
  · simp only [if_pos hshift] at hrun
    obtain ⟨m, hm, hrun⟩ := Runs.bind_eq_ok.mp hrun
    by_cases hle : l.lenProcessed ≤ st.msg.len
    · obtain ⟨m', hm', -, -, hcap⟩ := streamLeftShift_ok hle
      obtain rfl := Except.ok.inj (hm.symm.trans hm')
      cases hrun
      exact ⟨by rw [if_pos hshift], hcap⟩
    · rw [streamLeftShift, if_neg hle] at hm
      cases hm
  · simp only [if_neg hshift] at hrun
    cases hrun
    exact ⟨by rw [if_neg hshift], rfl⟩

/-- The bytes of the `evbuffer` in the stream: what it holds then, in a block of the same size. -/
lemma fill_cap {s m : StreamT} {input : List UInt8} (h : streamFill s input = .ok m) :
    m.cap = s.cap ∧ m.len = s.len + input.length := by
  by_cases hle : s.len + input.length ≤ s.cap
  · obtain ⟨m', hm', -, hlen, hcap⟩ := streamFill_ok hle
    obtain rfl := Except.ok.inj (h.symm.trans hm')
    exact ⟨hcap, hlen⟩
  · rw [streamFill, dif_neg hle] at h
    cases h

/-- **What a call of `on_flow_read` does.** -/
theorem onFlowRead_cases (hrun : onFlowRead inject st ev = .ok (st', r)) :
    Call inject st ev st' r := by
  cases hroom : makeRoom st.msg (st.input ++ ev.chunk).length ev.realloc with
  | none =>
    rw [onFlowRead_noMemory hroom] at hrun
    cases hrun
    exact .noMemory hroom
  | some s =>
    obtain ⟨m, hfill, hbytes⟩ := fill_room hroom
    obtain ⟨hcap, -⟩ := fill_cap hfill
    have hlen : m.len = (st.pending ev).length := by
      rw [← StreamT.length_bytes, hbytes]
      rfl
    have hpend : m.bytes = st.pending ev := hbytes
    simp only [onFlowRead, hroom, hfill, Runs.ok_bind, handleInput] at hrun
    by_cases hshort : m.len < ofpHeaderBytes
    · rw [if_pos hshort] at hrun
      cases hrun
      exact .early hroom (Or.inl ⟨rfl, hlen ▸ hshort⟩) hpend hcap rfl
    rw [if_neg hshort] at hrun
    by_cases hclosed : ev.peerOpen = false
    · rw [if_pos hclosed] at hrun
      cases hrun
      exact .early hroom (Or.inr ⟨rfl, hclosed⟩) hpend hcap rfl
    rw [if_neg hclosed] at hrun
    have hlook : st.Looks ev := ⟨by rw [hroom]; rfl, by rw [← hlen]; exact Nat.not_lt.mp hshort,
      Bool.eq_true_of_not_eq_false hclosed⟩
    obtain ⟨⟨l, exit⟩, hloop, hleave⟩ := Runs.bind_eq_ok.mp hrun
    have hle := frameLoop_le hloop (Nat.zero_le _)
    rw [StreamT.length_bytes] at hle
    rw [hpend] at hloop
    have hwalk : Walk inject ev (st.pending ev) (st.enter ev) l exit :=
      frameLoop_walk hloop (by rw [hlen]; simp [Loop.rest, List.length_drop])
    obtain ⟨hr, hcap'⟩ := leave_shift hleave
    obtain ⟨st₂, r₂, hleave₂, -, -, hinput, -, -, -, hshift, hkeep⟩ :=
      @leave_ok _ { st with msg := m, input := [] } l exit hle
    simp only at hleave
    rw [hleave] at hleave₂
    cases hleave₂
    simp only at hr hcap' hinput hshift hkeep
    rw [hr]
    by_cases hexit : exit = .incomplete ∨ exit = .finished
    · simp only [hexit, true_and, hlen]
      exact .shifted hlook hroom hwalk hexit (by rw [hshift hexit, hpend]) (hcap'.trans hcap) hinput
    · simp only [hexit, false_and, if_false]
      exact .kept hlook hroom hwalk hexit (by rw [hkeep hexit, hpend]) (hcap'.trans hcap) hinput

end Call

end Mproxy
