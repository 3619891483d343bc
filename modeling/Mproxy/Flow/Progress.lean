import Mathlib.Algebra.BigOperators.Group.List.Basic
import Mathlib.Data.List.Pairwise
import Mproxy.Flow.Delivery
import Mproxy.Flow.Walk

set_option relaxedAutoImplicit false
set_option autoImplicit false

/-!
# Progress of a session

The frame loop keeps its progress in a local variable, and only two of its exits shift what was
processed out of the stream. A ledger records where in the received stream the frames lie that were
handed over, and how much was shifted out. Whether bytes are handed over twice, and whether a shift
copies between overlapping regions, can then be read off the ledger.

## Main definitions

* `Mproxy.Ledger`, `Mproxy.ledgerStep` — the ledger of a client, and one callback in it.
* `Mproxy.Ledger.OnceOnly` — no byte was handed over twice, nor will be.
* `Mproxy.Interrupts`, `Mproxy.Overlaps` — the callbacks after which this is not so, and those that
  shift by less than they keep.

## Main results

* `Mproxy.ledger_accounts` — the ledger says where the frames are.
* `Mproxy.session_once_only_iff` — no byte is handed over twice exactly if no callback is
  interrupted.
* `Mproxy.session_shift_disjoint_iff` — the shifts are as `memcpy` requires exactly if no callback
  keeps more than it has processed.
-/

namespace Mproxy

open Framing

/-- Frames handed over one behind the other, each with the position where it starts. -/
def placed : ℕ → List (Frame UInt8) → List (ℕ × Frame UInt8)
  | _, [] => []
  | p, f :: fs => (p, f) :: placed (p + f.len) fs

/-- What is known of a client after some callbacks. -/
structure Ledger (σ : Type) where
  flow : Flow σ
  /-- the bytes received -/
  received : List UInt8
  /-- how many of them were shifted out of the stream -/
  shiftedOut : ℕ
  /-- the frames handed over, with their positions in the received bytes -/
  handed : List (ℕ × Frame UInt8)
  /-- the `size` and `len` of the calls of `stream_left_shift` -/
  shifts : List (ℕ × ℕ)

/-- The ledger of a client that was just initialised. -/
def Ledger.start {σ : Type} (fresh : ℕ → UInt8) (env : σ) : Ledger σ where
  flow := ⟨streamNew defaultStreamLen fresh, [], [], [], env⟩
  received := []
  shiftedOut := 0
  handed := []
  shifts := []

/-- One read event. The stream starts with the first byte that was not shifted out, and the frame
loop at the start of the stream. -/
def ledgerStep {σ : Type} (inject : Inject σ) (s : Ledger σ) (ev : ReadEvent) :
    Except Fault (Ledger σ) := do
  let (flow, r) ← onFlowRead inject s.flow ev
  .ok
    { flow := flow
      received := s.received ++ ev.chunk
      shiftedOut := s.shiftedOut + (r.shift.map Prod.fst).getD 0
      handed := s.handed ++ placed s.shiftedOut r.handed
      shifts := s.shifts ++ r.shift.toList }

/-- Two frames that have no byte in common. -/
def Apart (p q : ℕ × Frame UInt8) : Prop :=
  ∀ n, ¬ ((p.1 ≤ n ∧ n < p.1 + p.2.len) ∧ q.1 ≤ n ∧ n < q.1 + q.2.len)

namespace Ledger

variable {σ : Type}

/-- No byte was handed over twice, and the stream holds only bytes that were not handed over. -/
def OnceOnly (s : Ledger σ) : Prop :=
  s.handed.Pairwise Apart ∧ ∀ p ∈ s.handed, p.1 + p.2.len ≤ s.shiftedOut

/-- The positions are those in the received bytes. -/
structure Accounts (s : Ledger σ) : Prop where
  stream : s.shiftedOut ≤ s.received.length ∧
    s.received.drop s.shiftedOut = s.flow.msg.bytes ++ s.flow.input
  frames : ∀ p ∈ s.handed, p.1 + p.2.len ≤ s.received.length ∧
    p.2.body = (s.received.drop p.1).take p.2.len

/-- Every shift copied between disjoint regions. -/
def ShiftsApart (s : Ledger σ) : Prop := ∀ q ∈ s.shifts, q.2 - q.1 ≤ q.1

end Ledger

section Conditions

variable {σ : Type} (inject : Inject σ)

/-- The callback leaves its frame loop with frames handed over that stay in the stream. -/
def Interrupts (st : Flow σ) (ev : ReadEvent) : Prop :=
  st.Looks ev ∧ Interrupted inject ev (st.pending ev) (st.enter ev)

/-- The callback goes through all frames of the stream, and the rest is longer than they are. -/
def Overlaps (st : Flow σ) (ev : ReadEvent) : Prop :=
  st.Looks ev ∧ ¬ Interrupted inject ev (st.pending ev) (st.enter ev) ∧
    ∃ fs r, ofpFraming.Cuts (st.pending ev) fs r ∧ fs ≠ [] ∧
      (st.pending ev).length - r.length < r.length

end Conditions

/-! ## Positions -/

/-- The frames lie behind one another, from the position of the first one on. -/
lemma placed_bounds {p : ℕ} {fs : List (Frame UInt8)} :
    ∀ q ∈ placed p fs, p ≤ q.1 ∧ q.1 + q.2.len ≤ p + (fs.map Frame.len).sum := by
  induction fs generalizing p with
  | nil => simp [placed]
  | cons f fs ih =>
    intro q hq
    rw [List.map_cons, List.sum_cons]
    rcases List.mem_cons.mp hq with rfl | hq
    · exact ⟨le_rfl, by simp only; omega⟩
    · have := ih q hq
      omega

/-- Frames that lie behind one another have no byte in common. -/
lemma placed_apart (p : ℕ) (fs : List (Frame UInt8)) : (placed p fs).Pairwise Apart := by
  induction fs generalizing p with
  | nil => exact List.Pairwise.nil
  | cons f fs ih =>
    refine List.pairwise_cons.mpr ⟨fun q hq n hn => ?_, ih _⟩
    have := (placed_bounds q hq).1
    simp only at hn
    omega

section Walk

variable {σ : Type} {inject : Inject σ} {ev : ReadEvent} {buf : List UInt8}

/-- Frames of positive length that together have no length are none. -/
lemma nil_of_sum_len {fs : List (Frame UInt8)} (hpos : ∀ f ∈ fs, 0 < f.len)
    (hsum : (fs.map Frame.len).sum = 0) : fs = [] := by
  cases fs with
  | nil => rfl
  | cons f fs =>
    have := hpos f List.mem_cons_self
    rw [List.map_cons, List.sum_cons] at hsum
    omega

/-- Where the frames lie that the loop hands over on its way. -/
lemma Walk.places {l l' : Loop σ} {exit : Exit} (h : Walk inject ev buf l l' exit) (p : ℕ) :
    ∃ fs, l'.handed = l.handed ++ fs ∧ ∀ q ∈ placed (p + l.lenProcessed) fs, ∃ o, q.1 = p + o ∧
      o + q.2.len ≤ buf.length ∧ q.2.body = (buf.drop o).take q.2.len := by
  have hone : ∀ l : Loop σ, l.AtFrame buf → ∃ o, p + l.lenProcessed = p + o ∧
      o + (ofpFraming.first (l.rest buf)).len ≤ buf.length ∧ (ofpFraming.first (l.rest buf)).body =
        (buf.drop o).take (ofpFraming.first (l.rest buf)).len := by
    intro l hat
    refine ⟨l.lenProcessed, rfl, ?_, Discipline.body_first _⟩
    have hwhole := hat.whole
    have hpos := hat.positive
    have hlen : (l.rest buf).length = buf.length - l.lenProcessed := l.length_rest
    simp only [Discipline.first]
    omega
  induction h with
  | finished _ => exact ⟨[], by simp, by simp [placed]⟩
  | zeroLength _ _ => exact ⟨[], by simp, by simp [placed]⟩
  | incomplete _ _ => exact ⟨[], by simp, by simp [placed]⟩
  | @returned l x exit hat _ _ =>
    refine ⟨[ofpFraming.first (l.rest buf)], by simp, fun q hq => ?_⟩
    obtain rfl := List.mem_singleton.mp hq
    exact hone l hat
  | @round l l' x exit hat _ _ _ ih =>
    obtain ⟨fs, hfs, hall⟩ := ih
    refine ⟨ofpFraming.first (l.rest buf) :: fs, by simp [hfs], fun q hq => ?_⟩
    rcases List.mem_cons.mp hq with rfl | hq
    · exact hone l hat
    · refine hall q ?_
      rwa [Loop.advance_lenProcessed, Loop.sent_lenProcessed, ← Nat.add_assoc]

/-- The exits of the loop. -/
lemma Walk.exit_cases {l l' : Loop σ} {exit : Exit} (h : Walk inject ev buf l l' exit) :
    (exit = .incomplete ∨ exit = .finished) ∨ exit = .zeroLength ∨ exit = .fdClosed ∨
      exit = .writeFailed := by
  induction h with
  | finished _ => simp
  | zeroLength _ _ => simp
  | incomplete _ _ => simp
  | returned _ _ hfw =>
    obtain ⟨-, -, h⟩ := Loop.sent_snd_eq_some hfw
    rcases h with rfl | rfl <;> simp
  | round _ _ _ _ ih => exact ih

end Walk

/-! ## The ledger -/

section Ledger

variable {σ : Type} {inject : Inject σ} {s s' : Ledger σ} {ev : ReadEvent}

/-- A step of the ledger is a call of `on_flow_read`. -/
lemma ledgerStep_call (hrun : ledgerStep inject s ev = .ok s') :
    ∃ flow r, Call inject s.flow ev flow r ∧ s' =
      { flow := flow
        received := s.received ++ ev.chunk
        shiftedOut := s.shiftedOut + (r.shift.map Prod.fst).getD 0
        handed := s.handed ++ placed s.shiftedOut r.handed
        shifts := s.shifts ++ r.shift.toList } := by
  obtain ⟨⟨flow, r⟩, hcall, hs'⟩ := Runs.bind_eq_ok.mp hrun
  exact ⟨flow, r, onFlowRead_cases hcall, (Except.ok.inj hs').symm⟩

/-- What the frame loop hands over from the start of the stream. -/
lemma Walk.enter_handed {l : Loop σ} {exit : Exit} {st : Flow σ}
    (h : Walk inject ev (st.pending ev) (st.enter ev) l exit) :
    (∀ f ∈ l.handed, 0 < f.len) ∧ l.lenProcessed ≤ (st.pending ev).length ∧
      (exit ≠ .fdClosed ∧ exit ≠ .writeFailed → l.lenProcessed = (l.handed.map Frame.len).sum) ∧
      (exit = .fdClosed ∨ exit = .writeFailed → l.handed ≠ []) := by
  obtain ⟨fs, hfs, hpos, hle, -, -, hexact, hsome⟩ := h.handed (Nat.zero_le _)
  obtain rfl : l.handed = fs := hfs
  refine ⟨hpos, hle, fun hexit => ?_, hsome⟩
  rw [hexact hexit]
  exact Nat.zero_add _

/-- The size of the shift at the end of the loop, where nothing is shifted if nothing was processed.
-/
lemma shift_size (l : Loop σ) (buf : List UInt8) :
    ((if 0 < l.lenProcessed then some (l.lenProcessed, buf.length) else none).map Prod.fst).getD 0 =
      l.lenProcessed := by
  split_ifs with hpos
  · rfl
  · exact (Nat.eq_zero_of_not_pos hpos).symm

/-- A callback without memory does not get to its frame loop. -/
lemma not_looks_of_none {st : Flow σ}
    (hroom : makeRoom st.msg (st.input ++ ev.chunk).length ev.realloc = none) : ¬ st.Looks ev := by
  rintro ⟨h, -⟩
  rw [hroom] at h
  cases h

/-- A callback that returns before its frame loop does not get to it. -/
lemma not_looks_of_early {st : Flow σ} {exit : Exit}
    (hexit : (exit = .short ∧ (st.pending ev).length < ofpHeaderBytes) ∨
      (exit = .pairClosed ∧ ev.peerOpen = false)) : ¬ st.Looks ev := by
  rintro ⟨-, hlen, hopen⟩
  rcases hexit with ⟨-, hshort⟩ | ⟨-, hclosed⟩
  · omega
  · rw [hopen] at hclosed
    cases hclosed

namespace Ledger.Accounts

/-- What the callback finds in the stream is what was received and not shifted out. -/
lemma pending (h : s.Accounts) (ev : ReadEvent) :
    (s.received ++ ev.chunk).drop s.shiftedOut = s.flow.pending ev := by
  rw [List.drop_append_of_le_length h.stream.1, h.stream.2, List.append_assoc]
  rfl

/-- The bytes that are received with a callback: those shifted out before, and those pending in
it. -/
lemma length_received (h : s.Accounts) (ev : ReadEvent) :
    (s.received ++ ev.chunk).length = s.shiftedOut + (s.flow.pending ev).length := by
  have hle := h.stream.1
  rw [← h.pending, List.length_drop, List.length_append]
  omega

/-- The frames that were handed over before stay where they are. -/
lemma old (h : s.Accounts) (ev : ReadEvent) : ∀ p ∈ s.handed,
    p.1 + p.2.len ≤ (s.received ++ ev.chunk).length ∧
      p.2.body = ((s.received ++ ev.chunk).drop p.1).take p.2.len := by
  intro p hp
  obtain ⟨hlen, hbody⟩ := h.frames p hp
  rw [List.length_append]
  refine ⟨by omega, ?_⟩
  rw [hbody, List.drop_append_of_le_length (by omega), List.take_append_of_le_length]
  rw [List.length_drop]
  omega

/-- The frames handed over by the callback lie where the ledger says. -/
lemma new (h : s.Accounts) {l : Loop σ} {exit : Exit}
    (hwalk : Walk inject ev (s.flow.pending ev) (s.flow.enter ev) l exit) :
    ∀ p ∈ placed s.shiftedOut l.handed, p.1 + p.2.len ≤ (s.received ++ ev.chunk).length ∧
      p.2.body = ((s.received ++ ev.chunk).drop p.1).take p.2.len := by
  intro p hp
  obtain ⟨fs, hfs, hall⟩ := hwalk.places s.shiftedOut
  obtain rfl : l.handed = fs := hfs
  obtain ⟨o, ho, hlen, hbody⟩ := hall p hp
  rw [h.length_received, ho, ← List.drop_drop, h.pending]
  exact ⟨by omega, hbody⟩

end Ledger.Accounts

/-- **The ledger says where the frames are**: one callback keeps it right. -/
lemma ledgerStep_accounts (hrun : ledgerStep inject s ev = .ok s') (h : s.Accounts) :
    s'.Accounts := by
  obtain ⟨flow, r, hcall, rfl⟩ := ledgerStep_call hrun
  have hlen := h.length_received ev
  have hboth : ∀ fs, (∀ p ∈ placed s.shiftedOut fs,
      p.1 + p.2.len ≤ (s.received ++ ev.chunk).length ∧
        p.2.body = ((s.received ++ ev.chunk).drop p.1).take p.2.len) →
      ∀ p ∈ s.handed ++ placed s.shiftedOut fs, p.1 + p.2.len ≤ (s.received ++ ev.chunk).length ∧
        p.2.body = ((s.received ++ ev.chunk).drop p.1).take p.2.len := by
    intro fs hfs p hp
    rcases List.mem_append.mp hp with hp | hp
    · exact h.old ev p hp
    · exact hfs p hp
  cases hcall with
  | noMemory hroom =>
    refine ⟨⟨by simp only [Option.map_none, Option.getD_none]; omega, ?_⟩,
      hboth [] (by simp [placed])⟩
    exact h.pending ev
  | early hroom hexit hbytes hcap hinput =>
    refine ⟨⟨by simp only [Option.map_none, Option.getD_none]; omega, ?_⟩,
      hboth [] (by simp [placed])⟩
    simp only [hbytes, hinput, List.append_nil]
    exact h.pending ev
  | kept hlook hroom hwalk hexit hbytes hcap hinput =>
    refine ⟨⟨by simp only [Option.map_none, Option.getD_none]; omega, ?_⟩, hboth _ (h.new hwalk)⟩
    simp only [hbytes, hinput, List.append_nil]
    exact h.pending ev
  | @shifted m _ l exit hlook hroom hwalk hexit hbytes hcap hinput =>
    have hsize := shift_size l (s.flow.pending ev)
    have hle := hwalk.enter_handed.2.1
    refine ⟨?_, hboth _ (h.new hwalk)⟩
    simp only [hsize, hbytes, hinput, List.append_nil]
    exact ⟨by omega, by rw [← List.drop_drop, h.pending]⟩

/-- **A callback keeps all bytes from being handed over twice exactly if it is not interrupted.** -/
lemma ledgerStep_once_only (hrun : ledgerStep inject s ev = .ok s') (h : s.OnceOnly) :
    s'.OnceOnly ↔ ¬ Interrupts inject s.flow ev := by
  obtain ⟨flow, r, hcall, rfl⟩ := ledgerStep_call hrun
  cases hcall with
  | noMemory hroom =>
    exact iff_of_true (by simpa [placed, Ledger.OnceOnly] using h) fun hint =>
      not_looks_of_none hroom hint.1
  | early hroom hexit hbytes hcap hinput =>
    exact iff_of_true (by simpa [placed, Ledger.OnceOnly] using h) fun hint =>
      not_looks_of_early hexit hint.1
  | @shifted m _ l exit hlook hroom hwalk hexit hbytes hcap hinput =>
    have hsize := shift_size l (s.flow.pending ev)
    have hne : exit ≠ .fdClosed ∧ exit ≠ .writeFailed := by
      rcases hexit with rfl | rfl <;> simp
    obtain ⟨-, -, hsum, -⟩ := hwalk.enter_handed
    refine iff_of_true ?_ fun hint => ?_
    · simp only [Ledger.OnceOnly, hsize]
      refine ⟨List.pairwise_append.mpr ⟨h.1, placed_apart _ _, fun p hp q hq n hn => ?_⟩,
        fun p hp => ?_⟩
      · have := h.2 p hp
        have := (placed_bounds q hq).1
        omega
      · rcases List.mem_append.mp hp with hp | hp
        · have := h.2 p hp
          omega
        · have := (placed_bounds p hp).2
          rw [hsum hne]
          exact this
    · rcases hwalk.interrupted_iff.mp hint.2 with h' | h' | ⟨h', -⟩ <;>
        rcases hexit with rfl | rfl <;> cases h'
  | @kept m _ l exit hlook hroom hwalk hexit hbytes hcap hinput =>
    obtain ⟨hpos, -, hsum, hsome⟩ := hwalk.enter_handed
    have hcases := hwalk.exit_cases.resolve_left hexit
    have hint : Interrupts inject s.flow ev ↔ l.handed ≠ [] := by
      rw [Interrupts, and_iff_right hlook, hwalk.interrupted_iff]
      constructor
      · rintro (rfl | rfl | ⟨rfl, hlp⟩)
        · exact hsome (Or.inl rfl)
        · exact hsome (Or.inr rfl)
        · rintro hnil
          rw [hsum (by simp), hnil] at hlp
          exact absurd hlp (by simp)
      · intro hne
        rcases hcases with rfl | rfl | rfl
        · refine Or.inr (Or.inr ⟨rfl, Nat.pos_of_ne_zero fun hzero => hne ?_⟩)
          exact nil_of_sum_len hpos ((hsum (by simp)).symm.trans hzero)
        · exact Or.inl rfl
        · exact Or.inr (Or.inl rfl)
    rw [hint, not_not]
    constructor
    · intro honce
      by_contra hne
      obtain ⟨f, fs, hfs⟩ := List.exists_cons_of_ne_nil hne
      have hmem : (s.shiftedOut, f) ∈ s.handed ++ placed s.shiftedOut l.handed := by
        rw [hfs]
        exact List.mem_append_right _ List.mem_cons_self
      have hlast := honce.2 _ hmem
      have := hpos f (by rw [hfs]; exact List.mem_cons_self)
      simp only [Option.map_none, Option.getD_none] at hlast
      omega
    · intro hnil
      simpa [hnil, placed, Ledger.OnceOnly] using h

/-- **A callback shifts as `memcpy` requires exactly if it does not keep more than it has
processed.** -/
lemma ledgerStep_shifts_apart (hrun : ledgerStep inject s ev = .ok s') (h : s.ShiftsApart) :
    s'.ShiftsApart ↔ ¬ Overlaps inject s.flow ev := by
  obtain ⟨flow, r, hcall, rfl⟩ := ledgerStep_call hrun
  cases hcall with
  | noMemory hroom =>
    exact iff_of_true (by simpa [Ledger.ShiftsApart] using h) fun hov =>
      not_looks_of_none hroom hov.1
  | early hroom hexit hbytes hcap hinput =>
    exact iff_of_true (by simpa [Ledger.ShiftsApart] using h) fun hov =>
      not_looks_of_early hexit hov.1
  | @kept m _ l exit hlook hroom hwalk hexit hbytes hcap hinput =>
    refine iff_of_true (by simpa [Ledger.ShiftsApart] using h) ?_
    rintro ⟨-, hnot, fs, r, hcut, -⟩
    refine hnot (hwalk.interrupted_iff.mpr ?_)
    rcases hwalk.exit_cases.resolve_left hexit with rfl | rfl | rfl
    · exact absurd rfl (hwalk.not_zeroLength hcut)
    · exact Or.inl rfl
    · exact Or.inr (Or.inl rfl)
  | @shifted m _ l exit hlook hroom hwalk hexit hbytes hcap hinput =>
    have hne : exit ≠ .fdClosed ∧ exit ≠ .writeFailed := by
      rcases hexit with rfl | rfl <;> simp
    obtain ⟨hpos, hle, hsum, -⟩ := hwalk.enter_handed
    have hsum := hsum hne
    obtain ⟨fs, hfs, hcut⟩ := hwalk.cuts hexit
    obtain rfl : l.handed = fs := hfs
    have hcut : ofpFraming.Cuts (s.flow.pending ev) l.handed
        ((s.flow.pending ev).drop l.lenProcessed) := hcut
    have hnot : ¬ Interrupted inject ev (s.flow.pending ev) (s.flow.enter ev) := fun hint => by
      rcases hwalk.interrupted_iff.mp hint with h' | h' | ⟨h', -⟩ <;>
        rcases hexit with rfl | rfl <;> cases h'
    have hov : Overlaps inject s.flow ev ↔
        0 < l.lenProcessed ∧ l.lenProcessed < (s.flow.pending ev).length - l.lenProcessed := by
      rw [Overlaps, and_iff_right hlook, and_iff_right hnot]
      have hdrop : ((s.flow.pending ev).drop l.lenProcessed).length =
          (s.flow.pending ev).length - l.lenProcessed := List.length_drop
      constructor
      · rintro ⟨fs, r, hcut', hsome, hlt⟩
        obtain ⟨rfl, rfl⟩ := hcut.unique hcut'
        refine ⟨Nat.pos_of_ne_zero fun hzero => hsome ?_, by omega⟩
        exact nil_of_sum_len hpos (hsum.symm.trans hzero)
      · rintro ⟨hlp, hlt⟩
        refine ⟨_, _, hcut, ?_, by omega⟩
        rintro hnil
        rw [hsum, hnil] at hlp
        exact absurd hlp (by simp)
    rw [hov]
    simp only [Ledger.ShiftsApart] at h ⊢
    by_cases hlp : 0 < l.lenProcessed
    · simp only [if_pos hlp, Option.toList_some]
      constructor
      · intro hall hbad
        have := hall (l.lenProcessed, (s.flow.pending ev).length) (by simp)
        simp only at this
        omega
      · intro hno q hq
        rcases List.mem_append.mp hq with hq | hq
        · exact h q hq
        · obtain rfl := List.mem_singleton.mp hq
          simp only
          omega
    · simp only [if_neg hlp, Option.toList_none, List.append_nil]
      exact iff_of_true h fun hbad => hlp hbad.1

end Ledger

/-! ## Sessions -/

section Sessions

variable {σ : Type} (inject : Inject σ) (fresh : ℕ → UInt8) (env : σ)

/-- The ledger of a fresh client is right, and nothing was handed over. -/
lemma Ledger.start_accounts : (Ledger.start fresh env).Accounts :=
  ⟨⟨le_rfl, rfl⟩, by simp [Ledger.start]⟩

/-- **The ledger says where the frames are**, in every run. -/
theorem ledger_accounts {evs : List ReadEvent} {s : Ledger σ}
    (hrun : Runs.run (ledgerStep inject) (.start fresh env) evs = .ok s) : s.Accounts := by
  have hstep : ∀ (s : Ledger σ) (ev : ReadEvent) (s' : Ledger σ), s.Accounts → True →
      ledgerStep inject s ev = .ok s' → s'.Accounts := fun _ _ _ h _ hs => ledgerStep_accounts hs h
  exact Runs.invariant hstep (Ledger.start_accounts fresh env) (fun _ _ => trivial) hrun

/-- **No byte is handed over twice exactly if no callback is interrupted.** For every function in
the place of `action_inject` and every run of read events, whatever the callbacks run into: the
ledger says where in the received bytes the stream starts and the frames lie that were handed over.
In all states the run gets to, no two frames have a byte in common and all of them were shifted out,
exactly if no callback leaves its loop at a header of length `0` behind a frame, at a closed
descriptor or at a failed write.

**Proof sketch.** A callback that goes through its loop shifts out exactly what it handed over; the
others shift nothing, and if they handed over a frame it stays in the stream
(`ledgerStep_once_only`). -/
theorem session_once_only_iff (evs : List ReadEvent) :
    (∀ js s, js <+: evs → Runs.run (ledgerStep inject) (.start fresh env) js = .ok s →
      s.Accounts) ∧
    ((∀ js s, js <+: evs → Runs.run (ledgerStep inject) (.start fresh env) js = .ok s →
        s.OnceOnly) ↔
      Runs.Along (ledgerStep inject) (fun s ev => ¬ Interrupts inject s.flow ev)
        (.start fresh env) evs) := by
  refine ⟨fun js s _ hrun => ledger_accounts inject fresh env hrun, ?_⟩
  exact Runs.along_iff (fun s ev s' h hrun => ledgerStep_once_only hrun h)
    ⟨List.Pairwise.nil, by simp [Ledger.start]⟩ evs

/-- A message, and behind it a header of length `0`: the next callback hands the message over, and
forwards it, once more. -/
theorem session_hands_over_twice :
    ∃ s, Runs.run (ledgerStep (tableInject Loci.lenient Tables.zero fun _ => 0))
        (.start (fun _ => 0) 0)
        [.plain [1, 0, 0, 8, 0, 0, 0, 1, 1, 0, 0, 0, 0, 0, 0, 0], .plain [1]] = .ok s ∧
      s.handed = [(0, .whole [1, 0, 0, 8, 0, 0, 0, 1]), (0, .whole [1, 0, 0, 8, 0, 0, 0, 1])] ∧
      s.flow.output = [1, 0, 0, 8, 0, 0, 0, 1, 1, 0, 0, 8, 0, 0, 0, 1] ∧ ¬ s.OnceOnly := by
  have heval : (Runs.run (ledgerStep (tableInject Loci.lenient Tables.zero fun _ => 0))
      (.start (fun _ => 0) 0)
      [.plain [1, 0, 0, 8, 0, 0, 0, 1, 1, 0, 0, 0, 0, 0, 0, 0], .plain [1]]).toOption.map
        (fun s => (s.handed, s.flow.output)) =
      some ([(0, .whole [1, 0, 0, 8, 0, 0, 0, 1]), (0, .whole [1, 0, 0, 8, 0, 0, 0, 1])],
        [1, 0, 0, 8, 0, 0, 0, 1, 1, 0, 0, 8, 0, 0, 0, 1]) := by
    decide +kernel
  obtain ⟨s, hs, hfields⟩ := Option.map_eq_some_iff.mp heval
  obtain ⟨hhanded, houtput⟩ := Prod.mk.inj hfields
  refine ⟨s, Runs.ok_of_toOption hs, hhanded, houtput, fun honce => ?_⟩
  have hapart := honce.1
  rw [hhanded] at hapart
  exact (List.pairwise_cons.mp hapart).1 _ List.mem_cons_self 0 (by decide)

/-- **The shifts are as `memcpy` requires exactly if no callback keeps more than it has processed.**
For every function in the place of `action_inject` and every run of read events: in all states the
run gets to, every call of `stream_left_shift` was for at least half of the bytes in use, exactly if
no callback goes through its loop to a rest that is longer than the frames before it.

**Proof sketch.** The shift is at the end of a loop that has cut the stream, and moves the rest of
the cut by the length of its frames (`ledgerStep_shifts_apart`). -/
theorem session_shift_disjoint_iff (evs : List ReadEvent) :
    (∀ js s, js <+: evs → Runs.run (ledgerStep inject) (.start fresh env) js = .ok s →
        s.ShiftsApart) ↔
      Runs.Along (ledgerStep inject) (fun s ev => ¬ Overlaps inject s.flow ev)
        (.start fresh env) evs :=
  Runs.along_iff (fun _ _ _ h hrun => ledgerStep_shifts_apart hrun h) (by simp [Ledger.ShiftsApart,
    Ledger.start]) evs

/-- A message of `8` bytes and the first `9` bytes of a message of `32`: the `9` bytes are moved by
`8`. -/
theorem session_shift_overlaps :
    ∃ s, Runs.run (ledgerStep (tableInject Loci.lenient Tables.zero fun _ => 0))
        (.start (fun _ => 0) 0)
        [.plain [1, 0, 0, 8, 0, 0, 0, 1, 1, 0, 0, 32, 0, 0, 0, 2, 9]] = .ok s ∧
      s.shifts = [(8, 17)] ∧ ¬ s.ShiftsApart := by
  have heval : (Runs.run (ledgerStep (tableInject Loci.lenient Tables.zero fun _ => 0))
      (.start (fun _ => 0) 0)
      [.plain [1, 0, 0, 8, 0, 0, 0, 1, 1, 0, 0, 32, 0, 0, 0, 2, 9]]).toOption.map
        Ledger.shifts = some [(8, 17)] := by
    decide +kernel
  obtain ⟨s, hs, hshifts⟩ := Option.map_eq_some_iff.mp heval
  refine ⟨s, Runs.ok_of_toOption hs, hshifts, fun hapart => ?_⟩
  exact absurd (hapart (8, 17) (by rw [hshifts]; exact List.mem_cons_self)) (by decide)

end Sessions

end Mproxy
