import Mproxy.Flow.Faults
import Mproxy.Flow.Progress

set_option relaxedAutoImplicit false
set_option autoImplicit false

/-!
# The size of the stream

A stream is only ever expanded, by as much as arrives and not to what is needed. Still its block
stays bounded: between two callbacks the stream holds less than one message, which is at most what a
length field of 16 bits can announce, and the block is expanded only if what arrives does not fit
behind that.

## Main definitions

* `Mproxy.Exit.IsError` — the exits that give up.
* `Mproxy.Flow.Bounded` — the invariant of the stream between two callbacks.

## Main results

* `Mproxy.makeRoom_bounded` — room for `n` bytes is made in a bounded block.
* `Mproxy.session_bounded` — the bounds in every run without an error return.
-/

namespace Mproxy

open Framing

/-- The exits with an error message. -/
def Exit.IsError : Exit → Prop
  | .noMemory | .pairClosed | .zeroLength | .fdClosed | .writeFailed => True
  | .short | .incomplete | .finished => False

instance (exit : Exit) : Decidable exit.IsError := by
  cases exit <;> unfold Exit.IsError <;> infer_instance

/-- The bound on the block of a stream whose events deliver at most `b` bytes each. -/
def capBound (b : ℕ) : ℕ := max defaultStreamLen (65534 + 2 * b)

/-- The stream between two callbacks. -/
structure Flow.Bounded {σ : Type} (b : ℕ) (st : Flow σ) : Prop where
  input : st.input = []
  len : st.msg.len ≤ 65534
  cap : st.msg.cap ≤ capBound b

/-- Room for at most `b` bytes is made in a bounded block. -/
lemma makeRoom_bounded {s m : StreamT} {n b : ℕ} {realloc : Option (ℕ → UInt8)}
    (h : makeRoom s n realloc = some m) (hn : n ≤ b) (hlen : s.len ≤ 65534)
    (hcap : s.cap ≤ capBound b) : m.len + n ≤ m.cap ∧ m.cap ≤ capBound b := by
  refine ⟨(makeRoom_some h).2.2, ?_⟩
  have hle := s.len_le_cap
  unfold makeRoom at h
  split_ifs at h with hroom
  · obtain ⟨-, -, hc⟩ := streamExpand_some h
    unfold capBound
    omega
  · obtain rfl := Option.some.inj h
    exact hcap

/-- A length field of 16 bits announces at most `65535` bytes. -/
lemma announced_le (s : List UInt8) : ofpFraming.announced s ≤ 65535 := by
  have := (ofpMsgLen s).toNat_lt
  change (ofpMsgLen s).toNat ≤ 65535
  omega

section Callback

variable {σ : Type} {inject : Inject σ} {st st' : Flow σ} {ev : ReadEvent} {r : Report}

/-- A shift is for at most what the stream holds. -/
lemma Call.shift_le (h : Call inject st ev st' r) {n len : ℕ} (hshift : r.shift = some (n, len)) :
    n ≤ len := by
  cases h with
  | noMemory _ => cases hshift
  | early _ _ _ _ _ => cases hshift
  | kept _ _ _ _ _ _ _ => cases hshift
  | shifted _ _ hwalk _ _ _ _ =>
    simp only at hshift
    split_ifs at hshift
    obtain ⟨rfl, rfl⟩ := Prod.mk.inj (Option.some.inj hshift)
    exact hwalk.enter_handed.2.1

/-- **A callback without an error return keeps the stream bounded.** -/
lemma Call.bounded {b : ℕ} (h : Call inject st ev st' r) (hst : st.Bounded b)
    (hev : ev.chunk.length ≤ b) (hexit : ¬ r.exit.IsError) : st'.Bounded b := by
  have hn : (st.input ++ ev.chunk).length ≤ b := by
    rw [hst.input]
    exact hev
  cases h with
  | noMemory _ => exact absurd trivial hexit
  | @early m _ exit hroom hcase hbytes hcap hinput =>
    refine ⟨hinput, ?_, by rw [hcap]; exact (makeRoom_bounded hroom hn hst.len hst.cap).2⟩
    rw [← StreamT.length_bytes, hbytes]
    rcases hcase with ⟨-, hshort⟩ | ⟨rfl, -⟩
    · unfold ofpHeaderBytes at hshort
      omega
    · exact absurd trivial hexit
  | @shifted m _ l exit _ hroom hwalk hcase hbytes hcap hinput =>
    refine ⟨hinput, ?_, by rw [hcap]; exact (makeRoom_bounded hroom hn hst.len hst.cap).2⟩
    obtain ⟨fs, -, hcut⟩ := hwalk.cuts hcase
    have hdr : ofpFraming.hdr = 8 := rfl
    have hann := announced_le (l.rest (st.pending ev))
    rw [← StreamT.length_bytes, hbytes]
    change (l.rest (st.pending ev)).length ≤ 65534
    rcases hcut.stuck_rest with h | h <;> omega
  | kept _ _ hwalk hcase _ _ _ =>
    rcases hwalk.exit_cases.resolve_left hcase with rfl | rfl | rfl <;> exact absurd trivial hexit

end Callback

/-- The stream of a fresh client is bounded. -/
lemma start_bounded {σ : Type} (fresh : ℕ → UInt8) (env : σ) (b : ℕ) :
    (Session.start fresh env).flow.Bounded b where
  input := rfl
  len := Nat.zero_le _
  cap := by
    have hcap : (Session.start fresh env).flow.msg.cap = defaultStreamLen := streamNew_cap _ _
    rw [hcap]
    exact le_max_left _ _

/-- A run in which no callback takes an error return keeps the stream bounded. -/
lemma run_bounded {σ : Type} {inject : Inject σ} {b : ℕ} {s s' : Session σ} {evs : List ReadEvent}
    (hevs : ∀ ev ∈ evs, ev.chunk.length ≤ b)
    (hrun : Runs.run (sessionStep inject) s evs = .ok s')
    (hexits : ∀ exit ∈ s'.exits, ¬ exit.IsError) (hs : s.flow.Bounded b) : s'.flow.Bounded b := by
  induction evs generalizing s with
  | nil =>
    obtain rfl : s = s' := by simpa using hrun
    exact hs
  | cons ev evs ih =>
    obtain ⟨s₁, hstep, hrun⟩ := Runs.bind_eq_ok.mp hrun
    obtain ⟨es, hes⟩ := (session_received hrun).2
    obtain ⟨⟨flow, r⟩, hcall, hs₁⟩ := Runs.bind_eq_ok.mp hstep
    obtain rfl := Except.ok.inj hs₁
    refine ih (fun e he => hevs e (List.mem_cons_of_mem ev he)) hrun ?_
    refine (onFlowRead_cases hcall).bounded hs (hevs ev List.mem_cons_self) (hexits r.exit ?_)
    rw [hes]
    simp

/-- **The stream of a long-lived connection stays bounded and consistent.** For every function in
the place of `action_inject` and every run of read events that deliver at most `b` bytes each: a
fault of the run is one that this function raised. If no callback took an error return, the stream
then holds at most `65534` bytes, in a block of at most `max 512 (65534 + 2 * b)`; in the next
callback what arrives fits into the block, which is still within this bound, and, unless
`action_inject` faults, `stream_left_shift` is called with a `size` up to `len`.

**Proof sketch.** The rest of a cut is shorter than a header or than what its header announces, and
the block is expanded by `n` only if `n` bytes do not fit behind it (`makeRoom_bounded`). -/
theorem session_bounded {σ : Type} (inject : Inject σ) (fresh : ℕ → UInt8) (env : σ) (b : ℕ)
    (evs : List ReadEvent) (hevs : ∀ ev ∈ evs, ev.chunk.length ≤ b) :
    (∀ e, Runs.run (sessionStep inject) (.start fresh env) evs = .error e → Raises inject e) ∧
    ∀ s, Runs.run (sessionStep inject) (.start fresh env) evs = .ok s →
      (∀ exit ∈ s.exits, ¬ exit.IsError) →
        s.flow.msg.len ≤ s.flow.msg.cap ∧ s.flow.msg.len ≤ 65534 ∧
        s.flow.msg.cap ≤ max 512 (65534 + 2 * b) ∧
        ∀ ev : ReadEvent, ev.chunk.length ≤ b →
          (∀ m, makeRoom s.flow.msg (s.flow.input ++ ev.chunk).length ev.realloc = some m →
            m.len + (s.flow.input ++ ev.chunk).length ≤ m.cap ∧
            m.cap ≤ max 512 (65534 + 2 * b)) ∧
          (∀ e, onFlowRead inject s.flow ev = .error e → Raises inject e) ∧
          ∀ st r, onFlowRead inject s.flow ev = .ok (st, r) →
            ∀ n len, r.shift = some (n, len) → n ≤ len := by
  refine ⟨fun e herr => ?_, fun s hrun hexits => ?_⟩
  · exact session_raises herr
  have hs := run_bounded hevs hrun hexits (start_bounded fresh env b)
  refine ⟨s.flow.msg.len_le_cap, hs.len, hs.cap, fun ev hev => ⟨fun m hm => ?_, fun e herr => ?_,
    fun st r hcall n len hshift => (onFlowRead_cases hcall).shift_le hshift⟩⟩
  · refine makeRoom_bounded hm ?_ hs.len hs.cap
    rw [hs.input]
    exact hev
  · exact onFlowRead_raises herr

/-- One message of `8` bytes, and the first `9` bytes of another one. -/
theorem session_bounded_two :
    ∃ s, Runs.run (sessionStep (tableInject Loci.lenient Tables.zero fun _ => 0))
        (.start (fun _ => 0) 0)
        [.plain [1, 0, 0, 8, 0, 0, 0, 7], .plain [1, 0, 0, 32, 0, 0, 0, 7, 9]] = .ok s ∧
      s.flow.msg.len = 9 ∧ s.flow.msg.len ≤ s.flow.msg.cap ∧ s.flow.msg.cap ≤ 65552 := by
  have heval : (Runs.run (sessionStep (tableInject Loci.lenient Tables.zero fun _ => 0))
      (.start (fun _ => 0) 0)
      [.plain [1, 0, 0, 8, 0, 0, 0, 7], .plain [1, 0, 0, 32, 0, 0, 0, 7, 9]]).toOption.map
        (fun s => (s.flow.msg.len, s.exits)) = some (9, [.finished, .incomplete]) := by
    decide +kernel
  obtain ⟨s, hs, hmap⟩ := Option.map_eq_some_iff.mp heval
  have hrun := Runs.ok_of_toOption hs
  obtain ⟨hlen, hexits⟩ := Prod.mk.inj hmap
  obtain ⟨hle, -, hcap, -⟩ := (session_bounded (tableInject Loci.lenient Tables.zero fun _ => 0)
    (fun _ => 0) 0 9 [.plain [1, 0, 0, 8, 0, 0, 0, 7], .plain [1, 0, 0, 32, 0, 0, 0, 7, 9]]
    (by decide)).2 s hrun (by rw [hexits]; decide)
  exact ⟨s, hrun, hlen, hle, hcap⟩

end Mproxy
