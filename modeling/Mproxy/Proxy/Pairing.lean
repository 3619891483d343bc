import Mproxy.Proxy.Clients

set_option relaxedAutoImplicit false
set_option autoImplicit false

/-!
# Pairs of clients

The two clients that a round of the listener creates forward to each other for as long as both are
there, and to nobody else, although each finds the other through a descriptor that may have been
handed out again, in a map that inserts what it does not find. This module states that as an
invariant of what there is between two steps.

## Main definitions

* `Mproxy.Client.Established` — a client whose `Client::init` succeeded.
* `Mproxy.System.Mates` — two clients that were created in the same round of the listener.
* `Mproxy.System.Paired` — the invariant.

## Main results

* `Mproxy.System.start_paired` — it holds at the start.
* `Mproxy.System.Paired.pair_found` — a client found in the place of the pair is the mate.
-/

namespace Mproxy

section Pairing

variable {σ : Type}

/-- A client whose `Client::init` succeeded. -/
structure Client.Established (c : Client) : Prop where
  evBase : c.evBase = true
  evBuf : ∃ bytes, c.evBuf = some bytes
  evEvent : ∃ input output, c.evEvent = .buffers input output
  buf : ∃ s, c.buf = some s

namespace System

variable {s : System σ} {p q : ClientPtr} {c : Client}

/-- The two clients were created in the same round of the listener. -/
def Mates (s : System σ) (p q : ClientPtr) : Prop := (p, q) ∈ s.pairs ∨ (q, p) ∈ s.pairs

/-- What holds between two steps. -/
structure Paired (s : System σ) : Prop where
  /-- what the map points to is a client that is there, under its descriptor -/
  mapped : ∀ f p, s.clientMap.find f = some (some p) → ∃ c, s.clients p = some c ∧ c.fd = f
  listed : ∀ p c, s.clients p = some c → s.clientMap.find c.fd = some (some p)
  opened : ∀ p c, s.clients p = some c → 0 ≤ c.fd ∧ s.isOpen c.fd = true
  established : ∀ p c, s.clients p = some c → c.Established
  /-- a client whose pair is not known to be closed finds its mate, which finds it -/
  mated : ∀ p c, s.clients p = some c → c.fwFd ≠ -1 → ∃ q d,
    s.clientMap.find c.fwFd = some (some q) ∧ s.clients q = some d ∧ d.fwFd = c.fd ∧ s.Mates p q
  running : ∀ p, p ∈ s.threads ↔ ∃ c, s.clients p = some c
  nodup : s.threads.Nodup
  old : ∀ p c, s.clients p = some c → p < s.next
  mates_old : ∀ p q, s.Mates p q → p < s.next
  mates_ne : ∀ p q, s.Mates p q → p ≠ q
  mates_unique : ∀ p q r, s.Mates p q → s.Mates p r → q = r

/-- The invariant holds at the start, where no client is there. -/
lemma start_paired (env : σ) : (start env : System σ).Paired where
  mapped := by simp [start]
  listed := by simp [start]
  opened := by simp [start]
  established := by simp [start]
  mated := by simp [start]
  running := by simp [start]
  nodup := List.nodup_nil
  old := by simp [start]
  mates_old := by simp [start, Mates]
  mates_ne := by simp [start, Mates]
  mates_unique := by simp [start, Mates]

namespace Paired

variable (h : s.Paired)

include h

/-- No two clients have the same descriptor. -/
lemma fd_inj {c d : Client} (hp : s.clients p = some c) (hq : s.clients q = some d)
    (hfd : c.fd = d.fd) : p = q := by
  have hp' := h.listed p c hp
  rw [hfd, h.listed q d hq] at hp'
  exact (Option.some.inj (Option.some.inj hp')).symm

/-- No client is found under a descriptor that is closed, or that is none. -/
lemma find_closed {f : ℤ} (hf : f < 0 ∨ s.isOpen f = false) (p : ClientPtr) :
    s.clientMap.find f ≠ some (some p) := by
  intro hfind
  obtain ⟨c, hc, rfl⟩ := h.mapped f p hfind
  obtain ⟨hpos, hopen⟩ := h.opened p c hc
  rcases hf with hf | hf
  · omega
  · rw [hopen] at hf
    cases hf

/-- The next client is not there yet. -/
lemma new_free : ∀ q, s.next ≤ q → s.clients q = none := by
  intro q hq
  cases hd : s.clients q with
  | none => rfl
  | some d => exact absurd (h.old q d hd) hq.not_gt

/-- Where no thread runs, no client is there. -/
lemma clients_none (hthreads : s.threads = []) (p : ClientPtr) : s.clients p = none := by
  cases hc : s.clients p with
  | none => rfl
  | some c =>
    have hrun := (h.running p).mpr ⟨c, hc⟩
    rw [hthreads] at hrun
    cases hrun

/-- A client that is found in the place of the pair is the mate, and finds the client. -/
lemma pair_found {d : Client} (hp : s.clients p = some c)
    (hfind : s.clientMap.find c.fwFd = some (some q)) (hq : s.clients q = some d) :
    d.fd = c.fwFd ∧ d.fwFd = c.fd ∧ s.Mates p q ∧ p ≠ q := by
  have hne : c.fwFd ≠ -1 := by
    intro hfw
    rw [hfw] at hfind
    exact h.find_closed (Or.inl (by decide)) q hfind
  obtain ⟨q', d', hfind', hq', hfw, hmates⟩ := h.mated p c hp hne
  rw [hfind] at hfind'
  obtain rfl := Option.some.inj (Option.some.inj hfind')
  rw [hq] at hq'
  obtain rfl := Option.some.inj hq'
  obtain ⟨d', hq', hfd⟩ := h.mapped _ q hfind
  rw [hq] at hq'
  obtain rfl := Option.some.inj hq'
  exact ⟨hfd, hfw, hmates, h.mates_ne p q hmates⟩

end Paired

end System

end Pairing

end Mproxy
