import Mproxy.OfVersion10
import Mproxy.Proxy.Blame

set_option relaxedAutoImplicit false
set_option autoImplicit false

/-!
# The process on messages of version `1.0`

With the validators for version `1.0` in place it can be said which traffic the process survives: a
message of this version is fatal for it only if it is not well formed. So clients that send
well-formed messages only never make it fault while `action_inject` gets memory, however their
messages are cut into chunks, whatever the tables make of them and in whatever order the clients are
served.

## Main results

* `Mproxy.fatal_of10_iff` — which frames of version `1.0` are fatal.
* `Mproxy.process_of10` — the process survives well-formed traffic.
-/

namespace Mproxy

open Framing

section Version10

variable {L : Loci} {T : Tables}

/-- The frame is a message of version `1.0`. -/
structure Spoken10 (f : Frame UInt8) : Prop where
  version : ofMessageVersionGet f.view = 1
  message : OfVersion10.IsMessage f.body

/-- Which frames of version `1.0` are fatal. -/
lemma fatal_of10_iff {f : Frame UInt8} (hlen : f.len ≤ f.view.length)
    (hver : ofMessageVersionGet f.view = 1) : Fatal L.of10 T f ↔
      ¬ HeaderRejected f ∧ ¬ Duplicated T f ∧ ¬ OfVersion10.IsMessage f.body := by
  have hsome := ofObjectNewFromMessage_of10_isSome (L := L) hlen hver
  rw [OfVersion10.wellFormed_iff] at hsome
  rw [Fatal, Frame.body, ← hsome, Option.not_isSome_iff_eq_none]

end Version10

/-- **The process survives well-formed traffic.** Take any sequence of rounds of the listener, read
events, deletions and rounds of housekeeping, in any order, in which no round of the listener frees
what was never set or comes to something that throws. Let every frame that a client has sent when it
is read from be a message of version `1.0`. Then no step faults while `action_inject` gets memory,
whatever the tables are, whatever `rand()` returns, and whatever the validators for the other
versions do: the run ends without a fault, or in a read event with a call that asks for memory, gets
none, and dereferences the null pointer.

**Proof sketch.** A step that faults is one that reads a fatal frame of its client, or has a starved
call for one (`alloc_fault_source`), and a message of version `1.0` is not fatal
(`fatal_of10_iff`). -/
theorem process_of10 (L : Loci) (T : Tables) (ρ : ℕ → ℕ) (μ : ℕ → InjectMem) (as : List Action)
    (hlisten : ∀ bs it cs s, as = bs ++ .listen it :: cs →
      Runs.run (systemStep (allocInject L.of10 T ρ μ)) (System.start 0) bs = .ok s →
      ¬ s.FreesGarbage it ∧ ¬ s.Throws it)
    (hspoken : ∀ bs p ev cs s, as = bs ++ .read p ev :: cs →
      Runs.run (systemStep (allocInject L.of10 T ρ μ)) (System.start 0) bs = .ok s →
      ∀ q, s.Mates p q → ∀ f, ofpFraming.FrameOf
        (((System.events (allocInject L.of10 T ρ μ) p q (System.start 0) bs).map
          ReadEvent.chunk).flatten ++ ev.chunk) f → Spoken10 f) :
    ((∃ s, Runs.run (systemStep (allocInject L.of10 T ρ μ)) (System.start 0) as = .ok s) ∨
      Runs.run (systemStep (allocInject L.of10 T ρ μ)) (System.start 0) as = .error .nullDeref ∧
      ∃ bs p q ev cs s f n, as = bs ++ .read p ev :: cs ∧
        Runs.run (systemStep (allocInject L.of10 T ρ μ)) (System.start 0) bs = .ok s ∧
        s.Mates p q ∧
        ofpFraming.FrameOf (((System.events (allocInject L.of10 T ρ μ) p q (System.start 0) bs).map
          ReadEvent.chunk).flatten ++ ev.chunk) f ∧
        s.env ≤ n ∧ Starved L.of10 T (ρ n) (μ n) f) ∧
    ((∀ n, (μ n).Granted) →
      ∃ s, Runs.run (systemStep (allocInject L.of10 T ρ μ)) (System.start 0) as = .ok s) := by
  cases hrun : Runs.run (systemStep (allocInject L.of10 T ρ μ)) (System.start 0) as with
  | ok s => exact ⟨Or.inl ⟨s, rfl⟩, fun _ => ⟨s, rfl⟩⟩
  | error e =>
    obtain ⟨bs, a, cs, s, rfl, hbs, hstep⟩ := Runs.exists_fault hrun
    rcases alloc_fault_source hbs hstep with ⟨it, rfl, hfails⟩ |
      ⟨p, q, ev, f, n, rfl, hpq, hf, hn, ⟨hfatal, -⟩ | ⟨hstarved, rfl⟩⟩
    · obtain ⟨hgarbage, hthrows⟩ := hlisten bs it cs s rfl hbs
      rcases hfails with ⟨h, -⟩ | ⟨h, -⟩
      · exact absurd h hgarbage
      · exact absurd h hthrows
    · obtain ⟨hver, hmessage⟩ := hspoken bs p ev cs s rfl hbs q hpq f hf
      exact absurd hmessage ((fatal_of10_iff hf.view_length.2 hver).mp hfatal).2.2
    · exact ⟨Or.inr ⟨rfl, bs, p, q, ev, cs, s, f, n, rfl, hbs, hpq, hf, hn, hstarved⟩,
        fun hmem => absurd (hmem n) hstarved.not_granted⟩

/-- A pair whose first client sends a hello message, in a process that drops and repeats nothing and
has memory for every call. -/
theorem process_of10_hello :
    ∃ s, Runs.run (systemStep (allocInject Loci.lenient.of10 Tables.zero (fun _ => 0)
      fun _ => .granted)) (System.start 0)
      [.listen (.plain 4 5), .read 0 (.plain [1, 0, 0, 8, 0, 0, 0, 7])] = .ok s := by
  let hello : List UInt8 := [1, 0, 0, 8, 0, 0, 0, 7]
  have hmessage : OfVersion10.IsMessage hello := by
    rw [← OfVersion10.wellFormed_iff]
    exact (@ofObjectNewFromMessage_of10_isSome Loci.lenient hello 8 (by decide) (by decide)).mp
      (by decide +kernel)
  refine (process_of10 Loci.lenient Tables.zero (fun _ => 0) (fun _ => .granted) _ ?_ ?_).2
    fun _ => InjectMem.granted_granted
  · intro bs it cs s has _
    rcases bs with _ | ⟨a, _ | ⟨a', bs⟩⟩
    · obtain ⟨rfl, -⟩ : Iteration.plain 4 5 = it ∧ _ := by simpa using has
      have hcompletes := Iteration.plain_completes 4 5
      exact ⟨fun h => h.2.initFailsEarly.initFails.not_completes hcompletes,
        fun h => h.2.not_completes hcompletes⟩
    · simp at has
    · simp at has
  · intro bs p ev cs s has hbs q hpq f hf
    rcases bs with _ | ⟨a, _ | ⟨a', bs⟩⟩
    · simp at has
    · simp only [List.cons_append, List.nil_append, List.cons.injEq, Action.read.injEq] at has
      obtain ⟨rfl, ⟨rfl, rfl⟩, -⟩ := has
      have hnone : System.events (allocInject Loci.lenient.of10 Tables.zero (fun _ => 0)
          fun _ => .granted) 0 q (System.start 0) [.listen (.plain 4 5)] = [] := rfl
      rw [hnone] at hf
      change ofpFraming.FrameOf hello f at hf
      cases hf with
      | here _ _ _ =>
        refine ⟨by decide, ?_⟩
        rwa [show (ofpFraming.first hello).body = hello by decide]
      | later _ _ _ hlater => exact absurd (Or.inl (by decide)) hlater.not_stuck
    · simp at has

end Mproxy
