import Mproxy.Flow.Malformed
import Mproxy.Proxy.Delivered

set_option relaxedAutoImplicit false
set_option autoImplicit false

/-!
# Where a fault of the process comes from

A fault ends the whole process, with all its clients. It comes from a round of the listener in which
`Client::init` fails before `ev_event` is set, or in which something throws; or it comes from one
client: from a frame in the bytes that this client has sent. Such a frame passes the header check,
is not dropped, no DUP rule covers it and loci rejects it, or `action_inject` got no memory for it.
What the other clients send, how their bytes are cut into chunks and in which order the callbacks
run has no part in it.

## Main definitions

* `Mproxy.System.Coupled` — every client has a mate.

## Main results

* `Mproxy.sharedStep_fault` — a session in company faults on the frames of its own stream only.
* `Mproxy.System.fault_source` — which steps fault.
* `Mproxy.process_fault_source` — which runs do.
-/

namespace Mproxy

open Framing

section Shared

variable {σ : Type} {inject : Inject σ}

/-- The frames of what a session holds are frames of what it received, also if it is in company. -/
lemma sharedStep_sound {k k' : Session σ} {g : σ × ReadEvent}
    (hrun : sharedStep inject k g = .ok k') (h : k.Sound) : k'.Sound :=
  sessionStep_sound hrun h

/-- What was received in a run is what the events delivered. -/
lemma shared_received {gs : List (σ × ReadEvent)} {k k' : Session σ}
    (hrun : Runs.run (sharedStep inject) k gs = .ok k') :
    k'.received = k.received ++ (gs.map fun g => g.2.chunk).flatten := by
  induction gs generalizing k with
  | nil =>
    obtain rfl : k = k' := by simpa using hrun
    simp
  | cons g gs ih =>
    obtain ⟨k₁, hstep, hrun⟩ := Runs.bind_eq_ok.mp hrun
    obtain ⟨⟨flow, r⟩, -, hk₁⟩ := Runs.bind_eq_ok.mp hstep
    rw [ih hrun, ← Except.ok.inj hk₁]
    simp

variable {E : σ → σ → Prop} (hrefl : ∀ e, E e e) (htrans : ∀ e f g, E e f → E f g → E e g)
  (hcalls : ∀ e d n c r, inject e d n c = .ok r → E e r.2.2)

include hrefl htrans hcalls in
/-- **A session in company faults on the frames of its own stream only**, in a call that it makes.
-/
lemma sharedStep_fault {k : Session σ} (h : k.Sound) {g : σ × ReadEvent} {e : Fault}
    (hrun : sharedStep inject k g = .error e) :
    ∃ f, ofpFraming.FrameOf (k.received ++ g.2.chunk) f ∧ FaultyCall inject E g.1 e f := by
  rcases Runs.bind_eq_error.mp hrun with hcall | ⟨p, -, hok⟩
  · obtain ⟨f, hf, hfaulty⟩ := onFlowRead_fault hrefl htrans hcalls hcall []
    rw [List.append_nil] at hf
    exact ⟨f, h.1 f g.2.chunk hf, hfaulty⟩
  · cases hok

end Shared

namespace System

variable {σ : Type} {s s' : System σ} {p q : ClientPtr}

/-- Every client has a mate. -/
def Coupled (s : System σ) : Prop := ∀ p c, s.clients p = some c → ∃ q, s.Mates p q

/-- Every step keeps this: clients come in pairs, and who were mates stay so. -/
lemma Coupled.systemStep (hc : s.Coupled) (h : s.Paired) {inject : Inject σ} {a : Action}
    (hstep : Mproxy.systemStep inject s a = .ok s') : s'.Coupled := by
  intro p c' hc'
  by_cases hp : p < s.next
  · obtain ⟨c, hcp, -⟩ := h.systemStep_kept hstep hp hc'
    obtain ⟨q, hq⟩ := hc p c hcp
    exact ⟨q, (h.systemStep_grows hstep).2 p q hq⟩
  -- the client is new, so the step is a round of the listener that created a pair
  have hsame : s'.clients p = s.clients p → ∃ q, s'.Mates p q := fun heq =>
    absurd (h.old p c' (heq.symm.trans hc')) hp
  cases h.effect hstep with
  | listen hout =>
    cases hout with
    | idle _ => exact hsame rfl
    | stopped _ _ => exact hsame rfl
    | refused _ hs _ _ => exact hsame (hs.clients p)
    | abandoned _ hs _ _ _ _ _ => exact hsame (hs.clients p)
    | accepted _ _ hacc =>
      obtain ⟨rfl, -⟩ | ⟨rfl, -⟩ | ⟨hlt, -⟩ := hacc.back h hc'
      · exact ⟨s.next, hacc.mates_iff.mpr (Or.inr (Or.inr ⟨rfl, rfl⟩))⟩
      · exact ⟨s.next + 1, hacc.mates_iff.mpr (Or.inr (Or.inl ⟨rfl, rfl⟩))⟩
      · exact absurd hlt hp
  | noRead => exact hsame rfl
  | read _ hby =>
    obtain ⟨d, hd, -⟩ := hby.similar.back hc'
    exact absurd (h.old p d hd) hp
  | noDelete => exact hsame rfl
  | delete _ hdel =>
    obtain ⟨-, d, hd, -⟩ := hdel.back_eq hc'
    exact absurd (h.old p d hd) hp
  | housekeep hkept => exact hsame (hkept.clients p)

/-- What holds of every state that is reached. -/
lemma run_coupled {inject : Inject σ} {env : σ} {as : List Action}
    (hrun : Runs.run (Mproxy.systemStep inject) (start env) as = .ok s) :
    s.Paired ∧ s.Linked ∧ s.Coupled := by
  have hinv : ∀ (t : System σ) (a : Action) (t' : System σ), t.Paired ∧ t.Linked ∧ t.Coupled →
      True → Mproxy.systemStep inject t a = .ok t' → t'.Paired ∧ t'.Linked ∧ t'.Coupled :=
    fun _ _ _ ht _ hstep => ⟨ht.1.systemStep hstep, ht.2.1.systemStep ht.1 hstep,
      ht.2.2.systemStep ht.1 hstep⟩
  exact Runs.invariant hinv ⟨start_paired env, start_linked env, fun p c hp => by cases hp⟩
    (fun _ _ => trivial) hrun

section Source

variable {inject : Inject σ} {E : σ → σ → Prop} (hrefl : ∀ e, E e e)
  (htrans : ∀ e f g, E e f → E f g → E e g)
  (hcalls : ∀ e d n c r, inject e d n c = .ok r → E e r.2.2)

include hrefl htrans hcalls in
/-- **A step that faults** is a round of the listener that frees what was never set or comes to
something that throws, or a read event of a client, with a faulty call for a frame of its own
stream. -/
lemma fault_source {env : σ} {as : List Action} {a : Action} {e : Fault}
    (hrun : Runs.run (Mproxy.systemStep inject) (start env) as = .ok s)
    (hstep : Mproxy.systemStep inject s a = .error e) :
    (∃ it, a = .listen it ∧
        (s.FreesGarbage it ∧ e = .unsetMember ∨ s.Throws it ∧ e = .uncaught)) ∨
      ∃ p q ev f, a = .read p ev ∧ s.Mates p q ∧
        ofpFraming.FrameOf
          (((events inject p q (start env) as).map ReadEvent.chunk).flatten ++ ev.chunk) f ∧
        FaultyCall inject E s.env e f := by
  obtain ⟨hpaired, hlinked, hcoupled⟩ := run_coupled hrun
  cases a with
  | listen it =>
    have hout := hpaired.listen it
    rw [show s.startListen it = .error e from hstep] at hout
    cases hout with
    | unset hgarbage => exact Or.inl ⟨it, rfl, Or.inl ⟨hgarbage, rfl⟩⟩
    | uncaught hthrows => exact Or.inl ⟨it, rfl, Or.inr ⟨hthrows, rfl⟩⟩
  | read p ev =>
    right
    have hread : s.flowRead inject p ev = .error e := hstep
    have hp : p ∈ s.threads := by
      by_contra hp
      rw [flowRead, if_pos hp] at hread
      cases hread
    obtain ⟨c, hc⟩ := (hpaired.running p).mp hp
    obtain ⟨q, hpq⟩ := hcoupled p c hc
    obtain ⟨bs, t, fresh, hbs, hpt, hlt, hshows, hseen⟩ := exists_session hrun hpq
    have hcomp := @session_component _ inject (fun _ _ => True)
      (fun _ => trivial) (fun _ _ _ _ _ => trivial) (fun _ _ _ _ _ _ => trivial) p q
    obtain ⟨k, hk, hshow, -⟩ := hcomp.run ⟨hpt, hlt⟩ ⟨hshows env, trivial⟩ hbs
    have hsound : k.Sound := by
      refine @Runs.invariant _ _ _ _ _ (fun _ => True)
        (fun _ _ _ hks _ hkstep => sharedStep_sound hkstep hks) _ _ _ ?_ (fun _ _ => trivial) hk
      exact ⟨fun f rest hf => hf, fun f hf => by cases hf⟩
    have hreceived : k.received =
        ((events inject p q (start env) as).map ReadEvent.chunk).flatten := by
      rw [shared_received hk, events, hseen, List.map_map]
      rfl
    have hfault := ((flowRead_session hpaired hlinked hshow hp inject ev).error_iff e).mp hread
    obtain ⟨f, hf, hfaulty⟩ := sharedStep_fault hrefl htrans hcalls hsound hfault
    rw [hreceived] at hf
    exact ⟨p, q, ev, f, rfl, hpq, hf, hfaulty⟩
  | delete p =>
    rcases endThread_cases hpaired p with ⟨-, hend⟩ | ⟨c, s₁, -, -, hend⟩
    · exact absurd (hend.symm.trans hstep) (by simp)
    · exact absurd (hend.symm.trans hstep) (by simp)
  | housekeep first =>
    obtain ⟨s₁, hkeep, -⟩ := housekeep_cases hpaired first
    exact absurd (hkeep.symm.trans hstep) (by simp)

end Source

end System

section Tables

variable {L : Loci} {T : Tables} {ρ : ℕ → ℕ} {μ : ℕ → InjectMem}

/-- A step that faults where the calls are those of `action_inject`. -/
lemma alloc_fault_source {as : List Action} {a : Action} {s : System ℕ} {e : Fault}
    (hrun : Runs.run (systemStep (allocInject L T ρ μ)) (System.start 0) as = .ok s)
    (hstep : systemStep (allocInject L T ρ μ) s a = .error e) :
    (∃ it, a = .listen it ∧
        (s.FreesGarbage it ∧ e = .unsetMember ∨ s.Throws it ∧ e = .uncaught)) ∨
      ∃ p q ev f n, a = .read p ev ∧ s.Mates p q ∧
        ofpFraming.FrameOf (((System.events (allocInject L T ρ μ) p q (System.start 0) as).map
          ReadEvent.chunk).flatten ++ ev.chunk) f ∧ s.env ≤ n ∧
        (Fatal L T f ∧ ¬ Dropped T f (ρ n) ∧
            e = (if ofMessageVersionGet f.view = 0 then .tableIndex else .nullDeref) ∨
          Starved L T (ρ n) (μ n) f ∧ e = .nullDeref) := by
  rcases System.fault_source (E := (· ≤ ·)) (fun _ => le_rfl) (fun _ _ _ => le_trans) allocInject_le
    hrun hstep with hlisten | ⟨p, q, ev, f, ha, hpq, hf, hfaulty⟩
  · exact Or.inl hlisten
  · obtain ⟨n, hn, hcase⟩ := allocInject_fault hfaulty
    exact Or.inr ⟨p, q, ev, f, n, ha, hpq, hf, hn, hcase⟩

end Tables

end Mproxy
