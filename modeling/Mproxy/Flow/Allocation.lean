import Mproxy.Flow.Faults
import Mproxy.Flow.Isolation

set_option relaxedAutoImplicit false
set_option autoImplicit false

/-!
# Calls that get no memory

`action_inject` does not look at what its allocations answer, and never frees the object of loci and
its wire buffer. A call that gets no memory dereferences `NULL`. Everything else is as where there
is memory: every run that goes on without a fault is also one in which all allocations succeed.

## Main definitions

* `Mproxy.allocInject` — `action_inject` with given answers of the allocator.
* `Mproxy.Starved` — the call for a frame asks for memory and gets none.

## Main results

* `Mproxy.actionInject_mem` — a starved call dereferences `NULL`, and memory matters to no other
  one.
* `Mproxy.onFlowRead_extends` — a callback that succeeds does so with more memory as well.
* `Mproxy.allocInject_fault` — which calls fault.
-/

namespace Mproxy

open Framing

/-- `action_inject` as the parameter of `on_flow_read`, where `μ n` is what the allocations of the
call number `n` answer. -/
def allocInject (L : Loci) (T : Tables) (ρ : ℕ → ℕ) (μ : ℕ → InjectMem) : Inject ℕ :=
  fun n data len dupCount => do
    let (response, dupCount) ← actionInject L T (ρ n) data len dupCount (μ n)
    .ok (response, dupCount, n + 1)

/-- The call for the frame asks for memory and gets none: the frame has a cell and is not dropped; a
dup cell covers it and `stream_new` answers `NULL`, or loci accepts it and one of the allocations
does. -/
def Starved (L : Loci) (T : Tables) (rand : ℕ) (mem : InjectMem) (f : Frame UInt8) : Prop :=
  (∃ v t, HasCell f v t) ∧ ¬ Dropped T f rand ∧
    (Duplicated T f ∧ mem.streamNew = none ∨
      ¬ Duplicated T f ∧ (ofObjectNewFromMessage L f.view f.len).isSome ∧ ¬ mem.Granted)

section Calls

variable {L : Loci} {T : Tables} {f : Frame UInt8}

/-- No call is starved whose allocations all succeed. -/
lemma Starved.not_granted {rand : ℕ} {mem : InjectMem} (h : Starved L T rand mem f) :
    ¬ mem.Granted := by
  intro hmem
  rcases h.2.2 with ⟨-, hnone⟩ | ⟨-, -, hnot⟩
  · have hsome := hmem.2.2
    rw [hnone] at hsome
    cases hsome
  · exact hnot hmem

/-- **A starved call dereferences `NULL`, and memory matters to no other one.** -/
lemma actionInject_mem (hf : 8 ≤ f.view.length ∧ f.len ≤ f.view.length) (rand : ℕ)
    (dupCount : UInt8) (mem : InjectMem) :
    (Starved L T rand mem f →
      actionInject L T rand f.view f.len dupCount mem = .error .nullDeref) ∧
    (¬ Starved L T rand mem f → actionInject L T rand f.view f.len dupCount mem =
      actionInject L T rand f.view f.len dupCount) := by
  obtain ⟨view, len⟩ := f
  match view with
  | [] => simp at hf
  | [b] => simp at hf
  | b₀ :: b₁ :: rest =>
    rcases header_cases b₀ b₁ with h | ⟨h₀, h₁⟩ | ⟨v, t, hv, ht⟩
    · have hno : ¬ Starved L T rand mem ⟨b₀ :: b₁ :: rest, len⟩ := by
        rintro ⟨⟨v, t, hv, ht⟩, -⟩
        refine h ⟨?_, ?_⟩
        · rw [show b₀.toNat = v + 1 from hv]
          omega
        · rw [show b₁.toNat = t from ht]
          exact t.isLt
      refine ⟨fun hst => absurd hst hno, fun _ => ?_⟩
      rw [actionInject_of_invalid L T rand dupCount h, actionInject_of_invalid L T rand dupCount h]
    · have hno : ¬ Starved L T rand mem ⟨b₀ :: b₁ :: rest, len⟩ := by
        rintro ⟨⟨v, t, hv, -⟩, -⟩
        rw [show b₀.toNat = v + 1 from hv] at h₀
        cases h₀
      refine ⟨fun hst => absurd hst hno, fun _ => ?_⟩
      rw [actionInject_of_version_zero L T rand dupCount h₀ h₁,
        actionInject_of_version_zero L T rand dupCount h₀ h₁]
    · have hcell : HasCell ⟨b₀ :: b₁ :: rest, len⟩ v t := ⟨hv, ht⟩
      rw [actionInject_of_valid_mem L T rand dupCount v t hv ht hf.2,
        actionInject_of_valid L T rand dupCount v t hv ht hf.2]
      rw [Starved, hcell.dropped_iff, hcell.duplicated_iff]
      by_cases hdrop : T.drops v t rand
      · refine ⟨fun hst => absurd hdrop hst.2.1, fun _ => ?_⟩
        rw [if_pos hdrop, if_pos hdrop]
      simp only [if_neg hdrop]
      by_cases hdup : T.dup v t ≠ 0
      · simp only [if_pos hdup]
        cases mem.streamNew with
        | none =>
          refine ⟨fun _ => rfl, fun hno => ?_⟩
          exact absurd ⟨⟨v, t, hcell⟩, hdrop, Or.inl ⟨hdup, rfl⟩⟩ hno
        | some fresh =>
          refine ⟨fun hst => ?_, fun _ => rfl⟩
          rcases hst.2.2 with ⟨-, h⟩ | ⟨h, -⟩
          · cases h
          · exact absurd hdup h
      · simp only [if_neg hdup]
        refine ⟨fun hst => ?_, fun hno => ?_⟩
        · rcases hst.2.2 with ⟨h, -⟩ | ⟨-, -, h⟩
          · exact absurd h hdup
          · exact if_neg fun hall => h hall.2
        · by_cases hloci : (ofObjectNewFromMessage L (b₀ :: b₁ :: rest) len).isSome
          · have hmem : mem.Granted := by
              by_contra hmem
              exact hno ⟨⟨v, t, hcell⟩, hdrop, Or.inr ⟨hdup, hloci, hmem⟩⟩
            rw [if_pos ⟨hloci, hmem⟩, if_pos hloci]
          · rw [if_neg fun hall => hloci hall.1, if_neg hloci]

end Calls

/-! ## Which calls fault -/

section Faults

variable {L : Loci} {T : Tables} {ρ : ℕ → ℕ} {μ : ℕ → InjectMem} {f : Frame UInt8}

/-- The frame passes the header check, no dup cell covers it, and loci rejects it. -/
def Fatal (L : Loci) (T : Tables) (f : Frame UInt8) : Prop :=
  ¬ HeaderRejected f ∧ ¬ Duplicated T f ∧ ofObjectNewFromMessage L f.view f.len = none

/-- A call of `action_inject` is counted. -/
lemma allocInject_env {n : ℕ} {data : List UInt8} {len : ℕ} {dupCount : UInt8}
    {r : Option StreamT × UInt8 × ℕ} (h : allocInject L T ρ μ n data len dupCount = .ok r) :
    r.2.2 = n + 1 := by
  obtain ⟨x, -, hr⟩ := Runs.bind_eq_ok.mp h
  rw [← Except.ok.inj hr]

/-- `action_inject` only takes numbers from the generator, it gives none back. -/
lemma allocInject_le (e : ℕ) (d : List UInt8) (n : ℕ) (c : UInt8) (r : Option StreamT × UInt8 × ℕ)
    (h : allocInject L T ρ μ e d n c = .ok r) : e ≤ r.2.2 := by
  rw [allocInject_env h]
  exact Nat.le_succ e

/-- A fault of the call that `on_flow_read` makes for the first frame of a stream is a fault of
`action_inject` on that frame. -/
lemma allocInject_error {n : ℕ} {s : List UInt8} {dupCount : UInt8} {e : Fault}
    (hhdr : ofpFraming.hdr ≤ s.length) (hlen : ofpFraming.announced s ≤ s.length)
    (hfault : allocInject L T ρ μ n s (ofpFraming.announced s) dupCount = .error e) :
    (8 ≤ (ofpFraming.first s).view.length ∧
        (ofpFraming.first s).len ≤ (ofpFraming.first s).view.length) ∧
      actionInject L T (ρ n) (ofpFraming.first s).view (ofpFraming.first s).len 0 (μ n) =
        .error e := by
  have hview : (ofpFraming.first s).view.length = max ofpFraming.hdr (ofpFraming.announced s) :=
    List.length_take_of_le (max_le hhdr hlen)
  constructor
  · rw [hview]
    exact ⟨le_max_left _ _, le_max_right _ _⟩
  rcases Runs.bind_eq_error.mp hfault with hinj | ⟨p, -, hok⟩
  · rw [actionInject_first hlen] at hinj
    cases hx : actionInject L T (ρ n) (ofpFraming.first s).view (ofpFraming.first s).len 0
        (μ n) with
    | error e =>
      rw [hx] at hinj
      exact hinj
    | ok x =>
      rw [hx] at hinj
      cases hinj
  · cases hok

/-- Where there is memory, a fault is one on a fatal frame that is not dropped. -/
lemma actionInject_error (hf : 8 ≤ f.view.length ∧ f.len ≤ f.view.length) {rand : ℕ} {e : Fault}
    (hfault : actionInject L T rand f.view f.len 0 = .error e) :
    Fatal L T f ∧ ¬ Dropped T f rand ∧
      e = if ofMessageVersionGet f.view = 0 then .tableIndex else .nullDeref := by
  have hrej : Rejected L T f := by
    by_contra hkept
    obtain ⟨r, hr⟩ := actionInject_kept hf rand hkept 0
    rw [hr] at hfault
    cases hfault
  have htol : ¬ Tolerated T f rand := by
    intro htol
    rw [actionInject_tolerated hf htol 0] at hfault
    cases hfault
  have hhdr : ¬ HeaderRejected f := fun h => htol (Or.inl h)
  refine ⟨⟨hhdr, hrej.resolve_left hhdr⟩, fun h => htol (Or.inr h), ?_⟩
  rw [actionInject_rejected hf hrej htol 0] at hfault
  exact (Except.error.inj hfault).symm

/-- **Which calls fault.** Among the calls from the number `n` on, one that faults is for a fatal
frame that is not dropped, or is starved. -/
lemma allocInject_fault {n : ℕ} {e : Fault}
    (hcall : FaultyCall (allocInject L T ρ μ) (· ≤ ·) n e f) :
    ∃ m, n ≤ m ∧ (Fatal L T f ∧ ¬ Dropped T f (ρ m) ∧
        e = (if ofMessageVersionGet f.view = 0 then .tableIndex else .nullDeref) ∨
      Starved L T (ρ m) (μ m) f ∧ e = .nullDeref) := by
  obtain ⟨m, s, dupCount, hm, hhdr, hlen, rfl, hfault⟩ := hcall
  obtain ⟨hf, hinj⟩ := allocInject_error hhdr hlen hfault
  refine ⟨m, hm, ?_⟩
  obtain ⟨hstarved, hfed⟩ := actionInject_mem (L := L) (T := T) hf (ρ m) 0 (μ m)
  by_cases hst : Starved L T (ρ m) (μ m) (ofpFraming.first s)
  · rw [hstarved hst] at hinj
    exact Or.inr ⟨hst, (Except.error.inj hinj).symm⟩
  · rw [hfed hst] at hinj
    exact Or.inl (actionInject_error hf hinj)

end Faults

/-! ## Runs with more memory -/

/-- The function in the place of `action_inject` extends another one. -/
def Inject.Extends {σ : Type} (inject' inject : Inject σ) : Prop :=
  ∀ env data len dupCount,
    Runs.Extends (inject' env data len dupCount) (inject env data len dupCount)

/-- A response that is made is made in any memory. -/
lemma newResponse_extends (block : Option (ℕ → UInt8)) (fresh : ℕ → UInt8) (buf : List UInt8)
    (len : ℕ) : Runs.Extends (newResponse (some fresh) buf len) (newResponse block buf len) := by
  cases block with
  | none => exact fun _ h => by cases h
  | some fresh' =>
    by_cases hlen : len ≤ buf.length
    · rw [newResponse_some fresh hlen, newResponse_some fresh' hlen]
      exact .refl _
    · intro r h
      rw [newResponse, readBytes, if_neg hlen] at h
      cases h

/-- What the allocations answer decides whether there is a response, and nothing else. -/
lemma actionInject_extends (L : Loci) (T : Tables) (rand : ℕ) (data : List UInt8) (len : ℕ)
    (dupCount : UInt8) (mem : InjectMem) :
    Runs.Extends (actionInject L T rand data len dupCount)
      (actionInject L T rand data len dupCount mem) := by
  match data with
  | [] => exact .refl _
  | [b] => exact .refl _
  | b₀ :: b₁ :: rest =>
    simp only [actionInject]
    split_ifs
    · exact .refl _
    refine (Runs.Extends.refl _).bind fun cell => ?_
    split_ifs
    · exact .refl _
    refine (Runs.Extends.refl _).bind fun d => ?_
    split_ifs
    · exact (newResponse_extends mem.streamNew _ _ _).bind fun _ => .refl _
    have halloc := ofObjectNewFromMessage_alloc L (b₀ :: b₁ :: rest) len mem.object mem.wireBuffer
    cases hobj : ofObjectNewFromMessage L (b₀ :: b₁ :: rest) len mem.object mem.wireBuffer with
    | none => exact fun _ h => by cases h
    | some obj =>
      rw [hobj] at halloc
      obtain ⟨obj', hobj'⟩ := Option.isSome_iff_exists.mp (halloc.mp rfl).1
      rw [show InjectMem.granted.object = true from rfl,
        show InjectMem.granted.wireBuffer = true from rfl, hobj']
      simp only [ofObjectNewFromMessage_wbuf hobj, ofObjectNewFromMessage_wbuf hobj']
      exact (newResponse_extends mem.streamNew _ _ _).bind fun _ => .refl _

/-- With all its memory `action_inject` answers as with some of it, or more often. -/
lemma tableInject_extends (L : Loci) (T : Tables) (ρ : ℕ → ℕ) (μ : ℕ → InjectMem) :
    (tableInject L T ρ).Extends (allocInject L T ρ μ) :=
  fun n data len dupCount => (actionInject_extends L T (ρ n) data len dupCount (μ n)).bind
    fun _ => .refl _

section Callback

variable {σ : Type} {inject inject' : Inject σ} (h : inject'.Extends inject)

include h in
/-- The frame loop goes on over a call that the other `action_inject` finishes, too. -/
lemma frameLoop_extends (ev : ReadEvent) (buf : List UInt8) (fuel : ℕ) (l : Loop σ) :
    Runs.Extends (frameLoop inject' ev buf fuel l) (frameLoop inject ev buf fuel l) := by
  induction fuel generalizing l with
  | zero => exact .refl _
  | succ fuel ih =>
    simp only [frameLoop]
    split_ifs
    · exact .refl _
    · exact .refl _
    · refine (h _ _ _ _).bind fun x => ?_
      split
      · exact .refl _
      · exact ih _
    · exact .refl _

include h in
/-- **A callback that succeeds does so with more memory as well.** -/
lemma onFlowRead_extends (st : Flow σ) (ev : ReadEvent) :
    Runs.Extends (onFlowRead inject' st ev) (onFlowRead inject st ev) := by
  unfold onFlowRead
  simp only
  split
  · exact .refl _
  refine (Runs.Extends.refl _).bind fun msg => ?_
  unfold handleInput
  split_ifs
  · exact .refl _
  · exact .refl _
  · exact (frameLoop_extends h _ _ _ _).bind fun _ => .refl _

end Callback

end Mproxy
