import Mproxy.Flow.Delivery

set_option relaxedAutoImplicit false
set_option autoImplicit false

/-!
# Rejected frames

A frame is rejected by the header check, or, if no dup cell covers it, by loci. The header check
makes `action_inject` return `NULL`, and so does a drop cell that comes before loci is asked. A
frame that gets as far as loci and is rejected there makes `action_inject` use the `NULL` object,
and a frame of version `0` already makes it read a row of the tables that does not exist.

## Main definitions

* `Mproxy.Rejected` — the frames that cannot be handled.
* `Mproxy.Tolerated` — what has to be true of a rejected frame for it to do no harm.
* `Mproxy.Isolated` — the rejected frames of a session leave no trace.

## Main results

* `Mproxy.actionInject_rejected` — a rejected frame gives `NULL` or a fault.
* `Mproxy.session_isolated_iff` — the rejected frames of a session are isolated exactly if all of
  them are tolerated.
-/

namespace Mproxy

open Framing

/-- The version and the type of a frame are those of the cell `(v, t)` of the tables. -/
def HasCell (f : Frame UInt8) (v : Fin 5) (t : Fin 35) : Prop :=
  (f.view.getD 0 0).toNat = v + 1 ∧ (f.view.getD 1 0).toNat = t

instance (f : Frame UInt8) (v : Fin 5) (t : Fin 35) : Decidable (HasCell f v t) :=
  inferInstanceAs (Decidable (_ ∧ _))

/-- `is_valid_ofp_header` is false of the frame. -/
def HeaderRejected (f : Frame UInt8) : Prop :=
  isValidOfpHeader (f.view.getD 0 0).toNat (f.view.getD 1 0).toNat = false

/-- The frame is covered by a dup cell. -/
def Duplicated (T : Tables) (f : Frame UInt8) : Prop := ∃ v t, HasCell f v t ∧ T.dup v t ≠ 0

/-- The frame is covered by a drop cell that drops it, if `rand()` returns `rand`. -/
def Dropped (T : Tables) (f : Frame UInt8) (rand : ℕ) : Prop :=
  ∃ v t, HasCell f v t ∧ T.drops v t rand

/-- The frame fails the header check, or no dup cell covers it and loci rejects it. -/
def Rejected (L : Loci) (T : Tables) (f : Frame UInt8) : Prop :=
  HeaderRejected f ∨ ¬ Duplicated T f ∧ ofObjectNewFromMessage L f.view f.len = none

/-- The frame fails the header check, or is dropped before loci is asked. -/
def Tolerated (T : Tables) (f : Frame UInt8) (rand : ℕ) : Prop :=
  HeaderRejected f ∨ Dropped T f rand

instance (f : Frame UInt8) : Decidable (HeaderRejected f) := inferInstanceAs (Decidable (_ = _))

instance (T : Tables) (f : Frame UInt8) : Decidable (Duplicated T f) :=
  inferInstanceAs (Decidable (∃ v t, HasCell f v t ∧ T.dup v t ≠ 0))

instance (T : Tables) (f : Frame UInt8) (rand : ℕ) : Decidable (Dropped T f rand) :=
  inferInstanceAs (Decidable (∃ v t, HasCell f v t ∧ T.drops v t rand))

instance (L : Loci) (T : Tables) (f : Frame UInt8) : Decidable (Rejected L T f) :=
  decidable_of_iff (HeaderRejected f ∨ ¬ Duplicated T f ∧
    (ofObjectNewFromMessage L f.view f.len).isNone)
    (by simp only [Rejected, Option.isNone_iff_eq_none])

instance (T : Tables) (f : Frame UInt8) (rand : ℕ) : Decidable (Tolerated T f rand) :=
  inferInstanceAs (Decidable (_ ∨ _))

/-- The frames that are not rejected, each with what `rand()` returns for it. -/
def kept (L : Loci) (T : Tables) (ps : List (Frame UInt8 × ℕ)) : List (Frame UInt8 × ℕ) :=
  ps.filter fun p => ¬ Rejected L T p.1

/-- The rejected ones among the frames `gs` of a session leave no trace. `action_inject` returns
`NULL` for them. The session ends without a fault and has written what is delivered for the other
frames; and so has every session on a stream of the other frames alone, given the same values of
`rand()` for them. -/
def Isolated (L : Loci) (T : Tables) (ρ : ℕ → ℕ) (fresh : ℕ → UInt8) (evs : List ReadEvent)
    (gs : List (Frame UInt8)) : Prop :=
  (∀ p ∈ withRand ρ 0 gs, Rejected L T p.1 →
    ∀ dupCount, actionInject L T p.2 p.1.view p.1.len dupCount = .ok (none, dupCount)) ∧
  ∃ s, Runs.run (sessionStep (tableInject L T ρ)) (.start fresh 0) evs = .ok s ∧
    deliver L T (kept L T (withRand ρ 0 gs)) = .ok s.flow.output ∧
    ∀ (ρ' : ℕ → ℕ) (fresh' : ℕ → UInt8) (evs' : List ReadEvent) (gs' : List (Frame UInt8))
      (r' : List UInt8), (∀ ev ∈ evs', ev.PeerUp) → LastRead evs' →
      ofpFraming.Cuts (evs'.map ReadEvent.chunk).flatten gs' r' →
      withRand ρ' 0 gs' = kept L T (withRand ρ 0 gs) →
      ∃ s', Runs.run (sessionStep (tableInject L T ρ')) (.start fresh' 0) evs' = .ok s' ∧
        s'.flow.output = s.flow.output

/-! ## One frame -/

section OneFrame

variable {L : Loci} {T : Tables} {f : Frame UInt8}

/-- A frame has at most one cell. -/
lemma HasCell.unique {v v' : Fin 5} {t t' : Fin 35} (h : HasCell f v t) (h' : HasCell f v' t') :
    v = v' ∧ t = t' := by
  obtain ⟨hv, ht⟩ := h
  obtain ⟨hv', ht'⟩ := h'
  exact ⟨Fin.ext (by omega), Fin.ext (by omega)⟩

/-- A frame with a cell is duplicated if the cell says so. -/
lemma HasCell.duplicated_iff {v : Fin 5} {t : Fin 35} (h : HasCell f v t) :
    Duplicated T f ↔ T.dup v t ≠ 0 := by
  refine ⟨?_, fun hd => ⟨v, t, h, hd⟩⟩
  rintro ⟨v', t', h', hd⟩
  obtain ⟨rfl, rfl⟩ := h.unique h'
  exact hd

/-- A frame with a cell is dropped if the cell says so, for the number drawn. -/
lemma HasCell.dropped_iff {v : Fin 5} {t : Fin 35} (h : HasCell f v t) (rand : ℕ) :
    Dropped T f rand ↔ T.drops v t rand := by
  refine ⟨?_, fun hd => ⟨v, t, h, hd⟩⟩
  rintro ⟨v', t', h', hd⟩
  obtain ⟨rfl, rfl⟩ := h.unique h'
  exact hd

/-- A frame with a cell passes the header check. -/
lemma HasCell.not_headerRejected {v : Fin 5} {t : Fin 35} (h : HasCell f v t) :
    ¬ HeaderRejected f := by
  obtain ⟨hv, ht⟩ := h
  rw [HeaderRejected, Bool.not_eq_false, isValidOfpHeader_iff]
  omega

/-- What `action_inject` does with a frame: it fails the header check, or is of version `0`, or has
a cell. -/
lemma frame_cases (hf : 8 ≤ f.view.length ∧ f.len ≤ f.view.length) (rand : ℕ) (dupCount : UInt8) :
    (HeaderRejected f ∧ actionInject L T rand f.view f.len dupCount = .ok (none, dupCount)) ∨
    (¬ HeaderRejected f ∧ (∀ v t, ¬ HasCell f v t) ∧ ofMessageVersionGet f.view = 0 ∧
      actionInject L T rand f.view f.len dupCount = .error .tableIndex) ∨
    ∃ v t, HasCell f v t ∧ actionInject L T rand f.view f.len dupCount =
      if T.drops v t rand then .ok (none, dupCount)
      else if T.dup v t ≠ 0 then .ok (some (StreamT.full (f.view.take f.len)), T.dup v t)
      else if (ofObjectNewFromMessage L f.view f.len).isSome then
        .ok (some (StreamT.full (f.view.take f.len)), T.dup v t)
      else .error .nullDeref := by
  obtain ⟨view, len⟩ := f
  match view with
  | [] => simp at hf
  | [b] => simp at hf
  | b₀ :: b₁ :: rest =>
    rcases header_cases b₀ b₁ with h | ⟨h₀, h₁⟩ | ⟨v, t, hv, ht⟩
    · refine Or.inl ⟨?_, actionInject_of_invalid L T rand dupCount h⟩
      rw [← isValidOfpHeader_iff] at h
      exact Bool.eq_false_of_not_eq_true h
    · refine Or.inr (Or.inl ⟨?_, ?_, h₀, actionInject_of_version_zero L T rand dupCount h₀ h₁⟩)
      · rw [HeaderRejected, Bool.not_eq_false]
        exact isValidOfpHeader_iff.mpr ⟨show b₀.toNat ≤ 5 by omega, h₁⟩
      · rintro v t ⟨hv, -⟩
        have hv' : b₀.toNat = v + 1 := hv
        omega
    · exact Or.inr (Or.inr ⟨v, t, ⟨hv, ht⟩, actionInject_of_valid L T rand dupCount v t hv ht hf.2⟩)

/-- A rejected frame that is tolerated gives `NULL`. -/
lemma actionInject_tolerated (hf : 8 ≤ f.view.length ∧ f.len ≤ f.view.length) {rand : ℕ}
    (htol : Tolerated T f rand) (dupCount : UInt8) :
    actionInject L T rand f.view f.len dupCount = .ok (none, dupCount) := by
  rcases frame_cases (L := L) (T := T) hf rand dupCount with
    ⟨-, hinj⟩ | ⟨hhdr, hcell, -, -⟩ | ⟨v, t, hcell, hinj⟩
  · exact hinj
  · rcases htol with h | ⟨v, t, h, -⟩
    · exact absurd h hhdr
    · exact absurd h (hcell v t)
  · have hdrop : T.drops v t rand := by
      rcases htol with h | h
      · exact absurd h hcell.not_headerRejected
      · exact (hcell.dropped_iff rand).mp h
    rw [hinj, if_pos hdrop]

/-- **A rejected frame that is not tolerated is a fault**: a null pointer dereference, or, if its
version is `0`, a read outside the tables. -/
lemma actionInject_rejected (hf : 8 ≤ f.view.length ∧ f.len ≤ f.view.length) {rand : ℕ}
    (hrej : Rejected L T f) (htol : ¬ Tolerated T f rand) (dupCount : UInt8) :
    actionInject L T rand f.view f.len dupCount =
      .error (if ofMessageVersionGet f.view = 0 then .tableIndex else .nullDeref) := by
  have hhdr : ¬ HeaderRejected f := fun h => htol (Or.inl h)
  obtain ⟨hdup, hloci⟩ := hrej.resolve_left hhdr
  rcases frame_cases (L := L) (T := T) hf rand dupCount with
    ⟨h, -⟩ | ⟨-, -, hver, hinj⟩ | ⟨v, t, hcell, hinj⟩
  · exact absurd h hhdr
  · rw [hinj, if_pos hver]
  · have hver : ofMessageVersionGet f.view ≠ 0 := by
      have := hcell.1
      unfold ofMessageVersionGet
      omega
    have hdrop : ¬ T.drops v t rand := fun h => htol (Or.inr ((hcell.dropped_iff rand).mpr h))
    have hcover : ¬ T.dup v t ≠ 0 := fun h => hdup (hcell.duplicated_iff.mpr h)
    rw [hinj, if_neg hdrop, if_neg hcover, hloci, if_neg hver]
    rfl

/-- A frame that is not rejected does not fault. -/
lemma actionInject_kept (hf : 8 ≤ f.view.length ∧ f.len ≤ f.view.length) (rand : ℕ)
    (hrej : ¬ Rejected L T f) (dupCount : UInt8) :
    ∃ r, actionInject L T rand f.view f.len dupCount = .ok r := by
  have hhdr : ¬ HeaderRejected f := fun h => hrej (Or.inl h)
  have hloci : ¬ Duplicated T f → (ofObjectNewFromMessage L f.view f.len).isSome := by
    intro hdup
    rw [Option.isSome_iff_ne_none]
    exact fun h => hrej (Or.inr ⟨hdup, h⟩)
  rcases frame_cases (L := L) (T := T) hf rand dupCount with
    ⟨h, -⟩ | ⟨-, hcell, hver, -⟩ | ⟨v, t, hcell, hinj⟩
  · exact absurd h hhdr
  · have hdup : ¬ Duplicated T f := fun ⟨v, t, h, _⟩ => hcell v t h
    have hnone : ofObjectNewFromMessage L f.view f.len = none :=
      ofObjectNewFromMessage_version_zero hver
    have := hloci hdup
    rw [hnone] at this
    exact absurd this Bool.false_ne_true
  · rw [hinj]
    by_cases hdrop : T.drops v t rand
    · exact ⟨_, if_pos hdrop⟩
    rw [if_neg hdrop]
    by_cases hcover : T.dup v t ≠ 0
    · exact ⟨_, if_pos hcover⟩
    rw [if_neg hcover]
    exact ⟨_, if_pos (hloci fun h => hcover (hcell.duplicated_iff.mp h))⟩

end OneFrame

/-! ## A session -/

section Sessions

variable {L : Loci} {T : Tables}

/-- The frames that take numbers are those of the list. -/
lemma mem_withRand {α : Type} {ρ : ℕ → ℕ} {n : ℕ} {fs : List α} {p : α × ℕ}
    (h : p ∈ withRand ρ n fs) : p.1 ∈ fs := by
  induction fs generalizing n with
  | nil => simp at h
  | cons f fs ih =>
    rw [withRand_cons] at h
    rcases List.mem_cons.mp h with rfl | h
    · exact List.mem_cons_self
    · exact List.mem_cons_of_mem f (ih h)

/-- What is delivered for frames is what is delivered for those that are not rejected, where the
rejected ones are tolerated. -/
lemma deliver_kept {ps : List (Frame UInt8 × ℕ)}
    (hps : ∀ p ∈ ps, 8 ≤ p.1.view.length ∧ p.1.len ≤ p.1.view.length)
    (htol : ∀ p ∈ ps, Rejected L T p.1 → Tolerated T p.1 p.2) :
    deliver L T ps = deliver L T (kept L T ps) ∧ ∃ out, deliver L T (kept L T ps) = .ok out := by
  induction ps with
  | nil => exact ⟨rfl, [], rfl⟩
  | cons p ps ih =>
    obtain ⟨hrest, outs, houts⟩ := ih (fun q hq => hps q (List.mem_cons_of_mem p hq))
      (fun q hq => htol q (List.mem_cons_of_mem p hq))
    have hp := hps p List.mem_cons_self
    by_cases hrej : Rejected L T p.1
    · have hnull := actionInject_tolerated (L := L) hp (htol p List.mem_cons_self hrej) 0
      have hkept : kept L T (p :: ps) = kept L T ps := List.filter_cons_of_neg (by simpa using hrej)
      have hframe : frameOutput L T p.2 p.1 = .ok [] := by
        rw [frameOutput, hnull]; rfl
      rw [hkept]
      refine ⟨?_, outs, houts⟩
      rw [deliver, hframe, hrest, houts]
      rfl
    · obtain ⟨r, hr⟩ := actionInject_kept (L := L) hp p.2 hrej 0
      have hkept : kept L T (p :: ps) = p :: kept L T ps :=
        List.filter_cons_of_pos (by simpa using hrej)
      have hframe : frameOutput L T p.2 p.1 = .ok (sentFor r) := by
        rw [frameOutput, hr]; rfl
      rw [hkept, deliver, deliver, hframe, hrest, houts]
      exact ⟨rfl, _, rfl⟩

/-- **When rejected frames are isolated.** On a client whose pair is up, let the received bytes be
cut into frames with nonzero length fields, with the last event finding memory. The rejected ones
among the frames are isolated if and only if each of them fails the header check, or has a version
from `1` to `5` and is dropped by its drop cell.

**Proof sketch.** A rejected frame that is not tolerated faults (`actionInject_rejected`). If all
are tolerated, what is delivered for the frames is what is delivered for the others
(`deliver_kept`), and both sessions follow `deliver` (`session_deliver`). -/
theorem session_isolated_iff (ρ : ℕ → ℕ) (fresh : ℕ → UInt8) (evs : List ReadEvent)
    (hevs : ∀ ev ∈ evs, ev.PeerUp) (hlast : LastRead evs) (gs : List (Frame UInt8))
    (r : List UInt8) (hcut : ofpFraming.Cuts (evs.map ReadEvent.chunk).flatten gs r) :
    Isolated L T ρ fresh evs gs ↔
      ∀ p ∈ withRand ρ 0 gs, Rejected L T p.1 → Tolerated T p.1 p.2 := by
  have hsound : ∀ p ∈ withRand ρ 0 gs, 8 ≤ p.1.view.length ∧ p.1.len ≤ p.1.view.length :=
    fun p hp => hcut.view_length (mem_withRand hp)
  constructor
  · rintro ⟨hnull, -⟩ p hp hrej
    by_contra htol
    have hfault := actionInject_rejected (hsound p hp) hrej htol 0
    rw [hnull p hp hrej 0] at hfault
    cases hfault
  · intro htol
    obtain ⟨hkept, out, hout⟩ := deliver_kept hsound htol
    refine ⟨fun p hp hrej => actionInject_tolerated (hsound p hp) (htol p hp hrej), ?_⟩
    obtain ⟨gs₁, gs₂, rfl, hrun, hall⟩ := session_deliver (L := L) (T := T) (ρ := ρ) hevs
      (s := .start fresh 0) rfl Discipline.stuck_nil hcut
    obtain rfl := hall hlast fun _ => rfl
    rw [List.append_nil] at hkept hout ⊢
    obtain ⟨s, hs, hsout, -⟩ := hrun.ok_right (hkept.trans hout)
    have hsout : s.flow.output = out := hsout
    refine ⟨s, hs, by rw [hout, hsout], fun ρ' fresh' evs' gs' r' hevs' hlast' hcut' hrand => ?_⟩
    obtain ⟨gs₁', gs₂', rfl, hrun', hall'⟩ := session_deliver (L := L) (T := T) (ρ := ρ') hevs'
      (s := .start fresh' 0) rfl Discipline.stuck_nil hcut'
    obtain rfl := hall' hlast' fun _ => rfl
    rw [List.append_nil] at hrand
    obtain ⟨s', hs', hsout', -⟩ := hrun'.ok_right (b := out)
      (show deliver L T (withRand ρ' 0 gs₁') = .ok out by rw [hrand, hout])
    exact ⟨s', hs', hsout'.trans hsout.symm⟩

/-- A frame of version `6` between two messages is isolated. -/
theorem session_isolated_version_six :
    Isolated Loci.lenient Tables.zero (fun _ => 0) (fun _ => 0)
      [.plain [1, 0, 0, 8, 0, 0, 0, 1, 6, 0, 0, 8], .plain [0, 0, 0, 2, 4, 0, 0, 8, 0, 0, 0, 3]]
      [.whole [1, 0, 0, 8, 0, 0, 0, 1], .whole [6, 0, 0, 8, 0, 0, 0, 2],
        .whole [4, 0, 0, 8, 0, 0, 0, 3]] :=
  (session_isolated_iff (L := Loci.lenient) (T := Tables.zero) (fun _ => 0) (fun _ => 0)
    [.plain [1, 0, 0, 8, 0, 0, 0, 1, 6, 0, 0, 8], .plain [0, 0, 0, 2, 4, 0, 0, 8, 0, 0, 0, 3]]
    (by simp [ReadEvent.plain_peerUp])
    (by rintro ev h; obtain rfl := Option.some.inj h; rfl) _ []
    (Discipline.Cuts.of_whole (D := ofpFraming)
      [[1, 0, 0, 8, 0, 0, 0, 1], [6, 0, 0, 8, 0, 0, 0, 2], [4, 0, 0, 8, 0, 0, 0, 3]]
      (by decide))).mpr (by decide)

/-- A frame whose length field is `7` is rejected by loci and is not isolated: the session ends in a
null pointer dereference. -/
theorem session_not_isolated_short :
    ofpFraming.Cuts [1, 0, 0, 7, 0, 0, 0, 1] [⟨[1, 0, 0, 7, 0, 0, 0, 1], 7⟩] [1] ∧
    ¬ HeaderRejected ⟨[1, 0, 0, 7, 0, 0, 0, 1], 7⟩ ∧
    Rejected Loci.lenient Tables.zero ⟨[1, 0, 0, 7, 0, 0, 0, 1], 7⟩ ∧
    Runs.run (sessionStep (tableInject Loci.lenient Tables.zero fun _ => 0)) (.start (fun _ => 0) 0)
      [.plain [1, 0, 0, 7, 0, 0, 0, 1]] = .error .nullDeref ∧
    ¬ Isolated Loci.lenient Tables.zero (fun _ => 0) (fun _ => 0)
      [.plain [1, 0, 0, 7, 0, 0, 0, 1]] [⟨[1, 0, 0, 7, 0, 0, 0, 1], 7⟩] := by
  have hcut : ofpFraming.Cuts [1, 0, 0, 7, 0, 0, 0, 1] [⟨[1, 0, 0, 7, 0, 0, 0, 1], 7⟩] [1] :=
    .frame (by decide) (by decide) (by decide) (.stuck (by decide))
  have hrun : Runs.run (sessionStep (tableInject Loci.lenient Tables.zero fun _ => 0))
      (.start (fun _ => 0) 0) [.plain [1, 0, 0, 7, 0, 0, 0, 1]] = .error .nullDeref := by
    rw [session_plain_error_iff _ hcut]
    rfl
  refine ⟨hcut, by decide, by decide, hrun, ?_⟩
  · rintro ⟨-, s, hs, -⟩
    rw [hrun] at hs
    cases hs

end Sessions

end Mproxy
