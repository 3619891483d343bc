import Mathlib.Data.List.Basic
import Mathlib.Order.Lattice
import Mathlib.Tactic.Common

set_option relaxedAutoImplicit false
set_option autoImplicit false

/-!
# Length-prefixed framing of a stream

A stream of symbols is cut into frames by a *discipline*: every frame starts with a header of a
fixed number of symbols, and the header announces the length of the whole frame. The frames of a
stream are given by a relation, so that a stream on which the discipline breaks down (a header that
announces length `0`) simply has no cut.

The announced length may be shorter than the header. The next frame then starts inside the
header, and what a receiver is handed is the frame together with the header it was found by; this
is the `view` of a `Frame`.

## Main definitions

* `Framing.Discipline` — header size and announced length.
* `Framing.Discipline.Stuck` — the stream holds no whole frame yet.
* `Framing.Discipline.FrameOf` — a frame of the stream, whether or not the stream has a cut.
* `Framing.Discipline.Cuts` — `Cuts s fs r`: the stream `s` is cut into the frames `fs`, and the
  rest `r` holds no whole frame.

## Main results

* `Framing.Discipline.Cuts.append` — cutting can be interrupted: the rest of one cut, with more
  symbols behind it, is where the next cut starts.
* `Framing.Discipline.Cuts.unique` — a stream has at most one cut.
* `Framing.Discipline.Cuts.exists_cut_left` — a prefix of a stream that has a cut has one too.
* `Framing.Discipline.Cuts.flatten_append` — a cut loses, repeats and reorders nothing.
-/

namespace Framing

/-- How a stream is cut into frames: a header has `hdr` symbols, and a stream that starts with a
whole header announces the length of its first frame. The announcement depends on the header
only. -/
structure Discipline (α : Type) where
  hdr : ℕ
  hdr_pos : 0 < hdr
  announced : List α → ℕ
  announced_append : ∀ s t : List α, hdr ≤ s.length → announced (s ++ t) = announced s

/-- A frame as it is handed to a receiver: the symbols in view and the length of the frame. -/
structure Frame (α : Type) where
  view : List α
  len : ℕ
  deriving DecidableEq

/-- The symbols that belong to the frame. -/
def Frame.body {α : Type} (f : Frame α) : List α := f.view.take f.len

/-- A list of symbols handed over as one frame. -/
def Frame.whole {α : Type} (s : List α) : Frame α := ⟨s, s.length⟩

namespace Discipline

variable {α : Type} (D : Discipline α)

/-- The stream holds no whole frame: not even a header, or less than its header announces. -/
def Stuck (s : List α) : Prop := s.length < D.hdr ∨ s.length < D.announced s

instance (s : List α) : Decidable (D.Stuck s) := inferInstanceAs (Decidable (_ ∨ _))

/-- The first frame of a stream, with its header in view. -/
def first (s : List α) : Frame α := ⟨s.take (max D.hdr (D.announced s)), D.announced s⟩

/-- `Cuts s fs r`: the stream `s` starts with the frames `fs`, none of them announced as empty,
and the rest `r` holds no whole frame. -/
inductive Cuts : List α → List (Frame α) → List α → Prop
  | stuck {s : List α} (h : D.Stuck s) : Cuts s [] s
  | frame {s : List α} {fs : List (Frame α)} {r : List α} (hhdr : D.hdr ≤ s.length)
      (hpos : 0 < D.announced s) (hlen : D.announced s ≤ s.length)
      (hrest : Cuts (s.drop (D.announced s)) fs r) : Cuts s (D.first s :: fs) r

/-- `FrameOf s f`: `f` is one of the frames the stream `s` starts with, up to the first header that
announces an empty frame. -/
inductive FrameOf : List α → Frame α → Prop
  | here {s : List α} (hhdr : D.hdr ≤ s.length) (hpos : 0 < D.announced s)
      (hlen : D.announced s ≤ s.length) : FrameOf s (D.first s)
  | later {s : List α} {f : Frame α} (hhdr : D.hdr ≤ s.length) (hpos : 0 < D.announced s)
      (hlen : D.announced s ≤ s.length) (h : FrameOf (s.drop (D.announced s)) f) : FrameOf s f

variable {D}

/-- There is no frame in an empty stream. -/
lemma stuck_nil : D.Stuck ([] : List α) := Or.inl D.hdr_pos

/-- The first frame consists of the first symbols of the stream. -/
lemma body_first (s : List α) : (D.first s).body = s.take (D.announced s) := by
  have h : D.announced s ≤ max D.hdr (D.announced s) := le_max_right _ _
  simp only [first, Frame.body, List.take_take, Nat.min_eq_left h]

/-- The first frame of a stream does not change when more symbols arrive. -/
lemma first_append {s : List α} (t : List α) (hhdr : D.hdr ≤ s.length)
    (hlen : D.announced s ≤ s.length) : D.first (s ++ t) = D.first s := by
  have h : max D.hdr (D.announced s) ≤ s.length := max_le hhdr hlen
  simp only [first, D.announced_append s t hhdr, List.take_append_of_le_length h]

/-- The frames behind the first one, also when more symbols have arrived. -/
lemma FrameOf.of_drop {s t : List α} {f : Frame α} (hhdr : D.hdr ≤ s.length)
    (hpos : 0 < D.announced s) (hlen : D.announced s ≤ s.length)
    (h : D.FrameOf (s.drop (D.announced s) ++ t) f) : D.FrameOf (s ++ t) f := by
  have hann : D.announced (s ++ t) = D.announced s := D.announced_append s t hhdr
  refine .later ?_ ?_ ?_ ?_
  · rw [List.length_append]; omega
  · rw [hann]; exact hpos
  · rw [hann, List.length_append]; omega
  · rw [hann, List.drop_append_of_le_length hlen]; exact h

/-- A stream that holds a whole header and as much as it announces is not stuck. -/
lemma not_stuck {s : List α} (hhdr : D.hdr ≤ s.length) (hlen : D.announced s ≤ s.length) :
    ¬ D.Stuck s := by
  rintro (h | h) <;> omega

/-- The frames of a stream stay its frames when more symbols arrive. -/
lemma FrameOf.append {s : List α} {f : Frame α} (h : D.FrameOf s f) (t : List α) :
    D.FrameOf (s ++ t) f := by
  induction h with
  | @here s hhdr hpos hlen =>
    have hann : D.announced (s ++ t) = D.announced s := D.announced_append s t hhdr
    rw [← first_append t hhdr hlen]
    refine .here ?_ ?_ ?_
    · rw [List.length_append]; omega
    · rw [hann]; exact hpos
    · rw [hann, List.length_append]; omega
  | later hhdr hpos hlen _ ih => exact .of_drop hhdr hpos hlen ih

/-- A stream that holds no whole frame has none. -/
lemma FrameOf.not_stuck {s : List α} {f : Frame α} (h : D.FrameOf s f) : ¬ D.Stuck s := by
  cases h with
  | here hhdr _ hlen => exact Discipline.not_stuck hhdr hlen
  | later hhdr _ hlen _ => exact Discipline.not_stuck hhdr hlen

/-- The header of a frame and the frame itself are in view. -/
lemma FrameOf.view_length {s : List α} {f : Frame α} (h : D.FrameOf s f) :
    D.hdr ≤ f.view.length ∧ f.len ≤ f.view.length := by
  induction h with
  | here hhdr _ hlen =>
    simp only [first]
    rw [List.length_take_of_le (max_le hhdr hlen)]
    exact ⟨le_max_left _ _, le_max_right _ _⟩
  | later _ _ _ _ ih => exact ih

/-- The frames of a stream are those before some point and those behind it. -/
lemma FrameOf.of_append {s t : List α} {f : Frame α} (hhdr : D.hdr ≤ s.length)
    (hlen : D.announced s ≤ s.length) (h : D.FrameOf (s ++ t) f) :
    f = D.first s ∨ D.FrameOf (s.drop (D.announced s) ++ t) f := by
  have hann : D.announced (s ++ t) = D.announced s := D.announced_append s t hhdr
  generalize hu : s ++ t = u at h
  cases h with
  | here _ _ _ =>
    subst hu
    exact Or.inl (first_append t hhdr hlen)
  | later _ _ _ h =>
    subst hu
    rw [hann, List.drop_append_of_le_length hlen] at h
    exact Or.inr h

namespace Cuts

/-- The rest of a cut holds no whole frame. -/
lemma stuck_rest {s r : List α} {fs : List (Frame α)} (h : D.Cuts s fs r) : D.Stuck r := by
  induction h with
  | stuck h => exact h
  | frame _ _ _ _ ih => exact ih

/-- **A cut loses, repeats and reorders nothing**: the frames and the rest make up the stream. -/
theorem flatten_append {s r : List α} {fs : List (Frame α)} (h : D.Cuts s fs r) :
    (fs.map Frame.body).flatten ++ r = s := by
  induction h with
  | stuck _ => simp
  | @frame s fs r _ _ _ _ ih =>
    rw [List.map_cons, List.flatten_cons, body_first, List.append_assoc, ih, List.take_append_drop]

/-- **Cutting can be interrupted.** If `s` is cut with rest `r`, then the cut of `s` followed by
`t` goes on with the cut of `r` followed by `t`.

**Proof sketch.** Induction on the first cut. Where `s` is stuck it is its own rest. Where it
starts with a frame, that frame is also the first one of `s ++ t`, since its header and all its
symbols lie in `s`. -/
theorem append {s r t r' : List α} {fs gs : List (Frame α)} (h : D.Cuts s fs r)
    (h' : D.Cuts (r ++ t) gs r') : D.Cuts (s ++ t) (fs ++ gs) r' := by
  induction h with
  | stuck _ => exact h'
  | @frame s fs r hhdr hpos hlen _ ih =>
    have hann : D.announced (s ++ t) = D.announced s := D.announced_append s t hhdr
    have hdrop : (s ++ t).drop (D.announced (s ++ t)) = s.drop (D.announced s) ++ t := by
      rw [hann, List.drop_append_of_le_length hlen]
    rw [List.cons_append, ← first_append t hhdr hlen]
    refine .frame ?_ ?_ ?_ ?_
    · rw [List.length_append]; omega
    · rw [hann]; exact hpos
    · rw [hann, List.length_append]; omega
    · rw [hdrop]; exact ih h'

/-- **A stream has at most one cut.** -/
theorem unique {s r r' : List α} {fs gs : List (Frame α)} (h : D.Cuts s fs r)
    (h' : D.Cuts s gs r') : fs = gs ∧ r = r' := by
  induction h generalizing gs r' with
  | stuck hs =>
    cases h' with
    | stuck _ => exact ⟨rfl, rfl⟩
    | frame hhdr _ hlen _ => exact absurd hs (not_stuck hhdr hlen)
  | frame hhdr _ hlen _ ih =>
    cases h' with
    | stuck hs => exact absurd hs (not_stuck hhdr hlen)
    | frame _ _ _ hrest =>
      obtain ⟨rfl, rfl⟩ := ih hrest
      exact ⟨rfl, rfl⟩

/-- A prefix of a stream that has a cut has one too, and the cut of the whole stream goes on from
its rest.

**Proof sketch.** Induction on the length of the prefix `s`. If `s` is stuck there is nothing to
cut. Otherwise its header announces what the header of `s ++ t` announces, so `s` starts with the
first frame of the whole stream; drop it from both. -/
theorem exists_cut_left {s t r' : List α} {gs : List (Frame α)} (h : D.Cuts (s ++ t) gs r') :
    ∃ fs r hs, D.Cuts s fs r ∧ gs = fs ++ hs ∧ D.Cuts (r ++ t) hs r' := by
  induction hn : s.length using Nat.strongRecOn generalizing s gs with
  | ind n ih =>
    by_cases hs : D.Stuck s
    · exact ⟨[], s, gs, .stuck hs, rfl, h⟩
    · have hhdr : D.hdr ≤ s.length := by
        by_contra hlt; exact hs (Or.inl (by omega))
      have hlen : D.announced s ≤ s.length := by
        by_contra hlt; exact hs (Or.inr (by omega))
      have hann : D.announced (s ++ t) = D.announced s := D.announced_append s t hhdr
      have hfirst : D.first (s ++ t) = D.first s := first_append t hhdr hlen
      cases h with
      | stuck hst =>
        refine absurd hst (not_stuck ?_ ?_)
        · rw [List.length_append]; omega
        · rw [hann, List.length_append]; omega
      | @frame _ gs _ _ hpos _ hrest =>
        rw [hann] at hpos
        rw [hann, List.drop_append_of_le_length hlen] at hrest
        have hshort : (s.drop (D.announced s)).length < n := by
          have := D.hdr_pos
          rw [List.length_drop]; omega
        obtain ⟨fs, r, hs', hcut, rfl, hgo⟩ := ih _ hshort hrest rfl
        exact ⟨D.first s :: fs, r, hs', .frame hhdr hpos hlen hcut, by rw [hfirst]; rfl, hgo⟩

/-- Whole frames behind one another are cut into exactly these frames, with nothing left. -/
theorem of_whole (fs : List (List α))
    (h : ∀ f ∈ fs, D.hdr ≤ f.length ∧ D.announced f = f.length) :
    D.Cuts fs.flatten (fs.map Frame.whole) [] := by
  induction fs with
  | nil => exact .stuck stuck_nil
  | cons f fs ih =>
    obtain ⟨hhdr, hann⟩ := h f List.mem_cons_self
    have hfirst : D.first f = Frame.whole f := by
      simp [first, Frame.whole, hann, hhdr]
    have hpos := D.hdr_pos
    have hcut : D.Cuts f [Frame.whole f] [] := by
      rw [← hfirst]
      refine .frame hhdr (by omega) (by omega) ?_
      rw [List.drop_eq_nil_of_le (by omega)]
      exact .stuck stuck_nil
    exact hcut.append (ih fun g hg => h g (List.mem_cons_of_mem f hg))

/-- Every frame of a cut is the first frame of the stream from where it starts: its header lies in
the stream there, and its length is what that header announces. -/
theorem frame_at {s r : List α} {fs : List (Frame α)} (h : D.Cuts s fs r) (i : ℕ)
    (hi : i < fs.length) :
    ∃ o, o = ((fs.take i).map Frame.body).flatten.length ∧ D.hdr ≤ (s.drop o).length ∧
      0 < fs[i].len ∧ fs[i].len ≤ (s.drop o).length ∧ fs[i] = D.first (s.drop o) := by
  induction h generalizing i with
  | stuck _ => exact absurd hi (Nat.not_lt_zero i)
  | @frame s fs r hhdr hpos hlen _ ih =>
    cases i with
    | zero => exact ⟨0, rfl, hhdr, hpos, hlen, rfl⟩
    | succ i =>
      obtain ⟨o, ho, h1, h2, h3, h4⟩ := ih i (Nat.lt_of_succ_lt_succ hi)
      refine ⟨D.announced s + o, ?_, ?_⟩
      · rw [List.take_succ_cons, List.map_cons, List.flatten_cons, List.length_append, body_first,
          List.length_take_of_le hlen, ho]
      · rw [← List.drop_drop]
        exact ⟨h1, h2, h3, h4⟩

/-- The frames of a cut have their header and all their symbols in view. -/
lemma view_length {s r : List α} {fs : List (Frame α)} (h : D.Cuts s fs r) {f : Frame α}
    (hf : f ∈ fs) : D.hdr ≤ f.view.length ∧ f.len ≤ f.view.length := by
  obtain ⟨i, hi, rfl⟩ := List.mem_iff_getElem.mp hf
  obtain ⟨o, -, hhdr, -, hlen, hfirst⟩ := h.frame_at i hi
  rw [hfirst] at hlen ⊢
  simp only [first] at hlen ⊢
  rw [List.length_take_of_le (max_le hhdr hlen)]
  exact ⟨le_max_left _ _, le_max_right _ _⟩

end Cuts

end Discipline

end Framing
