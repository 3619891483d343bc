import Mproxy.Lib.Runs

set_option relaxedAutoImplicit false
set_option autoImplicit false

/-!
# Components of a machine

A component of a machine is a machine of its own whose state shows in the state of the whole. A
step of the whole either is a step of the component, on an input that can be told from the state
and the input of the whole, or leaves the component alone. A run of the whole then is a run of the
component, on the inputs that the component sees in it.

## Main definitions

* `Runs.seen` — the inputs that a component sees in a run.
* `Runs.Component` — what makes a machine a component of another one.

## Main results

* `Runs.Component.run` — a run of the whole is a run of the component.
* `Runs.Component.along` — what the whole promises about the inputs of its component holds of all of
  them.
* `Runs.Along.follows` — a run of a machine that does in each step what another one does in a run.
-/

namespace Runs

variable {σ ι ε κ γ : Type} {step : σ → ι → Except ε σ} {cstep : κ → γ → Except ε κ}
  {label : σ → ι → Option γ}

/-- The inputs that a component sees in a run: those that `label` gives for the steps of the run, up
to the first one that faults. -/
def seen (step : σ → ι → Except ε σ) (label : σ → ι → Option γ) : σ → List ι → List γ
  | _, [] => []
  | s, i :: is =>
    (label s i).toList ++ match step s i with
      | .error _ => []
      | .ok s' => seen step label s' is

/-- In an empty run a component sees nothing. -/
@[simp] lemma seen_nil (s : σ) : seen step label s [] = [] := rfl

/-- What is seen of a run whose first step succeeds. -/
lemma seen_cons {s s' : σ} {i : ι} (h : step s i = .ok s') (is : List ι) :
    seen step label s (i :: is) = (label s i).toList ++ seen step label s' is := by
  rw [seen, h]

/-- What a component sees in a run and its continuation. -/
lemma seen_append {s s' : σ} {is : List ι} (h : run step s is = .ok s') (js : List ι) :
    seen step label s (is ++ js) = seen step label s is ++ seen step label s' js := by
  induction is generalizing s with
  | nil =>
    obtain rfl : s = s' := by simpa using h
    rfl
  | cons i is ih =>
    obtain ⟨s₁, h₁, h₂⟩ := bind_eq_ok.mp h
    rw [List.cons_append, seen_cons h₁, seen_cons h₁, ih h₂, List.append_assoc]

/-- In a run that succeeds, a component sees the same where the steps are extended. -/
lemma seen_extends {step' : σ → ι → Except ε σ} (h : ∀ s i, Extends (step' s i) (step s i))
    {s s' : σ} {is : List ι} (hrun : run step s is = .ok s') :
    seen step' label s is = seen step label s is := by
  induction is generalizing s with
  | nil => rfl
  | cons i is ih =>
    obtain ⟨s₁, h₁, h₂⟩ := bind_eq_ok.mp hrun
    rw [seen_cons h₁, seen_cons (h s i s₁ h₁), ih h₂]

/-- `cstep` is a component of `step` where `Inv` holds: `R` says how its state shows in that of the
whole. -/
structure Component (step : σ → ι → Except ε σ) (cstep : κ → γ → Except ε κ)
    (label : σ → ι → Option γ) (Inv : σ → Prop) (R : σ → κ → Prop) : Prop where
  kept : ∀ {s i s'}, Inv s → step s i = .ok s' → Inv s'
  /-- a step with a label is a step of the component -/
  moves : ∀ {s i g k}, Inv s → R s k → label s i = some g → Follows (step s i) (cstep k g) R
  /-- a step without one leaves the component alone -/
  rests : ∀ {s i s' k}, Inv s → R s k → label s i = none → step s i = .ok s' → R s' k

namespace Component

variable {Inv : σ → Prop} {R : σ → κ → Prop} (h : Component step cstep label Inv R)

include h

/-- A step of the whole, for the component. -/
lemma step_run {s s' : σ} {i : ι} {k : κ} (hs : Inv s) (hR : R s k) (hstep : step s i = .ok s') :
    ∃ k', run cstep k (label s i).toList = .ok k' ∧ R s' k' := by
  cases hl : label s i with
  | none => exact ⟨k, rfl, h.rests hs hR hl hstep⟩
  | some g =>
    obtain ⟨k', hk', hR'⟩ : ∃ k', cstep k g = .ok k' ∧ R s' k' := by
      rcases h.moves hs hR hl with ⟨e, he, -⟩ | ⟨s₁, k', hs₁, hk', hR'⟩
      · rw [hstep] at he
        cases he
      · obtain rfl := Except.ok.inj (hstep.symm.trans hs₁)
        exact ⟨k', hk', hR'⟩
    exact ⟨k', by rw [Option.toList_some, run_cons, hk', ok_bind, run_nil], hR'⟩

/-- **A run of the whole is a run of the component**, on the inputs that the component sees. -/
theorem run {s s' : σ} {is : List ι} {k : κ} (hs : Inv s) (hR : R s k)
    (hrun : Runs.run step s is = .ok s') :
    ∃ k', Runs.run cstep k (seen step label s is) = .ok k' ∧ R s' k' := by
  induction is generalizing s k with
  | nil =>
    obtain rfl : s = s' := by simpa using hrun
    exact ⟨k, rfl, hR⟩
  | cons i is ih =>
    obtain ⟨s₁, h₁, h₂⟩ := bind_eq_ok.mp hrun
    obtain ⟨k₁, hk₁, hR₁⟩ := h.step_run hs hR h₁
    obtain ⟨k', hk', hR'⟩ := ih (h.kept hs h₁) hR₁ h₂
    exact ⟨k', by rw [seen_cons h₁, run_append, hk₁, ok_bind, hk'], hR'⟩

/-- **What the whole promises about the inputs of the component** holds of all those it sees. -/
theorem along {P : κ → γ → Prop} (hP : ∀ {s i g k}, Inv s → R s k → label s i = some g → P k g)
    {s s' : σ} {is : List ι} {k : κ} (hs : Inv s) (hR : R s k)
    (hrun : Runs.run step s is = .ok s') : Along cstep P k (seen step label s is) := by
  induction is generalizing s k with
  | nil => trivial
  | cons i is ih =>
    obtain ⟨s₁, h₁, h₂⟩ := bind_eq_ok.mp hrun
    obtain ⟨k₁, hk₁, hR₁⟩ := h.step_run hs hR h₁
    have hrest := ih (h.kept hs h₁) hR₁ h₂
    rw [seen_cons h₁]
    cases hl : label s i with
    | none =>
      rw [hl] at hk₁
      obtain rfl : k = k₁ := by simpa using hk₁
      exact hrest
    | some g =>
      rw [hl, Option.toList_some, run_cons] at hk₁
      intro k₂ hk₂
      rw [hk₂, ok_bind, run_nil] at hk₁
      obtain rfl := Except.ok.inj hk₁
      exact ⟨hP hs hR hl, hrest⟩

end Component

/-- **Runs that follow runs.** If from related states every step is followed by the inputs that its
label gives, as long as the invariant holds, and if steps that meet a condition keep the invariant,
then a run whose steps all meet it is followed by what is seen in it, also where it faults. -/
theorem Along.follows {P : σ → ι → Prop} {Inv : σ → Prop} {R : σ → κ → Prop}
    (hkept : ∀ s i s', Inv s → P s i → step s i = .ok s' → Inv s')
    (hmoves : ∀ s i k, Inv s → R s k → Follows (step s i) (run cstep k (label s i).toList) R)
    {s : σ} {is : List ι} {k : κ} (h : Along step P s is) (hs : Inv s) (hR : R s k) :
    Follows (run step s is) (run cstep k (seen step label s is)) R := by
  induction is generalizing s k with
  | nil => exact .ok hR
  | cons i is ih =>
    rcases hmoves s i k hs hR with ⟨e, hstep, hlabel⟩ | ⟨s', k', hstep, hlabel, hR'⟩
    · rw [run_cons, hstep, seen, hstep, List.append_nil, hlabel]
      exact .error e
    · obtain ⟨hP, hrest⟩ := h s' hstep
      rw [run_cons, hstep, ok_bind, seen_cons hstep, run_append, hlabel, ok_bind]
      exact ih hrest (hkept s i s' hs hP hstep) hR'

end Runs
