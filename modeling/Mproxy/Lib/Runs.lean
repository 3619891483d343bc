import Mathlib.Data.List.Basic
import Mathlib.Tactic.Common

set_option relaxedAutoImplicit false
set_option autoImplicit false

/-!
# Runs of a machine that may fault

A machine is a step function `σ → ι → Except ε σ`: from a state and an input it goes to a new
state, or it stops with a fault. A run feeds it a list of inputs and stops at the first fault.

## Main definitions

* `Runs.run` — the run of a machine over a list of inputs.
* `Runs.Along` — a condition that every step of a run meets.
* `Runs.Follows` — two computations that fault together, and whose results are related.
* `Runs.Extends` — a computation that succeeds wherever another one does, with the same result.

## Main results

* `Runs.run_append` — a run can be cut in two anywhere.
* `Runs.invariant` — what every step preserves holds at the end of every run that does not fault.
* `Runs.Along.history` — the same under a condition on the steps, for invariants that may also
  speak of the inputs that were read.
* `Runs.total` — a machine that cannot fault where the invariant holds never faults in a run.
* `Runs.exists_fault` — a run that faults does so in a step.
* `Runs.exists_first` — where a run changes what holds, there is a first step that does.
* `Runs.along_iff` — all states reached are good exactly if all steps meet the condition.
* `Runs.no_fault` — a fault that no step can raise is not raised by a run.
* `Runs.Follows.bind` — related computations with related continuations are related.
* `Runs.run_extends` — where the steps of a machine extend those of another one, so do the runs.
-/

namespace Runs

variable {σ ι ε : Type}

/-- Feed the inputs to the machine, one after the other. -/
def run (step : σ → ι → Except ε σ) : σ → List ι → Except ε σ
  | s, [] => .ok s
  | s, i :: is => do
    let s' ← step s i
    run step s' is

/-! ## Sequencing -/

section Bind

variable {α β : Type}

/-- A computation goes on from the value that it has. -/
@[simp] lemma ok_bind (a : α) (f : α → Except ε β) : ((.ok a : Except ε α) >>= f) = f a := rfl

/-- A computation that has faulted does not go on. -/
@[simp] lemma error_bind (e : ε) (f : α → Except ε β) :
    ((.error e : Except ε α) >>= f) = .error e := rfl

/-- A computation and its continuation succeed only if both do. -/
lemma bind_eq_ok {x : Except ε α} {f : α → Except ε β} {b : β} :
    (x >>= f) = .ok b ↔ ∃ a, x = .ok a ∧ f a = .ok b := by
  cases x with
  | error e => simp
  | ok a => simp

/-- A computation and its continuation fault if one of them does. -/
lemma bind_eq_error {x : Except ε α} {f : α → Except ε β} {e : ε} :
    (x >>= f) = .error e ↔ x = .error e ∨ ∃ a, x = .ok a ∧ f a = .error e := by
  cases x with
  | error e => simp
  | ok a => simp

/-- A computation whose result is known as an option. -/
lemma ok_of_toOption {x : Except ε α} {a : α} (h : x.toOption = some a) : x = .ok a := by
  cases x with
  | error e => cases h
  | ok b => exact congrArg Except.ok (Option.some.inj h)

end Bind

/-! ## Runs -/

variable {step : σ → ι → Except ε σ}

/-- A run of no steps stays where it is. -/
@[simp] lemma run_nil (s : σ) : run step s [] = .ok s := rfl

/-- A run is a first step, and a run from there. -/
@[simp] lemma run_cons (s : σ) (i : ι) (is : List ι) :
    run step s (i :: is) = (step s i >>= fun s' => run step s' is) := rfl

/-- A run can be cut in two. -/
lemma run_append (s : σ) (is js : List ι) :
    run step s (is ++ js) = (run step s is >>= fun s' => run step s' js) := by
  induction is generalizing s with
  | nil => rfl
  | cons i is ih =>
    simp only [List.cons_append, run_cons]
    cases step s i with
    | error e => rfl
    | ok s' => exact ih s'

/-- **Invariants.** What every step on an admissible input preserves holds at the end of every run
over admissible inputs. -/
theorem invariant {Inv : σ → Prop} {ok : ι → Prop}
    (hstep : ∀ s i s', Inv s → ok i → step s i = .ok s' → Inv s') {s s' : σ} {is : List ι}
    (hs : Inv s) (his : ∀ i ∈ is, ok i) (hrun : run step s is = .ok s') : Inv s' := by
  induction is generalizing s with
  | nil =>
    obtain rfl : s = s' := by simpa using hrun
    exact hs
  | cons i is ih =>
    obtain ⟨s₁, h₁, h₂⟩ := bind_eq_ok.mp hrun
    exact ih (hstep s i s₁ hs (his i List.mem_cons_self) h₁)
      (fun j hj => his j (List.mem_cons_of_mem i hj)) h₂

/-- **Totality.** If every step on an admissible input succeeds where the invariant holds, and
preserves it, then so does every run. -/
theorem total {Inv : σ → Prop} {ok : ι → Prop}
    (hstep : ∀ s i, Inv s → ok i → ∃ s', step s i = .ok s' ∧ Inv s') {s : σ} {is : List ι}
    (hs : Inv s) (his : ∀ i ∈ is, ok i) : ∃ s', run step s is = .ok s' ∧ Inv s' := by
  induction is generalizing s with
  | nil => exact ⟨s, rfl, hs⟩
  | cons i is ih =>
    obtain ⟨s₁, h₁, hs₁⟩ := hstep s i hs (his i List.mem_cons_self)
    obtain ⟨s', hrun, hs'⟩ := ih hs₁ fun j hj => his j (List.mem_cons_of_mem i hj)
    exact ⟨s', by rw [run_cons, h₁, ok_bind, hrun], hs'⟩

/-- **Faults.** A fault that no step on an admissible input can raise where the invariant holds is
not raised by a run. -/
theorem no_fault {Inv : σ → Prop} {ok : ι → Prop} {e : ε}
    (hstep : ∀ s i s', Inv s → ok i → step s i = .ok s' → Inv s')
    (hno : ∀ s i, Inv s → ok i → step s i ≠ .error e) {s : σ} {is : List ι}
    (hs : Inv s) (his : ∀ i ∈ is, ok i) : run step s is ≠ .error e := by
  induction is generalizing s with
  | nil => simp
  | cons i is ih =>
    intro h
    rcases bind_eq_error.mp h with h | ⟨s₁, h₁, h₂⟩
    · exact hno s i hs (his i List.mem_cons_self) h
    · exact ih (hstep s i s₁ hs (his i List.mem_cons_self) h₁)
        (fun j hj => his j (List.mem_cons_of_mem i hj)) h₂

/-- **Faulting steps.** A run that faults does so in a step, from a state that it has reached. -/
theorem exists_fault {s : σ} {is : List ι} {e : ε} (hrun : run step s is = .error e) :
    ∃ js i ks t, is = js ++ i :: ks ∧ run step s js = .ok t ∧ step t i = .error e := by
  induction is generalizing s with
  | nil => cases hrun
  | cons i is ih =>
    rcases bind_eq_error.mp hrun with hstep | ⟨s₁, h₁, h₂⟩
    · exact ⟨[], i, is, s, rfl, rfl, hstep⟩
    · obtain ⟨js, j, ks, t, rfl, hjs, hstep⟩ := ih h₂
      exact ⟨i :: js, j, ks, t, rfl, by rw [run_cons, h₁, ok_bind, hjs], hstep⟩

/-- **First steps.** A run from a state that is not as asked to one that is goes through a first
step that makes it so. -/
theorem exists_first {P : σ → Prop} {s s' : σ} {is : List ι} (hs : ¬ P s) (hs' : P s')
    (hrun : run step s is = .ok s') : ∃ js i ks t t', is = js ++ i :: ks ∧ run step s js = .ok t ∧
      step t i = .ok t' ∧ ¬ P t ∧ P t' ∧ run step t' ks = .ok s' := by
  induction is generalizing s with
  | nil =>
    obtain rfl : s = s' := by simpa using hrun
    exact absurd hs' hs
  | cons i is ih =>
    obtain ⟨s₁, h₁, h₂⟩ := bind_eq_ok.mp hrun
    by_cases hP : P s₁
    · exact ⟨[], i, is, s, s₁, rfl, rfl, h₁, hs, hP, h₂⟩
    · obtain ⟨js, j, ks, t, t', rfl, hjs, hstep, ht, ht', hks⟩ := ih hP h₂
      exact ⟨i :: js, j, ks, t, t', rfl, by rw [run_cons, h₁, ok_bind, hjs], hstep, ht, ht', hks⟩

/-! ## Conditions on the steps of a run -/

/-- `P` holds of every step of the run that does not fault: of the state before it and its input. -/
def Along (step : σ → ι → Except ε σ) (P : σ → ι → Prop) : σ → List ι → Prop
  | _, [] => True
  | s, i :: is => ∀ s', step s i = .ok s' → P s i ∧ Along step P s' is

/-- **Invariants under a condition.** What every step that meets the condition preserves holds at
the end of every run whose steps all meet it, also if it speaks of the inputs that were read. -/
theorem Along.history {P : σ → ι → Prop} {Inv : List ι → σ → Prop}
    (hstep : ∀ is s i s', Inv is s → P s i → step s i = .ok s' → Inv (is ++ [i]) s')
    {s s' : σ} {is js : List ι} (h : Along step P s js) (hs : Inv is s)
    (hrun : run step s js = .ok s') : Inv (is ++ js) s' := by
  induction js generalizing s is with
  | nil =>
    obtain rfl : s = s' := by simpa using hrun
    rwa [List.append_nil]
  | cons j js ih =>
    obtain ⟨s₁, h₁, h₂⟩ := bind_eq_ok.mp hrun
    obtain ⟨hP, hrest⟩ := h s₁ h₁
    rw [List.append_cons]
    exact ih hrest (hstep is s j s₁ hs hP h₁) h₂

/-- A condition that every step of a run meets, in terms of the inputs in front of the step. -/
theorem along_iff_forall {P : σ → ι → Prop} {s : σ} {is : List ι} :
    Along step P s is ↔ ∀ js i ks, is = js ++ i :: ks → ∀ t t', run step s js = .ok t →
      step t i = .ok t' → P t i := by
  induction is generalizing s with
  | nil => simp [Along]
  | cons i is ih =>
    constructor
    · intro h js j ks hjs t t' hrun hstep
      cases js with
      | nil =>
        obtain rfl : s = t := by simpa using hrun
        obtain ⟨rfl, rfl⟩ := List.cons.inj hjs
        exact (h t' hstep).1
      | cons j' js =>
        obtain ⟨rfl, rfl⟩ := List.cons.inj hjs
        obtain ⟨s₁, h₁, h₂⟩ := bind_eq_ok.mp hrun
        exact ih.mp (h s₁ h₁).2 js j ks rfl t t' h₂ hstep
    · intro h s' hs'
      refine ⟨h [] i is rfl s s' rfl hs', ih.mpr fun js j ks hjs t t' hrun hstep => ?_⟩
      exact h (i :: js) j ks (by rw [hjs, List.cons_append]) t t'
        (by rw [run_cons, hs', ok_bind, hrun]) hstep

/-- The condition holds in front of every input up to which the run gets. -/
lemma Along.left {P : σ → ι → Prop} {s : σ} {is js : List ι} (h : Along step P s (is ++ js)) :
    Along step P s is := by
  rw [along_iff_forall] at h ⊢
  rintro ks i ls rfl t t' hrun hstep
  exact h ks i (ls ++ js) (by simp) t t' hrun hstep

/-- **Exact conditions.** Where a step from a good state leads to a good state exactly if it meets
the condition, all states reached in a run are good exactly if all steps meet it. -/
theorem along_iff {P : σ → ι → Prop} {Good : σ → Prop}
    (hstep : ∀ s i s', Good s → step s i = .ok s' → (Good s' ↔ P s i)) {s : σ} (hs : Good s)
    (is : List ι) :
    (∀ js s', js <+: is → run step s js = .ok s' → Good s') ↔ Along step P s is := by
  induction is generalizing s with
  | nil =>
    refine iff_of_true (fun js s' hjs hrun => ?_) trivial
    obtain rfl := List.prefix_nil.mp hjs
    obtain rfl : s = s' := by simpa using hrun
    exact hs
  | cons i is ih =>
    constructor
    · intro h s' hs'
      have hgood : Good s' := h [i] s' (by simp) (by rw [run_cons, hs', ok_bind, run_nil])
      refine ⟨(hstep s i s' hs hs').mp hgood, (ih hgood).mp fun js t hjs hrun => ?_⟩
      exact h (i :: js) t (List.cons_prefix_cons.mpr ⟨rfl, hjs⟩)
        (by rw [run_cons, hs', ok_bind, hrun])
    · intro h js t hjs hrun
      cases js with
      | nil =>
        obtain rfl : s = t := by simpa using hrun
        exact hs
      | cons j js =>
        obtain ⟨rfl, hpre⟩ := List.cons_prefix_cons.mp hjs
        obtain ⟨s₁, h₁, h₂⟩ := bind_eq_ok.mp hrun
        obtain ⟨hP, hrest⟩ := h s₁ h₁
        exact (ih ((hstep s j s₁ hs h₁).mpr hP)).mpr hrest js t hpre h₂

/-! ## Computations that fault together -/

section Follows

variable {α β γ δ : Type}

/-- `x` follows `y`: they fault with the same fault, or succeed with results that `R` relates. -/
def Follows (x : Except ε α) (y : Except ε β) (R : α → β → Prop) : Prop :=
  (∃ e, x = .error e ∧ y = .error e) ∨ ∃ a b, x = .ok a ∧ y = .ok b ∧ R a b

variable {x : Except ε α} {y : Except ε β} {R : α → β → Prop}

/-- Two values that are related follow each other. -/
lemma Follows.ok {a : α} {b : β} (h : R a b) :
    Follows (.ok a : Except ε α) (.ok b : Except ε β) R := Or.inr ⟨a, b, rfl, rfl, h⟩

/-- Two computations that fault alike follow each other. -/
lemma Follows.error (e : ε) : Follows (.error e : Except ε α) (.error e : Except ε β) R :=
  Or.inl ⟨e, rfl, rfl⟩

/-- Related computations with related continuations are related. -/
lemma Follows.bind {f : α → Except ε γ} {g : β → Except ε δ} {Q : γ → δ → Prop}
    (h : Follows x y R) (hfg : ∀ a b, R a b → Follows (f a) (g b) Q) :
    Follows (x >>= f) (y >>= g) Q := by
  rcases h with ⟨e, rfl, rfl⟩ | ⟨a, b, rfl, rfl, hab⟩
  · exact .error e
  · exact hfg a b hab

/-- What a computation that succeeds follows. -/
lemma Follows.ok_right (h : Follows x y R) {b : β} (hy : y = .ok b) : ∃ a, x = .ok a ∧ R a b := by
  rcases h with ⟨e, -, hy'⟩ | ⟨a, b', hx, hy', hab⟩
  · rw [hy] at hy'; cases hy'
  · obtain rfl : b = b' := by rw [hy] at hy'; exact Except.ok.inj hy'
    exact ⟨a, hx, hab⟩

/-- Computations that follow each other have the same faults. -/
lemma Follows.error_iff (h : Follows x y R) (e : ε) : x = .error e ↔ y = .error e := by
  rcases h with ⟨e', rfl, rfl⟩ | ⟨a, b, rfl, rfl, -⟩
  · simp
  · simp

end Follows

/-! ## Computations that succeed more often -/

section Extends

variable {α β : Type} {x y : Except ε α}

/-- `y` extends `x`: where `x` succeeds, `y` does with the same result. -/
def Extends (y x : Except ε α) : Prop := ∀ a, x = .ok a → y = .ok a

/-- Each computation extends itself. -/
lemma Extends.refl (x : Except ε α) : Extends x x := fun _ h => h

/-- Extended computations with extended continuations are extended. -/
lemma Extends.bind {f g : α → Except ε β} (h : Extends y x) (hfg : ∀ a, Extends (g a) (f a)) :
    Extends (y >>= g) (x >>= f) := by
  intro b hb
  obtain ⟨a, hx, hf⟩ := bind_eq_ok.mp hb
  rw [h a hx, ok_bind]
  exact hfg a b hf

/-- **Where the steps of a machine extend those of another one, so do the runs.** -/
theorem run_extends {step step' : σ → ι → Except ε σ} (h : ∀ s i, Extends (step' s i) (step s i))
    (s : σ) (is : List ι) : Extends (run step' s is) (run step s is) := by
  induction is generalizing s with
  | nil => exact .refl _
  | cons i is ih => exact (h s i).bind ih

end Extends

end Runs
