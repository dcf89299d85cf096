import Mathlib

/-!
Runs of a step function over a list of inputs. A property of single steps holds
throughout a run; an invariant turns facts about single steps into facts about
whole runs.
-/

namespace Runs

variable {σ ι : Type}

/-- Every step of the run satisfies `good` in the state it starts from. -/
def Throughout (step : σ → ι → σ) (good : σ → ι → Prop) : σ → List ι → Prop
  | _, [] => True
  | state, input :: rest => good state input ∧ Throughout step good (step state input) rest

instance Throughout.decidable (step : σ → ι → σ) (good : σ → ι → Prop)
    [∀ state input, Decidable (good state input)] :
    ∀ state inputs, Decidable (Throughout step good state inputs)
  | _, [] => inferInstanceAs (Decidable True)
  | state, input :: rest =>
      have := Throughout.decidable step good (step state input) rest
      inferInstanceAs (Decidable (_ ∧ _))

variable {step : σ → ι → σ} {good guard : σ → ι → Prop} {safe : σ → Prop}

@[simp] theorem throughout_nil (state : σ) : Throughout step good state [] := True.intro

@[simp] theorem throughout_cons (state : σ) (input : ι) (rest : List ι) :
    Throughout step good state (input :: rest) ↔
      good state input ∧ Throughout step good (step state input) rest :=
  Iff.rfl

theorem throughout_always (always : ∀ state input, good state input) (state : σ)
    (inputs : List ι) : Throughout step good state inputs := by
  induction inputs generalizing state with
  | nil => exact throughout_nil state
  | cons input rest ih => exact ⟨always state input, ih (step state input)⟩

theorem throughout_inputs (allowed : ι → Prop) (state : σ) (inputs : List ι) :
    Throughout step (fun _ input => allowed input) state inputs ↔
      ∀ input ∈ inputs, allowed input := by
  induction inputs generalizing state with
  | nil => simp
  | cons input rest ih => simp [ih]

theorem Throughout.keeps
    (preserved : ∀ state input, safe state → guard state input →
      safe (step state input))
    {state : σ} {inputs : List ι} (initial : safe state)
    (guarded : Throughout step guard state inputs) :
    safe (inputs.foldl step state) := by
  induction inputs generalizing state with
  | nil => exact initial
  | cons input rest ih =>
      exact ih (preserved state input initial guarded.1) guarded.2

theorem Throughout.imp
    (preserved : ∀ state input, safe state → guard state input →
      safe (step state input))
    (implies : ∀ state input, safe state → guard state input → good state input)
    {state : σ} {inputs : List ι} (initial : safe state)
    (guarded : Throughout step guard state inputs) :
    Throughout step good state inputs := by
  induction inputs generalizing state with
  | nil => exact throughout_nil state
  | cons input rest ih =>
      exact ⟨implies state input initial guarded.1,
        ih (preserved state input initial guarded.1) guarded.2⟩

/-- Where single steps from the invariant are good exactly under the guard, whole runs are. -/
theorem throughout_iff
    (preserved : ∀ state input, safe state → guard state input →
      safe (step state input))
    (exact_guard : ∀ state input, safe state → (good state input ↔ guard state input))
    {state : σ} (initial : safe state) (inputs : List ι) :
    Throughout step good state inputs ↔ Throughout step guard state inputs := by
  induction inputs generalizing state with
  | nil => simp
  | cons input rest ih =>
      simp only [throughout_cons, exact_guard state input initial]
      refine and_congr_right fun guarded => ?_
      exact ih (preserved state input initial guarded)

theorem throughout_iff_within {allowed : σ → ι → Prop}
    (preserved : ∀ state input, safe state → allowed state input → guard state input →
      safe (step state input))
    (exact_guard : ∀ state input, safe state → allowed state input →
      (good state input ↔ guard state input))
    {state : σ} (initial : safe state) {inputs : List ι}
    (within : Throughout step allowed state inputs) :
    Throughout step good state inputs ↔ Throughout step guard state inputs := by
  induction inputs generalizing state with
  | nil => simp
  | cons input rest ih =>
      simp only [throughout_cons, exact_guard state input initial within.1]
      refine and_congr_right fun guarded => ?_
      exact ih (preserved state input initial within.1 guarded) within.2

end Runs
