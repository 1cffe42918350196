import Mathlib.Logic.Basic

/-!
# Runs of a step function

A machine here is a step function `step : σ → ι → σ` fed a list of inputs; its run is the left
fold. What a run is *allowed* to contain is a second ingredient: `Along step G s is` says that
the guard `G` holds of every state of the run and the input it is about to take. Restrictions on
inputs, enabledness of a step in a larger system and "the branch that goes wrong is not taken"
are all guards in this sense, and they all read the state **before** the step.

The rules are the two directions an invariant is used in. `Along.invariant` carries a property to
the end of a guarded run; `Along.strengthen` turns it into a fact about every single step of the
run, which is the form a claim about "whenever the machine does …" has.
-/

set_option autoImplicit false

namespace Didem.Lib

variable {σ ι : Type*}

/-- The guard `G` holds at every step of the run of `step` on `is` from `s`. -/
def Along (step : σ → ι → σ) (G : σ → ι → Prop) : σ → List ι → Prop
  | _, [] => True
  | s, i :: is => G s i ∧ Along step G (step s i) is

instance Along.decidable (step : σ → ι → σ) (G : σ → ι → Prop) [∀ s i, Decidable (G s i)] :
    (s : σ) → (is : List ι) → Decidable (Along step G s is)
  | _, [] => inferInstanceAs (Decidable True)
  | s, i :: is =>
      have := Along.decidable step G (step s i) is
      inferInstanceAs (Decidable (G s i ∧ Along step G (step s i) is))

namespace Along

variable {step : σ → ι → σ} {G Q : σ → ι → Prop} {P : σ → Prop}

/-- **A property kept by every guarded step holds at the end of every guarded run.** -/
theorem invariant (hstep : ∀ s i, P s → G s i → P (step s i)) {is : List ι} {s : σ}
    (hs : P s) (hg : Along step G s is) : P (is.foldl step s) := by
  induction is generalizing s with
  | nil => exact hs
  | cons i is ih =>
    obtain ⟨hi, his⟩ := hg
    exact ih (hstep s i hs hi) his

/-- An invariant of the guarded run turns its guard into a stronger one. -/
theorem strengthen (hstep : ∀ s i, P s → G s i → P (step s i))
    (hQ : ∀ s i, P s → G s i → Q s i) {is : List ι} {s : σ}
    (hs : P s) (hg : Along step G s is) : Along step Q s is := by
  induction is generalizing s with
  | nil => trivial
  | cons i is ih =>
    obtain ⟨hi, his⟩ := hg
    exact ⟨hQ s i hs hi, ih (hstep s i hs hi) his⟩

/-- A weaker guard holds along the same run. -/
theorem mono (h : ∀ s i, G s i → Q s i) {is : List ι} {s : σ} (hg : Along step G s is) :
    Along step Q s is :=
  strengthen (P := fun _ => True) (fun _ _ _ _ => trivial) (fun s i _ hi => h s i hi) trivial hg

/-- Every run satisfies the guard that asks for nothing. -/
theorem trivially (is : List ι) (s : σ) : Along step (fun _ _ => True) s is := by
  induction is generalizing s with
  | nil => trivial
  | cons i is ih => exact ⟨trivial, ih _⟩

theorem append {is is' : List ι} {s : σ} :
    Along step G s (is ++ is') ↔ Along step G s is ∧ Along step G (is.foldl step s) is' := by
  induction is generalizing s with
  | nil => simp [Along]
  | cons i is ih => simp only [List.cons_append, Along, List.foldl_cons, ih, and_assoc]

/-- The guard holds along a run when it holds wherever the run is cut. -/
theorem of_forall_split {is : List ι} {s : σ}
    (h : ∀ is₁ i is₂, is = is₁ ++ i :: is₂ → G (is₁.foldl step s) i) : Along step G s is := by
  induction is generalizing s with
  | nil => trivial
  | cons i is ih =>
    refine ⟨h [] i is rfl, ih ?_⟩
    rintro is₁ j is₂ rfl
    exact h (i :: is₁) j is₂ rfl

end Along

/-- The unguarded form of `Along.invariant`: whatever the inputs are. -/
theorem foldl_invariant {step : σ → ι → σ} {P : σ → Prop} (hstep : ∀ s i, P s → P (step s i))
    {s : σ} (hs : P s) (is : List ι) : P (is.foldl step s) :=
  Along.invariant (G := fun _ _ => True) (fun s i h _ => hstep s i h) hs (Along.trivially is s)

end Didem.Lib
