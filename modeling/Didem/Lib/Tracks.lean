import Didem.Lib.Proc

/-!
# A procedure that does more

A procedure on a larger state that does to a part of it what another procedure does there, and ends
the same way: `Tracks part p q`. What `p` does beside that is its own business. The rules follow the
way `p` is put together, as those of `Within` do; the one that is not about a construct is `skip`,
for the calls `q` knows nothing of.
-/

set_option autoImplicit false

namespace Didem.Lib.Proc

variable {ε σ τ α β : Type} {part : τ → σ}

/-- The larger procedure ends as the smaller one does, and leaves the part as it does. -/
def Tracks (part : τ → σ) (p : Proc ε τ α) (q : Proc ε σ α) : Prop :=
  ∀ t, ((p.run t).1, part (p.run t).2) = q.run (part t)

/-- A call that succeeds and leaves the part alone. -/
def Skips (part : τ → σ) (p : Proc ε τ Unit) : Prop :=
  ∀ t, (p.run t).1 = .ok () ∧ part (p.run t).2 = part t

theorem Skips.modify {g : τ → τ} (h : ∀ t, part (g t) = part t) :
    Skips part (Proc.modify g : Proc ε τ Unit) := fun t => ⟨rfl, h t⟩

theorem Skips.bind {p q : Proc ε τ Unit} (hp : Skips part p) (hq : Skips part q) :
    Skips part (p >>= fun _ => q) := by
  intro t
  obtain ⟨hok, hpart⟩ := hp t
  obtain ⟨hok', hpart'⟩ := hq (p.run t).2
  rw [run_bind]
  generalize p.run t = r at hok hpart hok' hpart'
  obtain ⟨outcome, t'⟩ := r
  obtain rfl : outcome = .ok () := hok
  exact ⟨hok', hpart'.trans hpart⟩

namespace Tracks

theorem pure (a : α) : Tracks part (Pure.pure a : Proc ε τ α) (Pure.pure a) := fun _ => rfl

theorem lift (x : Outcome ε α) : Tracks part (Proc.lift x : Proc ε τ α) (Proc.lift x) := fun _ => rfl

/-- A call of the smaller procedure's own. -/
theorem on {put : σ → τ → τ} (hput : ∀ s t, part (put s t) = s) (q : Proc ε σ α) :
    Tracks part (q.on part put) q := fun t => by
  simp only [Proc.on, Proc.run, hput]

theorem bind {p : Proc ε τ α} {q : Proc ε σ α} {f : α → Proc ε τ β} {g : α → Proc ε σ β}
    (h : Tracks part p q) (hf : ∀ a, Tracks part (f a) (g a)) :
    Tracks part (p >>= f) (q >>= g) := by
  intro t
  have ht := h t
  rw [run_bind, run_bind, ← ht]
  obtain ⟨outcome, t'⟩ := p.run t
  cases outcome with
  | ok a => exact hf a t'
  | err e => rfl
  | panic => rfl

/-- Both look at their state. -/
theorem get_bind {f : τ → Proc ε τ β} {g : σ → Proc ε σ β}
    (h : ∀ t, Tracks part (f t) (g (part t))) :
    Tracks part (Proc.get >>= f) (Proc.get >>= g) := fun t => h t t

/-- The larger one does something first that the smaller one knows nothing of. -/
theorem skip {p : Proc ε τ Unit} {f : Unit → Proc ε τ β} {q : Proc ε σ β} (hp : Skips part p)
    (h : Tracks part (f ()) q) : Tracks part (p >>= f) q := by
  intro t
  obtain ⟨hok, hpart⟩ := hp t
  rw [run_bind, ← hpart]
  generalize p.run t = r at hok
  obtain ⟨outcome, t'⟩ := r
  obtain rfl : outcome = .ok () := hok
  exact h t'

/-- The larger one does something last. -/
theorem then_skip {p : Proc ε τ Unit} {q : Proc ε σ Unit} {r : Proc ε τ Unit}
    (h : Tracks part p q) (hr : Skips part r) : Tracks part (p >>= fun _ => r) q := by
  intro t
  have ht := h t
  rw [run_bind, ← ht]
  obtain ⟨outcome, t'⟩ := p.run t
  cases outcome with
  | ok a =>
    obtain ⟨hok, hpart⟩ := hr t'
    exact Prod.ext hok hpart
  | err e => rfl
  | panic => rfl

theorem of_skips {p : Proc ε τ Unit} (h : Skips part p) : Tracks part p (Pure.pure ()) :=
  fun t => Prod.ext (h t).1 (h t).2

theorem orElse {p : Proc ε τ α} {q : Proc ε σ α} (h : Tracks part p q) (a : α) :
    Tracks part (p.orElse a) (q.orElse a) := by
  intro t
  have ht := h t
  rw [run_orElse, run_orElse, ← ht]
  obtain ⟨outcome, t'⟩ := p.run t
  cases outcome <;> rfl

theorem logged {p : Proc ε τ Unit} {q : Proc ε σ Unit} (h : Tracks part p q) :
    Tracks part p.logged q.logged := h.orElse ()

theorem ite {p p' : Proc ε τ α} {q q' : Proc ε σ α} (b : Prop) [Decidable b] (h : Tracks part p q)
    (h' : Tracks part p' q') : Tracks part (if b then p else p') (if b then q else q') := by
  split
  · exact h
  · exact h'

end Tracks
end Didem.Lib.Proc
