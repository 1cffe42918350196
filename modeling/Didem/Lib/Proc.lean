import Didem.Lib.Outcome
import Mathlib.Order.Defs.Unbundled

/-!
# Procedures

A procedure reads and writes a state and ends in an `Outcome`. The state is *not* rolled back when
it ends badly: what was written before an error or a panic stays written, as in the languages this
is a model of.

What a procedure may do to the state is a relation between the state before and the state after,
**however the procedure ends** (`Within`). For a preorder the rules follow the way a procedure is
put together, so that a long one with many early exits needs one line for each call it makes and
none for the exits. Where a procedure panics (`Panics`) follows the way it is put together as well,
with an equivalence for each construct.
-/

set_option autoImplicit false

namespace Didem.Lib

/-- A call that works on a state and may fail. -/
def Proc (ε σ α : Type) : Type := σ → Outcome ε α × σ

namespace Proc

variable {ε σ τ α β : Type}

def run (p : Proc ε σ α) (s : σ) : Outcome ε α × σ := p s

def bind (p : Proc ε σ α) (f : α → Proc ε σ β) : Proc ε σ β := fun s =>
  match p.run s with
  | (.ok a, s) => (f a).run s
  | (.err e, s) => (.err e, s)
  | (.panic, s) => (.panic, s)

instance : Monad (Proc ε σ) where
  pure a := fun s => (.ok a, s)
  bind := bind

def get : Proc ε σ σ := fun s => (.ok s, s)

def modify (g : σ → σ) : Proc ε σ Unit := fun s => (.ok (), g s)

/-- An outcome known without touching the state. -/
def lift (x : Outcome ε α) : Proc ε σ α := fun s => (x, s)

/-- Rewrites the error a procedure ends with. -/
def wrap (g : ε → ε) (p : Proc ε σ α) : Proc ε σ α := fun s => ((p.run s).1.mapErr g, (p.run s).2)

/-- A procedure whose error is logged, and something else returned instead. -/
def orElse (p : Proc ε σ α) (a : α) : Proc ε σ α := fun s =>
  match p.run s with
  | (.ok b, s) => (.ok b, s)
  | (.err _, s) => (.ok a, s)
  | (.panic, s) => (.panic, s)

def logged (p : Proc ε σ Unit) : Proc ε σ Unit := p.orElse ()

/-- A procedure on a part of the state. -/
def on (part : τ → σ) (put : σ → τ → τ) (p : Proc ε σ α) : Proc ε τ α := fun t =>
  ((p.run (part t)).1, put (p.run (part t)).2 t)

/-! ## Running -/

@[simp] theorem run_pure (a : α) (s : σ) : (pure a : Proc ε σ α).run s = (.ok a, s) := rfl

@[simp] theorem run_get (s : σ) : (get : Proc ε σ σ).run s = (.ok s, s) := rfl

@[simp] theorem run_lift (x : Outcome ε α) (s : σ) : (lift x : Proc ε σ α).run s = (x, s) := rfl

@[simp] theorem run_modify (g : σ → σ) (s : σ) :
    (modify g : Proc ε σ Unit).run s = (.ok (), g s) := rfl

@[simp] theorem run_bind (p : Proc ε σ α) (f : α → Proc ε σ β) (s : σ) :
    (p >>= f).run s =
      match p.run s with
      | (.ok a, s) => (f a).run s
      | (.err e, s) => (.err e, s)
      | (.panic, s) => (.panic, s) := rfl

/-- A procedure succeeds by succeeding in each of its calls. -/
theorem bind_eq_ok {p : Proc ε σ α} {f : α → Proc ε σ β} {s s' : σ} {b : β} :
    (p >>= f).run s = (.ok b, s') ↔
      ∃ a s₁, p.run s = (.ok a, s₁) ∧ (f a).run s₁ = (.ok b, s') := by
  rw [run_bind]
  cases p.run s with
  | mk outcome s₁ => cases outcome <;> simp [and_assoc]

/-- After a call that succeeds a procedure ends as the rest does. -/
theorem fst_bind_of_ok {p : Proc ε σ α} (f : α → Proc ε σ β) {s : σ} {a : α}
    (h : (p.run s).1 = .ok a) : ((p >>= f).run s).1 = ((f a).run (p.run s).2).1 := by
  rw [run_bind]
  generalize p.run s = r at h
  obtain ⟨outcome, s'⟩ := r
  obtain rfl : outcome = .ok a := h
  rfl

theorem fst_wrap_of_ok {p : Proc ε σ α} (g : ε → ε) {s : σ} {a : α} (h : (p.run s).1 = .ok a) :
    ((p.wrap g).run s).1 = .ok a := Outcome.mapErr_eq_ok.mpr h

theorem run_orElse (p : Proc ε σ α) (a : α) (s : σ) :
    (p.orElse a).run s =
      match p.run s with
      | (.ok b, s) => (.ok b, s)
      | (.err _, s) => (.ok a, s)
      | (.panic, s) => (.panic, s) := rfl

@[simp] theorem run_logged_snd (p : Proc ε σ Unit) (s : σ) :
    (p.logged.run s).2 = (p.run s).2 := by
  rw [logged, run_orElse]
  obtain ⟨outcome, s'⟩ := p.run s
  cases outcome <;> rfl

/-! ## What a procedure may do -/

/-- Every run of the procedure, however it ends, relates its two states by `R`. -/
def Within (R : σ → σ → Prop) (p : Proc ε σ α) : Prop := ∀ s, R s (p.run s).2

namespace Within

variable {R : σ → σ → Prop}

theorem modify {g : σ → σ} (h : ∀ s, R s (g s)) : Within R (Proc.modify g : Proc ε σ Unit) := h

theorem wrap {g : ε → ε} {p : Proc ε σ α} (h : Within R p) : Within R (p.wrap g) := h

theorem pure [Std.Refl R] (a : α) : Within R (Pure.pure a : Proc ε σ α) := Std.Refl.refl

theorem get [Std.Refl R] : Within R (Proc.get : Proc ε σ σ) := Std.Refl.refl

theorem lift [Std.Refl R] (x : Outcome ε α) : Within R (Proc.lift x : Proc ε σ α) := Std.Refl.refl

theorem bind [IsTrans σ R] {p : Proc ε σ α} {f : α → Proc ε σ β} (hp : Within R p)
    (hf : ∀ a, Within R (f a)) : Within R (p >>= f) := by
  intro s
  have hfirst : R s (p.run s).2 := hp s
  rw [run_bind]
  -- only a first half that succeeds is followed by a second
  cases hps : p.run s with
  | mk r t =>
    rw [hps] at hfirst
    cases r with
    | ok a => exact IsTrans.trans _ _ _ hfirst (hf a t)
    | err e => exact hfirst
    | panic => exact hfirst

/-- Logging an error and going on does nothing to the state. -/
theorem orElse {p : Proc ε σ α} (h : Within R p) (a : α) : Within R (p.orElse a) := by
  intro s
  have hs := h s
  rw [run_orElse]
  cases hp : p.run s with
  | mk outcome s' =>
    rw [hp] at hs
    cases outcome <;> exact hs

theorem logged {p : Proc ε σ Unit} (h : Within R p) : Within R p.logged := h.orElse ()

theorem of_run {p : Proc ε σ α} (h : Within R p) {s s' : σ} {x : Outcome ε α}
    (hrun : p.run s = (x, s')) : R s s' := by
  have hs := h s
  rwa [hrun] at hs

theorem mono {Q : σ → σ → Prop} {p : Proc ε σ α} (h : Within R p)
    (hRQ : ∀ s s', R s s' → Q s s') : Within Q p := fun s => hRQ _ _ (h s)

end Within

/-! ## Where a procedure panics -/

/-- The procedure panics in this state. -/
def Panics (p : Proc ε σ α) (s : σ) : Prop := (p.run s).1 = .panic

@[simp] theorem not_panics_pure (a : α) (s : σ) : ¬ (Pure.pure a : Proc ε σ α).Panics s :=
  fun h => nomatch h

@[simp] theorem not_panics_modify (g : σ → σ) (s : σ) : ¬ (modify g : Proc ε σ Unit).Panics s :=
  fun h => nomatch h

@[simp] theorem panics_lift {x : Outcome ε α} {s : σ} : (lift x).Panics s ↔ x = .panic := Iff.rfl

@[simp] theorem panics_wrap {g : ε → ε} {p : Proc ε σ α} {s : σ} :
    (p.wrap g).Panics s ↔ p.Panics s := Outcome.mapErr_eq_panic

@[simp] theorem panics_on {part : τ → σ} {put : σ → τ → τ} {p : Proc ε σ α} {t : τ} :
    (p.on part put).Panics t ↔ p.Panics (part t) := Iff.rfl

/-- An error that is logged is not a panic; a panic is not logged. -/
@[simp] theorem panics_orElse {p : Proc ε σ α} {a : α} {s : σ} :
    (p.orElse a).Panics s ↔ p.Panics s := by
  unfold Panics
  rw [run_orElse]
  cases p.run s with
  | mk r s' => cases r <;> simp

@[simp] theorem panics_logged {p : Proc ε σ Unit} {s : σ} : p.logged.Panics s ↔ p.Panics s :=
  panics_orElse

/-- A logged procedure that does not panic succeeds. -/
theorem run_logged_of_not_panics {p : Proc ε σ Unit} {s : σ} (h : ¬ p.Panics s) :
    p.logged.run s = (.ok (), (p.run s).2) := by
  unfold Panics at h
  rw [logged, run_orElse]
  revert h
  cases p.run s with
  | mk r s' =>
    intro h
    cases r with
    | ok a => rfl
    | err e => rfl
    | panic => exact absurd rfl h

/-- **A sequence panics in its first call, or in the second after the first succeeded.** -/
theorem panics_bind {p : Proc ε σ α} {f : α → Proc ε σ β} {s : σ} :
    (p >>= f).Panics s ↔ p.Panics s ∨ ∃ a s', p.run s = (.ok a, s') ∧ (f a).Panics s' := by
  unfold Panics
  rw [run_bind]
  cases p.run s with
  | mk r s' => cases r <;> simp [and_assoc]

@[simp] theorem panics_get_bind {f : σ → Proc ε σ β} {s : σ} :
    (get >>= f).Panics s ↔ (f s).Panics s := Iff.rfl

@[simp] theorem panics_modify_bind {g : σ → σ} {f : Unit → Proc ε σ β} {s : σ} :
    (modify g >>= f).Panics s ↔ (f ()).Panics (g s) := Iff.rfl

theorem panics_lift_bind {x : Outcome ε α} {f : α → Proc ε σ β} {s : σ} :
    (lift x >>= f).Panics s ↔ x = .panic ∨ ∃ a, x = .ok a ∧ (f a).Panics s := by
  rw [panics_bind]
  simp [and_assoc]

end Proc
end Didem.Lib
