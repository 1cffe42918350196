import Didem.Lib.Proc

/-!
# Pre- and postconditions

`Triple P p Q E`: started where `P` holds, the procedure `p` returns a value and leaves a state of
which `Q` holds, or it ends in an error or a panic and leaves a state of which `E` holds. A state is
not rolled back, so the second case is as much a part of the contract as the first.

The rules follow the constructs. `E` goes through a whole procedure unchanged, so every early exit
owes the same thing; `logged` asks for the same on every exit.
-/

set_option autoImplicit false

namespace Didem.Lib.Proc

variable {ε σ τ α β : Type} {P : σ → Prop} {E : σ → Prop}

/-- What a procedure ends with, if it is started well. -/
def Triple (P : σ → Prop) (p : Proc ε σ α) (Q : α → σ → Prop) (E : σ → Prop) : Prop :=
  ∀ s, P s →
    match p.run s with
    | (.ok a, s') => Q a s'
    | (.err _, s') | (.panic, s') => E s'

namespace Triple

/-- However it ends, if both postconditions are one. -/
theorem snd {p : Proc ε σ α} (h : Triple P p (fun _ => E) E) {s : σ} (hs : P s) : E (p.run s).2 := by
  have hend := h s hs
  revert hend
  generalize p.run s = r
  obtain ⟨outcome, s'⟩ := r
  cases outcome <;> exact id

theorem of_snd {p : Proc ε σ α} (h : ∀ s, P s → E (p.run s).2) : Triple P p (fun _ => E) E := by
  intro s hs
  have hend := h s hs
  revert hend
  generalize p.run s = r
  obtain ⟨outcome, s'⟩ := r
  cases outcome <;> exact id

theorem weaken {p : Proc ε σ α} {Q : α → σ → Prop} {R : σ → Prop} (h : Triple R p Q E)
    (hP : ∀ s, P s → R s) : Triple P p Q E := fun s hs => h s (hP s hs)

/-- Less may be promised. -/
theorem promise {p : Proc ε σ α} {Q Q' : α → σ → Prop} {E' : σ → Prop} (h : Triple P p Q' E')
    (hQ : ∀ a s, Q' a s → Q a s) (hE : ∀ s, E' s → E s) : Triple P p Q E := by
  intro s hs
  have hend := h s hs
  revert hend
  generalize p.run s = r
  obtain ⟨outcome, s'⟩ := r
  cases outcome with
  | ok a => exact hQ a s'
  | err e => exact hE s'
  | panic => exact hE s'

theorem pure {Q : α → σ → Prop} {a : α} (h : ∀ s, P s → Q a s) :
    Triple P (Pure.pure a : Proc ε σ α) Q E := h

theorem modify {g : σ → σ} {Q : Unit → σ → Prop} (h : ∀ s, P s → Q () (g s)) :
    Triple P (Proc.modify g : Proc ε σ Unit) Q E := h

theorem lift {x : Outcome ε α} {Q : α → σ → Prop} (hok : ∀ a, x = .ok a → ∀ s, P s → Q a s)
    (hbad : ∀ s, P s → E s) : Triple P (Proc.lift x) Q E := by
  intro s hs
  simp only [run_lift]
  cases x with
  | ok a => exact hok a rfl s hs
  | err e => exact hbad s hs
  | panic => exact hbad s hs

theorem bind {p : Proc ε σ α} {f : α → Proc ε σ β} {R : α → σ → Prop} {Q : β → σ → Prop}
    (hp : Triple P p R E) (hf : ∀ a, Triple (R a) (f a) Q E) : Triple P (p >>= f) Q E := by
  intro s hs
  have hfirst := hp s hs
  rw [run_bind]
  revert hfirst
  generalize p.run s = r
  obtain ⟨outcome, s'⟩ := r
  cases outcome with
  | ok a => exact hf a s'
  | err e => exact id
  | panic => exact id

/-- The state is read: from here on it is known. -/
theorem get_bind {f : σ → Proc ε σ β} {Q : β → σ → Prop}
    (h : ∀ s, P s → Triple (fun s' => s' = s) (f s) Q E) : Triple P (Proc.get >>= f) Q E :=
  fun s hs => h s hs s rfl

theorem ite {b : Prop} [Decidable b] {p q : Proc ε σ α} {Q : α → σ → Prop}
    (hp : b → Triple P p Q E) (hq : ¬ b → Triple P q Q E) : Triple P (if b then p else q) Q E := by
  split
  · next hb => exact hp hb
  · next hb => exact hq hb

theorem orElse {p : Proc ε σ α} {a : α} {Q : σ → Prop} (h : Triple P p (fun _ => Q) Q) :
    Triple P (p.orElse a) (fun _ => Q) Q := by
  intro s hs
  have hend := h s hs
  rw [run_orElse]
  revert hend
  generalize p.run s = r
  obtain ⟨outcome, s'⟩ := r
  cases outcome <;> exact id

theorem logged {p : Proc ε σ Unit} {Q : σ → Prop} (h : Triple P p (fun _ => Q) Q) :
    Triple P p.logged (fun _ => Q) Q := h.orElse

end Triple
end Didem.Lib.Proc
