import Mathlib.Logic.Basic

/-!
# Outcomes of a fallible call

A call of a language with error values and panics ends in one of three ways: with a value, with
an error its caller may inspect, or with a panic that unwinds the process. `Outcome` is that
three-way result. It is *not* `Except` with a distinguished error: a caller that inspects errors
must not be able to see a panic, so the third arm is a constructor of its own and the error-side
operations (`mapErr`, `toError`) have nothing to say about it.

The state a call leaves behind is not part of an outcome. A stateful call returns the pair
`Outcome ε α × σ`, so that an error keeps the writes made before it — which is what a language
without transactions does.
-/

set_option autoImplicit false

namespace Didem.Lib

/-- How a call ended: with a value, with an error value, or by a panic. -/
inductive Outcome (ε α : Type) where
  | ok (a : α)
  | err (e : ε)
  | panic
  deriving DecidableEq, Repr

namespace Outcome

variable {ε α β : Type}

def bind (x : Outcome ε α) (f : α → Outcome ε β) : Outcome ε β :=
  match x with
  | .ok a => f a
  | .err e => .err e
  | .panic => .panic

instance : Monad (Outcome ε) where
  pure := .ok
  bind := bind

/-- Rewrites the error a call returns; a panic passes through. -/
def mapErr (g : ε → ε) : Outcome ε α → Outcome ε α
  | .ok a => .ok a
  | .err e => .err (g e)
  | .panic => .panic

/-- A call whose only result is an error value, from that value: no error is success. -/
def ofError : Option ε → Outcome ε Unit
  | none => .ok ()
  | some e => .err e

def isOk : Outcome ε α → Bool
  | .ok _ => true
  | _ => false

def isErr : Outcome ε α → Bool
  | .err _ => true
  | _ => false

/-- Which of the three ways a call ended, without what it ended with. -/
def ending : Outcome ε α → Outcome Unit Unit
  | .ok _ => .ok ()
  | .err _ => .err ()
  | .panic => .panic

@[simp] theorem pure_eq (a : α) : (pure a : Outcome ε α) = .ok a := rfl

@[simp] theorem ok_bind (a : α) (f : α → Outcome ε β) : (Outcome.ok a >>= f) = f a := rfl

@[simp] theorem err_bind (e : ε) (f : α → Outcome ε β) :
    ((Outcome.err e : Outcome ε α) >>= f) = .err e := rfl

@[simp] theorem panic_bind (f : α → Outcome ε β) :
    ((Outcome.panic : Outcome ε α) >>= f) = .panic := rfl

/-- A sequence succeeds exactly when both halves do. -/
theorem bind_eq_ok {x : Outcome ε α} {f : α → Outcome ε β} {b : β} :
    (x >>= f) = .ok b ↔ ∃ a, x = .ok a ∧ f a = .ok b := by
  cases x with
  | ok a => simp
  | err e => simp
  | panic => simp

/-- A sequence panics in one of its halves. -/
theorem bind_eq_panic {x : Outcome ε α} {f : α → Outcome ε β} :
    (x >>= f) = .panic ↔ x = .panic ∨ ∃ a, x = .ok a ∧ f a = .panic := by
  cases x with
  | ok a => simp
  | err e => simp
  | panic => simp

@[simp] theorem mapErr_eq_panic {g : ε → ε} {x : Outcome ε α} :
    x.mapErr g = .panic ↔ x = .panic := by
  cases x <;> simp [mapErr]

@[simp] theorem mapErr_eq_ok {g : ε → ε} {x : Outcome ε α} {a : α} :
    x.mapErr g = .ok a ↔ x = .ok a := by
  cases x <;> simp [mapErr]

@[simp] theorem ofError_eq_ok {e : Option ε} : ofError e = .ok () ↔ e = none := by
  cases e <;> simp [ofError]

@[simp] theorem ending_eq_panic {x : Outcome ε α} : x.ending = .panic ↔ x = .panic := by
  cases x <;> simp [ending]

@[simp] theorem ending_eq_ok {x : Outcome ε Unit} : x.ending = .ok () ↔ x = .ok () := by
  cases x <;> simp [ending]

/-- Two calls that succeed and panic alike end alike. -/
theorem ending_eq_iff {x y : Outcome ε Unit} :
    x.ending = y.ending ↔ (x = .ok () ↔ y = .ok ()) ∧ (x = .panic ↔ y = .panic) := by
  cases x <;> cases y <;> simp [ending]

/-! ## Loops -/

/-- A loop that goes on after the `good` elements and ends at any other comes to a `bad` one. -/
def Reaches (good bad : α → Prop) : List α → Prop
  | [] => False
  | a :: l => bad a ∨ good a ∧ Reaches good bad l

instance decidableReaches (good bad : α → Prop) [DecidablePred good] [DecidablePred bad] :
    (l : List α) → Decidable (Reaches good bad l)
  | [] => inferInstanceAs (Decidable False)
  | a :: l =>
    have : Decidable (Reaches good bad l) := decidableReaches good bad l
    inferInstanceAs (Decidable (bad a ∨ good a ∧ Reaches good bad l))

theorem Reaches.congr {good good' bad bad' : α → Prop} (hgood : ∀ a, good a ↔ good' a)
    (hbad : ∀ a, bad a ↔ bad' a) (l : List α) : Reaches good bad l ↔ Reaches good' bad' l := by
  induction l with
  | nil => exact Iff.rfl
  | cons a l ih =>
    show bad a ∨ good a ∧ Reaches good bad l ↔ bad' a ∨ good' a ∧ Reaches good' bad' l
    rw [hgood, hbad, ih]

theorem forM_eq_ok {f : α → Outcome ε PUnit} {l : List α} :
    l.forM f = .ok ⟨⟩ ↔ ∀ a ∈ l, f a = .ok ⟨⟩ := by
  induction l with
  | nil => simp
  | cons a l ih =>
    show (f a >>= fun _ => l.forM f) = .ok ⟨⟩ ↔ _
    rw [bind_eq_ok, List.forall_mem_cons, ← ih]
    exact ⟨fun ⟨_, ha, hl⟩ => ⟨ha, hl⟩, fun ⟨ha, hl⟩ => ⟨_, ha, hl⟩⟩

theorem forM_eq_panic {f : α → Outcome ε PUnit} {l : List α} :
    l.forM f = .panic ↔ Reaches (fun a => f a = .ok ⟨⟩) (fun a => f a = .panic) l := by
  induction l with
  | nil => simp [Reaches]
  | cons a l ih =>
    show (f a >>= fun _ => l.forM f) = .panic ↔ f a = .panic ∨ f a = .ok ⟨⟩ ∧ _
    rw [bind_eq_panic, ← ih]
    exact or_congr Iff.rfl ⟨fun ⟨_, ha, hl⟩ => ⟨ha, hl⟩, fun ⟨ha, hl⟩ => ⟨_, ha, hl⟩⟩

end Outcome
end Didem.Lib
