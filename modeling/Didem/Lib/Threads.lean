import Mathlib.Algebra.Order.BigOperators.Group.List
import Mathlib.Algebra.Order.Ring.Nat
import Mathlib.Logic.Relation
import Mathlib.Tactic.Abel

/-!
# Interleaved threads

Threads over a shared state. Each thread is at a place in its code, and `next` says what it can do
there in one atomic step: nothing, if it is blocked or over; one thing; or one of several, where it
may choose. A run is any interleaving of such steps.

Two kinds of statement are made about runs. What holds in **every reachable state** is shown with an
invariant; since a step moves one thread and leaves the others where they are, an invariant is
mostly about sums over the threads, and `total_move` says how such a sum changes. What **every run
comes to** is `Inevitable`: it is shown with a measure that every step lowers, so no fairness is
assumed of the scheduler.
-/

set_option autoImplicit false

namespace Didem.Lib

/-- The shared state, and where each thread is. -/
structure Conf (σ τ : Type*) where
  shared : σ
  threads : List τ
  deriving DecidableEq, Repr

namespace Conf

variable {σ τ : Type*} {next : σ → τ → List (σ × τ)} {c c' c'' : Conf σ τ}

/-- One atomic step of one thread. -/
inductive Step (next : σ → τ → List (σ × τ)) : Conf σ τ → Conf σ τ → Prop where
  | mk {s s' : σ} {l l' : τ} (pre post : List τ) (h : (s', l') ∈ next s l) :
    Step next ⟨s, pre ++ l :: post⟩ ⟨s', pre ++ l' :: post⟩

/-- Some interleaving leads from one to the other. -/
def Reach (next : σ → τ → List (σ × τ)) : Conf σ τ → Conf σ τ → Prop :=
  Relation.ReflTransGen (Step next)

theorem Reach.trans (h : Reach next c c') (h' : Reach next c' c'') : Reach next c c'' :=
  Relation.ReflTransGen.trans h h'

theorem Step.of_mem {s s' : σ} {l l' : τ} {ls : List τ} (hl : l ∈ ls)
    (h : (s', l') ∈ next s l) : ∃ c', Step next ⟨s, ls⟩ c' := by
  obtain ⟨pre, post, rfl⟩ := List.append_of_mem hl
  exact ⟨_, .mk pre post h⟩

/-- One thread has moved, and the others are where they were. -/
theorem mem_move {l l₁ : τ} {pre post : List τ} :
    l₁ ∈ pre ++ l :: post ↔ l₁ = l ∨ l₁ ∈ pre ++ post :=
  List.perm_middle.mem_iff.trans List.mem_cons

/-- **Invariants**: what holds at first and is kept by every step holds in every reachable state. -/
theorem Reach.invariant {P : Conf σ τ → Prop} (h : Reach next c c') (hinit : P c)
    (hstep : ∀ {s s' : σ} {l l' : τ} {pre post : List τ}, P ⟨s, pre ++ l :: post⟩ →
      (s', l') ∈ next s l → P ⟨s', pre ++ l' :: post⟩) : P c' := by
  induction h with
  | refl => exact hinit
  | tail _ hlast ih =>
    cases hlast with
    | mk pre post hnext => exact hstep ih hnext

/-- Nothing can move any more. -/
def Stuck (next : σ → τ → List (σ × τ)) (c : Conf σ τ) : Prop :=
  ∀ l ∈ c.threads, next c.shared l = []

instance decidableStuck : Decidable (Stuck next c) :=
  inferInstanceAs (Decidable (∀ l ∈ c.threads, next c.shared l = []))

/-! ## Steps taken alone -/

/-- One atomic step of one thread, while all the others are idle. -/
inductive StepAlone (next : σ → τ → List (σ × τ)) (Idle : τ → Prop) :
    Conf σ τ → Conf σ τ → Prop where
  | mk {s s' : σ} {l l' : τ} (pre post : List τ) (hidle : ∀ l₁ ∈ pre ++ post, Idle l₁)
    (h : (s', l') ∈ next s l) : StepAlone next Idle ⟨s, pre ++ l :: post⟩ ⟨s', pre ++ l' :: post⟩

/-- An interleaving in which no thread moves while another one is busy. -/
def ReachAlone (next : σ → τ → List (σ × τ)) (Idle : τ → Prop) : Conf σ τ → Conf σ τ → Prop :=
  Relation.ReflTransGen (StepAlone next Idle)

theorem ReachAlone.trans {Idle : τ → Prop} (h : ReachAlone next Idle c c')
    (h' : ReachAlone next Idle c' c'') : ReachAlone next Idle c c'' :=
  Relation.ReflTransGen.trans h h'

instance transReachAlone {Idle : τ → Prop} :
    Trans (ReachAlone next Idle) (ReachAlone next Idle) (ReachAlone next Idle) :=
  ⟨ReachAlone.trans⟩

theorem ReachAlone.reach {Idle : τ → Prop} (h : ReachAlone next Idle c c') : Reach next c c' := by
  induction h with
  | refl => exact .refl
  | tail _ hlast ih =>
    cases hlast with
    | mk pre post _ hnext => exact ih.tail (.mk pre post hnext)

/-- **The rule for steps taken alone.** A thread that leaves its idle place is given `I` and has to
give it back; in between it is only that thread's own assertion that holds. -/
theorem ReachAlone.invariant {Idle : τ → Prop} {I : σ → Prop} {A : τ → σ → Prop}
    (h : ReachAlone next Idle c c') (hidle : ∀ {l : τ} {s : σ}, Idle l → (A l s ↔ I s))
    (hstep : ∀ {s s' : σ} {l l' : τ}, A l s → (s', l') ∈ next s l → A l' s')
    (hinit : I c.shared) (hstart : ∀ l ∈ c.threads, Idle l) :
    (∀ l ∈ c'.threads, ¬ Idle l → A l c'.shared) ∧
      ((∀ l ∈ c'.threads, Idle l) → I c'.shared) := by
  induction h with
  | refl => exact ⟨fun l hl hbusy => absurd (hstart l hl) hbusy, fun _ => hinit⟩
  | tail _ hlast ih =>
    obtain ⟨hbusy, hquiet⟩ := ih
    cases hlast with
    | @mk s s' l l' pre post hothers hnext =>
      have hA : A l s := by
        by_cases hl : Idle l
        · refine (hidle hl).mpr (hquiet fun l₁ hl₁ => ?_)
          exact (mem_move.mp hl₁).elim (fun heq => heq ▸ hl) (hothers l₁)
        · exact hbusy l (mem_move.mpr (.inl rfl)) hl
      have hA' : A l' s' := hstep hA hnext
      constructor
      · intro l₁ hl₁ hne
        rcases mem_move.mp hl₁ with rfl | hl₁
        · exact hA'
        · exact absurd (hothers l₁ hl₁) hne
      · intro hall
        exact (hidle (hall l' (mem_move.mpr (.inl rfl)))).mp hA'

/-! ## One thread by itself -/

/-- What one thread can do, if no other one moves. -/
def Solo (next : σ → τ → List (σ × τ)) : σ × τ → σ × τ → Prop :=
  Relation.ReflTransGen fun x y => y ∈ next x.1 x.2

section Solo

variable {x y z : σ × τ} {s s' : σ} {l l' : τ}

theorem Solo.of_next (h : next s l = [(s', l')]) : Solo next (s, l) (s', l') :=
  .single (by rw [h]; exact List.mem_singleton_self _)

theorem Solo.trans (h : Solo next x y) (h' : Solo next y z) : Solo next x z :=
  Relation.ReflTransGen.trans h h'

instance transSolo : Trans (Solo next) (Solo next) (Solo next) :=
  ⟨Solo.trans⟩

/-- **It does so among any others**, as long as they are idle. -/
theorem Solo.reachAlone {Idle : τ → Prop} (h : Solo next (s, l) (s', l')) (pre post : List τ)
    (hothers : ∀ l₁ ∈ pre ++ post, Idle l₁) :
    ReachAlone next Idle ⟨s, pre ++ l :: post⟩ ⟨s', pre ++ l' :: post⟩ :=
  Relation.ReflTransGen.lift (fun x : σ × τ => (⟨x.1, pre ++ x.2 :: post⟩ : Conf σ τ))
    (fun _ _ hnext => .mk pre post hothers hnext) _ _ h

theorem Solo.reach (h : Solo next (s, l) (s', l')) (pre post : List τ) :
    Reach next ⟨s, pre ++ l :: post⟩ ⟨s', pre ++ l' :: post⟩ :=
  Relation.ReflTransGen.lift (fun x : σ × τ => (⟨x.1, pre ++ x.2 :: post⟩ : Conf σ τ))
    (fun _ _ hnext => .mk pre post hnext) _ _ h

/-- **One after another.** Some of the threads get from `f k` to `g k`, each by itself. -/
theorem Solo.reach_each {κ : Type*} {f g : κ → τ} {effect : σ → κ → σ} {ok : σ → Prop}
    (others : List τ) (ks : List κ)
    (hsolo : ∀ k ∈ ks, ∀ s, ok s → Solo next (s, f k) (effect s k, g k) ∧ ok (effect s k))
    {s : σ} (hok : ok s) {ls : List τ} (hls : ls.Perm (ks.map f ++ others)) :
    ∃ ls', Reach next ⟨s, ls⟩ ⟨ks.foldl effect s, ls'⟩ ∧ ls'.Perm (ks.map g ++ others) := by
  induction ks generalizing s ls others with
  | nil => exact ⟨ls, .refl, hls⟩
  | cons k ks ih =>
    obtain ⟨hk, hok'⟩ := hsolo k List.mem_cons_self s hok
    obtain ⟨pre, post, rfl⟩ := List.append_of_mem (hls.mem_iff.mpr List.mem_cons_self)
    have hrest : (pre ++ post).Perm (ks.map f ++ others) :=
      (List.perm_middle.symm.trans hls).cons_inv
    -- the thread that has moved is one of the others from here on
    have hmoved : (pre ++ g k :: post).Perm (ks.map f ++ g k :: others) :=
      List.perm_middle.trans ((hrest.cons _).trans List.perm_middle.symm)
    obtain ⟨ls', hreach, hls'⟩ :=
      ih (g k :: others) (fun k' hk' => hsolo k' (List.mem_cons_of_mem _ hk')) hok' hmoved
    exact ⟨ls', (hk.reach pre post).trans hreach, hls'.trans List.perm_middle⟩

end Solo

/-! ## Schedules -/

/-- The thread at a position takes one of its alternatives. -/
def move (next : σ → τ → List (σ × τ)) (i k : Nat) (c : Conf σ τ) : Option (Conf σ τ) :=
  match c.threads.drop i with
  | [] => none
  | l :: post => ((next c.shared l)[k]?).map fun r => ⟨r.1, c.threads.take i ++ r.2 :: post⟩

/-- A schedule: which thread, and which of its alternatives. -/
def follow (next : σ → τ → List (σ × τ)) : List (Nat × Nat) → Conf σ τ → Option (Conf σ τ)
  | [], c => some c
  | (i, k) :: rest, c => (move next i k c).bind (follow next rest)

theorem step_of_move {i k : Nat} (h : move next i k c = some c') : Step next c c' := by
  unfold move at h
  split at h
  · exact absurd h (by simp)
  · next l post hdrop =>
    obtain ⟨⟨s', l'⟩, hget, rfl⟩ := Option.map_eq_some_iff.mp h
    have hsplit : c.threads = c.threads.take i ++ l :: post := by
      rw [← hdrop, List.take_append_drop]
    obtain ⟨s, ls⟩ := c
    simp only at hsplit hget ⊢
    exact (congrArg (fun ls' => Step next ⟨s, ls'⟩ _) hsplit).mpr
      (.mk _ _ (List.mem_of_getElem? hget))

theorem reach_of_follow (sched : List (Nat × Nat)) (h : follow next sched c = some c') :
    Reach next c c' := by
  induction sched generalizing c with
  | nil =>
    rw [← Option.some.inj h]
    exact .refl
  | cons ik rest ih =>
    obtain ⟨c₁, hmove, hrest⟩ := Option.bind_eq_some_iff.mp h
    exact .head (step_of_move hmove) (ih hrest)

/-! ## Sums over the threads -/

section Total

variable {M : Type*} [AddCommMonoid M]

/-- What the threads weigh together. -/
def total (w : τ → M) (ls : List τ) : M := (ls.map w).sum

/-- **One thread has moved.** -/
theorem total_move (w : τ → M) (pre post : List τ) (l l' : τ) :
    total w (pre ++ l' :: post) + w l = total w (pre ++ l :: post) + w l' := by
  simp only [total, List.map_append, List.map_cons, List.sum_append, List.sum_cons]
  abel

end Total

/-- **What goes from a thread to the shared state, or back, is not lost.** -/
theorem add_total_move {M : Type*} [AddCancelCommMonoid M] (w : τ → M) {a a' : M} {l l' : τ}
    (h : a' + w l' = a + w l) (pre post : List τ) :
    a' + total w (pre ++ l' :: post) = a + total w (pre ++ l :: post) := by
  refine add_right_cancel (b := w l) ?_
  calc a' + total w (pre ++ l' :: post) + w l
      = a' + (total w (pre ++ l :: post) + w l') := by rw [add_assoc, total_move]
    _ = a' + w l' + total w (pre ++ l :: post) := by abel
    _ = a + total w (pre ++ l :: post) + w l := by rw [h]; abel

theorem le_total {w : τ → Nat} {l : τ} {ls : List τ} (h : l ∈ ls) : w l ≤ total w ls :=
  List.single_le_sum (fun _ _ => Nat.zero_le _) _ (List.mem_map_of_mem h)

theorem total_le_total {w w' : τ → Nat} (h : ∀ l, w l ≤ w' l) (ls : List τ) :
    total w ls ≤ total w' ls :=
  List.sum_le_sum fun l _ => h l

/-- Some thread has weight. -/
theorem exists_of_total_pos {w : τ → Nat} {ls : List τ} (h : 0 < total w ls) :
    ∃ l ∈ ls, 0 < w l := by
  by_contra hnone
  have hzero : ∀ x ∈ ls.map w, x = 0 := by
    intro x hx
    obtain ⟨l, hl, rfl⟩ := List.mem_map.mp hx
    exact Nat.eq_zero_of_not_pos fun hpos => hnone ⟨l, hl, hpos⟩
  exact absurd (List.sum_eq_zero hzero) (Nat.ne_of_gt h)

/-! ## What every run comes to -/

/-- **Every run is finite and comes to `P`**: it holds, or some thread can move and whatever moves,
it is inevitable. -/
inductive Inevitable (next : σ → τ → List (σ × τ)) (P : Conf σ τ → Prop) : Conf σ τ → Prop where
  | now {c : Conf σ τ} (h : P c) : Inevitable next P c
  | later {c : Conf σ τ} (hmove : ∃ c', Step next c c')
      (h : ∀ c', Step next c c' → Inevitable next P c') : Inevitable next P c

/-- With a measure that every step lowers, it is enough that what is not there yet can move. -/
theorem Inevitable.of_measure {P Inv : Conf σ τ → Prop} (μ : Conf σ τ → Nat)
    (hinv : ∀ {c c' : Conf σ τ}, Inv c → Step next c c' → Inv c')
    (hμ : ∀ {c c' : Conf σ τ}, Inv c → Step next c c' → μ c' < μ c)
    (hmove : ∀ {c : Conf σ τ}, Inv c → ¬ P c → ∃ c', Step next c c') (h : Inv c) :
    Inevitable next P c := by
  generalize hn : μ c = n
  induction n using Nat.strongRecOn generalizing c with
  | ind n ih =>
    by_cases hP : P c
    · exact .now hP
    · exact .later (hmove h hP) fun c' hstep =>
        ih (μ c') (hn ▸ hμ h hstep) (hinv h hstep) rfl

theorem Inevitable.mono {P Q : Conf σ τ → Prop} (h : Inevitable next P c)
    (hPQ : ∀ c, P c → Q c) : Inevitable next Q c := by
  induction h with
  | now h => exact .now (hPQ _ h)
  | later hmove _ ih => exact .later hmove ih

/-- What is inevitable is reached. -/
theorem Inevitable.exists_reach {P : Conf σ τ → Prop} (h : Inevitable next P c) :
    ∃ c', Reach next c c' ∧ P c' := by
  induction h with
  | now h => exact ⟨_, .refl, h⟩
  | later hmove _ ih =>
    obtain ⟨c₁, hstep⟩ := hmove
    obtain ⟨c', hreach, hP⟩ := ih c₁ hstep
    exact ⟨c', .head hstep hreach, hP⟩

end Conf
end Didem.Lib
