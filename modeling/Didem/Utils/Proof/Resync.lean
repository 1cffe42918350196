import Didem.Utils.Resync
import Mathlib.Data.List.Induction

/-!
# Calls on a `Once` are atomic

The source looks at `done` twice, once without the lock, and sets it after the function has run. For
all that, a `Once` is a bit: in every reachable state its bit and the world are what the calls that
have taken effect leave when they are made **one after another** (`Folded`). A call takes effect

* at the first look, if that finds it done;
* at the second look, under the lock, if that finds it done;
* when its function runs, otherwise; and a `Reset` when it stores.

Between the run of a function and the deferred store the bit in memory is behind: it still says
"not done" although the call has taken effect. Nobody can see that but the fast path, which then
takes the lock. So the bit that counts is `effective`.

The two other halves: every goroutine's calls take effect in its own order, each once (`Audited`),
and every run comes to its end, because whoever has the lock can go on.
-/

set_option autoImplicit false

namespace Didem.Resync

open Lib Conf Linear

/-- The function has run and the store is still to come. -/
def Place.stores {α : Type*} : Place α → Bool
  | .store => true
  | _ => false

theorem Place.inside_of_stores {α : Type*} {p : Place α} (h : p.stores = true) :
    p.inside = true := by
  cases p <;> simp_all [stores, inside]

namespace Once

variable {ι α σ : Type*} {run : α → σ → σ}

/-! ## The lines -/

/-- What a line does, one constructor for each way to go on. -/
inductive Line (run : α → σ → σ) (s : Once ι α σ) (id : ι) (todo : List (Op α)) :
    Place α → Once ι α σ → Goroutine ι α → Prop where
  | unlock : Line run s id todo .unlock { s with m := false } ⟨id, .idle, todo⟩
  | loadDone (f : α) (h : s.done = true) :
      Line run s id todo (.load f) { s with log := s.log ++ [(id, .once f)] } ⟨id, .idle, todo⟩
  | load (f : α) (h : s.done = false) : Line run s id todo (.load f) s ⟨id, .lock f, todo⟩
  | lock (f : α) (h : s.m = false) :
      Line run s id todo (.lock f) { s with m := true } ⟨id, .check f, todo⟩
  | checkDone (f : α) (h : s.done = true) :
      Line run s id todo (.check f) { s with log := s.log ++ [(id, .once f)] } ⟨id, .unlock, todo⟩
  | check (f : α) (h : s.done = false) : Line run s id todo (.check f) s ⟨id, .body f, todo⟩
  | body (f : α) :
      Line run s id todo (.body f)
        { s with world := run f s.world, log := s.log ++ [(id, .once f)] } ⟨id, .store, todo⟩
  | store : Line run s id todo .store { s with done := true } ⟨id, .unlock, todo⟩
  | resetLock (h : s.m = false) :
      Line run s id todo .resetLock { s with m := true } ⟨id, .resetStore, todo⟩
  | resetStore :
      Line run s id todo .resetStore { s with done := false, log := s.log ++ [(id, .reset)] }
        ⟨id, .unlock, todo⟩
  | begin (f : α) (rest : List (Op α)) (h : todo = .once f :: rest) :
      Line run s id todo .idle s ⟨id, .load f, rest⟩
  | beginReset (rest : List (Op α)) (h : todo = .reset :: rest) :
      Line run s id todo .idle s ⟨id, .resetLock, rest⟩

theorem line_of_next {s s' : Once ι α σ} {g g' : Goroutine ι α} (h : (s', g') ∈ next run s g) :
    Line run s g.id g.todo g.place s' g' := by
  obtain ⟨id, place, todo⟩ := g
  cases place with
  | idle =>
    cases todo with
    | nil => exact absurd h List.not_mem_nil
    | cons op rest =>
      cases op with
      | once f =>
        obtain ⟨rfl, rfl⟩ := Prod.mk.inj (List.mem_singleton.mp h)
        exact .begin f rest rfl
      | reset =>
        obtain ⟨rfl, rfl⟩ := Prod.mk.inj (List.mem_singleton.mp h)
        exact .beginReset rest rfl
  | load f =>
    simp only [next] at h
    split at h
    · next hdone =>
      obtain ⟨rfl, rfl⟩ := Prod.mk.inj (List.mem_singleton.mp h)
      exact .loadDone f hdone
    · next hdone =>
      obtain ⟨rfl, rfl⟩ := Prod.mk.inj (List.mem_singleton.mp h)
      exact .load f (Bool.eq_false_iff.mpr hdone)
  | lock f =>
    simp only [next] at h
    split at h
    · exact absurd h List.not_mem_nil
    · next hm =>
      obtain ⟨rfl, rfl⟩ := Prod.mk.inj (List.mem_singleton.mp h)
      exact .lock f (Bool.eq_false_iff.mpr hm)
  | check f =>
    simp only [next] at h
    split at h
    · next hdone =>
      obtain ⟨rfl, rfl⟩ := Prod.mk.inj (List.mem_singleton.mp h)
      exact .checkDone f hdone
    · next hdone =>
      obtain ⟨rfl, rfl⟩ := Prod.mk.inj (List.mem_singleton.mp h)
      exact .check f (Bool.eq_false_iff.mpr hdone)
  | resetLock =>
    simp only [next] at h
    split at h
    · exact absurd h List.not_mem_nil
    · next hm =>
      obtain ⟨rfl, rfl⟩ := Prod.mk.inj (List.mem_singleton.mp h)
      exact .resetLock (Bool.eq_false_iff.mpr hm)
  | body f =>
    obtain ⟨rfl, rfl⟩ := Prod.mk.inj (List.mem_singleton.mp h)
    exact .body f
  | store =>
    obtain ⟨rfl, rfl⟩ := Prod.mk.inj (List.mem_singleton.mp h)
    exact .store
  | unlock =>
    obtain ⟨rfl, rfl⟩ := Prod.mk.inj (List.mem_singleton.mp h)
    exact .unlock
  | resetStore =>
    obtain ⟨rfl, rfl⟩ := Prod.mk.inj (List.mem_singleton.mp h)
    exact .resetStore

/-! ## The account of the calls -/

/-- Whose calls have taken effect, and who owes which. -/
def account : Account (Once ι α σ) (Goroutine ι α) ι (Op α) where
  log := Once.log
  id := Goroutine.id
  owed := Goroutine.owed

/-- **A line settles the call it belongs to, or no call.** -/
theorem settles : (account : Account (Once ι α σ) _ ι (Op α)).Settles (next run) := by
  intro s s' g g' h
  have hline := line_of_next h
  obtain ⟨id, place, todo⟩ := g
  cases hline with
  | loadDone f => exact .settle (.once f) rfl rfl rfl
  | checkDone f => exact .settle (.once f) rfl rfl rfl
  | body f => exact .settle (.once f) rfl rfl rfl
  | resetStore => exact .settle .reset rfl rfl rfl
  | begin f rest htodo =>
    obtain rfl : todo = .once f :: rest := htodo
    exact .quiet rfl rfl rfl
  | beginReset rest htodo =>
    obtain rfl : todo = .reset :: rest := htodo
    exact .quiet rfl rfl rfl
  | unlock => exact .quiet rfl rfl rfl
  | load f => exact .quiet rfl rfl rfl
  | lock f => exact .quiet rfl rfl rfl
  | check f => exact .quiet rfl rfl rfl
  | store => exact .quiet rfl rfl rfl
  | resetLock => exact .quiet rfl rfl rfl

theorem audited_start [DecidableEq ι] (w : σ) (program : ι → List (Op α)) (ids : List ι) :
    account.Audited program ids (start w program ids) where
  ids_eq := by simp [start, account, Function.comp_def]
  logged e he := absurd he List.not_mem_nil
  share_append_owed g hg := by
    obtain ⟨i, -, rfl⟩ := List.mem_map.mp hg
    rfl

/-! ## The bit -/

/-- How many goroutines have the lock. -/
def holders (gs : List (Goroutine ι α)) : Nat := total (fun g => if g.place.inside then 1 else 0) gs

/-- The bit as it counts: it is behind in memory between the run of a function and the store. -/
def effective (c : Conf (Once ι α σ) (Goroutine ι α)) : Bool :=
  c.shared.done || c.threads.any fun g => g.place.stores

/-- The bit and the world are what the calls in the log leave, made one after another. -/
structure Folded (run : α → σ → σ) (w : σ) (c : Conf (Once ι α σ) (Goroutine ι α)) : Prop where
  holders_eq : holders c.threads = if c.shared.m then 1 else 0
  fresh : ∀ g ∈ c.threads, ∀ f, g.place = .body f → c.shared.done = false
  folded : Op.applyAll run (c.shared.log.map Prod.snd) w = (effective c, c.shared.world)

/-- **The lock excludes the others.** -/
theorem Folded.alone {w : σ} {s : Once ι α σ} {pre post : List (Goroutine ι α)} {g : Goroutine ι α}
    (h : Folded run w ⟨s, pre ++ g :: post⟩) (hg : g.place.inside = true) :
    s.m = true ∧ ∀ g₁ ∈ pre ++ post, g₁.place.inside = false := by
  have hsum := h.holders_eq
  have hperm : holders (pre ++ g :: post) = 1 + holders (pre ++ post) := by
    simp only [holders, total, List.map_append, List.map_cons, List.sum_append, List.sum_cons, hg,
      if_true]
    omega
  rw [hperm] at hsum
  have hm : s.m = true := by
    by_contra hm
    rw [if_neg hm] at hsum
    omega
  refine ⟨hm, fun g₁ hg₁ => ?_⟩
  by_contra hin
  have hle := le_total (w := fun g : Goroutine ι α => if g.place.inside then 1 else 0) hg₁
  rw [if_pos hm] at hsum
  simp only [Bool.not_eq_false] at hin
  simp only [hin, if_true] at hle
  simp only [holders] at hsum
  omega

/-- The lock changes hands as the line says. -/
theorem holders_move {gs : List (Goroutine ι α)} {g g' : Goroutine ι α} {m m' : Bool}
    {pre post : List (Goroutine ι α)} (hgs : gs = pre ++ g :: post)
    (h : holders gs = if m then 1 else 0)
    (hmove : (if m' then 1 else 0) + (if g.place.inside then 1 else 0) =
      (if m then 1 else 0) + (if g'.place.inside then 1 else 0)) :
    holders (pre ++ g' :: post) = if m' then 1 else 0 := by
  subst hgs
  have htotal := total_move (fun g : Goroutine ι α => if g.place.inside then 1 else 0) pre post g g'
  simp only [holders] at h ⊢
  omega

/-- Nobody else is about to store, while one has the lock. -/
theorem not_stores_of_outside {gs : List (Goroutine ι α)}
    (h : ∀ g ∈ gs, g.place.inside = false) : (gs.any fun g => g.place.stores) = false := by
  rw [List.any_eq_false]
  intro g hg hstores
  exact absurd (Place.inside_of_stores hstores) (by rw [h g hg]; exact Bool.false_ne_true)

theorem effective_move (s : Once ι α σ) (pre post : List (Goroutine ι α)) (g : Goroutine ι α) :
    effective ⟨s, pre ++ g :: post⟩ =
      (s.done || g.place.stores || (pre ++ post).any fun g => g.place.stores) := by
  simp only [effective, List.any_append, List.any_cons]
  cases s.done <;> cases g.place.stores <;> simp

theorem applyAll_snoc (ops : List (Op α)) (op : Op α) (w : σ) :
    Op.applyAll run (ops ++ [op]) w = Op.apply run (Op.applyAll run ops w) op := by
  simp [Op.applyAll]

/-- **One line**: the bit and the world stay what the log leaves. -/
theorem Folded.step {w : σ} {s s' : Once ι α σ} {pre post : List (Goroutine ι α)}
    {g g' : Goroutine ι α} (h : Folded run w ⟨s, pre ++ g :: post⟩)
    (hnext : (s', g') ∈ next run s g) : Folded run w ⟨s', pre ++ g' :: post⟩ := by
  have hline := line_of_next hnext
  obtain ⟨id, place, todo⟩ := g
  have hfold := h.folded
  rw [effective_move] at hfold
  have hfresh : ∀ g₁ ∈ pre ++ post, ∀ f, g₁.place = .body f → s.done = false :=
    fun g₁ hg₁ => h.fresh g₁ (mem_move.mpr (.inr hg₁))
  refine ⟨holders_move rfl h.holders_eq ?_, ?_, ?_⟩
  · -- who has the lock
    cases hline with
    | lock f hm => simp [hm, Place.inside]
    | resetLock hm => simp [hm, Place.inside]
    | unlock => simp [(h.alone rfl).1, Place.inside]
    | _ => simp [Place.inside]
  · -- a function runs only while the bit in memory is down
    intro g₁ hg₁ f hf
    rcases mem_move.mp hg₁ with rfl | hother
    · cases hline with
      | check f hdone => exact hdone
      | _ => cases hf
    · cases hline with
      | store =>
        have hout := (h.alone rfl).2 g₁ hother
        rw [hf] at hout
        cases hout
      | resetStore => rfl
      | _ => exact hfresh g₁ hother f hf
  · rw [effective_move]
    cases hline with
    | loadDone f hdone =>
      simp only [hdone, Bool.true_or] at hfold ⊢
      rw [List.map_append, List.map_singleton, applyAll_snoc, hfold]
      rfl
    | checkDone f hdone =>
      simp only [hdone, Bool.true_or] at hfold ⊢
      rw [List.map_append, List.map_singleton, applyAll_snoc, hfold]
      rfl
    | body f =>
      have hothers := not_stores_of_outside (h.alone rfl).2
      have hdone : s.done = false := h.fresh _ (mem_move.mpr (.inl rfl)) f rfl
      rw [hothers] at hfold ⊢
      simp only [hdone, Place.stores, Bool.or_false, Bool.or_true] at hfold ⊢
      rw [List.map_append, List.map_singleton, applyAll_snoc, hfold]
      rfl
    | resetStore =>
      have hothers := not_stores_of_outside (h.alone rfl).2
      rw [hothers] at hfold ⊢
      simp only [Place.stores, Bool.or_false] at hfold ⊢
      rw [List.map_append, List.map_singleton, applyAll_snoc, hfold]
      rfl
    | store =>
      simp only [Place.stores, Bool.or_true, Bool.true_or] at hfold ⊢
      exact hfold
    | _ => exact hfold

theorem folded_start (w : σ) (program : ι → List (Op α)) (ids : List ι) :
    Folded run w (start w program ids) where
  holders_eq := by simp [start, holders, total, Place.inside, Function.comp_def]
  fresh g hg f hf := by
    obtain ⟨i, -, rfl⟩ := List.mem_map.mp hg
    cases hf
  folded := by simp [start, effective, Op.applyAll, Place.stores]

theorem Folded.reach {w : σ} {c c' : Conf (Once ι α σ) (Goroutine ι α)} (h : Folded run w c)
    (hreach : Reach (next run) c c') : Folded run w c' :=
  hreach.invariant h Folded.step

/-! ## Every run ends -/

/-- All calls have returned. -/
def AtRest (c : Conf (Once ι α σ) (Goroutine ι α)) : Prop :=
  ∀ g ∈ c.threads, g.place = .idle ∧ g.todo = []

/-- How many lines of a call are left. -/
def linesLeft : Place α → Nat
  | .load _ => 6
  | .lock _ => 5
  | .check _ => 4
  | .body _ => 3
  | .store => 2
  | .unlock => 1
  | .resetLock => 3
  | .resetStore => 2
  | .idle => 0

/-- No call is longer than seven lines, its beginning included. -/
def workLeft (g : Goroutine ι α) : Nat := linesLeft g.place + 7 * g.todo.length

theorem workLeft_lt {s s' : Once ι α σ} {g g' : Goroutine ι α} (h : (s', g') ∈ next run s g) :
    workLeft g' < workLeft g := by
  have hline := line_of_next h
  obtain ⟨id, place, todo⟩ := g
  cases hline with
  | begin f rest htodo =>
    obtain rfl : todo = .once f :: rest := htodo
    simp only [workLeft, linesLeft, List.length_cons]
    omega
  | beginReset rest htodo =>
    obtain rfl : todo = .reset :: rest := htodo
    simp only [workLeft, linesLeft, List.length_cons]
    omega
  | _ =>
    simp only [workLeft, linesLeft]
    omega

/-- Only the lock can stop a goroutine, and not the one that has it. -/
theorem next_ne_nil {s : Once ι α σ} {g : Goroutine ι α} (hlock : g.place.inside = true ∨ s.m = false)
    (hleft : ¬ (g.place = .idle ∧ g.todo = [])) : next run s g ≠ [] := by
  obtain ⟨id, place, todo⟩ := g
  cases place with
  | idle =>
    cases todo with
    | nil => exact absurd ⟨rfl, rfl⟩ hleft
    | cons op rest => cases op <;> simp [next]
  | load f => cases hdone : s.done <;> simp [next, hdone]
  | check f => cases hdone : s.done <;> simp [next, hdone]
  | lock f => simp [next, hlock.resolve_left Bool.false_ne_true]
  | resetLock => simp [next, hlock.resolve_left Bool.false_ne_true]
  | body f => simp [next]
  | store => simp [next]
  | unlock => simp [next]
  | resetStore => simp [next]

/-- **Somebody can always go on**: the one that has the lock, or else anyone who is not done. -/
theorem exists_step {w : σ} {c : Conf (Once ι α σ) (Goroutine ι α)} (h : Folded run w c)
    (hrest : ¬ AtRest c) : ∃ c', Conf.Step (next run) c c' := by
  obtain ⟨s, gs⟩ := c
  have hmove : ∀ g ∈ gs, next run s g ≠ [] → ∃ c', Conf.Step (next run) ⟨s, gs⟩ c' := by
    intro g hg hne
    obtain ⟨⟨s', g'⟩, hnext⟩ := List.exists_mem_of_ne_nil _ hne
    exact Step.of_mem hg hnext
  by_cases hm : s.m = true
  · have hone : 0 < holders gs := by
      have hcount : holders gs = if s.m then 1 else 0 := h.holders_eq
      rw [hcount, if_pos hm]
      exact Nat.one_pos
    obtain ⟨g, hg, hin⟩ := exists_of_total_pos hone
    have hinside : g.place.inside = true := by
      by_contra hout
      exact absurd hin (by simp [hout])
    refine hmove g hg (next_ne_nil (.inl hinside) ?_)
    rintro ⟨hidle, -⟩
    rw [hidle] at hinside
    cases hinside
  · simp only [AtRest, not_forall] at hrest
    obtain ⟨g, hg, hleft⟩ := hrest
    exact hmove g hg (next_ne_nil (.inr (Bool.eq_false_iff.mpr hm)) hleft)

theorem comes_to_rest {w : σ} {c : Conf (Once ι α σ) (Goroutine ι α)} (h : Folded run w c) :
    Inevitable (next run) (fun c' => AtRest c' ∧ Reach (next run) c c') c := by
  refine @Inevitable.of_measure _ _ _ _ _ (fun c' => Folded run w c' ∧ Reach (next run) c c')
    (fun c => total workLeft c.threads) ?_ ?_ ?_ ⟨h, .refl⟩
  · intro c₁ c₂ ⟨hfolded, hreach⟩ hstep
    exact ⟨hfolded.reach (.single hstep), hreach.tail hstep⟩
  · intro c₁ c₂ _ hstep
    cases hstep with
    | @mk s s' g g' pre post hnext =>
      have htotal := total_move workLeft pre post g g'
      have hlt := workLeft_lt hnext
      dsimp only
      omega
  · intro c₁ ⟨hfolded, hreach⟩ hP
    exact exists_step hfolded fun hrest => hP ⟨hrest, hreach⟩

/-! ## Atomicity -/

/-- At rest nothing is owed and the bit in memory is the one that counts. -/
theorem effective_of_atRest {c : Conf (Once ι α σ) (Goroutine ι α)} (h : AtRest c) :
    effective c = c.shared.done ∧ ∀ g ∈ c.threads, g.owed = [] := by
  constructor
  · have hnone : (c.threads.any fun g => g.place.stores) = false := by
      refine not_stores_of_outside fun g hg => ?_
      rw [(h g hg).1]
      rfl
    rw [effective, hnone, Bool.or_false]
  · intro g hg
    rw [Goroutine.owed, (h g hg).1, (h g hg).2]
    rfl

section Atomicity

variable [DecidableEq ι]

/-- **Calls on a `Once` are atomic.** Whatever the goroutines call and however their lines
interleave: the world and the effective bit (done, or a body has run and its store is to come) are
what the calls that have taken effect leave when they are made one after another, and these are of
every goroutine the calls it does not owe any more, in the order of its program. -/
theorem calls_atomic (run : α → σ → σ) (w : σ) (program : ι → List (Op α)) (ids : List ι)
    (hids : ids.Nodup) (c : Conf (Once ι α σ) (Goroutine ι α))
    (h : Reach (next run) (start w program ids) c) :
    Op.applyAll run (c.shared.log.map Prod.snd) w = (effective c, c.shared.world) ∧
      c.threads.map Goroutine.id = ids ∧ (∀ e ∈ c.shared.log, e.1 ∈ ids) ∧
      ∀ g ∈ c.threads, share g.id c.shared.log ++ g.owed = program g.id := by
  have haudited := settles.audited hids (audited_start w program ids) h
  exact ⟨((folded_start w program ids).reach h).folded, haudited.ids_eq, haudited.logged,
    haudited.share_append_owed⟩

/-- **Every run of calls ends**, with all of them returned and the bit and the world as some order
of the calls leaves them, in which every goroutine's are in its own order. -/
theorem calls_return (run : α → σ → σ) (w : σ) (program : ι → List (Op α)) (ids : List ι)
    (hids : ids.Nodup) :
    Inevitable (next run) (fun c => AtRest c ∧ ∃ log : List (ι × Op α),
      (∀ e ∈ log, e.1 ∈ ids) ∧ (∀ i ∈ ids, share i log = program i) ∧
      Op.applyAll run (log.map Prod.snd) w = (c.shared.done, c.shared.world))
      (start w program ids) := by
  refine (comes_to_rest (folded_start w program ids)).mono ?_
  intro c ⟨hrest, hreach⟩
  have haudited := settles.audited hids (audited_start w program ids) hreach
  have hstart : Folded run w (start w program ids) := folded_start w program ids
  have hfolded := (hstart.reach hreach).folded
  obtain ⟨hbit, howed⟩ := effective_of_atRest hrest
  rw [hbit] at hfolded
  refine ⟨hrest, c.shared.log, haudited.logged, fun i hi => ?_, hfolded⟩
  rw [← haudited.ids_eq] at hi
  obtain ⟨g, hg, rfl⟩ := List.mem_map.mp hi
  have hshare : share g.id c.shared.log ++ g.owed = program g.id := haudited.share_append_owed g hg
  rw [howed g hg, List.append_nil] at hshare
  exact hshare

/-! ### Two goroutines, and a `Reset` between their calls -/

/-- Both call `Do`; the first resets afterwards. -/
def twoCallers : Nat → List (Op Nat)
  | 0 => [.once 1, .reset]
  | _ => [.once 2]

/-- The second looks before the first is done, waits for the lock and runs after the `Reset`. -/
def twoCallersSchedule : List (Nat × Nat) :=
  [(0, 0), (1, 0), (0, 0), (1, 0), (0, 0), (0, 0), (0, 0), (0, 0), (0, 0),
    (0, 0), (0, 0), (0, 0), (0, 0), (1, 0), (1, 0), (1, 0), (1, 0), (1, 0)]

def twoCallersEnd : Conf (Once Nat Nat (List Nat)) (Goroutine Nat Nat) where
  shared := { done := true, world := [2, 1], log := [(0, .once 1), (0, .reset), (1, .once 2)] }
  threads := [{ id := 0, todo := [] }, { id := 1, todo := [] }]

theorem twoCallers_atomic :
    Reach (next List.cons) (start [] twoCallers [0, 1]) twoCallersEnd ∧
      Op.applyAll List.cons [.once 1, .reset, .once 2] [] = (true, [2, 1]) := by
  have hreach : Reach (next List.cons) (start [] twoCallers [0, 1]) twoCallersEnd :=
    reach_of_follow twoCallersSchedule (by decide)
  exact ⟨hreach, (calls_atomic List.cons [] twoCallers [0, 1] (by decide) _ hreach).1⟩

theorem twoCallers_return :
    ∃ c, Reach (next List.cons) (start ([] : List Nat) twoCallers [0, 1]) c ∧ AtRest c := by
  obtain ⟨c, hreach, hrest, -⟩ :=
    (calls_return List.cons [] twoCallers [0, 1] (by decide)).exists_reach
  exact ⟨c, hreach, hrest⟩

end Atomicity

/-! ## A race -/

/-- Calls of `Do` alone, one after another: the first one's function runs, and no other. -/
theorem applyAll_of_no_reset (run : α → σ → σ) {ops : List (Op α)} (h : .reset ∉ ops) (w : σ) :
    (ops = [] ∧ Op.applyAll run ops w = (false, w)) ∨
      ∃ f, .once f ∈ ops ∧ Op.applyAll run ops w = (true, run f w) := by
  induction ops using List.reverseRecOn with
  | nil => exact .inl ⟨rfl, rfl⟩
  | append_singleton ops op ih =>
    rw [List.mem_append, not_or] at h
    rw [applyAll_snoc]
    refine .inr ?_
    cases op with
    | reset => exact absurd (List.mem_singleton.mpr rfl) h.2
    | once f =>
      rcases ih h.1 with ⟨rfl, hnone⟩ | ⟨f', hf', hfold⟩
      · exact ⟨f, by simp, by rw [hnone]; rfl⟩
      · exact ⟨f', by simp [hf'], by rw [hfold]; rfl⟩

/-- **Of the functions that race for a `Once`, one runs**: as long as nobody resets it, the world is
the one they found, or what one of them has made of that. -/
theorem world_of_race [DecidableEq ι] {w : σ} {program : ι → List (Op α)} {ids : List ι}
    (hids : ids.Nodup) (hrace : ∀ i ∈ ids, .reset ∉ program i)
    {c : Conf (Once ι α σ) (Goroutine ι α)} (h : Reach (next run) (start w program ids) c) :
    c.shared.world = w ∨
      ∃ i ∈ ids, ∃ f, .once f ∈ program i ∧ c.shared.world = run f w := by
  have haudited := settles.audited hids (audited_start w program ids) h
  have hstart : Folded run w (start w program ids) := folded_start w program ids
  have hfold := (hstart.reach h).folded
  -- what has taken effect is in somebody's program
  have hmem : ∀ op ∈ c.shared.log.map Prod.snd, ∃ i ∈ ids, op ∈ program i := by
    intro op hop
    obtain ⟨⟨i, op⟩, he, rfl⟩ := List.mem_map.mp hop
    have hi : i ∈ ids := haudited.logged _ he
    refine ⟨i, hi, ?_⟩
    rw [← haudited.ids_eq] at hi
    obtain ⟨g, hg, rfl⟩ := List.mem_map.mp hi
    rw [← haudited.share_append_owed g hg]
    exact List.mem_append_left _ (List.mem_map.mpr ⟨_, List.mem_filter.mpr ⟨he, by simp⟩, rfl⟩)
  have hnone : .reset ∉ c.shared.log.map Prod.snd := by
    intro hreset
    obtain ⟨i, hi, hop⟩ := hmem _ hreset
    exact hrace i hi hop
  rcases applyAll_of_no_reset run hnone w with ⟨-, heq⟩ | ⟨f, hf, heq⟩
  · exact .inl (Prod.mk.inj (hfold.symm.trans heq)).2
  · obtain ⟨i, hi, hop⟩ := hmem _ hf
    exact .inr ⟨i, hi, f, hop, (Prod.mk.inj (hfold.symm.trans heq)).2⟩

end Once
end Didem.Resync
