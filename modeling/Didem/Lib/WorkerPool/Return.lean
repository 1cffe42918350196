import Didem.Lib.WorkerPool.Sound

/-!
# When a worker pool returns

A pool that skips no failure returns **in every run** if fewer jobs fail than there are workers: as
long as it has not, some goroutine can move, and every move comes nearer to the end. With as many
failures as workers it still **may** return, without the answers it could not have.
-/

set_option autoImplicit false

namespace Didem.Lib.WorkerPool

open Conf

variable {α β γ : Type*} {p : Plan α β γ} {s s' : Shared α γ} {l l' : Place α β}
  {workers : Nat} {jobs : List α} {init : γ}

/-! ## Fewer failures than workers -/

/-- Where nothing can move, no goroutine holds a job. -/
theorem Sound.held_eq_zero {c : Conf (Shared α γ) (Place α β)} (h : Sound p workers jobs init c)
    (hstuck : ∀ l ∈ c.threads, act p c.shared l = []) {l : Place α β} (hl : l ∈ c.threads) :
    l.held = 0 := by
  have hact := hstuck l hl
  have hdone : ∀ (s : Shared α γ) (l' : Place α β), s.done l' ≠ [] := by
    intro s l'
    unfold Shared.done
    split <;> simp
  cases l with
  | feeding rest =>
    cases rest with
    | nil => rfl
    | cons a rest =>
      -- the channel is as large as the jobs, so there is room for this one
      have hle : Place.held (Place.feeding (a :: rest) : Place α β) ≤ total Place.held c.threads :=
        le_total hl
      have hheld := h.held
      have hroom := h.room
      simp only [Place.held, List.length_cons] at hle
      have hlt : c.shared.queue.length < c.shared.capacity := by omega
      simp only [act, hlt, if_true] at hact
      split at hact <;> exact absurd hact (by simp)
  | working a =>
    simp only [act] at hact
    split at hact
    · exact absurd hact (by simp)
    · split at hact <;> exact absurd hact (by simp)
  | recording b => exact absurd hact (by simp [act])
  | finishing => exact absurd hact (hdone _ _)
  | failing => exact absurd hact (hdone _ _)
  | _ => rfl

/-- Then the wait group is empty, if some worker has not been blocked by a failure. -/
theorem Sound.group_eq_zero {c : Conf (Shared α γ) (Place α β)} (h : Sound p workers jobs init c)
    (hlost : lost p jobs = 0) (hfail : (jobs.map (fails p)).sum < workers)
    (hstuck : ∀ l ∈ c.threads, act p c.shared l = []) : c.shared.group = 0 := by
  obtain ⟨l, hl, hlt⟩ : ∃ l ∈ c.threads, l.failures p < l.works := by
    by_contra hnone
    have hle : total Place.works c.threads ≤ total (Place.failures p) c.threads :=
      List.sum_le_sum fun l hl => Nat.le_of_not_lt fun hlt => hnone ⟨l, hl, hlt⟩
    have := h.works
    have := h.failures
    omega
  have hheld := h.held_eq_zero hstuck hl
  have hact := hstuck l hl
  cases l with
  | exited => exact h.past (.inl ⟨_, hl, rfl⟩)
  | idle =>
    have hqueue : c.shared.queue = [] := by
      cases hq : c.shared.queue with
      | nil => rfl
      | cons a queue => simp [act, hq] at hact
    have howed : total (Place.owed p) c.threads = 0 := by
      refine List.sum_eq_zero fun n hn => ?_
      obtain ⟨l, hl, rfl⟩ := List.mem_map.mp hn
      exact Nat.eq_zero_of_le_zero ((owed_le_held p l).trans_eq (h.held_eq_zero hstuck hl))
    rw [h.owed, howed, hqueue, hlost]
    rfl
  | _ => simp_all [Place.held, Place.failures, Place.works]

/-- A goroutine can move as long as the caller has not returned. -/
theorem Sound.progress {c : Conf (Shared α γ) (Place α β)} (h : Sound p workers jobs init c)
    (hlost : lost p jobs = 0) (hfail : (jobs.map (fails p)).sum < workers)
    (hret : c.shared.caller ≠ .returned (some c.shared.result)) : ∃ c', Step (next p) c c' := by
  by_contra hno
  have hstuck : ∀ l ∈ c.threads, act p c.shared l = [] := by
    intro l hl
    rw [List.eq_nil_iff_forall_not_mem]
    rintro ⟨s', l'⟩ hmem
    have hnext : (s', l') ∈ next p c.shared l := by
      simpa only [next, h.calm, Bool.false_eq_true, if_false] using hmem
    exact hno (Step.of_mem hl hnext)
  have hzero := h.group_eq_zero hlost hfail hstuck
  -- the goroutine that waits has told the caller
  have hcaller : c.shared.caller ≠ .selecting := by
    intro hsel
    obtain ⟨l, hl, hwaits⟩ := exists_of_total_pos (h.waits ▸ Nat.one_pos)
    have hheld := h.held_eq_zero hstuck hl
    have hact := hstuck l hl
    cases l with
    | feeding rest =>
      obtain rfl : rest = [] := List.length_eq_zero_iff.mp hheld
      exact absurd hact (by simp [act])
    | waiting => exact absurd hact (by simp [act, hzero])
    | closing => exact absurd hact (by simp [act])
    | reporting => exact absurd hact (by simp [act, hsel])
    | reported => exact h.reported hl hsel
    | _ => exact absurd hwaits (Nat.lt_irrefl 0)
  obtain ⟨l, hl, hcalls⟩ := exists_of_total_pos (h.calls ▸ Nat.one_pos)
  have hact := hstuck l hl
  cases l with
  | caller =>
    cases hc : c.shared.caller with
    | selecting => exact hcaller hc
    | told => exact absurd hact (by simp [act, hc])
    | returned r => exact hret (h.back r hc ▸ hc)
  | _ => exact absurd hcalls (Nat.lt_irrefl 0)

/-- How far the goroutines are from their ends. -/
def Place.distance : Place α β → Nat
  | .feeding rest => 6 * rest.length + 4
  | .working _ => 5
  | .recording _ => 4
  | .finishing | .failing | .waiting => 3
  | .closing => 2
  | .idle | .reporting => 1
  | .fed | .blocked | .exited | .reported | .caller => 0

def Caller.distance : Caller γ → Nat
  | .selecting => 2
  | .told => 1
  | .returned _ => 0

def measure (c : Conf (Shared α γ) (Place α β)) : Nat :=
  total Place.distance c.threads + 5 * c.shared.queue.length + c.shared.caller.distance

theorem Move.distance (h : Move p s l s' l') :
    l'.distance + 5 * s'.queue.length + s'.caller.distance <
      l.distance + 5 * s.queue.length + s.caller.distance := by
  cases h <;> simp_all [Place.distance, Caller.distance] <;> omega

/-- **A pool returns**, whatever the interleaving, if no failure is skipped and fewer jobs fail than
there are workers, none with a panic. -/
theorem inevitable_returned (hexp : p.expires = false)
    (hsafe : ∀ a ∈ jobs, p.panics a = false) (hlost : lost p jobs = 0)
    (hfail : (jobs.map (fails p)).sum < workers) :
    Inevitable (next p) (fun c => c.shared.group = 0 ∧ ∃ log : List β,
      c.shared.caller = .returned (some (log.foldr p.record init)) ∧
        log.Perm (jobs.filterMap p.work)) (start p workers jobs init) := by
  refine Inevitable.of_measure measure ?_ ?_ ?_ (sound_start workers init hsafe)
  · intro c c' h hstep
    exact h.of_reach hexp (.single hstep)
  · intro c c' h hstep
    cases hstep with
    | @mk s s' l l' pre post hmem =>
      have hmove := total_move Place.distance pre post l l'
      have hlt := (move_of_mem hmem).distance
      simp only [measure]
      omega
  · intro c h hnot
    refine h.progress hlost hfail fun hret => hnot ?_
    have hzero := h.group_of_returned hret
    obtain ⟨log, hlog, hperm⟩ := h.exists_log hzero
    exact ⟨hzero, log, hlog ▸ hret, hperm⟩

/-! ## As many failures as workers -/

theorem solo_act (hcalm : s.crashed = false) (h : (s', l') ∈ act p s l) :
    Solo (next p) (s, l) (s', l') := by
  refine .single ?_
  simpa only [next, hcalm, Bool.false_eq_true, if_false] using h

theorem solo_feed {rest : List α} (hcalm : s.crashed = false) (hopen : s.closed = false)
    (hroom : s.queue.length + rest.length ≤ s.capacity) :
    Solo (next p) (s, .feeding rest) ({ s with queue := s.queue ++ rest }, .feeding []) := by
  induction rest generalizing s with
  | nil =>
    rw [List.append_nil]
    exact .refl
  | cons a rest ih =>
    simp only [List.length_cons] at hroom
    have hlt : s.queue.length < s.capacity := by omega
    have hrest := ih (s := { s with queue := s.queue ++ [a] }) hcalm hopen
      (by simp only [List.length_append, List.length_singleton]; omega)
    rw [List.append_assoc] at hrest
    calc Solo (next p) (s, .feeding (a :: rest))
          ({ s with queue := s.queue ++ [a] }, .feeding rest) :=
          solo_act hcalm (by simp [act, hopen, hlt])
      Solo (next p) _ _ := hrest

/-- One worker works off jobs that do not fail. -/
theorem solo_work {jobs queue : List α} {n : Nat} (hcalm : s.crashed = false)
    (hsafe : ∀ a ∈ jobs, p.panics a = false) (hwork : ∀ a ∈ jobs, (p.work a).isSome)
    (hqueue : s.queue = jobs ++ queue)
    (hgroup : s.group = jobs.length + n) :
    ∃ r, Solo (next p) (s, .idle) ({ s with queue := queue, group := n, result := r }, .idle) := by
  induction jobs generalizing s with
  | nil =>
    rw [List.nil_append] at hqueue
    rw [List.length_nil, Nat.zero_add] at hgroup
    subst hqueue hgroup
    exact ⟨s.result, .refl⟩
  | cons a jobs ih =>
    obtain ⟨b, hb⟩ := Option.isSome_iff_exists.mp (hwork a List.mem_cons_self)
    have hgroup' : s.group = (jobs.length + n) + 1 := by
      rw [hgroup, List.length_cons]
      omega
    let s₁ : Shared α γ := { s with queue := jobs ++ queue }
    let s₂ : Shared α γ := { s₁ with result := p.record b s.result }
    let s₃ : Shared α γ := { s₂ with group := jobs.length + n }
    have hwork' : ∀ a ∈ jobs, (p.work a).isSome := fun a ha => hwork a (List.mem_cons_of_mem _ ha)
    obtain ⟨hsafeHere, hsafe⟩ := List.forall_mem_cons.mp hsafe
    obtain ⟨r, hrest⟩ := ih (s := s₃) hcalm hsafe hwork' rfl rfl
    refine ⟨r, ?_⟩
    calc Solo (next p) (s, .idle) (s₁, .working a) := solo_act hcalm (by simp [act, hqueue, s₁])
      Solo (next p) _ (s₁, .recording b) := solo_act hcalm (by simp [act, hb, hsafeHere])
      Solo (next p) _ (s₂, .finishing) := solo_act hcalm (by simp [act, s₂, s₁])
      Solo (next p) _ (s₃, .idle) :=
          solo_act hcalm (by simp [act, Shared.done, hgroup', s₃, s₂, s₁])
      Solo (next p) _ _ := hrest

/-- One worker is spent on a job that fails. -/
theorem solo_fail {a : α} {queue : List α} {n : Nat} (hcalm : s.crashed = false)
    (hsafe : p.panics a = false) (hhalt : p.onError = .halt) (hwork : p.work a = none)
    (hqueue : s.queue = a :: queue)
    (hgroup : s.group = n + 1) :
    Solo (next p) (s, .idle) ({ s with queue := queue, group := n }, .blocked) := by
  let s₁ : Shared α γ := { s with queue := queue }
  calc Solo (next p) (s, .idle) (s₁, .working a) := solo_act hcalm (by simp [act, hqueue, s₁])
    Solo (next p) _ (s₁, .failing) := solo_act hcalm (by simp [act, hsafe, hwork, hhalt])
    Solo (next p) _ _ := solo_act hcalm (by simp [act, Shared.done, hgroup, s₁])

/-- A worker is spent on each of them. -/
theorem reach_fail {jobs : List α} (pre post : List (Place α β)) (hcalm : s.crashed = false)
    (hsafe : ∀ a ∈ jobs, p.panics a = false) (hhalt : p.onError = .halt)
    (hwork : ∀ a ∈ jobs, p.work a = none) (hqueue : s.queue = jobs)
    (hgroup : s.group = jobs.length) :
    Reach (next p) ⟨s, pre ++ (List.replicate jobs.length .idle ++ post)⟩
      ⟨{ s with queue := [], group := 0 },
        pre ++ (List.replicate jobs.length .blocked ++ post)⟩ := by
  induction jobs generalizing s pre with
  | nil =>
    rw [List.length_nil] at hgroup
    rw [show s = { s with queue := [], group := 0 } by rw [← hqueue, ← hgroup]]
    exact .refl
  | cons a jobs ih =>
    let s₁ : Shared α γ := { s with queue := jobs, group := jobs.length }
    have hone : Solo (next p) (s, .idle) (s₁, .blocked) :=
      solo_fail hcalm (hsafe a List.mem_cons_self) hhalt (hwork a List.mem_cons_self) hqueue hgroup
    have hrest := ih (s := s₁) (pre ++ [.blocked]) hcalm
      (fun a ha => hsafe a (List.mem_cons_of_mem _ ha))
      (fun a ha => hwork a (List.mem_cons_of_mem _ ha)) rfl rfl
    rw [List.append_assoc, List.append_assoc] at hrest
    exact (hone.reach pre _).trans hrest

/-- The wait is over, and the caller can be told. -/
theorem solo_wait (hcalm : s.crashed = false) (hwaits : p.feederWaits = true)
    (hgroup : s.group = 0) (hcaller : s.caller = .selecting) :
    Solo (next p) (s, .waiting) ({ s with closed := true, caller := .told }, .reported) := by
  let s₁ : Shared α γ := { s with closed := true }
  calc Solo (next p) (s, .waiting) (s, .closing) :=
        solo_act hcalm (by simp [act, hgroup, hwaits])
    Solo (next p) _ (s₁, .reporting) := solo_act hcalm (List.mem_singleton_self _)
    Solo (next p) _ _ := solo_act hcalm (by simp [act, hcaller, s₁])

/-- **A pool may return with failures**, if the jobs that fail come last and there are no more of
them than workers; they are then nowhere in what it returns. -/
theorem exists_returned (p : Plan α β γ) (init : γ) (jobs bad : List α) (extra : Nat)
    (hsafe : ∀ a ∈ jobs ++ bad, p.panics a = false) (hhalt : p.onError = .halt)
    (hwaits : p.feederWaits = true) (hjobs : ∀ a ∈ jobs, (p.work a).isSome)
    (hbad : ∀ a ∈ bad, p.work a = none) (hsome : 0 < bad.length + extra) :
    ∃ c r, Reach (next p) (start p (bad.length + extra) (jobs ++ bad) init) c ∧
      c.shared.caller = .returned r := by
  let s : Shared α γ :=
    { capacity := (jobs ++ bad).length, group := (jobs ++ bad).length, result := init }
  let workers : List (Place α β) := List.replicate (bad.length + extra) .idle
  have hstart : start p (bad.length + extra) (jobs ++ bad) init =
      ⟨s, [.caller] ++ .feeding (jobs ++ bad) :: workers⟩ := by
    simp [start, hwaits, s, workers]
  let s₁ : Shared α γ := { s with queue := jobs ++ bad }
  have hfeed : Solo (next p) (s, .feeding (jobs ++ bad)) (s₁, .feeding []) :=
    solo_feed rfl rfl (Nat.le_of_eq (Nat.zero_add _))
  have hwait : Solo (next p) (s₁, .feeding []) (s₁, .waiting) :=
    solo_act rfl (by simp [act, hwaits])
  -- one worker does what can be done, then each failure takes one
  obtain ⟨r, hwork⟩ := solo_work (s := s₁) (p := p) rfl
    (fun a ha => hsafe a (List.mem_append_left _ ha)) hjobs rfl List.length_append
  let s₂ : Shared α γ := { s₁ with queue := bad, group := bad.length, result := r }
  obtain ⟨k, hk⟩ : ∃ k, bad.length + extra = k + 1 := ⟨bad.length + extra - 1, by omega⟩
  have hfirst : workers = .idle :: List.replicate k .idle := by
    simp only [workers, hk, List.replicate_succ]
  have hsplit : workers = List.replicate bad.length .idle ++ List.replicate extra .idle :=
    List.replicate_add _ _ _
  have hjobs' : Reach (next p) ⟨s₁, [.caller, .waiting] ++ workers⟩
      ⟨s₂, [.caller, .waiting] ++ workers⟩ := by
    rw [hfirst]
    exact hwork.reach [.caller, .waiting] _
  let s₃ : Shared α γ := { s₂ with queue := [], group := 0 }
  let spent : List (Place α β) := List.replicate bad.length .blocked ++ List.replicate extra .idle
  have hbad' : Reach (next p) ⟨s₂, [.caller, .waiting] ++ workers⟩
      ⟨s₃, [.caller, .waiting] ++ spent⟩ := by
    rw [hsplit]
    exact reach_fail [.caller, .waiting] _ rfl (fun a ha => hsafe a (List.mem_append_right _ ha))
      hhalt hbad rfl rfl
  let s₄ : Shared α γ := { s₃ with closed := true, caller := .told }
  have htold : Solo (next p) (s₃, .waiting) (s₄, .reported) := solo_wait rfl hwaits rfl rfl
  let s₅ : Shared α γ := { s₄ with caller := .returned (some r) }
  have hret : Solo (next p) (s₄, .caller) (s₅, .caller) :=
    solo_act rfl (by simp [act, s₅, s₄, s₃, s₂])
  rw [hstart]
  exact ⟨_, some r, ((hfeed.trans hwait).reach [.caller] workers).trans (hjobs'.trans
    (hbad'.trans ((htold.reach [.caller] spent).trans (hret.reach [] (.reported :: spent))))), rfl⟩

end Didem.Lib.WorkerPool
