import Didem.Lib.WorkerPool
import Mathlib.Algebra.Order.Group.Multiset

/-!
# What holds in every reachable state of a worker pool

The wait group counts the jobs that are not done. Where those are, what has still to be recorded and
which workers are lost are **sums over the goroutines**, so each is kept by a line about what one
`Move` does to the weight of the place it leaves.

`Sound` is the invariant. From it: a pool that returns has recorded the answer of every job that did
not fail (`exists_log_of_returned`), and **a pool that skips failures never returns if there was
one** (`not_returned`).
-/

set_option autoImplicit false

namespace Didem.Lib.WorkerPool

open Conf

variable {α β γ : Type*}

/-! ## Weights of places -/

section Weights

/-- The times a job still to be worked on will be done: not at all, if it fails and that is
skipped. -/
def owes (p : Plan α β γ) (a : α) : Nat :=
  match p.work a, p.onError with
  | none, .skip => 0
  | _, _ => 1

/-- The jobs that will never be done. -/
def lost (p : Plan α β γ) (jobs : List α) : Nat := (jobs.map fun a => 1 - owes p a).sum

/-- The jobs a goroutine holds. -/
def Place.held : Place α β → Nat
  | .feeding rest => rest.length
  | .working _ | .recording _ | .finishing | .failing => 1
  | _ => 0

/-- The times it will call `wg.Done()` for them. -/
def Place.owed (p : Plan α β γ) : Place α β → Nat
  | .feeding rest => (rest.map (owes p)).sum
  | .working a => owes p a
  | .recording _ | .finishing | .failing => 1
  | _ => 0

/-- The answers it has yet to record. -/
def Place.answers (p : Plan α β γ) : Place α β → Multiset β
  | .feeding rest => (rest.filterMap p.work : List β)
  | .working a => ((p.work a).toList : List β)
  | .recording b => {b}
  | _ => 0

/-- One for the goroutine that waits or has waited. -/
def Place.waits (p : Plan α β γ) : Place α β → Nat
  | .feeding _ => if p.feederWaits then 1 else 0
  | .waiting | .closing | .reporting | .reported => 1
  | _ => 0

/-- One for a worker. -/
def Place.works : Place α β → Nat
  | .idle | .working _ | .recording _ | .finishing | .failing | .blocked | .exited => 1
  | _ => 0

/-- One for the caller. -/
def Place.calls : Place α β → Nat
  | .caller => 1
  | _ => 0

/-- The wait is over for it. -/
def Place.past : Place α β → Bool
  | .exited | .closing | .reporting | .reported => true
  | _ => false

/-- One for a job that fails. -/
def fails (p : Plan α β γ) (a : α) : Nat := if (p.work a).isNone then 1 else 0

/-- The failures a goroutine has in front of it, or is blocked by. -/
def Place.failures (p : Plan α β γ) : Place α β → Nat
  | .feeding rest => (rest.map (fails p)).sum
  | .working a => fails p a
  | .failing | .blocked => 1
  | _ => 0

/-- One for a job that panics. -/
def hazard (p : Plan α β γ) (a : α) : Nat := if p.panics a then 1 else 0

/-- The jobs that panic a goroutine has in front of it. -/
def Place.hazards (p : Plan α β γ) : Place α β → Nat
  | .feeding rest => (rest.map (hazard p)).sum
  | .working a => hazard p a
  | _ => 0

end Weights

/-! ## What a step keeps -/

section Keep

variable {p : Plan α β γ} {s s' : Shared α γ} {l l' : Place α β} {pre post : List (Place α β)}

theorem Move.waits (h : Move p s l s' l') : l'.waits p = l.waits p ∨ s'.crashed = true := by
  cases h <;> simp [Place.waits, *]

theorem Move.works (h : Move p s l s' l') : l'.works = l.works := by
  cases h <;> rfl

theorem Move.calls (h : Move p s l s' l') : l'.calls = l.calls := by
  cases h <;> rfl

theorem Move.group_le (h : Move p s l s' l') : s'.group ≤ s.group := by
  cases h <;> simp only [Nat.le_refl] <;> omega

/-- A job goes from the feeder to the queue to a worker, and from there only when it is done or
skipped. -/
theorem Move.held (h : Move p s l s' l') (hcalm : s'.crashed = false) :
    l'.held + s'.queue.length + s.group ≤
      l.held + s.queue.length + s'.group := by
  cases h <;> simp_all [Place.held] <;> omega

theorem Move.owed (h : Move p s l s' l') (hcalm : s'.crashed = false) :
    l'.owed p + (s'.queue.map (owes p)).sum + s.group =
      l.owed p + (s.queue.map (owes p)).sum + s'.group := by
  cases h <;> simp_all [Place.owed, owes] <;> omega

theorem Move.failures (h : Move p s l s' l') :
    l'.failures p + (s'.queue.map (fails p)).sum ≤
      l.failures p + (s.queue.map (fails p)).sum := by
  cases h <;> simp_all [Place.failures, fails]
  omega

/-- A failure that is not skipped stays with its worker. -/
theorem Move.failures_of_halt (h : Move p s l s' l') (hcalm : s'.crashed = false)
    (hhalt : p.onError = .halt) :
    l'.failures p + (s'.queue.map (fails p)).sum =
      l.failures p + (s.queue.map (fails p)).sum := by
  cases h <;> simp_all [Place.failures, fails]
  omega

theorem Move.hazards (h : Move p s l s' l') :
    l'.hazards p + (s'.queue.map (hazard p)).sum ≤
      l.hazards p + (s.queue.map (hazard p)).sum := by
  cases h <;> simp_all [Place.hazards]
  omega

/-- An answer is recorded or yet to be. -/
theorem Move.answers (h : Move p s l s' l') (hcalm : s'.crashed = false) :
    ∃ new : List β, s'.result = new.foldr p.record s.result ∧
      (new : Multiset β) + l'.answers p + (s'.queue.filterMap p.work : List β) =
        l.answers p + (s.queue.filterMap p.work : List β) := by
  cases h with
  | record b =>
    refine ⟨[b], rfl, ?_⟩
    simp [Place.answers]
  | feed a rest =>
    refine ⟨[], rfl, ?_⟩
    cases hw : p.work a with
    | none => simp [Place.answers, List.filterMap_append, hw]
    | some b =>
      simp only [Place.answers, List.filterMap_append, List.filterMap_cons, hw,
        List.filterMap_nil, Multiset.coe_nil, zero_add, Multiset.coe_add]
      refine Multiset.coe_eq_coe.mpr ?_
      rw [← List.append_assoc]
      exact List.perm_append_singleton b _
  | take a queue hq =>
    refine ⟨[], rfl, ?_⟩
    cases hw : p.work a with
    | none => simp [Place.answers, hq, hw]
    | some b => simp [Place.answers, hq, hw]
  | sendClosed | finishLate | giveUpLate | blow => exact absurd hcalm (by simp)
  | answer a b hw => exact ⟨[], rfl, by simp [Place.answers, hw]⟩
  | skip a hw => exact ⟨[], rfl, by simp [Place.answers, hw]⟩
  | fail a hw => exact ⟨[], rfl, by simp [Place.answers, hw]⟩
  | _ => exact ⟨[], rfl, by simp [Place.answers]⟩

/-- **What holds in every reachable state** of a pool whose caller does not give up and whose jobs
do not panic. -/
structure Sound (p : Plan α β γ) (workers : Nat) (jobs : List α) (init : γ)
    (c : Conf (Shared α γ) (Place α β)) : Prop where
  calm : c.shared.crashed = false
  held : total Place.held c.threads + c.shared.queue.length ≤ c.shared.group
  owed : c.shared.group = total (Place.owed p) c.threads +
    (c.shared.queue.map (owes p)).sum + lost p jobs
  log : ∃ log : List β, c.shared.result = log.foldr p.record init ∧
    (log : Multiset β) + total (Place.answers p) c.threads +
      (c.shared.queue.filterMap p.work : List β) = (jobs.filterMap p.work : List β)
  failures : total (Place.failures p) c.threads + (c.shared.queue.map (fails p)).sum ≤
    (jobs.map (fails p)).sum
  halted : p.onError = .halt →
    total (Place.failures p) c.threads + (c.shared.queue.map (fails p)).sum =
      (jobs.map (fails p)).sum
  safe : total (Place.hazards p) c.threads + (c.shared.queue.map (hazard p)).sum = 0
  room : c.shared.capacity = jobs.length ∧ c.shared.group ≤ jobs.length
  waits : total (Place.waits p) c.threads = 1
  works : total Place.works c.threads = workers
  calls : total Place.calls c.threads = 1
  past : (∃ l ∈ c.threads, l.past = true) ∨ c.shared.caller ≠ .selecting ∨
    c.shared.closed = true → c.shared.group = 0
  reported : .reported ∈ c.threads → c.shared.caller ≠ .selecting
  back : ∀ r, c.shared.caller = .returned r → r = some c.shared.result

variable {workers : Nat} {jobs : List α} {init : γ}

/-- A job that a goroutine holds is counted. -/
theorem Sound.held_le {c : Conf (Shared α γ) (Place α β)} (h : Sound p workers jobs init c)
    (hl : l ∈ c.threads) : l.held ≤ c.shared.group :=
  (le_total hl).trans ((Nat.le_add_right _ _).trans h.held)

theorem Sound.group_of_returned {c : Conf (Shared α γ) (Place α β)} {r : Option γ}
    (h : Sound p workers jobs init c) (hr : c.shared.caller = .returned r) :
    c.shared.group = 0 :=
  h.past (.inr (.inl fun hsel => by rw [hr] at hsel; cases hsel))

/-- Nobody sends on the closed channel or has a job that panics, and the counter does not become
negative. -/
theorem Sound.calm_step (h : Sound p workers jobs init ⟨s, pre ++ l :: post⟩)
    (hm : Move p s l s' l') : s'.crashed = false := by
  have hle : l.held ≤ s.group := h.held_le (mem_move.mpr (.inl rfl))
  cases hm with
  | sendClosed a rest hclosed =>
    rw [h.past (.inr (.inr hclosed))] at hle
    exact absurd hle (Nat.not_succ_le_zero _)
  | finishLate hn =>
    rw [hn] at hle
    exact absurd hle (Nat.not_succ_le_zero _)
  | giveUpLate hn =>
    rw [hn] at hle
    exact absurd hle (Nat.not_succ_le_zero _)
  | blow a hw =>
    have hhere : Place.hazards p (.working a) ≤
        total (Place.hazards p) (pre ++ .working a :: post) := le_total (mem_move.mpr (.inl rfl))
    have hsafe := h.safe
    simp only [Place.hazards, hazard, hw, if_true] at hhere
    simp only at hsafe
    omega
  | _ => exact h.calm

/-- Once the wait is over, nothing is recorded. -/
theorem Sound.back_step (h : Sound p workers jobs init ⟨s, pre ++ l :: post⟩)
    (hexp : p.expires = false) (hm : Move p s l s' l') :
    ∀ r, s'.caller = .returned r → r = some s'.result := by
  intro r hr
  cases hm with
  | record b =>
    have hle : 1 ≤ s.group := h.held_le (mem_move.mpr (.inl rfl))
    exact absurd (h.group_of_returned hr) (Nat.ne_of_gt hle)
  | report => exact absurd hr (by simp)
  | ret => exact (Caller.returned.inj hr).symm
  | expire _ hp => exact absurd hp (by simp [hexp])
  | _ => exact h.back r hr

theorem Move.past (hexp : p.expires = false) (h : Move p s l s' l')
    (hpast : l'.past = true ∨ s'.caller ≠ .selecting ∨ s'.closed = true) :
    (l.past = true ∨ s.caller ≠ .selecting ∨ s.closed = true) ∨ s.group = 0 := by
  cases h <;> simp_all [Place.past]

/-- **Only an empty wait group lets anyone past the wait.** -/
theorem Sound.past_step (h : Sound p workers jobs init ⟨s, pre ++ l :: post⟩)
    (hexp : p.expires = false) (hm : Move p s l s' l')
    (hpast : (∃ l₁ ∈ pre ++ l' :: post, l₁.past = true) ∨ s'.caller ≠ .selecting ∨
      s'.closed = true) : s'.group = 0 := by
  suffices s.group = 0 from Nat.eq_zero_of_le_zero (this ▸ hm.group_le)
  have hmoved : l'.past = true ∨ s'.caller ≠ .selecting ∨ s'.closed = true →
      s.group = 0 := by
    intro hmoved
    rcases hm.past hexp hmoved with (hl' | hold) | hzero
    · exact h.past (.inl ⟨l, mem_move.mpr (.inl rfl), hl'⟩)
    · exact h.past (.inr hold)
    · exact hzero
  rcases hpast with ⟨l₁, hmem, hl₁⟩ | hrest
  · rcases mem_move.mp hmem with rfl | hother
    · exact hmoved (.inl hl₁)
    · exact h.past (.inl ⟨l₁, mem_move.mpr (.inr hother), hl₁⟩)
  · exact hmoved (.inr hrest)

theorem Move.reported (h : Move p s l s' l') :
    (l' = .reported → s'.caller ≠ .selecting) ∧
      (s.caller ≠ .selecting → s'.caller ≠ .selecting) := by
  cases h <;> simp_all

theorem Sound.step (h : Sound p workers jobs init ⟨s, pre ++ l :: post⟩)
    (hexp : p.expires = false) (hm : Move p s l s' l') :
    Sound p workers jobs init ⟨s', pre ++ l' :: post⟩ := by
  have hcalm := h.calm_step hm
  constructor
  case calm => exact hcalm
  case held =>
    have hmove := total_move Place.held pre post l l'
    have hstep := hm.held hcalm
    have hheld := h.held
    simp only at hheld ⊢
    omega
  case owed =>
    have hmove := total_move (Place.owed p) pre post l l'
    have hstep := hm.owed hcalm
    have howed := h.owed
    simp only at howed ⊢
    omega
  case log =>
    obtain ⟨log, hlog, hsum⟩ := h.log
    obtain ⟨new, hnew, hstep⟩ := hm.answers hcalm
    refine ⟨new ++ log, by rw [hnew, hlog, List.foldr_append], ?_⟩
    rw [add_right_comm, add_comm (l.answers p)] at hstep
    have hmove := add_total_move (Place.answers p) hstep pre post
    rw [← hsum, ← Multiset.coe_add]
    calc _ = (log : Multiset β) + ((new : Multiset β) + (s'.queue.filterMap p.work : List β) +
          total (Place.answers p) (pre ++ l' :: post)) := by abel
      _ = _ := by rw [hmove]; abel
  case failures =>
    have hmove := total_move (Place.failures p) pre post l l'
    have hstep := hm.failures
    have hfail := h.failures
    simp only at hfail ⊢
    omega
  case halted =>
    intro hhalt
    have hmove := total_move (Place.failures p) pre post l l'
    have hstep := hm.failures_of_halt hcalm hhalt
    have hfail := h.halted hhalt
    simp only at hfail ⊢
    omega
  case safe =>
    have hmove := total_move (Place.hazards p) pre post l l'
    have hstep := hm.hazards
    have hsafe := h.safe
    simp only at hsafe ⊢
    omega
  case room =>
    have hcap : s'.capacity = s.capacity := by cases hm <;> rfl
    exact ⟨hcap.trans h.room.1, hm.group_le.trans h.room.2⟩
  case waits =>
    have hmove := total_move (Place.waits p) pre post l l'
    have hsame := hm.waits.resolve_right (by simp [hcalm])
    have := h.waits
    simp only at this ⊢
    omega
  case works =>
    have hmove := total_move Place.works pre post l l'
    rw [hm.works] at hmove
    exact (Nat.add_right_cancel hmove).trans h.works
  case calls =>
    have hmove := total_move Place.calls pre post l l'
    rw [hm.calls] at hmove
    exact (Nat.add_right_cancel hmove).trans h.calls
  case past => exact h.past_step hexp hm
  case reported =>
    intro hmem
    rcases mem_move.mp hmem with hl' | hother
    · exact hm.reported.1 hl'.symm
    · exact hm.reported.2 (h.reported (mem_move.mpr (.inr hother)))
  case back => exact h.back_step hexp hm

/-! ## Whole runs -/

theorem owes_le_one (p : Plan α β γ) (a : α) : owes p a ≤ 1 := by
  unfold owes
  split
  · exact Nat.zero_le 1
  · exact Nat.le_refl 1

theorem sum_owes (p : Plan α β γ) (jobs : List α) :
    (jobs.map (owes p)).sum + lost p jobs = jobs.length := by
  induction jobs with
  | nil => rfl
  | cons a jobs ih =>
    have hle := owes_le_one p a
    simp only [lost, List.map_cons, List.sum_cons, List.length_cons] at ih ⊢
    omega

theorem mem_start {p : Plan α β γ} {l : Place α β} (h : l ∈ (start p workers jobs init).threads) :
    l = .caller ∨ l = .feeding jobs ∨ l = .waiting ∨ l = .idle := by
  have hidle : l ∈ List.replicate workers Place.idle → l = .idle := List.eq_of_mem_replicate
  cases hp : p.feederWaits <;> simp [start, hp] at h <;> grind

theorem sum_hazard {jobs : List α} (h : ∀ a ∈ jobs, p.panics a = false) :
    (jobs.map (hazard p)).sum = 0 := by
  refine List.sum_eq_zero fun n hn => ?_
  obtain ⟨a, ha, rfl⟩ := List.mem_map.mp hn
  simp [hazard, h a ha]

theorem sound_start (workers : Nat) {jobs : List α} (init : γ)
    (hsafe : ∀ a ∈ jobs, p.panics a = false) :
    Sound p workers jobs init (start p workers jobs init) := by
  have howes := sum_owes p jobs
  have hhazard := sum_hazard hsafe
  constructor
  case past =>
    rintro (⟨l, hl, hpast⟩ | h | h)
    · rcases mem_start hl with rfl | rfl | rfl | rfl <;> exact absurd hpast (by simp [Place.past])
    · exact absurd rfl h
    · exact absurd h (by simp [start])
  case reported => exact fun hl => absurd (mem_start hl) (by simp)
  case log =>
    exact ⟨[], rfl, by cases hp : p.feederWaits <;> simp [start, total, Place.answers, hp]⟩
  case back => exact fun r hr => absurd hr (by simp [start])
  all_goals
    cases hp : p.feederWaits <;>
      simp [start, total, hp, Place.held, Place.owed, Place.failures, Place.hazards,
        Place.waits, Place.works, Place.calls] <;> omega

theorem Sound.of_reach {c c' : Conf (Shared α γ) (Place α β)} (hexp : p.expires = false)
    (h : Sound p workers jobs init c) (hreach : Reach (next p) c c') :
    Sound p workers jobs init c' :=
  Reach.invariant hreach h fun hs hmem => Sound.step hs hexp (move_of_mem hmem)

/-- **A pool that skips failures waits for ever once there is one.** -/
theorem not_returned {c : Conf (Shared α γ) (Place α β)} (hexp : p.expires = false)
    (hsafe : ∀ a ∈ jobs, p.panics a = false) (hlost : lost p jobs ≠ 0)
    (hreach : Reach (next p) (start p workers jobs init) c) :
    c.shared.caller = .selecting := by
  have h := (sound_start workers init hsafe).of_reach hexp hreach
  by_contra hcaller
  have hzero := h.past (.inr (.inl hcaller))
  have howed := h.owed
  omega

theorem owed_le_held (p : Plan α β γ) (l : Place α β) : l.owed p ≤ l.held := by
  cases l with
  | feeding rest =>
    have := sum_owes p rest
    simp only [Place.owed, Place.held]
    omega
  | working a => exact owes_le_one p a
  | _ => exact Nat.le_refl _

theorem answers_eq_zero {l : Place α β} (h : l.held = 0) : l.answers p = 0 := by
  cases l with
  | feeding rest =>
    obtain rfl : rest = [] := List.length_eq_zero_iff.mp h
    rfl
  | working a => exact absurd h Nat.one_ne_zero
  | recording b => exact absurd h Nat.one_ne_zero
  | _ => rfl

theorem failures_le_works {l : Place α β} (h : l.held = 0) : l.failures p ≤ l.works := by
  cases l with
  | feeding rest =>
    obtain rfl : rest = [] := List.length_eq_zero_iff.mp h
    exact Nat.le_refl 0
  | working a => exact absurd h Nat.one_ne_zero
  | _ => simp [Place.failures, Place.works]

/-- With an empty wait group no job is left. -/
theorem Sound.nothing_left {c : Conf (Shared α γ) (Place α β)} (h : Sound p workers jobs init c)
    (hzero : c.shared.group = 0) : c.shared.queue = [] ∧ ∀ l ∈ c.threads, l.held = 0 := by
  have hheld := h.held
  constructor
  · exact List.length_eq_zero_iff.mp (by omega)
  · intro l hl
    exact Nat.eq_zero_of_le_zero (hzero ▸ h.held_le hl)

/-- With nothing held any more, all answers are recorded. -/
theorem Sound.exists_log {c : Conf (Shared α γ) (Place α β)} (h : Sound p workers jobs init c)
    (hzero : c.shared.group = 0) :
    ∃ log : List β, c.shared.result = log.foldr p.record init ∧
      log.Perm (jobs.filterMap p.work) := by
  obtain ⟨log, hlog, hsum⟩ := h.log
  obtain ⟨hqueue, hheld⟩ := h.nothing_left hzero
  have hanswers : total (Place.answers p) c.threads = 0 := by
    refine List.sum_eq_zero fun m hm => ?_
    obtain ⟨l, hl, rfl⟩ := List.mem_map.mp hm
    exact answers_eq_zero (hheld l hl)
  refine ⟨log, hlog, Multiset.coe_eq_coe.mp ?_⟩
  rw [← hsum, hanswers, hqueue]
  simp

/-- **What a pool returns**: the answers of the jobs that did not fail, each recorded once, in some
order. -/
theorem exists_log_of_returned {c : Conf (Shared α γ) (Place α β)} (hexp : p.expires = false)
    (hsafe : ∀ a ∈ jobs, p.panics a = false)
    (hreach : Reach (next p) (start p workers jobs init) c) {r : Option γ}
    (hr : c.shared.caller = .returned r) :
    ∃ log : List β, r = some (log.foldr p.record init) ∧ log.Perm (jobs.filterMap p.work) := by
  have h := (sound_start workers init hsafe).of_reach hexp hreach
  obtain ⟨log, hlog, hperm⟩ := h.exists_log (h.group_of_returned hr)
  exact ⟨log, by rw [h.back r hr, hlog], hperm⟩

/-- **No goroutine panics** if no job does: no send on the closed channel, no negative counter. -/
theorem calm_of_reach {c : Conf (Shared α γ) (Place α β)} (hexp : p.expires = false)
    (hsafe : ∀ a ∈ jobs, p.panics a = false)
    (hreach : Reach (next p) (start p workers jobs init) c) : c.shared.crashed = false :=
  ((sound_start workers init hsafe).of_reach hexp hreach).calm

/-- **A pool that loses a worker to each failure has no more of them than workers when it
returns.** -/
theorem sum_fails_le_of_returned {c : Conf (Shared α γ) (Place α β)} (hexp : p.expires = false)
    (hsafe : ∀ a ∈ jobs, p.panics a = false) (hhalt : p.onError = .halt)
    (hreach : Reach (next p) (start p workers jobs init) c)
    {r : Option γ} (hr : c.shared.caller = .returned r) :
    (jobs.map (fails p)).sum ≤ workers := by
  have h := (sound_start workers init hsafe).of_reach hexp hreach
  obtain ⟨hqueue, hheld⟩ := h.nothing_left (h.group_of_returned hr)
  have hle : total (Place.failures p) c.threads ≤ total Place.works c.threads :=
    List.sum_le_sum fun l hl => failures_le_works (hheld l hl)
  have hfail := h.halted hhalt
  have hworks := h.works
  rw [hqueue] at hfail
  simp only [List.map_nil, List.sum_nil, Nat.add_zero] at hfail
  omega

end Keep

end Didem.Lib.WorkerPool
