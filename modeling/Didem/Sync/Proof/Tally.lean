import Didem.Lib.WorkerPool.Return
import Didem.Sync.Handler

/-!
# Asking the peers

`askForTip` is a worker pool that **skips failures**: a worker whose question fails goes on without
telling the wait group. One failure is therefore enough for the call to wait until its context
expires. When every question is answered, every interleaving ends with the map `countTips` computes,
whose counts add up to the answers.

The channel is closed when the call returns, by which time the feeder is done with it, unless the
context has expired before: then **the feeder may send on the closed channel**, which is a panic.
-/

set_option autoImplicit false

namespace Didem.Sync

open Lib Lib.Conf Lib.WorkerPool Storage

variable {chainID : Bytes} {answer : Nat → Peer → Option TipResponse} {expires : Bool}
  {peers : List Peer}

/-! ## Counting -/

/-- What the counts of a map add up to. -/
def Tips.sum (tips : Tips) : Nat := (tips.entries.map Sigma.snd).sum

theorem sum_kerase (t : String) (l : List (Sigma fun _ : String => Nat)) :
    ((l.kerase t).map Sigma.snd).sum + (l.dlookup t).getD 0 = (l.map Sigma.snd).sum := by
  induction l with
  | nil => rfl
  | cons e l ih =>
    obtain ⟨t', n⟩ := e
    by_cases h : t = t'
    · subst h
      simp [List.kerase_cons_eq, List.dlookup_cons_eq]
      omega
    · rw [List.kerase_cons_ne h, List.dlookup_cons_ne _ _ h]
      simp only [List.map_cons, List.sum_cons]
      omega

/-- One more answer. -/
theorem sum_record (t : String) (tips : Tips) :
    ((tipPlan chainID answer expires).record t tips).sum = tips.sum + 1 := by
  have h := sum_kerase t tips.entries
  simp only [tipPlan, Tips.sum, AList.entries_insert, List.map_cons, List.sum_cons]
  rw [show tips.lookup t = tips.entries.dlookup t from rfl]
  omega

theorem sum_foldr (log : List String) :
    (log.foldr (tipPlan chainID answer expires).record ∅).sum = log.length := by
  induction log with
  | nil => rfl
  | cons t log ih => rw [List.foldr_cons, sum_record, ih, List.length_cons]

/-! ## The tally -/

/-- The tips the peers answer, without the questions that fail. -/
def tipsAnswered (chainID : Bytes) (answer : Nat → Peer → Option TipResponse) (peers : List Peer) :
    List String :=
  (peers.mapIdx Prod.mk).filterMap (tipPlan chainID answer false).work

/-- **The tally completes**: every run comes to an empty wait group and returns a map whose counts
add up to the answers; and in none of them is there a send on the closed channel. -/
def TallyCompletes (chainID : Bytes) (answer : Nat → Peer → Option TipResponse)
    (peers : List Peer) : Prop :=
  Inevitable (WorkerPool.next (tipPlan chainID answer false))
      (fun c => c.shared.group = 0 ∧ ∃ tips : Tips, c.shared.caller = .returned (some tips) ∧
        tips.sum = (tipsAnswered chainID answer peers).length)
      (tipPool chainID answer false peers) ∧
    ∀ c, Reach (WorkerPool.next (tipPlan chainID answer false))
      (tipPool chainID answer false peers) c → c.shared.crashed = false

theorem work_isSome_iff {job : Nat × Peer} :
    ((tipPlan chainID answer expires).work job).isSome ↔
      ∃ t, reqTip chainID (answer job.1 job.2) = .ok t := by
  simp only [tipPlan]
  cases reqTip chainID (answer job.1 job.2) <;> simp

/-- A failure is a job nobody calls `Done` for. -/
theorem lost_eq_zero_iff {jobs : List (Nat × Peer)} :
    lost (tipPlan chainID answer expires) jobs = 0 ↔
      ∀ job ∈ jobs, ((tipPlan chainID answer expires).work job).isSome := by
  simp only [lost, List.sum_eq_zero_iff, List.mem_map, forall_exists_index, and_imp,
    forall_apply_eq_imp_iff₂, owes]
  refine forall₂_congr fun job _ => ?_
  cases (tipPlan chainID answer expires).work job <;> simp [tipPlan]

theorem forall_jobs_iff {P : Nat × Peer → Prop} :
    (∀ job ∈ peers.mapIdx Prod.mk, P job) ↔ ∀ i p, peers[i]? = some p → P (i, p) := by
  simp only [List.mem_mapIdx, List.getElem?_eq_some_iff]
  constructor
  · rintro h i p ⟨hi, rfl⟩
    exact h _ ⟨i, hi, rfl⟩
  · rintro h job ⟨i, hi, rfl⟩
    exact h i _ ⟨hi, rfl⟩

/-- **One failure, and the call waits for its context.** -/
theorem selecting_of_failure
    (hfail : lost (tipPlan chainID answer false) (peers.mapIdx Prod.mk) ≠ 0)
    {c : Conf (WorkerPool.Shared (Nat × Peer) Tips) (WorkerPool.Place (Nat × Peer) String)}
    (hreach : Reach (WorkerPool.next (tipPlan chainID answer false))
      (tipPool chainID answer false peers) c) : c.shared.caller = .selecting :=
  not_returned rfl (fun _ _ => rfl) hfail hreach

/-- Without failures every interleaving returns what was counted. -/
theorem inevitable_tally (hok : lost (tipPlan chainID answer false) (peers.mapIdx Prod.mk) = 0) :
    Inevitable (WorkerPool.next (tipPlan chainID answer false))
      (fun c => c.shared.group = 0 ∧ ∃ log : List String, c.shared.caller =
          .returned (some (log.foldr (tipPlan chainID answer false).record ∅)) ∧
        log.Perm (tipsAnswered chainID answer peers))
      (tipPool chainID answer false peers) := by
  refine inevitable_returned rfl (fun _ _ => rfl) hok
    (Nat.lt_of_le_of_lt (Nat.le_of_eq ?_) (Nat.succ_pos 2))
  refine List.sum_eq_zero fun n hn => ?_
  obtain ⟨job, hjob, rfl⟩ := List.mem_map.mp hn
  have hsome := lost_eq_zero_iff.mp hok job hjob
  rw [fails, Option.isNone_eq_false_iff.mpr hsome]
  rfl

/-- **The tally completes exactly if every question is answered.** -/
theorem tallyCompletes_iff (chainID : Bytes) (answer : Nat → Peer → Option TipResponse)
    (peers : List Peer) :
    TallyCompletes chainID answer peers ↔
      ∀ i p, peers[i]? = some p → ∃ t, reqTip chainID (answer i p) = .ok t := by
  have hlost : lost (tipPlan chainID answer false) (peers.mapIdx Prod.mk) = 0 ↔
      ∀ i p, peers[i]? = some p → ∃ t, reqTip chainID (answer i p) = .ok t := by
    rw [lost_eq_zero_iff, forall_jobs_iff]
    exact forall₃_congr fun i p _ => work_isSome_iff
  rw [← hlost]
  constructor
  · rintro ⟨hret, -⟩
    by_contra hfail
    obtain ⟨c, hreach, -, tips, hc, -⟩ := hret.exists_reach
    rw [selecting_of_failure hfail hreach] at hc
    exact absurd hc (by simp)
  · intro hok
    refine ⟨(inevitable_tally hok).mono ?_, fun c hreach => calm_of_reach rfl (fun _ _ => rfl) hreach⟩
    rintro c ⟨hzero, log, hc, hperm⟩
    exact ⟨hzero, _, hc, (sum_foldr log).trans hperm.length_eq⟩

section

/-- A peer that cannot be reached. -/
def unreachable : List Peer := [{ id := "a", tags := [] }]

/-- **One unreachable peer.** The worker goes on to wait for the next question, and nobody is left
who could move: the wait group is at one, and the caller is where it was. -/
theorem unreachable_never_returns :
    ∃ c, Reach (WorkerPool.next (tipPlan [] (fun _ _ => none) false))
        (tipPool [] (fun _ _ => none) false unreachable) c ∧
      Stuck (WorkerPool.next (tipPlan [] (fun _ _ => none) false)) c ∧
      c.shared.group = 1 ∧ c.shared.caller = .selecting ∧
      ¬ TallyCompletes [] (fun _ _ => none) unreachable := by
  refine ⟨_, reach_of_follow [(1, 0), (1, 0), (3, 0), (3, 0)] rfl, by decide, rfl, rfl,
    fun h => ?_⟩
  obtain ⟨c, hreach, -, tips, hc, -⟩ := h.1.exists_reach
  rw [selecting_of_failure (by decide) hreach] at hc
  exact absurd hc (by simp)

end

/-! ## What it returns is what is counted -/

theorem lookup_foldr (log : List String) (t : String) :
    (log.foldr (tipPlan chainID answer expires).record ∅).lookup t =
      if t ∈ log then some (log.count t) else none := by
  induction log with
  | nil => rfl
  | cons t' log ih =>
    rw [List.foldr_cons]
    simp only [tipPlan] at ih ⊢
    by_cases h : t = t'
    · subst h
      rw [AList.lookup_insert, ih]
      by_cases hmem : t ∈ log
      · simp [hmem]
      · simp [hmem, List.count_eq_zero_of_not_mem hmem]
    · rw [AList.lookup_insert_ne h, ih]
      simp [h, Ne.symm h]

theorem countTips_ok (chainID : Bytes) (answer : Nat → Peer → Option TipResponse) (expires : Bool)
    (log : List String) (tips : Tips) :
    countTips (log.map .ok) tips =
      some (log.foldl (fun tips t => (tipPlan chainID answer expires).record t tips) tips) := by
  induction log generalizing tips with
  | nil => rfl
  | cons t log ih => exact ih _

/-- The answers in the order of the questions. -/
theorem countTips_eq_none_iff {rs : List (Outcome Err String)} {tips : Tips} :
    countTips rs tips = none ↔ ∀ log : List String, rs ≠ log.map .ok := by
  induction rs generalizing tips with
  | nil => simp [countTips]
  | cons r rs ih =>
    cases r with
    | ok t =>
      rw [countTips, ih]
      constructor
      · rintro h (_ | ⟨t', log⟩) heq
        · exact absurd heq (by simp)
        · exact h log (List.cons.inj heq).2
      · exact fun h log heq => h (t :: log) (by rw [heq]; rfl)
    | err e =>
      refine iff_of_true rfl fun log heq => ?_
      cases log <;> simp at heq
    | panic =>
      refine iff_of_true rfl fun log heq => ?_
      cases log <;> simp at heq

/-- The results of the questions, as `countTips` is given them. -/
def tipResults (chainID : Bytes) (answer : Nat → Peer → Option TipResponse) (peers : List Peer) :
    List (Outcome Err String) :=
  peers.mapIdx fun i p => reqTip chainID (answer i p)

theorem tipResults_eq_iff {log : List String} :
    tipResults chainID answer peers = log.map .ok ↔
      lost (tipPlan chainID answer false) (peers.mapIdx Prod.mk) = 0 ∧
        tipsAnswered chainID answer peers = log := by
  have hresults : tipResults chainID answer peers =
      (peers.mapIdx Prod.mk).map fun job => reqTip chainID (answer job.1 job.2) := by
    simp only [tipResults, List.mapIdx_eq_zipIdx_map, List.map_map]
    rfl
  rw [hresults, lost_eq_zero_iff, tipsAnswered]
  generalize peers.mapIdx Prod.mk = jobs
  induction jobs generalizing log with
  | nil => cases log <;> simp
  | cons job jobs ih =>
    cases hr : reqTip chainID (answer job.1 job.2) with
    | ok t =>
      have hwork : (tipPlan chainID answer false).work job = some t := by simp [tipPlan, hr]
      rw [List.map_cons, hr, List.filterMap_cons, hwork]
      cases log with
      | nil => simp
      | cons t' log =>
        simp only [List.map_cons, List.cons.injEq, Outcome.ok.injEq, List.forall_mem_cons, hwork,
          Option.isSome_some, true_and]
        exact (and_congr_right fun _ => ih).trans and_left_comm
    | err e =>
      have hwork : (tipPlan chainID answer false).work job = none := by simp [tipPlan, hr]
      refine iff_of_false ?_ fun h => by simpa [hwork] using h.1 job List.mem_cons_self
      rw [List.map_cons, hr]
      cases log <;> simp
    | panic =>
      have hwork : (tipPlan chainID answer false).work job = none := by simp [tipPlan, hr]
      refine iff_of_false ?_ fun h => by simpa [hwork] using h.1 job List.mem_cons_self
      rw [List.map_cons, hr]
      cases log <;> simp

/-- **`askForTip` in one piece is what its goroutines come to**: the same counts, or no return. -/
theorem tipPool_refines (a : Attempt) (hin : a.inTime = true) :
    match askForTip chainID a peers with
    | .ok tips => Inevitable (WorkerPool.next (tipPlan chainID a.answer false))
        (fun c => ∃ tips' : Tips, c.shared.caller = .returned (some tips') ∧
          ∀ t, tips'.lookup t = tips.lookup t) (tipPool chainID a.answer false peers)
    | _ => ∀ c, Reach (WorkerPool.next (tipPlan chainID a.answer false))
        (tipPool chainID a.answer false peers) c → c.shared.caller = .selecting := by
  by_cases hlost : lost (tipPlan chainID a.answer false) (peers.mapIdx Prod.mk) = 0
  · have hresults := tipResults_eq_iff.mpr ⟨hlost, rfl⟩
    have hask : askForTip chainID a peers = .ok
        ((tipsAnswered chainID a.answer peers).reverse.foldr
          (tipPlan chainID a.answer false).record ∅) := by
      rw [List.foldr_reverse]
      unfold askForTip
      rw [show (peers.mapIdx fun i p => reqTip chainID (a.answer i p)) = _ from hresults,
        countTips_ok chainID a.answer false, hin]
    rw [hask]
    refine (inevitable_tally hlost).mono ?_
    rintro c ⟨-, log, hc, hperm⟩
    refine ⟨_, hc, fun t => ?_⟩
    have hperm' := hperm.trans (List.reverse_perm _).symm
    simp only [lookup_foldr, hperm'.mem_iff, hperm'.count_eq]
  · have hnone : countTips (tipResults chainID a.answer peers) ∅ = none :=
      countTips_eq_none_iff.mpr fun log hlog => hlost (tipResults_eq_iff.mp hlog).1
    have hask : askForTip chainID a peers = .err (.new "ctx timeout") := by
      unfold askForTip
      rw [show countTips (peers.mapIdx fun i p => reqTip chainID (a.answer i p)) ∅ = none
        from hnone]
    rw [hask]
    exact fun c hreach => selecting_of_failure hlost hreach

/-! ## A context that expires -/

/-- **The feeder panics** if the context expires before it has sent everything: the channel is
closed on the way out. -/
theorem feeder_panics (hne : peers ≠ []) :
    ∃ c, Reach (WorkerPool.next (tipPlan chainID answer true))
        (tipPool chainID answer true peers) c ∧
      c.shared.crashed = true := by
  obtain ⟨p, rest, rfl⟩ := List.exists_cons_of_ne_nil hne
  rw [tipPool, List.mapIdx_cons]
  -- the caller gives up, and then the feeder gets its turn
  exact ⟨_, reach_of_follow [(0, 0), (1, 0)] rfl, rfl⟩

end Didem.Sync
