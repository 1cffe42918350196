import Didem.Comm.Send
import Didem.Lib.FanOut

/-!
# The goroutines of `connectEndProviders`

`connectEndProviders` connects to all providers at once, each in a goroutine that appends its address
under a mutex if that succeeds, waits for all, and does the same again to open a stream on each
connection. `Providers.connectEndProviders` says in one step what comes of it: those that connect
and open, **in whatever order**. Here the goroutines are run, and the two agree: every run ends, and
how it ends is how it ends for some order, and the other way round.
-/

set_option autoImplicit false

namespace Didem.Comm

open Lib Lib.Conf Storage

/-- The goroutine that connects to a provider. -/
def connectTo : Provider → FanOut.Work Provider := FanOut.keep (·.connects)

/-- The goroutine that opens a stream. -/
def openOn : Provider → FanOut.Work Provider := FanOut.keep (·.opens)

/-- Some run of `connectEndProviders` ends like this. -/
inductive Connects (found : Outcome Err (List Provider)) : Outcome Err (List Provider) → Prop where
  | failed {e : Err} (h : found = .err e) :
      Connects found
        (.err ((e.wrap "finding recipient provider").wrap "finding recipient provider"))
  | crashed (h : found = .panic) : Connects found .panic
  | nobody (h : found = .ok []) : Connects found (.err (.new "no recipient providers"))
  | unconnected {addrs : List Provider} (h : found = .ok addrs) (hne : addrs ≠ [])
      (hconnect : FanOut.Collects connectTo addrs []) :
      Connects found (.err (.new "no recipient provider connected"))
  | opened {addrs connectedAddrs streams : List Provider} (h : found = .ok addrs) (hne : addrs ≠ [])
      (hconnect : FanOut.Collects connectTo addrs connectedAddrs) (hne' : connectedAddrs ≠ [])
      (hopen : FanOut.Collects openOn connectedAddrs streams) : Connects found (.ok streams)

namespace Providers

theorem connectEndProviders_of_err {ω : Providers} {e : Err} (h : ω.found = .err e) :
    ω.connectEndProviders =
      .err ((e.wrap "finding recipient provider").wrap "finding recipient provider") := by
  simp [connectEndProviders, findProviders, h, Outcome.mapErr]

theorem connectEndProviders_of_panic {ω : Providers} (h : ω.found = .panic) :
    ω.connectEndProviders = .panic := by
  simp [connectEndProviders, findProviders, h, Outcome.mapErr]

theorem connectEndProviders_of_ok {ω : Providers} {addrs : List Provider} (h : ω.found = .ok addrs) :
    ω.connectEndProviders =
      if addrs = [] then .err (.new "no recipient providers")
      else if ω.order (addrs.filter (·.connects)) = [] then
        .err (.new "no recipient provider connected")
      else .ok (ω.order ((ω.order (addrs.filter (·.connects))).filter (·.opens))) := by
  simp [connectEndProviders, findProviders, h, Outcome.mapErr, List.length_eq_zero_iff]

/-- Every order of the streams comes of an order of the goroutines. -/
theorem exists_order {connected streams : List Provider}
    (h : streams.Perm (connected.filter (·.opens))) :
    ∃ order : List Provider → List Provider, (∀ l, (order l).Perm l) ∧
      order ((order connected).filter (·.opens)) = streams := by
  classical
  have hopens : streams.filter (·.opens) = streams :=
    List.filter_eq_self.mpr fun p hp => (List.mem_filter.mp (h.mem_iff.mp hp)).2
  have hfirst : (streams ++ connected.filter (!·.opens)).filter (·.opens) = streams := by
    rw [List.filter_append, hopens, List.filter_filter, List.filter_eq_nil_iff.mpr (by simp),
      List.append_nil]
  refine ⟨fun l => if l = connected then streams ++ connected.filter (!·.opens) else l, ?_, ?_⟩
  · intro l
    dsimp only
    split
    · next heq =>
      rw [heq]
      exact (h.append_right _).trans (List.filter_append_perm _ _)
    · exact .refl _
  · dsimp only
    rw [if_pos rfl, hfirst]
    split
    · next heq =>
      -- the streams are all of them, and none is left to open
      rw [← heq, List.filter_eq_nil_iff.mpr ?_, List.append_nil]
      intro p hp
      simp [(List.mem_filter.mp (hopens.symm ▸ hp)).2]
    · rfl

end Providers

theorem connects_of_order (ω : Providers) : Connects ω.found ω.connectEndProviders := by
  cases hfound : ω.found with
  | err e => exact Providers.connectEndProviders_of_err hfound ▸ .failed rfl
  | panic => exact Providers.connectEndProviders_of_panic hfound ▸ .crashed rfl
  | ok addrs =>
    rw [Providers.connectEndProviders_of_ok hfound]
    split
    · next hnil => exact .nobody (congrArg _ hnil)
    · next hne =>
      have hconnect : FanOut.Collects connectTo addrs (ω.order (addrs.filter (·.connects))) :=
        FanOut.collects_keep_iff.mpr (ω.order_perm _)
      split
      · next hnil => exact .unconnected rfl hne (hnil ▸ hconnect)
      · next hne' =>
        exact .opened rfl hne hconnect hne' (FanOut.collects_keep_iff.mpr (ω.order_perm _))

theorem order_of_connects {found o : Outcome Err (List Provider)} (h : Connects found o) :
    ∃ ω : Providers, ω.found = found ∧ ω.connectEndProviders = o := by
  -- where the order of the goroutines does not matter
  let inOrder : Providers := ⟨found, id, fun _ => .refl _⟩
  cases h with
  | failed h => exact ⟨inOrder, rfl, Providers.connectEndProviders_of_err h⟩
  | crashed h => exact ⟨inOrder, rfl, Providers.connectEndProviders_of_panic h⟩
  | nobody h =>
    have heq := Providers.connectEndProviders_of_ok (show inOrder.found = .ok [] from h)
    exact ⟨inOrder, rfl, heq.trans (if_pos rfl)⟩
  | @unconnected addrs h hne hconnect =>
    have hnil : addrs.filter (·.connects) = [] := (FanOut.collects_keep_iff.mp hconnect).nil_eq.symm
    have heq := Providers.connectEndProviders_of_ok (show inOrder.found = .ok addrs from h)
    exact ⟨inOrder, rfl, heq.trans ((if_neg hne).trans (if_pos hnil))⟩
  | @opened addrs connectedAddrs streams h hne hconnect hne' hopen =>
    have hconnected := FanOut.collects_keep_iff.mp hconnect
    have hstreams := (FanOut.collects_keep_iff.mp hopen).trans (hconnected.filter _)
    obtain ⟨order, hperm, horder⟩ := Providers.exists_order hstreams
    let ω : Providers := ⟨found, order, hperm⟩
    have hne'' : ω.order (addrs.filter (·.connects)) ≠ [] := by
      intro hnil
      have hperm' := hconnected.trans (ω.order_perm _).symm
      rw [hnil] at hperm'
      exact hne' hperm'.eq_nil
    have heq := Providers.connectEndProviders_of_ok (show ω.found = .ok addrs from h)
    refine ⟨ω, rfl, heq.trans ?_⟩
    rw [if_neg hne, if_neg hne'']
    exact congrArg _ horder

/-- **The goroutines do what the one step says.** A run of them ends as `connectEndProviders` does
for some order, and for every order some run ends so; and every run does end, with each provider
that connects, or opens, once. -/
theorem connectEndProviders_refines (found : Outcome Err (List Provider)) :
    (∀ o, Connects found o ↔ ∃ ω : Providers, ω.found = found ∧ ω.connectEndProviders = o) ∧
      ∀ addrs : List Provider,
        Inevitable (FanOut.next connectTo)
          (fun c => ∃ r, c.shared.result = some r ∧ r.Perm (addrs.filter (·.connects)))
          (FanOut.start addrs) ∧
        Inevitable (FanOut.next openOn)
          (fun c => ∃ r, c.shared.result = some r ∧ r.Perm (addrs.filter (·.opens)))
          (FanOut.start addrs) := by
  refine ⟨fun o => ⟨order_of_connects, ?_⟩, fun addrs => ⟨?_, ?_⟩⟩
  · rintro ⟨ω, rfl, rfl⟩
    exact connects_of_order ω
  · exact FanOut.collects_keep _ addrs
  · exact FanOut.collects_keep _ addrs

end Didem.Comm
