import Didem.Consensus.Beacon
import Didem.Consensus.Sample
import Didem.Lib.Run

/-!
# What becomes of the ticks

Everything the four goroutines hold, from the rounds that were started to the ticks that are yet to
come, is one list, the `flight`, with the oldest value first. A move hands a value on to the next
goroutine, which leaves the list as it is, or loses it. So **the rounds that are started are those
of some of the ticks that count, in their order and none twice** (`started_sublist`). Two kinds of
tick are out of reach: those from the first one on that counts and is too short to be read, where
the filter panics, and those that elect nobody. Of the others nothing more can be said: any choice
of them is what some interleaving comes to (`started_iff_sublist`), and two nodes on the same beacon
need not have a single round in common.

For the engine a round that is started is a `.beacon` call, if the nodes are the same from the
election to the start. A node with its beacon then is a node that is called for some of the ticks,
until a goroutine of the beacon panics and takes the node with it (`fed_refines`).
-/

set_option autoImplicit false

namespace Didem

open Lib Storage

namespace Beacon

/-! ## The flight -/

/-- The values of the ticks that count. -/
def values (ts : List Tick) : List UInt64 := ts.filterMap Tick.value

/-- The filter gets past the tick. -/
def Tick.readable (t : Tick) : Bool := t.round % nthTick ≠ 0 ∨ 8 ≤ t.randomness.length

/-- The values the filter gets to, without those that are known to come to nothing. -/
def usable (keep : UInt64 → Bool) (ts : List Tick) : List UInt64 :=
  (values (ts.takeWhile Tick.readable)).filter keep

theorem usable_cons (keep : UInt64 → Bool) {t : Tick} (ht : t.readable = true) (ts : List Tick) :
    usable keep (t :: ts) = t.value.toList.filter keep ++ usable keep ts := by
  cases hv : t.value with
  | none => simp [usable, values, ht, hv]
  | some v => by_cases hk : keep v = true <;> simp [usable, values, ht, hv, hk]

theorem usable_of_not_readable (keep : UInt64 → Bool) {t : Tick} (ht : t.readable = false)
    (ts : List Tick) : usable keep (t :: ts) = [] := by
  simp [usable, values, ht]

theorem usable_sublist_values (keep : UInt64 → Bool) (ts : List Tick) :
    (usable keep ts).Sublist (values ts) :=
  List.filter_sublist.trans ((List.takeWhile_sublist _).filterMap _)

theorem readable_of_uint64BE {t : Tick} {v : UInt64} (hv : uint64BE t.randomness = some v) :
    t.readable = true := by
  unfold uint64BE at hv
  split at hv
  · rename_i hlong
    simp [Tick.readable, hlong]
  · cases hv

theorem readable_of_value {t : Tick} {v : UInt64} (hv : t.value = some v) : t.readable = true := by
  unfold Tick.value at hv
  split at hv
  · cases hv
  · exact readable_of_uint64BE hv

/-- The value the elector has. -/
def Elector.values (keep : UInt64 → Bool) : Elector → List UInt64
  | .electing b => [b].filter keep
  | .sending b _ => [b]
  | .away | .waiting => []

namespace Pipeline

/-- The ticks that have not been looked at. -/
def held (s : Pipeline) : List Tick := s.filter.toList ++ (s.pump.toList ++ s.source)

/-- The values that have not been lost. -/
def flight (keep : UInt64 → Bool) (s : Pipeline) : List UInt64 :=
  s.started.map Prod.fst ++
    (s.watcher.toList.map Prod.fst ++ (s.elector.values keep ++ usable keep s.held))

variable {elect : UInt64 → Outcome Err String} {keep : UInt64 → Bool}

/-- All that a move can do. -/
inductive Does (elect : UInt64 → Outcome Err String) (s : Pipeline) : Turn → Pipeline → Prop where
  | ended (m : Turn) (h : s.crashed = true) : Does elect s m s
  | blocked (m : Turn) : Does elect s m s
  | watch (t : Tick) (ts : List Tick) (hpump : s.pump = none) (hsource : s.source = t :: ts) :
    Does elect s .watch { s with pump := some t, source := ts }
  | handOver (t : Tick) (hpump : s.pump = some t) (hfilter : s.filter = none) :
    Does elect s .handOver { s with pump := none, filter := some t }
  | drop (t : Tick) (hfilter : s.filter = some t) (hread : t.readable = true) :
    Does elect s .select { s with filter := none }
  | offer (t : Tick) (v : UInt64) (hfilter : s.filter = some t) (hv : t.value = some v)
    (hwaiting : s.elector = .waiting) :
    Does elect s .select { s with filter := none, elector := .electing v }
  | short (t : Tick) (hfilter : s.filter = some t) (hread : t.readable = false) :
    Does elect s .select { s with crashed := true }
  | park (haway : s.elector = .away) : Does elect s .park { s with elector := .waiting }
  | elected (b : UInt64) (p : String) (hb : s.elector = .electing b) (hp : elect b = .ok p) :
    Does elect s .elect { s with elector := .sending b p }
  | unelected (b : UInt64) (e : Err) (hb : s.elector = .electing b) (he : elect b = .err e) :
    Does elect s .elect { s with elector := .away }
  | noNodes (b : UInt64) (hb : s.elector = .electing b) (hpanic : elect b = .panic) :
    Does elect s .elect { s with crashed := true }
  | handProposer (b : UInt64) (p : String) (hb : s.elector = .sending b p)
    (hwatcher : s.watcher = none) :
    Does elect s .handProposer { s with elector := .away, watcher := some (b, p) }
  | start (x : UInt64 × String) (hwatcher : s.watcher = some x) :
    Does elect s .start { s with watcher := none, started := s.started ++ [x] }

theorem does_select {s : Pipeline} {t : Tick} (ht : s.filter = some t) :
    Does elect s .select (s.select t) := by
  unfold select
  split
  · rename_i hround
    exact .drop t ht (by simp [Tick.readable, hround])
  · rename_i hround
    split
    · rename_i hv
      have hshort : t.randomness.length < 8 := by simpa [uint64BE] using hv
      exact .short t ht (by simpa [Tick.readable, hshort] using hround)
    · rename_i v hv
      split
      · rename_i hwaiting
        exact .offer t v ht ((if_neg hround).trans hv) hwaiting
      · exact .drop t ht (readable_of_uint64BE hv)

theorem does_step (s : Pipeline) (m : Turn) : Does elect s m (s.step elect m) := by
  unfold step
  split
  · rename_i hcrashed
    exact .ended m hcrashed
  · cases m with
    | watch =>
      simp only
      split
      · rename_i t ts hpump hsource
        exact .watch t ts hpump hsource
      · exact .blocked _
    | handOver =>
      simp only
      split
      · rename_i t hpump hfilter
        exact .handOver t hpump hfilter
      · exact .blocked _
    | select =>
      simp only
      split
      · rename_i t ht
        exact does_select ht
      · exact .blocked _
    | park =>
      simp only
      split
      · rename_i haway
        exact .park haway
      · exact .blocked _
    | elect =>
      simp only
      split
      · rename_i b hb
        split
        · rename_i p hp
          exact .elected b p hb hp
        · rename_i e he
          exact .unelected b e hb he
        · rename_i hpanic
          exact .noNodes b hb hpanic
      · exact .blocked _
    | handProposer =>
      simp only
      split
      · rename_i b p hb hwatcher
        exact .handProposer b p hb hwatcher
      · exact .blocked _
    | start =>
      simp only
      split
      · rename_i x hwatcher
        exact .start x hwatcher
      · exact .blocked _

/-- **A move hands a value on or loses it.** -/
theorem Does.flight (hkeep : ∀ b p, elect b = .ok p → keep b = true) {s s' : Pipeline} {m : Turn}
    (h : Does elect s m s') : (s'.flight keep).Sublist (s.flight keep) := by
  cases h with
  | ended | blocked | short | noNodes => exact .refl _
  | watch t ts hpump hsource => simp [Pipeline.flight, held, hpump, hsource]
  | handOver t hpump hfilter => simp [Pipeline.flight, held, hpump, hfilter]
  | drop t hfilter hread =>
    simp only [Pipeline.flight, held, hfilter, Option.toList_some, List.singleton_append,
      usable_cons keep hread]
    refine .append (.refl _) (.append (.refl _) (.append (.refl _) ?_))
    exact List.sublist_append_right _ _
  | offer t v hfilter hv hwaiting =>
    simp [Pipeline.flight, held, Elector.values, hfilter, hwaiting, hv,
      usable_cons keep (readable_of_value hv)]
  | park haway => simp [Pipeline.flight, held, haway, Elector.values]
  | elected b p hb hp => simp [Pipeline.flight, held, hb, Elector.values, hkeep b p hp]
  | unelected b e hb he =>
    simp only [Pipeline.flight, held, hb, Elector.values]
    exact .append (.refl _) (.append (.refl _) (.append (List.nil_sublist _) (.refl _)))
  | handProposer b p hb hwatcher => simp [Pipeline.flight, held, hb, hwatcher, Elector.values]
  | start x hwatcher => simp [Pipeline.flight, held, hwatcher]

/-- The pipeline before the first tick. -/
def fresh (ticks : List Tick) : Pipeline := { source := ticks }

theorem started_sublist_flight (s : Pipeline) :
    (s.started.map Prod.fst).Sublist (s.flight keep) :=
  List.sublist_append_left _ _

/-- **Rounds are started for some of the ticks that are usable**, in their order and for none twice.
What a value elects may change from move to move. -/
theorem started_sublist (keep : UInt64 → Bool) (ticks : List Tick)
    (ms : List ((UInt64 → Outcome Err String) × Turn))
    (hkeep : ∀ m ∈ ms, ∀ b p, m.1 b = .ok p → keep b = true) :
    ((ms.foldl (fun s m => s.step m.1 m.2) (fresh ticks)).started.map Prod.fst).Sublist
      (usable keep ticks) := by
  suffices h : ∀ s : Pipeline,
      ((ms.foldl (fun s m => s.step m.1 m.2) s).flight keep).Sublist (s.flight keep) from
    (started_sublist_flight _).trans (h (fresh ticks))
  induction ms with
  | nil => exact fun s => .refl _
  | cons m ms ih =>
    obtain ⟨hm, hms⟩ := List.forall_mem_cons.mp hkeep
    exact fun s => (ih hms _).trans ((does_step s m.2).flight hm)

/-! ## Any of them -/

/-- The pipeline between two ticks, with the elector away. -/
def resting (ticks : List Tick) (started : List (UInt64 × String)) : Pipeline :=
  { source := ticks, started }

/-- A tick nobody waits for. -/
theorem run_skip {t : Tick} (ht : t.readable = true) (ticks : List Tick)
    (started : List (UInt64 × String)) :
    [.watch, .handOver, .select].foldl (step elect) (resting (t :: ticks) started) =
      resting ticks started := by
  by_cases hround : t.round % nthTick = 0
  · have hlong : 8 ≤ t.randomness.length := by simpa [Tick.readable, hround] using ht
    simp [step, resting, select, uint64BE, hlong, hround]
  · simp [step, resting, select, hround]

/-- A tick that counts, from the beacon to the round. -/
theorem run_use {t : Tick} {v : UInt64} (ht : t.value = some v) {p : String}
    (hp : elect v = .ok p) (ticks : List Tick) (started : List (UInt64 × String)) :
    [.park, .watch, .handOver, .select, .elect, .handProposer, .start].foldl (step elect)
      (resting (t :: ticks) started) = resting ticks (started ++ [(v, p)]) := by
  unfold Tick.value at ht
  split at ht
  · cases ht
  · rename_i hround
    simp [step, resting, select, hround, ht, hp]

/-- The values that elect somebody. -/
def elects (elect : UInt64 → Outcome Err String) (v : UInt64) : Bool := (elect v).isOk

theorem elects_iff {v : UInt64} : elects elect v = true ↔ ∃ p, elect v = .ok p := by
  unfold elects
  cases elect v <;> simp [Outcome.isOk]

/-- Some interleaving starts rounds for these. -/
theorem exists_run {ticks : List Tick} {used : List UInt64}
    (hused : used.Sublist (usable (elects elect) ticks)) (started : List (UInt64 × String)) :
    ∃ ms : List Turn, (ms.foldl (step elect) (resting ticks started)).started.map Prod.fst =
      started.map Prod.fst ++ used := by
  induction ticks generalizing used started with
  | nil =>
    obtain rfl := List.sublist_nil.mp hused
    exact ⟨[], (List.append_nil _).symm⟩
  | cons t ticks ih =>
    cases ht : t.readable with
    | false =>
      rw [usable_of_not_readable _ ht] at hused
      obtain rfl := List.sublist_nil.mp hused
      exact ⟨[], (List.append_nil _).symm⟩
    | true =>
      -- the tick is used, or skipped for the rest
      by_cases huse : ∃ v p rest, t.value = some v ∧ elect v = .ok p ∧ used = v :: rest ∧
          rest.Sublist (usable (elects elect) ticks)
      · obtain ⟨v, p, rest, hv, hp, rfl, hrest⟩ := huse
        obtain ⟨ms, hrun⟩ := ih hrest (started ++ [(v, p)])
        refine ⟨[.park, .watch, .handOver, .select, .elect, .handProposer, .start] ++ ms, ?_⟩
        rw [List.foldl_append, run_use hv hp, hrun]
        simp
      · have hskip : used.Sublist (usable (elects elect) ticks) := by
          rw [usable_cons _ ht] at hused
          cases hv : t.value with
          | none => simpa [hv] using hused
          | some v =>
            cases hp : elects elect v with
            | false => simpa [hv, hp] using hused
            | true =>
              obtain ⟨p, hp'⟩ := elects_iff.mp hp
              simp only [hv, Option.toList_some, List.filter_cons, hp, if_true, List.filter_nil,
                List.singleton_append] at hused
              cases hused with
              | cons _ hused => exact hused
              | cons_cons _ hused => exact absurd ⟨v, p, _, hv, hp', rfl, hused⟩ huse
        obtain ⟨ms, hrun⟩ := ih hskip started
        refine ⟨[.watch, .handOver, .select] ++ ms, ?_⟩
        rw [List.foldl_append, run_skip ht, hrun]

/-- **Any of them it may be.** Whatever the values elect, now and later, rounds are started for some
of the ticks that count, in their order and for none twice. Where a value elects the same all along,
the rounds that some interleaving starts are exactly the subsequences of the values that elect
somebody, of the ticks before the first one that counts and is too short. -/
theorem started_iff_sublist (ticks : List Tick) :
    (∀ ms : List ((UInt64 → Outcome Err String) × Turn),
      ((ms.foldl (fun s m => s.step m.1 m.2) (fresh ticks)).started.map Prod.fst).Sublist
        (Beacon.values ticks)) ∧
      ∀ (elect : UInt64 → Outcome Err String) (used : List UInt64),
        (∃ ms : List Turn, (ms.foldl (step elect) (fresh ticks)).started.map Prod.fst = used) ↔
          used.Sublist (usable (elects elect) ticks) := by
  refine ⟨fun ms => ?_, fun elect used => ⟨?_, fun hused => exists_run hused []⟩⟩
  · have hall := started_sublist (fun _ => true) ticks ms (fun _ _ _ _ _ => rfl)
    exact hall.trans (usable_sublist_values _ ticks)
  · rintro ⟨ms, rfl⟩
    have hkept := started_sublist (elects elect) ticks (ms.map fun m => (elect, m))
      (by simpa using fun _ _ b p hp => elects_iff.mpr ⟨p, hp⟩)
    rwa [List.foldl_map] at hkept

def tickOf (round : UInt64) (v : UInt8) : Tick := ⟨round, [0, 0, 0, 0, 0, 0, 0, v]⟩

/-- The later of two ticks may be the only one that is used, but they are never used the other way
round; and the last tick, after one that cannot be read, is out of reach. -/
theorem later_tick_only :
    (∃ ms : List Turn, (ms.foldl (step fun _ => .ok "p")
        (fresh [tickOf 10 1, tickOf 15 3, tickOf 20 2, ⟨30, []⟩, tickOf 40 4])).started.map
          Prod.fst = [2]) ∧
      (¬ ∃ ms : List Turn, (ms.foldl (step fun _ => .ok "p")
        (fresh [tickOf 10 1, tickOf 15 3, tickOf 20 2, ⟨30, []⟩, tickOf 40 4])).started.map
          Prod.fst = [2, 1]) ∧
      ¬ ∃ ms : List Turn, (ms.foldl (step fun _ => .ok "p")
        (fresh [tickOf 10 1, tickOf 15 3, tickOf 20 2, ⟨30, []⟩, tickOf 40 4])).started.map
          Prod.fst = [4] := by
  have hiff := (started_iff_sublist
    [tickOf 10 1, tickOf 15 3, tickOf 20 2, ⟨30, []⟩, tickOf 40 4]).2 fun _ => .ok "p"
  rw [hiff, hiff, hiff]
  decide

/-! ## What is in the pipeline -/

/-- The proposers on their way were elected. -/
structure Elected (P : UInt64 → String → Prop) (s : Pipeline) : Prop where
  sending : ∀ b p, s.elector = .sending b p → P b p
  watcher : ∀ b p, s.watcher = some (b, p) → P b p

theorem Does.elections {P : UInt64 → String → Prop} (helect : ∀ b p, elect b = .ok p → P b p)
    {s s' : Pipeline} {m : Turn} (h : Does elect s m s') (hs : s.Elected P) : s'.Elected P := by
  cases h with
  | ended | blocked | watch | handOver | drop | short | noNodes => exact ⟨hs.sending, hs.watcher⟩
  | offer | park | unelected => exact ⟨by simp, hs.watcher⟩
  | elected b p hb hp =>
    refine ⟨fun b' p' h => ?_, hs.watcher⟩
    obtain ⟨rfl, rfl⟩ := Elector.sending.inj h
    exact helect b p hp
  | handProposer b p hb hwatcher =>
    refine ⟨by simp, fun b' p' h => ?_⟩
    obtain ⟨rfl, rfl⟩ := Prod.mk.inj (Option.some.inj h)
    exact hs.sending b p hb
  | start x hwatcher => exact ⟨hs.sending, by simp⟩

theorem Does.held_subset {s s' : Pipeline} {m : Turn} (h : Does elect s m s') :
    s'.held ⊆ s.held := by
  cases h with
  | watch t ts hpump hsource => simp [held, hpump, hsource]
  | handOver t hpump hfilter => simp [held, hpump, hfilter]
  | drop t hfilter hread | offer t v hfilter hv hwaiting => simp [held, hfilter]
  | _ => exact List.Subset.refl _

/-- A goroutine panics in an election, or over a tick it cannot read. -/
theorem Does.crashed {s s' : Pipeline} {m : Turn} (h : Does elect s m s')
    (hs : s.crashed = false) (hs' : s'.crashed = true) :
    (∃ b, elect b = .panic) ∨ ∃ t ∈ s.held, t.readable = false := by
  cases h with
  | short t hfilter hread => exact .inr ⟨t, by simp [held, hfilter], hread⟩
  | noNodes b hb hpanic => exact .inl ⟨b, hpanic⟩
  | _ => exact absurd (hs.symm.trans hs') (by simp)

/-- Only a start adds to the rounds that were started. -/
theorem Does.started_eq {s s' : Pipeline} {m : Turn} (h : Does elect s m s')
    (hm : m ≠ .start ∨ s.watcher = none) : s'.started = s.started := by
  cases h with
  | start x hwatcher =>
    rcases hm with hm | hm
    · exact absurd rfl hm
    · exact absurd (hm.symm.trans hwatcher) (by simp)
  | _ => rfl

end Pipeline
end Beacon

/-! ## The engine -/

namespace Fed

open Beacon

section

variable {S M : Type} [Store S] [Validator S] [MemPool M] [CryptoLib] [CidText] [SigLib]

/-- What an event is to the engine. -/
def inputOf (t : Fed S M) : Event S → Option (Input S)
  | .input i => some i
  | .move m => (t.starting m).map fun x => .call (.beacon x.1)

/-- The inputs of the engine in a run. -/
def inputs : Fed S M → List (Env × Event S) → List (Env × Input S)
  | _, [] => []
  | t, e :: es =>
    (if t.engine.crashed then [] else (t.inputOf e.2).toList.map fun i => (e.1, i)) ++
      inputs (t.step e) es

/-- The beacon values among the inputs. -/
def beacons (is : List (Env × Input S)) : List UInt64 :=
  is.filterMap fun i =>
    match i.2 with
    | .call (.beacon b) => some b
    | _ => none

/-- The nodes are these, which is what elections depend on. -/
def KnowsNodes (nodes : List String) (t : Fed S M) : Prop := Store.nodes t.engine.store = .ok nodes

instance decidableKnowsNodes (nodes : List String) (t : Fed S M) :
    Decidable (t.KnowsNodes nodes) :=
  inferInstanceAs (Decidable (Store.nodes t.engine.store = .ok nodes))

/-- The node a value elects among these. -/
def pick (nodes : List String) (b : UInt64) : String := nodes.getD (b.toNat % nodes.length) ""

omit [Validator S] [MemPool M] [CryptoLib] [CidText] [SigLib] in
theorem KnowsNodes.elect {nodes : List String} {t : Fed S M} (h : t.KnowsNodes nodes)
    (b : UInt64) :
    Consensus.elect b t.engine.store = if nodes = [] then .panic else .ok (pick nodes b) := by
  unfold KnowsNodes at h
  cases nodes <;> simp [Consensus.elect, h, pick]

omit [Validator S] [SigLib] in
/-- A call is the election and a turn of `watchProposer`. -/
theorem run_onBeacon {c : Consensus S M} {b : UInt64} {p : String}
    (hp : Consensus.elect b c.store = .ok p) (ω : Env) :
    c.run (Consensus.onBeacon ω b) = c.run (Consensus.watchProposer ω p) := by
  simp only [Consensus.run, Consensus.onBeacon, Consensus.watchProposer, Proc.run_bind,
    Proc.run_get, Proc.run_lift, hp]

/-- What can make a goroutine of the beacon panic. -/
def Fatal (nodes : List String) (ticks : List Tick) : Prop :=
  nodes = [] ∨ ∃ k ∈ ticks, k.readable = false

/-- What the run of a node and its beacon keeps up. -/
structure Sound (nodes : List String) (ticks : List Tick) (t : Fed S M) : Prop where
  held : t.beacon.held ⊆ ticks
  elected : t.beacon.Elected fun b p => nodes ≠ [] ∧ p = pick nodes b
  crashed : t.beacon.crashed = true → t.engine.crashed = true ∧ Fatal nodes ticks

omit [Store S] [Validator S] [MemPool M] [CryptoLib] [CidText] [SigLib] in
theorem Sound.alive {nodes : List String} {ticks : List Tick} {t : Fed S M}
    (ht : t.Sound nodes ticks) (hcrashed : t.engine.crashed = false) : t.beacon.crashed = false :=
  Bool.eq_false_iff.mpr fun h => by simp [(ht.crashed h).1] at hcrashed

omit [Validator S] [MemPool M] [CryptoLib] [CidText] [SigLib] in
theorem Sound.move {nodes : List String} {ticks : List Tick} {t : Fed S M}
    (ht : t.Sound nodes ticks) (hnodes : t.KnowsNodes nodes) (hcrashed : t.engine.crashed = false)
    {m : Turn} {beacon : Pipeline} {engine : Consensus S M}
    (h : Pipeline.Does (fun b => Consensus.elect b t.engine.store) t.beacon m beacon)
    (hengine : beacon.crashed = true → engine.crashed = true) :
    Sound nodes ticks { engine, beacon } where
  held k hk := ht.held (h.held_subset hk)
  elected := by
    refine h.elections (fun b p hp => ?_) ht.elected
    rw [hnodes.elect b] at hp
    split at hp
    · cases hp
    · rename_i hsome
      exact ⟨hsome, (Outcome.ok.inj hp).symm⟩
  crashed hbeacon := by
    refine ⟨hengine hbeacon, ?_⟩
    rcases h.crashed (ht.alive hcrashed) hbeacon with ⟨b, hpanic⟩ | ⟨k, hk, hread⟩
    · rw [hnodes.elect b] at hpanic
      split at hpanic
      · rename_i hnone
        exact .inl hnone
      · cases hpanic
    · exact .inr ⟨k, ht.held hk, hread⟩

/-- The engine, or what a panic of the beacon leaves of it. -/
def orCrashed (crashed : Bool) (c : Consensus S M) : Consensus S M :=
  if crashed then c.crash else c

/-- **One step**, of which the engine sees its input, if it has one. -/
theorem step_sound {nodes : List String} {ticks : List Tick} {t : Fed S M}
    (ht : t.Sound nodes ticks) (hnodes : t.KnowsNodes nodes) (hcrashed : t.engine.crashed = false)
    (ω : Env) (e : Event S) :
    (t.step (ω, e)).Sound nodes ticks ∧
      (t.step (ω, e)).engine = orCrashed (t.step (ω, e)).beacon.crashed
        (((t.inputOf e).toList.map fun i => (ω, i)).foldl Consensus.step t.engine) := by
  have halive := ht.alive hcrashed
  cases e with
  | input i =>
    simp only [step, hcrashed, inputOf, halive, orCrashed, Bool.false_eq_true, if_false]
    exact ⟨⟨ht.held, ht.elected, by simp [halive]⟩, rfl⟩
  | move m =>
    have hdoes : Pipeline.Does (fun b => Consensus.elect b t.engine.store) t.beacon m _ :=
      Pipeline.does_step t.beacon m
    cases hstarting : t.starting m with
    | none =>
      simp only [step, hcrashed, hstarting, inputOf]
      exact ⟨ht.move hnodes hcrashed hdoes fun h => by simp [h, Consensus.crash], rfl⟩
    | some x =>
      obtain ⟨b, p⟩ := x
      obtain rfl : m = .start := by
        cases m with
        | start => rfl
        | _ => cases hstarting
      have hwatcher : t.beacon.watcher = some (b, p) := hstarting
      obtain ⟨hsome, rfl⟩ := ht.elected.watcher b p hwatcher
      have hbeacon : (t.beacon.step (fun b => Consensus.elect b t.engine.store) .start).crashed =
          false := by simp [Pipeline.step, halive, hwatcher]
      simp only [step, hcrashed, hstarting, inputOf, hbeacon, orCrashed, Bool.false_eq_true,
        if_false]
      refine ⟨ht.move hnodes hcrashed hdoes fun h => ?_, ?_⟩
      · exact absurd (hbeacon.symm.trans h) (by simp)
      · simp [Consensus.step, hcrashed, Consensus.exec]
        exact (run_onBeacon ((hnodes.elect b).trans (if_neg hsome)) ω).symm

/-- Nothing happens to a node that has crashed. -/
theorem foldl_crashed {t : Fed S M} (h : t.engine.crashed = true) (es : List (Env × Event S)) :
    es.foldl step t = t ∧ t.inputs es = [] := by
  induction es with
  | nil => exact ⟨rfl, rfl⟩
  | cons e es ih =>
    have hstay : t.step e = t := if_pos h
    exact ⟨by rw [List.foldl_cons, hstay, ih.1], by simp [inputs, h, hstay, ih.2]⟩

/-- What an event adds to the rounds that were started is the beacon call it is. -/
theorem started_step {t : Fed S M}
    (halive : t.beacon.crashed = false) (hcrashed : t.engine.crashed = false) (ω : Env)
    {e : Event S} (hown : ∀ b, e ≠ .input (.call (.beacon b))) :
    (t.step (ω, e)).beacon.started.map Prod.fst =
      t.beacon.started.map Prod.fst ++ beacons ((t.inputOf e).toList.map fun i => (ω, i)) := by
  cases e with
  | input i =>
    have hnone : beacons [(ω, i)] = [] := by
      cases i with
      | call k =>
        cases k with
        | beacon b => exact absurd rfl (hown b)
        | _ => rfl
      | _ => rfl
    simp [step, hcrashed, inputOf, hnone]
  | move m =>
    cases hstarting : t.starting m with
    | none =>
      have hm : m ≠ .start ∨ t.beacon.watcher = none := by
        cases m with
        | start => exact .inr hstarting
        | _ => exact .inl (by simp)
      have hdoes : Pipeline.Does (fun b => Consensus.elect b t.engine.store) t.beacon m _ :=
        Pipeline.does_step t.beacon m
      have hsame := hdoes.started_eq hm
      simp [step, hcrashed, hstarting, inputOf, hsame, beacons]
    | some x =>
      obtain rfl : m = .start := by
        cases m with
        | start => rfl
        | _ => cases hstarting
      have hwatcher : t.beacon.watcher = some x := hstarting
      simp [step, hcrashed, hstarting, inputOf, beacons, Pipeline.step, halive, hwatcher]

theorem flight_step {t : Fed S M} (e : Env × Event S) :
    ((t.step e).beacon.flight fun _ => true).Sublist (t.beacon.flight fun _ => true) := by
  obtain ⟨ω, e⟩ := e
  unfold step
  split
  · exact .refl _
  · cases e with
    | input i => exact .refl _
    | move m =>
      have hdoes : Pipeline.Does (fun b => Consensus.elect b t.engine.store) t.beacon m _ :=
        Pipeline.does_step t.beacon m
      have hflight := hdoes.flight (fun (_ : UInt64) (_ : String) _ => rfl)
      cases hstarting : t.starting m with
      | none => simpa only [hstarting] using hflight
      | some x => simpa only [hstarting] using hflight

/-- **The run**, step by step. -/
theorem foldl_sound {nodes : List String} {ticks : List Tick} (es : List (Env × Event S))
    (hown : ∀ e ∈ es, ∀ b, e.2 ≠ .input (.call (.beacon b))) {t : Fed S M}
    (ht : t.Sound nodes ticks) (hnodes : Along step (fun t _ => t.KnowsNodes nodes) t es) :
    (es.foldl step t).Sound nodes ticks ∧
      (es.foldl step t).engine = orCrashed (es.foldl step t).beacon.crashed
        ((t.inputs es).foldl Consensus.step t.engine) ∧
      (t.beacon.started.map Prod.fst ++ beacons (t.inputs es)).Sublist
        (t.beacon.flight fun _ => true) := by
  induction es generalizing t with
  | nil =>
    refine ⟨ht, ?_, by simpa [inputs, beacons] using t.beacon.started_sublist_flight⟩
    cases hbeacon : t.beacon.crashed with
    | false => simp [orCrashed, inputs, hbeacon]
    | true => simp [orCrashed, inputs, hbeacon, Consensus.crash, ← (ht.crashed hbeacon).1]
  | cons e es ih =>
    obtain ⟨hknows, hnodes⟩ := hnodes
    obtain ⟨he, hes⟩ := List.forall_mem_cons.mp hown
    cases hcrashed : t.engine.crashed with
    | true =>
      have hstay : t.step e = t := if_pos hcrashed
      rw [hstay] at hnodes
      simpa [inputs, hcrashed, hstay] using ih hes ht hnodes
    | false =>
      obtain ⟨ω, e⟩ := e
      obtain ⟨hsound, hengine⟩ := step_sound ht hknows hcrashed ω e
      obtain ⟨hend, hrun, hsub⟩ := ih hes hsound hnodes
      rw [started_step (ht.alive hcrashed) hcrashed ω he] at hsub
      refine ⟨hend, ?_, ?_⟩
      · simp only [List.foldl_cons, inputs, hcrashed, Bool.false_eq_true, if_false,
          List.foldl_append]
        cases hbeacon : (t.step (ω, e)).beacon.crashed with
        | false => rw [hrun, hengine, hbeacon]; rfl
        | true =>
          -- the beacon has just panicked, and what is left of the run does nothing
          obtain ⟨hstop, hnone⟩ := foldl_crashed (hsound.crashed hbeacon).1 es
          rw [hstop, hnone, hbeacon, hengine, hbeacon]
          rfl
      · refine List.Sublist.trans ?_ (hsub.trans (flight_step (ω, e)))
        simp [inputs, hcrashed, beacons]

/-- **A node with its beacon is a node that is called for some of the ticks.** Let the node table
stay the same. Whatever the node receives meanwhile, and however the goroutines between the beacon
and the engine are scheduled: the engine is where its inputs take it, crashed there if a goroutine
of the beacon has panicked. Of the inputs the beacon calls have the values of ticks that count, in
their order and none twice. And such a panic takes an empty node table, or a tick that counts and is
too short. -/
theorem fed_refines {nodes : List String} (c : Consensus S M) (ticks : List Tick)
    (es : List (Env × Event S)) (hown : ∀ e ∈ es, ∀ b, e.2 ≠ .input (.call (.beacon b)))
    (hnodes : Along step (fun t _ => t.KnowsNodes nodes) ⟨c, .fresh ticks⟩ es) :
    (es.foldl step ⟨c, .fresh ticks⟩).engine =
        orCrashed (es.foldl step ⟨c, .fresh ticks⟩).beacon.crashed
          ((inputs ⟨c, .fresh ticks⟩ es).foldl Consensus.step c) ∧
      (beacons (inputs ⟨c, .fresh ticks⟩ es)).Sublist (Beacon.values ticks) ∧
      ((es.foldl step ⟨c, .fresh ticks⟩).beacon.crashed = true →
        nodes = [] ∨ ∃ k ∈ ticks, k.readable = false) := by
  have hfresh : Sound nodes ticks ⟨c, .fresh ticks⟩ :=
    ⟨List.Subset.refl _, ⟨by simp [Pipeline.fresh], by simp [Pipeline.fresh]⟩,
      by simp [Pipeline.fresh]⟩
  obtain ⟨hsound, hengine, hsub⟩ := foldl_sound es hown hfresh hnodes
  exact ⟨hengine, hsub.trans (usable_sublist_values _ ticks), fun h => (hsound.crashed h).2⟩

end

section

open Storage.Sample Didem.Sample

/-- A tick goes through, with a proposal of its proposer in between. -/
def tickRun : List (Env × Event MemStore) :=
  [.move .watch, .move .park, .move .handOver, .move .select, .move .elect,
    .input (.recv (proposal "p" 1 1 "b")), .move .handProposer, .move .start].map fun e => (env, e)

/-- A tick that cannot be read. -/
def shortRun : List (Env × Event MemStore) :=
  [.move .watch, .move .handOver, .move .select].map fun e => (env, e)

/-- The node `a` is called for the one, and crashes over the other. -/
theorem tickRun_calls :
    ((tickRun.foldl step ⟨node "a", .fresh [Pipeline.tickOf 10 2]⟩).engine =
        orCrashed false
          ((inputs ⟨node "a", .fresh [Pipeline.tickOf 10 2]⟩ tickRun).foldl Consensus.step
            (node "a")) ∧
      beacons (inputs ⟨node "a", .fresh [Pipeline.tickOf 10 2]⟩ tickRun) = [2]) ∧
      (shortRun.foldl step ⟨node "a", .fresh [⟨10, []⟩]⟩).engine = (node "a").crash := by
  have htick := fed_refines (node "a") [Pipeline.tickOf 10 2] tickRun (by simp [tickRun])
    (show Along step (fun t _ => t.KnowsNodes ["a", "b", "p"]) _ _ by decide +kernel)
  have hshort := fed_refines (node "a") [⟨10, []⟩] shortRun (by simp [shortRun])
    (show Along step (fun t _ => t.KnowsNodes ["a", "b", "p"]) _ _ by decide +kernel)
  refine ⟨⟨?_, by decide +kernel⟩, hshort.1⟩
  rw [htick.1]
  congr 1

end
end Fed
end Didem
