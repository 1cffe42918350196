import Didem.Lib.Threads

/-!
# Worker pools

Jobs are put on a buffered channel by a feeder; workers take them off, and record what each job
answers under a lock. A wait group counts the jobs that are not done. Some goroutine waits for it,
and then tells the caller, which sits in a `select`.

There are three things about which such a pool can differ, and the third decides whether it works:

* who waits: the feeder itself, which then closes the channel, or a goroutine of its own, with the
  channel closed when the call returns (`feederWaits`);
* whether the caller also gives up when a context expires (`expires`);
* **what a worker does about a job that fails** (`onError`): it goes on without telling the wait
  group, or it tells the wait group and then sends the error on a channel nobody can receive from.

`Move` is what one step can do, one constructor for each way a goroutine has to go on.
-/

set_option autoImplicit false

namespace Didem.Lib.WorkerPool

open Conf

/-- What a worker does about a job that fails. -/
inductive OnError where
  /-- Goes on to the next job; the wait group is not told. -/
  | skip
  /-- Tells the wait group, and then sends on a nil channel, which blocks for ever. -/
  | halt
  deriving DecidableEq, Repr

structure Plan (α β γ : Type*) where
  work : α → Option β
  /-- The jobs over which a worker panics. -/
  panics : α → Bool := fun _ => false
  record : β → γ → γ
  onError : OnError
  feederWaits : Bool
  expires : Bool

/-- Where a goroutine is. -/
inductive Place (α β : Type*) where
  /-- The feeder, with what it has yet to send. -/
  | feeding (rest : List α)
  | fed
  /-- A worker that receives. -/
  | idle
  | working (a : α)
  | recording (b : β)
  /-- Before `wg.Done()`, with the answer recorded. -/
  | finishing
  /-- Before `wg.Done()`, with an error to be sent. -/
  | failing
  | blocked
  | exited
  /-- In `wg.Wait()`. -/
  | waiting
  | closing
  /-- Before the send to the caller. -/
  | reporting
  | reported
  | caller
  deriving DecidableEq, Repr

/-- The caller: in its `select`, told that the jobs are done, or back with a result; without one if
the context expired. -/
inductive Caller (γ : Type*) where
  | selecting
  | told
  | returned (result : Option γ)
  deriving DecidableEq, Repr

structure Shared (α γ : Type*) where
  queue : List α := []
  capacity : Nat
  closed : Bool := false
  /-- The counter of the wait group. -/
  group : Nat
  result : γ
  caller : Caller γ := .selecting
  /-- A send on a closed channel, a negative counter, or a job that panics. -/
  crashed : Bool := false
  deriving DecidableEq, Repr

variable {α β γ : Type*}

/-- `wg.Done()`. -/
def Shared.done (s : Shared α γ) (l : Place α β) : List (Shared α γ × Place α β) :=
  match s.group with
  | 0 => [({ s with crashed := true }, l)]
  | n + 1 => [({ s with group := n }, l)]

/-- What a goroutine does at its place. -/
def act (p : Plan α β γ) (s : Shared α γ) : Place α β → List (Shared α γ × Place α β)
  | .feeding [] => [(s, if p.feederWaits then .waiting else .fed)]
  | .feeding (a :: rest) =>
    if s.closed then [({ s with crashed := true }, .fed)]
    else if s.queue.length < s.capacity then
      [({ s with queue := s.queue ++ [a] }, .feeding rest)]
    else []
  | .idle =>
    match s.queue with
    | a :: queue => [({ s with queue := queue }, .working a)]
    | [] => if s.closed then [(s, .exited)] else []
  | .working a =>
    if p.panics a then [({ s with crashed := true }, .idle)]
    else
      match p.work a, p.onError with
      | some b, _ => [(s, .recording b)]
      | none, .skip => [(s, .idle)]
      | none, .halt => [(s, .failing)]
  | .recording b => [({ s with result := p.record b s.result }, .finishing)]
  | .finishing => s.done .idle
  | .failing => s.done .blocked
  | .waiting =>
    if s.group = 0 then [(s, if p.feederWaits then .closing else .reporting)] else []
  | .closing => [({ s with closed := true }, .reporting)]
  | .reporting =>
    match s.caller with
    | .selecting => [({ s with caller := .told }, .reported)]
    | _ => []
  | .caller =>
    match s.caller with
    | .selecting =>
      if p.expires then
        [({ s with caller := .returned none, closed := s.closed || !p.feederWaits }, .caller)]
      else []
    | .told =>
      [({ s with caller := .returned (some s.result), closed := s.closed || !p.feederWaits },
        .caller)]
    | .returned _ => []
  | .fed | .blocked | .exited | .reported => []

/-- What a goroutine can do next; a panic ends the others too. -/
def next (p : Plan α β γ) (s : Shared α γ) (l : Place α β) : List (Shared α γ × Place α β) :=
  if s.crashed then [] else act p s l

/-- The goroutines of a call with this many workers. -/
def start (p : Plan α β γ) (workers : Nat) (jobs : List α) (result : γ) :
    Conf (Shared α γ) (Place α β) where
  shared := { capacity := jobs.length, group := jobs.length, result := result }
  threads := .caller :: .feeding jobs ::
    ((if p.feederWaits then [] else [.waiting]) ++ List.replicate workers .idle)

/-! ## Steps -/

/-- Everything a goroutine can do, one rule a step. -/
inductive Move (p : Plan α β γ) (s : Shared α γ) :
    Place α β → Shared α γ → Place α β → Prop where
  | feed (a : α) (rest : List α) (hroom : s.queue.length < s.capacity) :
    Move p s (.feeding (a :: rest)) { s with queue := s.queue ++ [a] } (.feeding rest)
  | sendClosed (a : α) (rest : List α) (hclosed : s.closed = true) :
    Move p s (.feeding (a :: rest)) { s with crashed := true } .fed
  | fed (hp : p.feederWaits = false) : Move p s (.feeding []) s .fed
  | fedWaits (hp : p.feederWaits = true) : Move p s (.feeding []) s .waiting
  | take (a : α) (queue : List α) (hq : s.queue = a :: queue) :
    Move p s .idle { s with queue := queue } (.working a)
  | exit (hq : s.queue = []) (hclosed : s.closed = true) : Move p s .idle s .exited
  | blow (a : α) (hw : p.panics a = true) :
    Move p s (.working a) { s with crashed := true } .idle
  | answer (a : α) (b : β) (hw : p.work a = some b) : Move p s (.working a) s (.recording b)
  | skip (a : α) (hw : p.work a = none) (hp : p.onError = .skip) : Move p s (.working a) s .idle
  | fail (a : α) (hw : p.work a = none) (hp : p.onError = .halt) :
    Move p s (.working a) s .failing
  | record (b : β) :
    Move p s (.recording b) { s with result := p.record b s.result } .finishing
  | finish (n : Nat) (hn : s.group = n + 1) : Move p s .finishing { s with group := n } .idle
  | finishLate (hn : s.group = 0) : Move p s .finishing { s with crashed := true } .idle
  | giveUp (n : Nat) (hn : s.group = n + 1) : Move p s .failing { s with group := n } .blocked
  | giveUpLate (hn : s.group = 0) : Move p s .failing { s with crashed := true } .blocked
  | wait (hn : s.group = 0) (hp : p.feederWaits = false) : Move p s .waiting s .reporting
  | waitClose (hn : s.group = 0) (hp : p.feederWaits = true) : Move p s .waiting s .closing
  | close : Move p s .closing { s with closed := true } .reporting
  | report (hc : s.caller = .selecting) :
    Move p s .reporting { s with caller := .told } .reported
  | ret (hc : s.caller = .told) :
    Move p s .caller
      { s with caller := .returned (some s.result), closed := s.closed || !p.feederWaits } .caller
  | expire (hc : s.caller = .selecting) (hp : p.expires = true) :
    Move p s .caller
      { s with caller := .returned none, closed := s.closed || !p.feederWaits } .caller

theorem move_of_mem_act {p : Plan α β γ} {s s' : Shared α γ} {l l' : Place α β}
    (h : (s', l') ∈ act p s l) : Move p s l s' l' := by
  cases l with
  | feeding rest =>
    cases rest with
    | nil =>
      cases hp : p.feederWaits <;> simp only [act, hp, List.mem_singleton, Prod.mk.injEq] at h <;>
        obtain ⟨rfl, rfl⟩ := h
      · exact .fed hp
      · exact .fedWaits hp
    | cons a rest =>
      simp only [act] at h
      split at h
      · next hclosed =>
        obtain ⟨rfl, rfl⟩ := Prod.mk.inj (List.mem_singleton.mp h)
        exact .sendClosed a rest hclosed
      · split at h
        · next hroom =>
          obtain ⟨rfl, rfl⟩ := Prod.mk.inj (List.mem_singleton.mp h)
          exact .feed a rest hroom
        · exact absurd h List.not_mem_nil
  | idle =>
    simp only [act] at h
    split at h
    · next a queue hq =>
      obtain ⟨rfl, rfl⟩ := Prod.mk.inj (List.mem_singleton.mp h)
      exact .take a queue hq
    · next hq =>
      split at h
      · next hclosed =>
        obtain ⟨rfl, rfl⟩ := Prod.mk.inj (List.mem_singleton.mp h)
        exact .exit hq hclosed
      · exact absurd h List.not_mem_nil
  | working a =>
    simp only [act] at h
    split at h
    · next hw =>
      obtain ⟨rfl, rfl⟩ := Prod.mk.inj (List.mem_singleton.mp h)
      exact .blow a hw
    · split at h <;> obtain ⟨rfl, rfl⟩ := Prod.mk.inj (List.mem_singleton.mp h)
      · next b hw => exact .answer a b hw
      · next hw hp => exact .skip a hw hp
      · next hw hp => exact .fail a hw hp
  | recording b =>
    obtain ⟨rfl, rfl⟩ := Prod.mk.inj (List.mem_singleton.mp h)
    exact .record b
  | finishing =>
    simp only [act, Shared.done] at h
    split at h <;> obtain ⟨rfl, rfl⟩ := Prod.mk.inj (List.mem_singleton.mp h)
    · next hn => exact .finishLate hn
    · next n hn => exact .finish n hn
  | failing =>
    simp only [act, Shared.done] at h
    split at h <;> obtain ⟨rfl, rfl⟩ := Prod.mk.inj (List.mem_singleton.mp h)
    · next hn => exact .giveUpLate hn
    · next n hn => exact .giveUp n hn
  | waiting =>
    simp only [act] at h
    split at h
    · next hn =>
      cases hp : p.feederWaits <;> simp only [hp, List.mem_singleton, Prod.mk.injEq] at h <;>
        obtain ⟨rfl, rfl⟩ := h
      · exact .wait hn hp
      · exact .waitClose hn hp
    · exact absurd h List.not_mem_nil
  | closing =>
    obtain ⟨rfl, rfl⟩ := Prod.mk.inj (List.mem_singleton.mp h)
    exact .close
  | reporting =>
    simp only [act] at h
    split at h
    · next hc =>
      obtain ⟨rfl, rfl⟩ := Prod.mk.inj (List.mem_singleton.mp h)
      exact .report hc
    · exact absurd h List.not_mem_nil
  | caller =>
    simp only [act] at h
    split at h
    · next hc =>
      split at h
      · next hp =>
        obtain ⟨rfl, rfl⟩ := Prod.mk.inj (List.mem_singleton.mp h)
        exact .expire hc hp
      · exact absurd h List.not_mem_nil
    · next hc =>
      obtain ⟨rfl, rfl⟩ := Prod.mk.inj (List.mem_singleton.mp h)
      exact .ret hc
    · exact absurd h List.not_mem_nil
  | fed => exact absurd h List.not_mem_nil
  | blocked => exact absurd h List.not_mem_nil
  | exited => exact absurd h List.not_mem_nil
  | reported => exact absurd h List.not_mem_nil

theorem move_of_mem {p : Plan α β γ} {s s' : Shared α γ} {l l' : Place α β}
    (h : (s', l') ∈ next p s l) : Move p s l s' l' := by
  unfold next at h
  split at h
  · exact absurd h List.not_mem_nil
  · exact move_of_mem_act h

end Didem.Lib.WorkerPool
