import Didem.Consensus.Timers
import Didem.Lib.Run
import Didem.Lib.Tracks

/-!
# The timers take nothing away

The engine with its timers does to the engine what the engine without them does: each handler
`Tracks` the one of `Handlers`. So a run of a node with its timers is a run of the node in which
timeouts come whenever they please (`timed_refines`), and whatever holds in every run of that one holds
here. What is gained in the other direction, that timeouts do **not** come whenever they please, is
the subject of `Watchdog`.
-/

set_option autoImplicit false

namespace Didem.Timed

open Lib Storage

variable {S M : Type}

theorem tracks_onEngine {α : Type} (p : Engine S M α) :
    Proc.Tracks (engine : Timed S M → Consensus S M) (onEngine p) p := .on (fun _ _ => rfl) p

theorem skips_stopTimer (n : TimerName) :
    Proc.Skips (engine : Timed S M → Consensus S M) (stopTimer n : TimedEngine S M Unit) :=
  .modify fun _ => rfl

theorem skips_restartTimer (n : TimerName) :
    Proc.Skips (engine : Timed S M → Consensus S M) (restartTimer n : TimedEngine S M Unit) :=
  (skips_stopTimer n).bind (.modify fun _ => rfl)

theorem skips_restartIf (b : Bool) (n : TimerName) :
    Proc.Skips (engine : Timed S M → Consensus S M) (restartIf b n : TimedEngine S M Unit) := by
  cases b with
  | false => exact fun _ => ⟨rfl, rfl⟩
  | true => exact skips_restartTimer n

/-! ## The handlers -/

section Handlers

theorem tracks_startRound [Store S] [MemPool M] [CryptoLib] [CidText] (ω : Env) (inc : Bool) :
    Proc.Tracks (engine (S := S) (M := M)) (startRound ω inc) (Consensus.startRound ω inc) := by
  refine .bind (tracks_onEngine _) fun _ => .get_bind fun t => .ite _ ?_ ?_
  · exact .skip (skips_restartTimer .prevote) (tracks_onEngine _)
  · exact .of_skips (skips_restartTimer .propose)

theorem tracks_onBeacon [Store S] [MemPool M] [CryptoLib] [CidText] (ω : Env) (b : UInt64) :
    Proc.Tracks (engine (S := S) (M := M)) (onBeacon ω b) (Consensus.onBeacon ω b) :=
  .get_bind fun _ => .bind (.lift _) fun _ => .bind (tracks_onEngine _) fun _ =>
    tracks_startRound ω false

theorem tracks_onNewRound (msg : Option ConsensusMsgNewRound) (sender : String) :
    Proc.Tracks (engine (S := S) (M := M)) (onNewRound msg sender)
      (Consensus.onNewRound msg sender) := by
  refine .get_bind fun t => .ite _ (.pure ()) ?_
  cases msg with
  | none => exact .lift _
  | some msg => exact (tracks_onEngine _).then_skip (skips_restartTimer .propose)

theorem tracks_prevoteFor [CryptoLib] [CidText] (ω : Env) (bc : Cid) (value : String) :
    Proc.Tracks (engine (S := S) (M := M)) (prevoteFor ω bc value)
      (Consensus.prevoteFor ω bc value) :=
  .bind (tracks_onEngine _) fun _ => .skip (skips_stopTimer .propose) <|
    .bind (tracks_onEngine _) fun _ => .skip (skips_restartTimer .prevote) (tracks_onEngine _)

theorem tracks_onProposal [Store S] [Validator S] [CryptoLib] [CidText] (ω : Env)
    (msg : Option ConsensusMsgProposal) (sender : String) :
    Proc.Tracks (engine (S := S) (M := M)) (onProposal ω msg sender)
      (Consensus.onProposal ω msg sender) := by
  refine .get_bind fun t => .ite _ (.pure ()) ?_
  cases msg with
  | none => exact .lift _
  | some msg =>
    refine .bind ((tracks_onEngine _).orElse Cid.undef) fun bc => .ite _ (.pure ()) ?_
    exact (tracks_prevoteFor ω bc msg.blockID).logged

theorem tracks_onPreVote [CryptoLib] [CidText] (ω : Env) (msg : Msg) :
    Proc.Tracks (engine (S := S) (M := M)) (onPreVote ω msg) (Consensus.onPreVote ω msg) := by
  refine .get_bind fun t => .ite _ (.pure ()) (.skip (skips_restartIf _ _) ?_)
  cases t.engine.propsalState.preVotes with
  | none => exact .lift _
  | some book =>
    refine .bind (tracks_onEngine _) fun _ => .ite _ ?_ (.pure ())
    refine .skip (skips_stopTimer .prevote) (.bind (tracks_onEngine _) fun _ => ?_)
    exact ((tracks_onEngine _).then_skip (skips_restartTimer .precommit)).logged

theorem tracks_onPreCommit (msg : Msg) :
    Proc.Tracks (engine (S := S) (M := M)) (onPreCommit msg) (Consensus.onPreCommit msg) := by
  refine .get_bind fun t => .ite _ (.pure ()) (.skip (skips_restartIf _ _) ?_)
  cases t.engine.propsalState.preCommits with
  | none => exact .lift _
  | some book =>
    refine .bind (tracks_onEngine _) fun _ => .ite _ ?_ (.pure ())
    refine .skip (skips_stopTimer .precommit) ?_
    exact (tracks_onEngine _).then_skip (skips_restartIf _ .block)

theorem tracks_onVote [CryptoLib] [CidText] (ω : Env) (msg : Msg) (sender : String) :
    Proc.Tracks (engine (S := S) (M := M)) (onVote ω msg sender)
      (Consensus.onVote ω msg sender) := by
  refine .get_bind fun t => ?_
  cases msg.consensus with
  | none => exact .lift _
  | some consensus =>
    refine .ite _ (.pure ()) ?_
    cases consensus.vote with
    | none => exact .lift _
    | some vote =>
      refine .ite _ (.pure ()) (.bind ?_ fun _ => .ite _ (tracks_onEngine _).logged (.pure ()))
      cases vote.type with
      | preVote => exact tracks_onPreVote ω msg
      | preCommit => exact tracks_onPreCommit msg
      | other n => exact .pure ()

theorem tracks_commit [Store S] (ω : Env) :
    Proc.Tracks (engine (S := S) (M := M)) (commit ω) (Consensus.commit ω) :=
  .get_bind fun _ => .bind (tracks_onEngine _) fun _ => .skip (skips_stopTimer .block) <|
    .bind (tracks_onEngine _) fun _ => tracks_onEngine _

theorem tracks_onBlock [Store S] [CidText] (ω : Env) (msg : Option ConsensusMsgBlock)
    (sender : String) :
    Proc.Tracks (engine (S := S) (M := M)) (onBlock ω msg sender)
      (Consensus.onBlock ω msg sender) := by
  refine .get_bind fun t => .ite _ (.pure ()) ?_
  cases msg with
  | none => exact .lift _
  | some msg => exact .ite _ (.pure ()) (tracks_commit ω)

theorem tracks_onGracePeriod [Store S] [CryptoLib] [CidText] [SigLib] (ω : Env) :
    Proc.Tracks (engine (S := S) (M := M)) (onGracePeriod ω) (Consensus.onGracePeriod ω) := by
  refine .get_bind fun t => .ite _ (.pure ()) (.bind (tracks_onEngine _) fun _ => ?_)
  exact (Proc.Tracks.bind (tracks_onEngine _) fun msg => tracks_onBlock ω (some msg) _).logged

theorem tracks_onTimeoutProposal [CryptoLib] (ω : Env) :
    Proc.Tracks (engine (S := S) (M := M)) (onTimeoutProposal ω)
      (Consensus.onTimeoutProposal ω) := by
  refine .get_bind fun t => .ite _ (.pure ()) (.bind (tracks_onEngine _) fun _ => ?_)
  refine .ite _ (.pure ()) (.bind (tracks_onEngine _) fun _ => ?_)
  exact (tracks_onEngine _).then_skip (skips_restartTimer .prevote)

theorem tracks_onTimeoutPrevote [CryptoLib] (ω : Env) :
    Proc.Tracks (engine (S := S) (M := M)) (onTimeoutPrevote ω) (Consensus.onTimeoutPrevote ω) := by
  refine .get_bind fun t => .ite _ (.pure ()) (.bind (tracks_onEngine _) fun _ => ?_)
  refine .ite _ (.pure ()) (.bind (tracks_onEngine _) fun _ => ?_)
  exact (tracks_onEngine _).then_skip (skips_restartTimer .precommit)

/-- **Every handler does to the engine what it does without its timers.** -/
theorem tracks_exec [Store S] [Validator S] [MemPool M] [CryptoLib] [CidText] [SigLib] (ω : Env)
    (k : Call) :
    Proc.Tracks (engine (S := S) (M := M)) (exec ω k) (Consensus.exec ω k) := by
  cases k with
  | beacon b => exact tracks_onBeacon ω b
  | newRound msg sender => exact tracks_onNewRound msg sender
  | proposal msg sender => exact tracks_onProposal ω msg sender
  | vote msg sender => exact tracks_onVote ω msg sender
  | block msg sender => exact tracks_onBlock ω msg sender
  | evidence msg sender => exact tracks_onEngine _
  | tx msg => exact tracks_onEngine _
  | gracePeriod => exact tracks_onGracePeriod ω
  | timeoutProposal => exact tracks_onTimeoutProposal ω
  | timeoutPrevote => exact tracks_onTimeoutPrevote ω
  | timeoutPrecommit => exact tracks_startRound ω true
  | timeoutBlock => exact tracks_onEngine _

end Handlers

/-! ## Runs -/

section Runs

theorem engine_run_of_tracks {p : TimedEngine S M Unit} {q : Engine S M Unit}
    (h : Proc.Tracks engine p q) (t : Timed S M) : (t.run p).engine = t.engine.run q := by
  have ht := h t
  simp only [run, Consensus.run, ← ht]
  obtain ⟨outcome, t'⟩ := Proc.run p t
  cases outcome <;> rfl

variable [Store S] [Validator S] [MemPool M] [CryptoLib] [CidText] [SigLib]

/-- The input of the engine an event amounts to, if it amounts to one. -/
def inputOf (t : Timed S M) : Event S → Option (Input S)
  | .input i => some i
  | .handle => t.taken.map fun n => .call (TimerName.call n)
  | .expire _ | .fire _ | .take _ => none

/-- **One step** of a node with its timers is a step of the node, or none. -/
theorem engine_step (t : Timed S M) (e : Env × Event S) :
    (t.step e).engine =
      match t.inputOf e.2 with
      | some i => t.engine.step (e.1, i)
      | none => t.engine := by
  obtain ⟨ω, e⟩ := e
  by_cases hcrashed : t.engine.crashed = true
  · have hstep : t.step (ω, e) = t := by simp [step, hcrashed]
    rw [hstep]
    cases hi : t.inputOf e with
    | none => rfl
    | some i => simp [Consensus.step, hcrashed]
  · cases e with
    | input i =>
      cases i with
      | call k =>
        simp only [step, hcrashed, inputOf, Consensus.step]
        exact engine_run_of_tracks (tracks_exec ω k) t
      | recv msg =>
        simp only [step, hcrashed, inputOf, Consensus.step]
        cases t.engine.onMsg msg with
        | panic => rfl
        | err e => rfl
        | ok k =>
          cases k with
          | none => rfl
          | some k => exact engine_run_of_tracks (tracks_exec ω k) t
      | store s => simp [step, hcrashed, inputOf, Consensus.step]
    | expire n => simp [step, hcrashed, inputOf, setTimer]
    | fire n => simp [step, hcrashed, inputOf, setTimer]
    | take n =>
      simp only [step, hcrashed, inputOf, Bool.false_eq_true, if_false]
      split <;> rfl
    | handle =>
      simp only [step, hcrashed, inputOf]
      cases htaken : t.taken with
      | none => rfl
      | some n =>
        simp only [Option.map_some, Consensus.step, hcrashed]
        exact engine_run_of_tracks (tracks_exec ω _) _

/-- The inputs of the engine in a run of the node with its timers. -/
def inputs : Timed S M → List (Env × Event S) → List (Env × Input S)
  | _, [] => []
  | t, e :: es => ((t.inputOf e.2).toList.map fun i => (e.1, i)) ++ inputs (t.step e) es

/-- **A node with its timers is a node**: in every run, whatever the timers do and whenever
`watchTimeouts` gets to run, the engine is where its own inputs take it, and a timeout is one of
these inputs. -/
theorem timed_refines (t : Timed S M) (es : List (Env × Event S)) :
    (es.foldl step t).engine = (t.inputs es).foldl Consensus.step t.engine := by
  induction es generalizing t with
  | nil => rfl
  | cons e es ih =>
    rw [List.foldl_cons, ih, inputs, List.foldl_append, engine_step]
    cases t.inputOf e.2 with
    | none => rfl
    | some i => rfl

end Runs
end Didem.Timed
