import Didem.Consensus.Node
import Didem.Lib.Timer

/-!
# The engine and its timers

The rest of `consensus.go`: `setupTimers`, `watchTimeouts`, `restartTimer`, `stopTimer`, and the
places where the handlers call them. The engine of `Handlers` takes a timeout whenever one comes;
here the four timers stand beside it and a timeout has to come out of one of them.

The handlers are written again with their timers, over the pieces of the engine that do not touch
any (`onEngine`), in the order of the source. `watchTimeouts` is a goroutine of its own: it receives
a tick (`take`) and then calls the handler (`handle`), and between the two other handlers may run.
-/

set_option autoImplicit false

namespace Didem

open Lib Storage

inductive TimerName where
  | propose
  | prevote
  | precommit
  | block
  deriving DecidableEq, Repr

/-- The engine, its timers, and the tick `watchTimeouts` has received and not handled yet. -/
structure Timed (S M : Type) where
  engine : Consensus S M
  timers : TimerName → Timer := fun _ => {}
  taken : Option TimerName := none

abbrev TimedEngine (S M α : Type) := Proc Err (Timed S M) α

namespace Timed

variable {S M : Type}

/-- A part of a handler that leaves the timers alone. -/
def onEngine {α : Type} (p : Engine S M α) : TimedEngine S M α :=
  p.on engine fun c t => { t with engine := c }

def setTimer (n : TimerName) (g : Timer → Timer) (t : Timed S M) : Timed S M :=
  { t with timers := Function.update t.timers n (g (t.timers n)) }

/-- `stopTimer`: a tick is taken out of the channel only if the timer was not running. -/
def stopTimer (n : TimerName) : TimedEngine S M Unit :=
  .modify (setTimer n fun timer => if timer.stop.1 then timer.stop.2 else timer.stop.2.drain)

/-- `restartTimer`. -/
def restartTimer (n : TimerName) : TimedEngine S M Unit := do
  stopTimer n
  .modify (setTimer n Timer.reset)

/-- Only a proposer restarts it. -/
def restartIf (b : Bool) (n : TimerName) : TimedEngine S M Unit :=
  if b then restartTimer n else return ()

/-! ## The handlers -/

section Handlers

variable [Store S] [Validator S] [MemPool M] [CryptoLib] [CidText]

def startRound (ω : Env) (inc : Bool) : TimedEngine S M Unit := do
  onEngine (.modify (Consensus.openRound inc))
  let t ← .get
  if t.engine.propsalState.amProposer then
    restartTimer .prevote
    onEngine (Consensus.lead ω)
  else restartTimer .propose

def onBeacon (ω : Env) (b : UInt64) : TimedEngine S M Unit := do
  let t ← .get
  let p ← .lift (Consensus.elect b t.engine.store)
  onEngine (.modify fun c => { c.setStep .propose with state := { c.state with proposer := p } })
  startRound ω false

def onNewRound (msg : Option ConsensusMsgNewRound) (sender : String) : TimedEngine S M Unit := do
  let t ← .get
  if sender ≠ t.engine.state.proposer then return ()
  else
    match msg with
    | none => .lift .panic
    | some msg =>
      onEngine (.modify (Consensus.update fun p =>
        { p.cleared with height := msg.height, round := msg.round }))
      restartTimer .propose

/-- The body of `pvOnce` in `onProposal`: if the vote cannot be sent, it ends there. -/
def prevoteFor (ω : Env) (bc : Cid) (value : String) : TimedEngine S M Unit := do
  onEngine (.modify (Consensus.update fun p => { p with block := bc, pvOnce := true }))
  stopTimer .propose
  onEngine (Consensus.sendVote ω .preVote (if bc = .undef then Cid.undef.string else value))
  restartTimer .prevote
  onEngine (.modify (Consensus.setStep .prevote))

def onProposal (ω : Env) (msg : Option ConsensusMsgProposal) (sender : String) :
    TimedEngine S M Unit := do
  let t ← .get
  if sender ≠ t.engine.state.proposer ∨ t.engine.propsalState.step ≠ .propose then return ()
  else
    match msg with
    | none => .lift .panic
    | some msg =>
      let bc ← (onEngine (Consensus.validate ω msg.blockID)).orElse .undef
      if t.engine.propsalState.pvOnce then return () else .logged (prevoteFor ω bc msg.blockID)

/-- The body of `pcOnce` in `onPreVote`, likewise. -/
def precommitFor (ω : Env) (value : String) : TimedEngine S M Unit := do
  stopTimer .prevote
  onEngine (.modify (Consensus.update fun p =>
    { p with step := .precommit, lockedValue := p.block, lockedRound := p.round, pcOnce := true }))
  .logged do
    onEngine (Consensus.sendVote ω .preCommit value)
    restartTimer .precommit

def onPreVote (ω : Env) (msg : Msg) : TimedEngine S M Unit := do
  let t ← .get
  let p := t.engine.propsalState
  if p.step ≠ .prevote then return ()
  else
    restartIf p.amProposer .precommit
    match p.preVotes with
    | none => .lift .panic
    | some book =>
      let book := book.insert msg.sender msg
      onEngine (.modify (Consensus.update fun p => { p with preVotes := some book }))
      if book.keys.length > p.f ∧ p.pcOnce = false then precommitFor ω p.block.string

/-- The body of `sbOnce` in `onPreCommit`; a proposer hands `sendBlock` to a timer of its own. -/
def blockFor (amProposer : Bool) (voters : List String) : TimedEngine S M Unit := do
  stopTimer .precommit
  onEngine (.modify fun c =>
    { c with
      propsalState := { c.propsalState with step := .block, sbOnce := true }
      pending := if c.propsalState.amProposer then c.pending + 1 else c.pending
      trace := .certified c.propsalState.height c.propsalState.round c.propsalState.block voters ::
        c.trace })
  restartIf (!amProposer) .block

def onPreCommit (msg : Msg) : TimedEngine S M Unit := do
  let t ← .get
  let p := t.engine.propsalState
  if p.step ≠ .precommit then return ()
  else
    restartIf p.amProposer .precommit
    match p.preCommits with
    | none => .lift .panic
    | some book =>
      let book := book.insert msg.sender msg
      onEngine (.modify (Consensus.update fun p => { p with preCommits := some book }))
      if book.keys.length > p.f ∧ p.sbOnce = false then blockFor p.amProposer book.keys

def countVote (ω : Env) (t : VoteType) (msg : Msg) : TimedEngine S M Unit :=
  match t with
  | .preVote => onPreVote ω msg
  | .preCommit => onPreCommit msg
  | .other _ => return ()

def onVote (ω : Env) (msg : Msg) (sender : String) : TimedEngine S M Unit := do
  let t ← .get
  let c := t.engine
  match msg.consensus with
  | none => .lift .panic
  | some consensus =>
    if sender = c.state.proposer then return ()
    else
      match consensus.vote with
      | none => .lift .panic
      | some vote =>
        if vote.height ≠ c.propsalState.height ∨ vote.blockID ≠ c.propsalState.block.string ∨
            vote.round ≠ c.propsalState.round then return ()
        else
          countVote ω vote.type msg
          if c.propsalState.amProposer then .logged (onEngine (Consensus.sendEvidence ω vote))

/-- The assignments at the end of `onBlock`. -/
def advance (locked : Cid) (c : Consensus S M) : Consensus S M :=
  let state :=
    { c.state with
      height := c.propsalState.height, parentBlock := c.state.block, block := locked }
  { c with state := state, trace := .committed c.state.tip state.tip :: c.trace }

def commit (ω : Env) : TimedEngine S M Unit := do
  let t ← .get
  let locked := t.engine.propsalState.lockedValue
  onEngine (Consensus.markAccepted ω)
  stopTimer .block
  onEngine (.logged (Consensus.onStore (Store.updateLastApplied locked)))
  onEngine (.modify (advance locked))

def onBlock (ω : Env) (msg : Option ConsensusMsgBlock) (sender : String) :
    TimedEngine S M Unit := do
  let t ← .get
  let c := t.engine
  if sender ≠ c.state.proposer ∨ c.propsalState.step ≠ .block then return ()
  else
    match msg with
    | none => .lift .panic
    | some msg =>
      if msg.cid ≠ c.propsalState.lockedValue.string ∨ c.propsalState.lockedRound ≠ msg.round then
        return ()
      else commit ω

def onGracePeriod [SigLib] (ω : Env) : TimedEngine S M Unit := do
  let t ← .get
  if t.engine.pending = 0 then return ()
  else
    onEngine (.modify fun c => { c with pending := c.pending - 1 })
    .logged do
      let msg ← onEngine (Consensus.sendBlock ω)
      onBlock ω (some msg) t.engine.id

def onTimeoutProposal (ω : Env) : TimedEngine S M Unit := do
  let t ← .get
  let c := t.engine
  if c.propsalState.height ≠ c.state.height ∧ c.propsalState.step ≠ .propose then return ()
  else
    onEngine (.modify (Consensus.setStep .prevote))
    if c.propsalState.pvOnce then return ()
    else
      onEngine (.modify (Consensus.update fun p => { p with pvOnce := true }))
      -- here an error is logged and the timer is started all the same
      onEngine (.logged (Consensus.sendVote ω .preVote ""))
      restartTimer .prevote

def onTimeoutPrevote (ω : Env) : TimedEngine S M Unit := do
  let t ← .get
  let c := t.engine
  if c.propsalState.height ≠ c.state.height ∧ c.propsalState.step ≠ .prevote then return ()
  else
    onEngine (.modify (Consensus.setStep .precommit))
    if c.propsalState.pcOnce then return ()
    else
      onEngine (.modify (Consensus.update fun p => { p with pcOnce := true }))
      onEngine (.logged (Consensus.sendVote ω .preCommit ""))
      restartTimer .precommit

def onTimeoutPrecommit (ω : Env) : TimedEngine S M Unit := startRound ω true

def exec [SigLib] (ω : Env) : Call → TimedEngine S M Unit
  | .beacon b => onBeacon ω b
  | .newRound msg sender => onNewRound msg sender
  | .proposal msg sender => onProposal ω msg sender
  | .vote msg sender => onVote ω msg sender
  | .block msg sender => onBlock ω msg sender
  | .evidence msg sender => onEngine (Consensus.onEvidence msg sender)
  | .tx msg => onEngine (Consensus.onTx msg)
  | .gracePeriod => onGracePeriod ω
  | .timeoutProposal => onTimeoutProposal ω
  | .timeoutPrevote => onTimeoutPrevote ω
  | .timeoutPrecommit => onTimeoutPrecommit ω
  | .timeoutBlock => onEngine Consensus.onTimeoutBlock

end Handlers

/-! ## What can happen -/

/-- What a node with its timers takes in. -/
inductive Event (S : Type) where
  | input (i : Input S)
  /-- A timer runs out, and then its tick reaches the channel. -/
  | expire (n : TimerName)
  | fire (n : TimerName)
  /-- `watchTimeouts` receives a tick, and then calls the handler. -/
  | take (n : TimerName)
  | handle

/-- The handler of a tick. -/
def TimerName.call : TimerName → Call
  | .propose => .timeoutProposal
  | .prevote => .timeoutPrevote
  | .precommit => .timeoutPrecommit
  | .block => .timeoutBlock

def crash (t : Timed S M) : Timed S M := { t with engine := t.engine.crash }

def run (p : TimedEngine S M Unit) (t : Timed S M) : Timed S M :=
  match Proc.run p t with
  | (.panic, t) => t.crash
  | (_, t) => t

/-- `NewConsensus`: `setupTimers` makes the timers and stops them. -/
def boot (c : Consensus S M) : Timed S M := { engine := c }

variable [Store S] [Validator S] [MemPool M] [CryptoLib] [CidText] [SigLib]

/-- One step of a node with its timers. -/
def step (t : Timed S M) (e : Env × Event S) : Timed S M :=
  if t.engine.crashed then t
  else
    match e.2 with
    | .input (.call k) => t.run (exec e.1 k)
    | .input (.recv msg) =>
      match t.engine.onMsg msg with
      | .ok (some k) => t.run (exec e.1 k)
      | .ok none | .err _ => t
      | .panic => t.crash
    | .input (.store s) => { t with engine := { t.engine with store := s } }
    | .expire n => t.setTimer n Timer.expire
    | .fire n => t.setTimer n Timer.fire
    | .take n =>
      if t.taken = none ∧ (t.timers n).ready then { t.setTimer n Timer.drain with taken := some n }
      else t
    | .handle =>
      match t.taken with
      | none => t
      | some n => { t with taken := none }.run (exec e.1 (TimerName.call n))

end Timed
end Didem
