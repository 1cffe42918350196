import Didem.Consensus.Node

/-!
# From the random beacon to a round

A node starts a round when the beacon ticks. Between the beacon and the round stand four goroutines:
one of `RandomSource` in `internal/node/drand.go` that passes on what the client delivers, one that
**keeps every tenth tick**, the one of `proposer` that elects, and `watchProposer` that starts the
round. Two of the channels between them make their sender wait. The middle one does not: the filter
sends with a `select` that has a `default`, so a tick is **dropped** unless the elector is waiting
for one at that very moment.

`Node` has all of this in one atomic call, `.beacon b`. Here each goroutine has a place of its own
and moves by itself; `Fed` is a node that is driven by the four.
-/

set_option autoImplicit false

namespace Didem

open Lib Storage

namespace Beacon

/-- The part of a `client.Result` that is read. -/
structure Tick where
  round : UInt64
  randomness : Bytes
  deriving DecidableEq, Repr

def nthTick : UInt64 := 10

/-- `binary.BigEndian.Uint64`, which reads eight bytes and panics where there are fewer. -/
def uint64BE (b : Bytes) : Option UInt64 :=
  if 8 ≤ b.length then some (.ofNat ((b.take 8).foldl (fun n x => n * 256 + x.toNat) 0)) else none

/-- Where the goroutine of `proposer` is. -/
inductive Elector where
  /-- On its way to the channel. -/
  | away
  /-- Waiting there. -/
  | waiting
  | electing (b : UInt64)
  /-- Waiting for `watchProposer` to take the proposer. -/
  | sending (b : UInt64) (p : String)
  deriving DecidableEq, Repr

/-- The four goroutines. -/
structure Pipeline where
  /-- What `Watch` is still going to deliver. -/
  source : List Tick := []
  /-- The tick that waits to be taken from `srcCh`. -/
  pump : Option Tick := none
  /-- The tick the filter is looking at. -/
  filter : Option Tick := none
  elector : Elector := .away
  /-- The proposer `watchProposer` has taken, with the value it was elected by. -/
  watcher : Option (UInt64 × String) := none
  /-- The rounds that were started. -/
  started : List (UInt64 × String) := []
  crashed : Bool := false
  deriving DecidableEq, Repr

/-- Whose turn it is, and for what. -/
inductive Turn where
  | watch
  | handOver
  | select
  | park
  | elect
  | handProposer
  | start
  deriving DecidableEq, Repr

namespace Pipeline

/-- The body of the loop over `srcCh`. -/
def select (t : Tick) (s : Pipeline) : Pipeline :=
  if t.round % nthTick ≠ 0 then { s with filter := none }
  else
    match uint64BE t.randomness with
    | none => { s with crashed := true }
    | some v =>
      match s.elector with
      | .waiting => { s with filter := none, elector := .electing v }
      | _ => { s with filter := none }

/-- A goroutine moves, if it can. What `store.Nodes` makes of a value is up to the store. -/
def step (elect : UInt64 → Outcome Err String) (s : Pipeline) (m : Turn) : Pipeline :=
  if s.crashed then s
  else
    match m with
    | .watch =>
      match s.pump, s.source with
      | none, t :: ts => { s with pump := some t, source := ts }
      | _, _ => s
    | .handOver =>
      match s.pump, s.filter with
      | some t, none => { s with pump := none, filter := some t }
      | _, _ => s
    | .select =>
      match s.filter with
      | some t => s.select t
      | none => s
    | .park =>
      match s.elector with
      | .away => { s with elector := .waiting }
      | _ => s
    | .elect =>
      match s.elector with
      | .electing b =>
        match elect b with
        | .ok p => { s with elector := .sending b p }
        -- the error is logged, and the next value waited for
        | .err _ => { s with elector := .away }
        | .panic => { s with crashed := true }
      | _ => s
    | .handProposer =>
      match s.elector, s.watcher with
      | .sending b p, none => { s with elector := .away, watcher := some (b, p) }
      | _, _ => s
    | .start =>
      match s.watcher with
      | some x => { s with watcher := none, started := s.started ++ [x] }
      | none => s

end Pipeline

/-- The value of a tick, if it is one that counts. -/
def Tick.value (t : Tick) : Option UInt64 :=
  if t.round % nthTick ≠ 0 then none else uint64BE t.randomness

end Beacon

/-! ## A node and its beacon -/

/-- One turn of `watchProposer`. -/
def Consensus.watchProposer {S M : Type} [Store S] [MemPool M] [CryptoLib] [CidText] (ω : Env)
    (p : String) : Engine S M Unit := do
  .modify fun c => { c.setStep .propose with state := { c.state with proposer := p } }
  Consensus.startRound ω false

/-- A node with the goroutines that feed it. -/
structure Fed (S M : Type) where
  engine : Consensus S M
  beacon : Beacon.Pipeline

namespace Fed

open Beacon

/-- Something that happens to the node, or a move of one of the four. -/
inductive Event (S : Type) where
  | input (i : Input S)
  | move (m : Turn)

section

variable {S M : Type} [Store S] [Validator S] [MemPool M] [CryptoLib] [CidText] [SigLib]

/-- The proposer a round is about to be started for. -/
def starting (t : Fed S M) : Turn → Option (UInt64 × String)
  | .start => t.beacon.watcher
  | _ => none

/-- One step; a panic in any goroutine ends the node. -/
def step (t : Fed S M) (e : Env × Event S) : Fed S M :=
  if t.engine.crashed then t
  else
    match e.2 with
    | .input i => { t with engine := t.engine.step (e.1, i) }
    | .move m =>
      let beacon := t.beacon.step (fun b => Consensus.elect b t.engine.store) m
      match t.starting m with
      | some (_, p) => { engine := t.engine.run (Consensus.watchProposer e.1 p), beacon }
      | none => { engine := if beacon.crashed then t.engine.crash else t.engine, beacon }

end
end Fed
end Didem
