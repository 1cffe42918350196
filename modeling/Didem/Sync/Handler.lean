import Didem.Consensus.Node
import Didem.Lib.WorkerPool
import Didem.Storage.Validator

/-!
# Finding the tip at start-up

`internal/did/handler.go`. Before a node takes part it asks peers for the tip of the chain, and
applies the blocks up to it if it is not there yet. The engine and the validator of a `Handler` are
made over **one store**, so what is applied is written where the engine reads; the tip the engine
works on is a field of its own.

What the outside decides in one attempt is an `Attempt`: who is connected, in what order the peers
are drawn and what they answer. A chain id is compared and never shown, so it is its bytes. The
messages of `ReqTip` and `Handle` are encoded by protobuf and framed by `stream.RW`; either they
arrive or the request fails.
-/

set_option autoImplicit false

namespace Didem.Sync

open Lib Storage Consensus

structure TipResponse where
  tip : String
  chainId : Bytes
  deriving DecidableEq, Repr

/-- A connected peer and the tags the connection manager has for it. -/
structure Peer where
  id : String
  tags : List String
  deriving DecidableEq, Repr

/-- One pass of `Start`, by what the outside decides in it. -/
structure Attempt where
  /-- What `Peers` returns at each turn of the waiting loop. -/
  polls : List (List Peer)
  shuffle : List Peer → List Peer
  shuffle_perm : ∀ peers, (shuffle peers).Perm peers
  /-- The response to each question asked; `none` if opening, sending or reading failed. -/
  answer : Nat → Peer → Option TipResponse
  /-- The ten minutes were enough. -/
  inTime : Bool

def tipSetPeerCountStartThreshold : Nat := 10

/-- The loop that waits for peers. Those of earlier turns are kept, also when they come again. -/
def waitPeers (requiredPeers : Nat) : List (List Peer) → List Peer → Option (List Peer)
  | [], _ => none
  | cm_peers :: polls, peers =>
    let peers := peers ++ cm_peers.filter fun p => "drand" ∉ p.tags
    if peers.length < requiredPeers then waitPeers requiredPeers polls peers else some peers

/-- `ReqTip`. -/
def reqTip (chainID : Bytes) : Option TipResponse → Outcome Err String
  | none => .err (.new "request")
  | some resp =>
    if resp.chainId ≠ chainID then .err (.new "resp contained mismatch chain id") else .ok resp.tip

abbrev Tips := AList (fun _ : String => Nat)

/-- What the workers of `askForTip` count. One that meets an error does not call `Done`, so the
group is never waited for to the end. -/
def countTips : List (Outcome Err String) → Tips → Option Tips
  | [], tips => some tips
  | .ok t :: rs, tips => countTips rs (tips.insert t ((tips.lookup t).getD 0 + 1))
  | _ :: _, _ => none

/-- The goroutines of `askForTip`, one job for each question. The result is the map they count in;
that the context may expire is left to the caller. -/
def tipPlan (chainID : Bytes) (answer : Nat → Peer → Option TipResponse) (expires : Bool) :
    WorkerPool.Plan (Nat × Peer) String Tips where
  work job :=
    match reqTip chainID (answer job.1 job.2) with
    | .ok t => some t
    | _ => none
  record t tips := tips.insert t ((tips.lookup t).getD 0 + 1)
  onError := .skip
  feederWaits := false
  expires := expires

def tipWorkers : Nat := 3

/-- `askForTip` as its goroutines run it. -/
def tipPool (chainID : Bytes) (answer : Nat → Peer → Option TipResponse) (expires : Bool)
    (peers : List Peer) :
    Conf (WorkerPool.Shared (Nat × Peer) Tips) (WorkerPool.Place (Nat × Peer) String) :=
  WorkerPool.start (tipPlan chainID answer expires) tipWorkers (peers.mapIdx Prod.mk) ∅

/-- `askForTip`, by what its goroutines come to. -/
def askForTip (chainID : Bytes) (a : Attempt) (peers : List Peer) : Outcome Err Tips :=
  match countTips (peers.mapIdx fun i p => reqTip chainID (a.answer i p)) ∅, a.inTime with
  | some tips, true => .ok tips
  | _, _ => .err (.new "ctx timeout")

section

variable {S M : Type} [Store S] [CidText] [SigLib]

/-- What the rest of a `Start` depends on besides its attempts: the runtime while blocks are
applied, how far back the fetching goes, and whether `consensus.Start` can subscribe. -/
structure Session where
  runtime : Nat → Runtime
  fuel : Nat
  subscribe : Outcome Err Unit

/-- `consensus.Start`, as far as `Start` depends on it; with the tip, and the engine it is called
on. -/
def launch (ω : Session) (tip : String) (c : Consensus S M) : Outcome Err String × Consensus S M :=
  (do ω.subscribe.mapErr (·.wrap "starting consensus"); return tip, c)

/-- `Start` from the agreed tip on; `none` while blocks are still fetched. -/
def syncTo (ω : Session) (tip : String) (c : Consensus S M) :
    Option (Outcome Err String × Consensus S M) :=
  if tip = c.state.block.string then some (launch ω tip c)
  else
    match CidText.parse tip with
    | none => some (.err (.new "invalid cid"), c)
    | some bcid =>
      match applyFromTip ω.runtime ω.fuel bcid c.store with
      | none => none
      | some (.ok (), store, _) => some (launch ω tip { c with store := store })
      | some (.err e, store, _) => some (.err e, { c with store := store })
      | some (.panic, store, _) => some (.panic, { c with store := store })

/-- How many peers have to agree; one is enough on a chain for tests. -/
def requiredPeers (chainID : Bytes) : Nat :=
  if (stringBytes "test").isPrefixOf chainID then 1 else tipSetPeerCountStartThreshold

/-- `Start`. `none` while it is waiting for peers, asking again or fetching. -/
def start (ω : Session) : List Attempt → Consensus S M → Option (Outcome Err String × Consensus S M)
  | [], _ => none
  | a :: attempts, c =>
    match waitPeers (requiredPeers c.chain) a.polls [] with
    | none => none
    | some peers =>
      match askForTip c.chain a ((a.shuffle peers).take (requiredPeers c.chain)) with
      | .panic => some (.panic, c)
      | .err e => some (.err (e.wrap "requesting tips"), c)
      | .ok tips =>
        if tips.keys.length ≠ requiredPeers c.chain ∨ tips.keys.length ≠ 1 then
          start ω attempts c
        else syncTo ω (tips.keys.getLastD "") c

omit [Store S] [SigLib] in
/-- `handleTipReq`, by what it writes. -/
def handleTipReq (chainId : Bytes) (c : Consensus S M) : Option TipResponse :=
  if chainId ≠ c.chain then none else some { tip := c.state.block.string, chainId := c.chain }

end
end Didem.Sync
