import Didem.Consensus.MemPool
import Didem.Consensus.Msg
import Didem.Lib.Proc
import Didem.Storage.Validator
import Mathlib.Data.List.AList

/-!
# The engine's state and what it sends

`state.go`, the `Consensus` struct and the `send…` functions of `consensus.go`.

Each handler is one atomic step, so the mutexes are gone; so are the timers, since a timeout may
fire at any time, and the logger. Three fields are not in the Go struct:

* `pending` counts the closures handed to `time.AfterFunc` that have not run yet;
* `crashed` is set by a panic, and a crashed node does nothing more;
* `trace` records, newest first, what the engine did to the outside: it is written and never read.

A map of the state that was never made is nil (`none`): reading it is fine, writing it panics. All
four maps start that way and are made by the first `startRound` or the first accepted `NewRound`.
-/

set_option autoImplicit false

namespace Didem

open Lib Storage

inductive Step where
  | propose
  | prevote
  | precommit
  | block
  deriving DecidableEq, Repr

/-- `map[peer.ID]*Msg`. -/
abbrev VoteBook := AList (fun _ : String => Msg)

abbrev EvidenceBook := AList (fun _ : String => ConsensusMsgEvidence)

/-- `State`. A `resync.Once` is whether it is done. -/
structure State where
  amProposer : Bool := false
  proposer : String := ""
  height : UInt64 := 0
  round : UInt32 := 0
  step : Step := .propose
  block : Cid := .undef
  parentBlock : Cid := .undef
  f : Nat := 0
  preVotes : Option VoteBook := none
  preCommits : Option VoteBook := none
  preVotesEvidence : Option EvidenceBook := none
  preCommitsEvidence : Option EvidenceBook := none
  lockedValue : Cid := .undef
  lockedRound : UInt32 := 0
  pvOnce : Bool := false
  pcOnce : Bool := false
  sbOnce : Bool := false
  deriving DecidableEq

/-- The number of votes in a map; a nil map has none. -/
def votes (book : Option VoteBook) : Nat := (book.map fun b => b.keys.length).getD 0

/-- What a node has committed: the part of its state that `onBlock` writes. -/
structure Tip where
  height : UInt64
  block : Cid
  parentBlock : Cid
  deriving DecidableEq, Repr

def State.tip (s : State) : Tip := ⟨s.height, s.block, s.parentBlock⟩

/-- What the engine did, for the record. -/
inductive Effect where
  | sent (msg : Msg)
  | startRound (inc : Bool)
  /-- `validate` returned the block after `IsBlockValid` returned nil for it. -/
  | validated (c : Cid)
  /-- The step was moved to block, holding precommits of these peers. -/
  | certified (height : UInt64) (round : UInt32) (c : Cid) (voters : List String)
  /-- `onBlock` called `MarkBlock(c, Accepted)`. -/
  | accepted (c : Cid) (amProposer : Bool)
  /-- The commit at the end of `onBlock`, from one tip to the next. -/
  | committed (before after : Tip)
  deriving DecidableEq

/-- `storage.Validator`, as far as the engine uses it. -/
class Validator (S : Type) where
  isBlockValid : Runtime → Block → Bool → S → Outcome Err Unit × S

/-- `storage.NewTxValidator`. -/
@[reducible] def txValidator {S : Type} [Store S] [SigLib] : Validator S where
  isBlockValid := Storage.isBlockValid

namespace NodeValidator

/-- Where this is opened, a node has the validator it is started with, whatever its store. -/
scoped instance (priority := 2000) nodeValidator {S : Type} [Store S] [SigLib] : Validator S :=
  txValidator

end NodeValidator

/-- What the world decides during one handler call. -/
structure Env extends Runtime where
  now : Int
  /-- The bytes `rand.Read` delivers, if it does. -/
  nonce : Option Bytes
  /-- Whether publishing a message succeeds. -/
  publish : Msg → Bool

structure Consensus (S M : Type) where
  chain : Bytes
  id : String
  signingKey : Option Bytes
  memPool : M
  store : S
  state : State := {}
  propsalState : State := {}
  pending : Nat := 0
  crashed : Bool := false
  trace : List Effect := []
  deriving DecidableEq

abbrev Engine (S M α : Type) := Proc Err (Consensus S M) α

namespace Consensus

variable {S M : Type}

def record (e : Effect) (c : Consensus S M) : Consensus S M := { c with trace := e :: c.trace }

def crash (c : Consensus S M) : Consensus S M := { c with crashed := true }

/-- A change of the proposal state. -/
def update (g : State → State) (c : Consensus S M) : Consensus S M :=
  { c with propsalState := g c.propsalState }

/-- `propsalState.setStep`. -/
def setStep (s : Step) (c : Consensus S M) : Consensus S M :=
  c.update fun p => { p with step := s }

/-- A call on the node's store. -/
def onStore {α : Type} (p : Proc Err S α) : Engine S M α :=
  p.on store fun s c => { c with store := s }

/-- A call on the node's mempool. -/
def onPool {α : Type} (p : Proc Err M α) : Engine S M α :=
  p.on memPool fun m c => { c with memPool := m }

/-- What `NewConsensus` returns over a store whose last applied block is known. -/
def boot (chain : Bytes) (id : String) (signingKey : Option Bytes) (memPool : M) (store : S)
    (lastApplied : Option Block) : Consensus S M where
  chain := chain
  id := id
  signingKey := signingKey
  memPool := memPool
  store := store
  state :=
    match lastApplied with
    | none => {}
    | some b => { block := b.id, height := b.height, parentBlock := b.parent }

/-- What the options of `NewConsensus` set besides the store; `WithGenesis` sets the chain as
well. -/
structure Options where
  signingKey : Option Bytes := none
  genesis : Option GenesisInfo := none

/-- The first thing `NewConsensus` does to its store: genesis is applied, unless it has been. -/
def ensureGenesis [Store S] (ω : Runtime) : Option GenesisInfo → Proc Err S Unit
  | none => return ()
  | some g => do
    let store ← .get
    if Store.hasGenesisApplied store then return ()
    else Proc.wrap (·.wrap "applying genesis") (Store.applyGenesis ω g)

/-- `NewConsensus` on the host `id`, with a new mempool. -/
def newConsensus [Store S] (ω : Runtime) (id : String) (opts : Options) (memPool : M) :
    Proc Err S (Consensus S M) := do
  ensureGenesis ω opts.genesis
  let store ← .get
  let lastApplied ← .lift
    ((Store.getLastApplied store).mapErr (·.wrap "fetching last applied block"))
  return .boot ((opts.genesis.map fun g => stringBytes g.chainID).getD []) id opts.signingKey memPool
    store lastApplied

/-! ## Sending -/

section Send

variable [CryptoLib]

/-- `sendMsg`. Without a signing key nothing is sent and no error returned. -/
def sendMsg (ω : Env) (wrapper : ConsensusMsg) : Engine S M Unit := do
  let c ← .get
  match c.signingKey with
  | none => return ()
  | some key =>
    let hl : Msg :=
      { type := .consensus, sender := c.id, chain := c.chain, consensus := some wrapper
        timestamp := ω.now }
    let signData ← .lift ((signatureData hl).mapErr (·.wrap "unable to create sign data"))
    let sig ← .lift ((CryptoLib.sign key (CryptoLib.peerBytes c.id ++ signData)).mapErr
      (·.wrap "signing vote data"))
    let hl := { hl with signature := sig }
    if ω.publish hl then .modify (record (.sent hl)) else .lift (.err (.new "publish"))

def sendNewRound (ω : Env) : Engine S M Unit := do
  let c ← .get
  sendMsg ω
    { type := .newRound
      newRound := some
        { height := c.propsalState.height, round := c.propsalState.round
          lastCommitRound := c.state.round, timestamp := ω.now } }

def sendVote (ω : Env) (t : VoteType) (value : String) : Engine S M Unit := do
  let c ← .get
  sendMsg ω
    { type := .vote
      vote := some
        { type := t, height := c.propsalState.height, round := c.propsalState.round
          blockID := value, timestamp := ω.now, validator := c.id } }

def sendProposal [CidText] (ω : Env) : Engine S M Unit := do
  let c ← .get
  sendMsg ω
    { type := .proposal
      proposal := some
        { height := c.propsalState.height, round := c.propsalState.round
          blockID := c.propsalState.block.string, timestamp := ω.now } }

/-- Enters evidence into a map; a nil map cannot be written. -/
def putEvidence (t : VoteType) (key : String) (msg : ConsensusMsgEvidence) : Engine S M Unit := do
  let c ← .get
  match t with
  | .preVote =>
    match c.propsalState.preVotesEvidence with
    | none => .lift .panic
    | some book =>
      .modify (update fun p => { p with preVotesEvidence := some (book.insert key msg) })
  | .preCommit =>
    match c.propsalState.preCommitsEvidence with
    | none => .lift .panic
    | some book =>
      .modify (update fun p => { p with preCommitsEvidence := some (book.insert key msg) })
  | .other _ => return ()

/-- `sendEvidence`: the entry is made under the name the vote gives itself. -/
def sendEvidence (ω : Env) (m : ConsensusMsgVote) : Engine S M Unit := do
  let msg : ConsensusMsgEvidence := { toConsensusMsgVote := m, accepted := true }
  putEvidence m.type m.validator msg
  sendMsg ω { type := .evidence, evidence := some msg }

/-- The loop of `sendBlock` over the precommits: public keys and signatures. The bytes of a node's
key are read as a curve point here, where `onMsg` decodes them as multibase first. -/
def collectVotes [Store S] [SigLib] (s : S) :
    List (Sigma fun _ : String => Msg) → Outcome Err (List Bytes × List Bytes)
  | [] => .ok ([], [])
  | ⟨p, vote⟩ :: rest => do
    let n ← (Store.node s p).mapErr (·.wrap "finding node")
    let pk ← match SigLib.blsPublicKey n.key with
      | none => .err (.wrap (.new "bls12-381 point") "unmarshalling node key")
      | some pk => .ok pk
    let (pks, sigs) ← collectVotes s rest
    return (pk :: pks, vote.signature :: sigs)

/-- `sendBlock`. The aggregates are sums in a group, so the order of the map does not enter. -/
def sendBlock [Store S] [SigLib] [CidText] (ω : Env) : Engine S M ConsensusMsgBlock := do
  let c ← .get
  let (pks, sigs) ← .lift (collectVotes c.store
    ((c.propsalState.preCommits.map AList.entries).getD []))
  let validators ← .lift
    ((CryptoLib.aggregatePublicKeys pks).mapErr (·.wrap "aggregating public keys"))
  let signature ← .lift
    ((CryptoLib.aggregateSignatures sigs).mapErr (·.wrap "aggregating signatures"))
  let msg : ConsensusMsgBlock :=
    { height := c.propsalState.height, round := c.propsalState.lockedRound
      cid := c.propsalState.lockedValue.string, validators := validators, signature := signature }
  sendMsg ω { type := .block, block := some msg }
  return msg

end Send
end Consensus
end Didem
