import Didem.Consensus.Network
import Didem.Storage.Sample

/-!
# Sample nodes

Three nodes over `MemStore` and `TxMemPool` with the store's own validator, registered by a genesis
block, and the messages they send. The encoding of a message is its chain and what a reader of it
would act on; a signature is the key followed by what was signed.

A node's key is registered as multibase text, the form `onMsg` needs. It is then not a curve point,
the form `sendBlock` needs, as it could not be with the real libraries either.
-/

set_option autoImplicit false

namespace Didem.Sample

open Lib Storage Storage.Sample

def text (s : String) : Bytes := s.toList.map fun c => UInt8.ofNat c.toNat

def encodeVote (v : ConsensusMsgVote) : Bytes :=
  let kind : UInt8 :=
    match v.type with
    | .preVote => 0
    | .preCommit => 1
    | .other n => n
  kind :: v.height.toUInt8 :: v.round.toUInt8 :: text v.blockID

def encode (c : ConsensusMsg) : Bytes :=
  (c.newRound.map fun m => [1, m.height.toUInt8, m.round.toUInt8]).getD [] ++
  (c.proposal.map fun m => 2 :: m.height.toUInt8 :: m.round.toUInt8 :: text m.blockID).getD [] ++
  (c.vote.map fun m => 3 :: encodeVote m).getD [] ++
  (c.block.map fun m => 4 :: m.height.toUInt8 :: m.round.toUInt8 :: text m.cid).getD [] ++
  (c.evidence.map fun m => 5 :: encodeVote m.toConsensusMsgVote).getD []

scoped instance cryptoLib : CryptoLib where
  marshalMsg m := .ok (m.chain ++ (m.consensus.map encode).getD [])
  peerBytes := text
  sign key msg := .ok (key ++ msg)
  aggregatePublicKeys pks := .ok pks.flatten
  aggregateSignatures sigs := .ok sigs.flatten
  makeBloom _ := .ok []

scoped instance validator : Validator MemStore := txValidator

/-! ## Nodes -/

def point (id : String) : Bytes := 128 :: text id

def nodeTx (ts : Int) (id : String) : Tx where
  version := version1
  ts := ts
  sender := id
  type := .node
  action := .add
  data := some (.node { id := id, did := "", key := 0 :: point id })
  signature := []

def genesis : GenesisInfo where
  chainID := "c"
  block := {}
  txs := [nodeTx 1 "a", nodeTx 2 "b", nodeTx 3 "p"]

/-- A store after genesis. -/
def genesisStore : MemStore := (Store.applyGenesis runtime genesis ({} : MemStore)).2

def env : Env := { runtime with now := 7, nonce := some [], publish := fun _ => true }

def node (id : String) : Consensus MemStore TxMemPool :=
  .boot [9] id (some (point id)) {} genesisStore none

def nodes : Finset String := {"a", "b", "p"}

/-- A genesis whose block has the root an `IPFSStorage` asks for; the chain is that of the sample
messages. -/
def rootedGenesis [Hash] (txs : List Tx) : GenesisInfo where
  chainID := "\t"
  block :=
    match (newTxSet MemStore.putSet (txs.map fun t => Hash.sum (.tx t)) {}).1 with
    | .ok set => { txRoot := set.cid }
    | _ => {}
  txs := txs

def startOptions [Hash] (txs : List Tx) : Consensus.Options where
  signingKey := some (point "a")
  genesis := some (rootedGenesis txs)

/-- What a first start of the node `a` returns, if it does. -/
def startedNode {S : Type} [Store S] (opts : Consensus.Options) (s : S) : Consensus S TxMemPool :=
  match (Consensus.newConsensus runtime "a" opts {}).run s with
  | (.ok c, _) => c
  | (_, s) => .boot [] "" none {} s none

/-! ## Messages -/

/-- The message a node makes of this body. -/
def signed (id : String) (body : ConsensusMsg) : Msg :=
  { type := .consensus, sender := id, chain := [9], consensus := some body, timestamp := 7
    signature := point id ++ (text id ++ ([9] ++ encode body)) }

def newRound (id : String) (height : UInt64) (round : UInt32) : Msg :=
  signed id { type := .newRound, newRound := some ⟨height, round, 0, 7⟩ }

def proposal (id : String) (height : UInt64) (round : UInt32) (value : String) : Msg :=
  signed id { type := .proposal, proposal := some ⟨height, round, value, 7⟩ }

def vote (id : String) (t : VoteType) (height : UInt64) (round : UInt32) (value : String) : Msg :=
  signed id { type := .vote, vote := some ⟨t, height, round, value, 7, id⟩ }

/-- An announcement made while no precommits were held. -/
def announcement (id : String) (height : UInt64) (round : UInt32) (value : String) : Msg :=
  signed id { type := .block, block := some ⟨height, round, value, [], []⟩ }

/-! ## Inputs -/

/-- The beacon value that elects the node `p`. -/
def beacon : Call := .beacon 2

def call (k : Call) : Env × Input MemStore := (env, .call k)

def recv (m : Msg) : Env × Input MemStore := (env, .recv m)

/-! ## A block -/

/-- The node `p` when it has proposed a block of one transaction. -/
def proposing : Consensus MemStore TxMemPool :=
  [call (.tx (some ⟨some (vcTx 5), 0⟩)), call beacon].foldl Consensus.step (node "p")

/-- The block it proposed. -/
def block : Cid := proposing.propsalState.block

def content : Env × Input MemStore := (env, .store proposing.store)

/-- The node `a` is proposed the block, votes for it, collects the votes of `b` and is told to
accept. -/
def acceptingRun : List (Env × Input MemStore) :=
  [call beacon, content, recv (proposal "p" 1 1 block.string),
   recv (vote "b" .preVote 1 1 block.string), recv (vote "b" .preCommit 1 1 block.string),
   recv (announcement "p" 1 1 block.string)]

/-! ## Runs of the three nodes -/

/-- What happens, and at which node. -/
abbrev Event := String × Env × Input MemStore

/-- A beacon tick at every node. -/
def ticks : List Event :=
  [("p", call beacon), ("a", call beacon), ("b", call beacon)]

/-- Both others prevote for the proposal of `p`, which then locks it. -/
def locking (round : UInt32) (value : String) : List Event :=
  [("a", recv (proposal "p" 1 round value)), ("b", recv (proposal "p" 1 round value)),
   ("p", recv (vote "a" .preVote 1 round value)), ("p", recv (vote "b" .preVote 1 round value))]

/-- The prevotes reach the other two as well. -/
def exchange (round : UInt32) (value : String) : List Event :=
  [("a", recv (vote "b" .preVote 1 round value)), ("b", recv (vote "a" .preVote 1 round value))]

/-- Their precommits reach `p`, which hands its announcement to a timer. -/
def certifying (round : UInt32) (value : String) : List Event :=
  [("p", recv (vote "a" .preCommit 1 round value)),
   ("p", recv (vote "b" .preCommit 1 round value))]

/-- One of the two gets the other's precommit and then the announcement of `p`. -/
def committing (id other : String) (round : UInt32) (value : String) : List Event :=
  [(id, recv (vote other .preCommit 1 round value)), (id, recv (announcement "p" 1 round value))]

/-- The proposer certifies its block and opens a second round. There the timer of the first round
fires, and `a` commits. -/
def commitRun : List Event :=
  [("p", call (.tx (some ⟨some (vcTx 5), 0⟩)))] ++ ticks ++ [("a", content), ("b", content)] ++
  locking 1 block.string ++ exchange 1 block.string ++ certifying 1 block.string ++
  [("p", call .timeoutPrecommit), ("a", recv (newRound "p" 1 2)),
   ("b", recv (newRound "p" 1 2))] ++
  locking 2 block.string ++ [("p", call .gracePeriod)] ++ exchange 2 block.string ++
  committing "a" "b" 2 block.string

/-- A beacon tick later, still at height one, the timer of the second round fires for no block, and
`b` commits that. -/
def splitRun : List Event :=
  commitRun ++ certifying 2 block.string ++
  ticks ++ [("a", recv (newRound "p" 1 1))] ++ locking 1 Cid.undef.string ++
  [("p", call .gracePeriod)] ++ exchange 1 Cid.undef.string ++
  committing "b" "a" 1 Cid.undef.string

/-- After the commit of `a` the announcement reaches `b`, which commits the block as well. -/
def agreedRun : List Event := commitRun ++ committing "b" "a" 2 block.string

/-! ## An encoding that leaves nothing out -/

namespace Exact

instance : Code Bool := .ofInjective Bool.toNat fun a b h => by cases a <;> cases b <;> simp_all

instance : Code UInt16 := .ofInjective UInt16.toNat fun _ _ h => UInt16.toNat.inj h

instance : Code MsgType :=
  .ofInjective
    (fun
      | .tx => (0, 0)
      | .block => (1, 0)
      | .consensus => (2, 0)
      | .other n => (3, n))
    fun a b h => by cases a <;> cases b <;> simp_all

instance : Code ConsensusMsgType :=
  .ofInjective
    (fun
      | .newRound => (0, 0)
      | .proposal => (1, 0)
      | .vote => (2, 0)
      | .block => (3, 0)
      | .evidence => (4, 0)
      | .other n => (5, n))
    fun a b h => by cases a <;> cases b <;> simp_all

instance : Code VoteType :=
  .ofInjective
    (fun
      | .preVote => (0, 0)
      | .preCommit => (1, 0)
      | .other n => (2, n))
    fun a b h => by cases a <;> cases b <;> simp_all

instance : Code ConsensusMsgNewRound :=
  .ofInjective (fun m => (m.height, m.round, m.lastCommitRound, m.timestamp))
    fun ⟨_, _, _, _⟩ ⟨_, _, _, _⟩ h => by simpa using h

instance : Code ConsensusMsgProposal :=
  .ofInjective (fun m => (m.height, m.round, m.blockID, m.timestamp))
    fun ⟨_, _, _, _⟩ ⟨_, _, _, _⟩ h => by simpa using h

instance : Code ConsensusMsgVote :=
  .ofInjective (fun m => (m.type, m.height, m.round, m.blockID, m.timestamp, m.validator))
    fun ⟨_, _, _, _, _, _⟩ ⟨_, _, _, _, _, _⟩ h => by simpa using h

instance : Code ConsensusMsgEvidence :=
  .ofInjective (fun m => (m.toConsensusMsgVote, m.accepted))
    fun ⟨_, _⟩ ⟨_, _⟩ h => by simpa using h

instance : Code ConsensusMsgBlock :=
  .ofInjective (fun m => (m.height, m.round, m.cid, m.validators, m.signature))
    fun ⟨_, _, _, _, _⟩ ⟨_, _, _, _, _⟩ h => by simpa using h

instance : Code ConsensusMsg :=
  .ofInjective (fun m => (m.type, m.newRound, m.proposal, m.vote, m.block, m.evidence))
    fun ⟨_, _, _, _, _, _⟩ ⟨_, _, _, _, _, _⟩ h => by simpa using h

instance : Code TxMsg :=
  .ofInjective (fun m => (m.tx, m.ttl)) fun ⟨_, _⟩ ⟨_, _⟩ h => by simpa using h

instance : Code BlockMsg :=
  .ofInjective BlockMsg.block fun ⟨_⟩ ⟨_⟩ h => congrArg BlockMsg.mk h

instance : Code Msg :=
  .ofInjective
    (fun m => (m.type, m.sender, m.chain, m.tx, m.block, m.consensus, m.timestamp, m.signature,
      m.key))
    fun ⟨_, _, _, _, _, _, _, _, _⟩ ⟨_, _, _, _, _, _, _, _, _⟩ h => by simpa using h

/-- The sample library with the message itself for its encoding. -/
@[reducible] def exactLib : CryptoLib := { cryptoLib with marshalMsg m := .ok (Code.put m []) }

end Exact

end Didem.Sample
