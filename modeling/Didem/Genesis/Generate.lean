import Didem.Consensus.State
import Didem.Storage.Ipfs

/-!
# Making a genesis, and starting a node with it

`scripts/gengen/gen.go` makes the genesis of a test network: a key for each peer, a DID and a node
transaction for each key, a block over them. It prints the genesis and the secret keys;
`buildChainConfig` of `internal/config/chain.go` reads the one and `NewHandler` of
`internal/did/handler.go` the other, and starts a node on both.

An error ends the generator, by a panic, and the start of a node, by `Fatal`; both are panics here
(`must`). As everywhere a text is represented by what its encoder wrote into it: the configuration
is the genesis that was printed, or nothing.

Two things of the generator matter later. The key of a node is registered **as multibase text**,
where a document has it as text by its type. And a document is given its key under `Authentication`,
without a controller, and no verification method.
-/

set_option autoImplicit false

namespace Didem

open Lib Storage

/-- The operations on keys, and the encoder, that only the generator and the configuration call. -/
class KeyLib where
  /-- `Bls12381PrivateKey.Public`, as bytes. -/
  publicKey : Bytes → Bytes
  /-- `NewBls12391PrivateKeyFromBytes`. -/
  privateKey : Bytes → Option Bytes
  /-- `multibase.Encode` in base 58. -/
  encodeMultibase : Bytes → String
  /-- `msgpack.Marshal` of a block. -/
  encodeBlock : Block → Bytes

/-- An error ends the process. -/
def must {α : Type} : Outcome Err α → Outcome Err α
  | .ok a => .ok a
  | .err _ | .panic => .panic

/-- `if err != nil { panic(err) }` after a call. -/
def mustRun {σ α : Type} (p : Proc Err σ α) : Proc Err σ α :=
  fun s => (must (p.run s).1, (p.run s).2)

/-! ## `storage.NewBlock` -/

section

variable {S : Type} [Store S] [CryptoLib]

/-- The height after this parent; a block without one is at height zero. -/
def heightAfter (parent : BlockID) : Proc Err S UInt64 :=
  if parent = .undef then return 0
  else do
    let s ← .get
    let pb ← .lift ((Store.getBlock s parent).mapErr (·.wrap "getting parent"))
    return pb.height + 1

/-- `NewBlock`. -/
def newBlock (ω : Env) (parent : BlockID) (txs : List Cid) : Proc Err S Block := do
  let height ← heightAfter parent
  match ω.nonce with
  | none => .lift (.err (.wrap (.new "rand") "making nonce"))
  | some nonce =>
    let bloom ← .lift ((CryptoLib.makeBloom txs).mapErr (·.wrap "creating bloom"))
    let root ← Proc.wrap (·.wrap "making tx set") (newTxSet (Store.putSet ω.toRuntime) txs)
    return { version := blockVersion, parent, height, createdAt := ω.now, nonce, bloom
             txRoot := root.cid }

end

namespace Gengen

/-- What the generator does not decide. -/
structure GenEnv extends Env where
  /-- The key of each peer. -/
  key : Nat → Bytes
  /-- The time at which each transaction is made. -/
  clock : Nat → Int

/-- `identity`. -/
structure Identity where
  blsSk : Bytes
  blsPKMB : String
  pID : String
  deriving DecidableEq, Repr

/-- `strings.Split(s, ",")`. -/
def splitComma (s : String) : List String := (s.toList.splitOn ',').map String.ofList

def chainID : String := "testnet"

def didOf (i : Identity) : String := "did:didem:" ++ i.pID

/-- The document of a peer. -/
def document (i : Identity) : Document where
  id := didOf i
  authentication :=
    [{ id := didOf i, type := .bls12381G2Key2020, controller := ""
       publicKeyMultibase := i.blsPKMB }]

def didTx (ts : Int) (i : Identity) : Tx where
  version := version1
  ts := ts
  sender := i.pID
  type := .did
  action := .add
  data := some (.did (some (document i)))
  signature := []

/-- The entry of a peer in the node table. -/
def node (i : Identity) : Node where
  id := i.pID
  did := didOf i
  key := stringBytes i.blsPKMB

def nodeTx (ts : Int) (i : Identity) : Tx where
  version := version1
  ts := ts
  sender := i.pID
  type := .node
  action := .add
  data := some (.node (node i))
  signature := []

/-- The loop over the identities. -/
def txsFrom (clock : Nat → Int) : Nat → List Identity → List Tx
  | _, [] => []
  | n, i :: is => didTx (clock n) i :: nodeTx (clock (n + 1)) i :: txsFrom clock (n + 2) is

section

variable [KeyLib]

/-- The loop over the peers. -/
def identitiesFrom (key : Nat → Bytes) : Nat → List String → List Identity
  | _, [] => []
  | n, ident :: idents =>
    { blsSk := key n
      blsPKMB := KeyLib.encodeMultibase (KeyLib.publicKey (key n))
      pID := ident } :: identitiesFrom key (n + 1) idents

variable [CidText] [Hash] [SigLib] [CryptoLib]

/-- The loop that signs the transactions and stores them. -/
def signTxs (ω : Runtime) (sk : Bytes) : List Tx → Proc Err IPFSStorage (List Tx × List Cid)
  | [] => return ([], [])
  | t :: ts => do
    let msg ← .lift (must t.marshal)
    let sig ← .lift (must (CryptoLib.sign sk msg))
    let t := { t with signature := sig }
    let c ← mustRun (IPFSStorage.putTx ω t)
    let (ts, cs) ← signTxs ω sk ts
    return (t :: ts, c :: cs)

/-- `main`, on a store of its own. All transactions and the block are signed with the first key. -/
def generate (γ : GenEnv) (p2pIdents : String) :
    Proc Err IPFSStorage (GenesisInfo × List Identity) := do
  match identitiesFrom γ.key 0 (splitComma p2pIdents) with
  | [] => .lift .panic
  | first :: rest =>
    let identities := first :: rest
    let (txs, txCids) ← signTxs γ.toRuntime first.blsSk (txsFrom γ.clock 0 identities)
    let block ← mustRun (newBlock γ.toEnv .undef txCids)
    let sig ← .lift (must (CryptoLib.sign first.blsSk (KeyLib.encodeBlock block)))
    return ({ chainID, block := { block with signature := sig }, txs }, identities)

end

end Gengen

/-! ## The configuration of a node -/

/-- `config.Chain`. -/
structure ChainConfig where
  genesis : GenesisInfo := { chainID := "", block := {}, txs := [] }
  key : String := ""
  deriving DecidableEq, Repr

section

variable [SigLib]

/-- A transaction is encoded and decoded again, its payload having been decoded into a map. -/
def remarshal (t : Tx) : Outcome Err Tx := do
  let _ ← t.marshal.mapErr (·.wrap "remarshal tx")
  (unmarshalTx (.tx t)).mapErr (·.wrap "remarshal tx")

def remarshalAll : List Tx → Outcome Err (List Tx)
  | [] => .ok []
  | t :: ts => do return (← remarshal t) :: (← remarshalAll ts)

/-- `buildChainConfig`. -/
def buildChainConfig (genesis : Option GenesisInfo) (key : String) : Outcome Err ChainConfig :=
  match genesis with
  | none => .ok { key }
  | some g => do
    let block ← (unmarshalBlock (marshalBlock g.block)).mapErr
      (·.wrap "unmarshaling genesis info")
    return { genesis := { g with block, txs := ← remarshalAll g.txs }, key }

variable [KeyLib]

/-- The signing key of a node, if it is given one. -/
def signingKeyOf (key : String) : Outcome Err (Option Bytes) :=
  if key = "" then .ok none
  else
    match (SigLib.multibaseDecode (stringBytes key)).bind KeyLib.privateKey with
    | none => .panic
    | some sk => .ok (some sk)

/-- `NewHandler`, on the host `id`; there is no handler without a genesis. -/
def newHandler {S M : Type} [Store S] (ω : Runtime) (id : String) (cfg : ChainConfig) (memPool : M) :
    Proc Err S (Option (Consensus S M)) :=
  if cfg.genesis.chainID = "" then return none
  else do
    let signingKey ← .lift (signingKeyOf cfg.key)
    let c ← mustRun
      (Consensus.newConsensus ω id { signingKey, genesis := some cfg.genesis } memPool)
    return some c

end
end Didem
