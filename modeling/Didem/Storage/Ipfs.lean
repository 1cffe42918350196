import Didem.Lib.WorkerPool
import Didem.Lib.Writes
import Didem.Storage.TxSet
import Mathlib.Data.String.Basic

/-!
# The IPFS store

`internal/storage/ipfs.go`: objects live in IPFS, metadata in a key-value database. The objects
are the content the node can fetch; the metadata is one map from keys to values, with the tables
told apart by the first byte of the key (`typedKey`). As with objects, a value is represented by
what was written (`MetaVal`) and read back by decoders: the last-block key is written as raw
bytes in one place and as text in another, and only the first can be read.

A batch is a log of writes. `pfTipApply`, the batch of a trial, is what a store started with
`StartTest` reads through and writes to; the batch of `indexBlock` outside a trial reaches the
database only when it commits. `CompleteTest` closes `pfTipApply` without looking whether there
is one, and closing a nil batch is a nil dereference.
-/

set_option autoImplicit false

namespace Didem.Storage

open Lib

/-! ## Keys and values -/

/-- `metadataKeyType`. -/
inductive MetadataKeyType where
  | txBlock
  | blockState
  | did
  | didHistory
  | activeClaim
  | nodes
  | latestBlock
  | genesis
  deriving DecidableEq, Repr

/-- The byte of a table, `iota + 1`. -/
def MetadataKeyType.byte : MetadataKeyType → UInt8
  | .txBlock => 1
  | .blockState => 2
  | .did => 3
  | .didHistory => 4
  | .activeClaim => 5
  | .nodes => 6
  | .latestBlock => 7
  | .genesis => 8

/-- `tableSep`. -/
def tableSep : UInt8 := 58

/-- `typedKey`. -/
def typedKey (kType : MetadataKeyType) (parts : List String) : Bytes :=
  kType.byte :: List.intercalate [tableSep] (parts.map stringBytes)

/-- A metadata value, by what was written. -/
inductive MetaVal where
  /-- `Cid.Bytes`. -/
  | cid (c : Cid)
  /-- The text of a CID. -/
  | text (s : String)
  /-- A block state, as four bytes. -/
  | state (s : BlockState)
  | empty
  deriving DecidableEq, Repr

/-- `cid.Cast`, which is also `cid.Parse` of bytes. The text form starts with a multibase letter,
which is not a CID version. -/
def castCid : MetaVal → Option Cid
  | .cid c => if c = .undef then none else some c
  | _ => none

/-- The block state under a key of the block-state table, which holds nothing else. -/
def MetaVal.toState : MetaVal → BlockState
  | .state s => s
  | _ => .unvalidated

abbrev Batch := List (Write Bytes MetaVal)

/-- `IPFSStorage`. -/
structure IPFSStorage where
  objects : Finmap (fun _ : Cid => Obj) := ∅
  metadata : Finmap (fun _ : Bytes => MetaVal) := ∅
  pfTipApply : Option Batch := none
  deriving DecidableEq

namespace IPFSStorage

variable [CidText] [Hash] [SigLib]

/-! ## Objects -/

def putRaw (ω : Runtime) (d : Obj) (s : IPFSStorage) : Outcome Err Cid × IPFSStorage :=
  if ω.put (Hash.sum d) then
    (.ok (Hash.sum d), { s with objects := s.objects.insert (Hash.sum d) d })
  else (.err (.new "block put"), s)

def getRaw (s : IPFSStorage) (id : Cid) : Outcome Err Obj :=
  match s.objects.lookup id with
  | none => .err (.new "block was not found locally")
  | some d => .ok d

/-- `PutTx`. Here the encoding error is returned. -/
def putTx (ω : Runtime) (t : Tx) (s : IPFSStorage) : Outcome Err Cid × IPFSStorage :=
  match t.marshal with
  | .panic => (.panic, s)
  | .err e => (.err e, s)
  | .ok _ => s.putRaw ω (.tx t)

def getTx (s : IPFSStorage) (id : TxID) : Outcome Err Tx := do unmarshalTx (← s.getRaw id)

def putBlock (ω : Runtime) (b : Block) (s : IPFSStorage) : Outcome Err Cid × IPFSStorage :=
  s.putRaw ω (marshalBlock b)

/-- `GetBlock`, which sets the identifier. -/
def getBlock (s : IPFSStorage) (id : BlockID) : Outcome Err Block := do
  let b ← (unmarshalBlock (← s.getRaw id)).mapErr (·.wrap "unmarshalling block")
  return { b with id }

def putSet (ω : Runtime) (txs : TxSet) (s : IPFSStorage) : Outcome Err Cid × IPFSStorage :=
  match s.putRaw ω (marshalSet txs) with
  | (.panic, s) => (.panic, s)
  | (.err e, s) => (.err (e.wrap "storing txset"), s)
  | (.ok c, s) =>
    if ω.flip c && !ω.pin c then (.err (.wrap (.new "pin") "pinning txset"), s) else (.ok c, s)

def getSet (s : IPFSStorage) (id : Cid) : Outcome Err TxSet := do
  (unmarshalSet (← s.getRaw id)).mapErr (·.wrap "unmarshalling block")

def allTx (s : IPFSStorage) (b : Block) : Outcome Err TxMap :=
  allTxFrom s.getSet s.getTx s.objects.keys b.txRoot

/-! ## Metadata -/

def startTest (s : IPFSStorage) : Outcome Err IPFSStorage :=
  match s.pfTipApply with
  | some _ => .err (.new "test apply already started")
  | none => .ok { s with pfTipApply := some [] }

def completeTest (s : IPFSStorage) : Outcome Err Unit × IPFSStorage :=
  match s.pfTipApply with
  | none => (.panic, s)
  | some _ => (.ok (), { s with pfTipApply := none })

/-- The metadata a store sees: an indexed batch is read over the database. -/
def view (s : IPFSStorage) : Finmap (fun _ : Bytes => MetaVal) :=
  match s.pfTipApply with
  | some batch => Write.applyAll s.metadata batch
  | none => s.metadata

def metadataGet (s : IPFSStorage) (key : Bytes) : Option MetaVal := s.view.lookup key

def metadataSet (key : Bytes) (value : MetaVal) (s : IPFSStorage) : IPFSStorage :=
  match s.pfTipApply with
  | some batch => { s with pfTipApply := some (batch ++ [⟨key, some value⟩]) }
  | none => { s with metadata := s.metadata.insert key value }

/-- `UpdateLastApplied` writes the text of the identifier. -/
def updateLastApplied (id : BlockID) (s : IPFSStorage) : Outcome Err Unit × IPFSStorage :=
  (.ok (), s.metadataSet (typedKey .latestBlock []) (.text id.string))

/-- `GetLastApplied` reads its bytes. -/
def getLastApplied (s : IPFSStorage) : Outcome Err (Option Block) :=
  match s.metadataGet (typedKey .latestBlock []) with
  | none => .ok none
  | some d =>
    match castCid d with
    | none => .err (.wrap (.new "cid") "casting block ref")
    | some bid => do return some (← s.getBlock bid)

/-- `GetTxBlock`. A miss is the error of the database, wrapped, and not `storage.ErrNotFound`. -/
def getTxBlock (s : IPFSStorage) (id : TxID) : Outcome Err Block :=
  match s.metadataGet (typedKey .txBlock [id.string]) with
  | none => .err (.wrap .pebbleNotFound "looking up tx block")
  | some bcid =>
    match castCid bcid with
    | none => .err (.wrap (.new "cid") "casting tx block cid")
    | some cid => s.getBlock cid

/-! ## Indexing -/

/-- `indexTxNode`: the writes it makes and how it ends. -/
def indexTxNode (ntx : Tx) (id : TxID) : Outcome Err Unit × Batch :=
  match ntx.data with
  | some (.node c) =>
    let k := typedKey .nodes [c.id]
    match ntx.action with
    | .add => (.ok (), [⟨k, some (.cid id)⟩])
    | .revoke => (.ok (), [⟨k, none⟩])
    | _ => (.err (.new "unsupported action"), [])
  | _ => (.panic, [])

/-- `indexTxDID`. The history entry is written before the action is looked at. -/
def indexTxDID (dtx : Tx) (id : TxID) : Outcome Err Unit × Batch :=
  match dtx.data with
  | some (.did (some document)) =>
    let k := typedKey .did [document.id]
    let history : Write Bytes MetaVal :=
      ⟨typedKey .didHistory [document.id, id.string], some (.cid id)⟩
    match dtx.action with
    | .add | .update => (.ok (), [history, ⟨k, some (.cid id)⟩])
    | .revoke => (.ok (), [history, ⟨k, none⟩])
    | .other _ => (.err (.new "unsupported action"), [history])
  | _ => (.panic, [])

/-- `ApplyTx` into a batch. It recovers from panics. -/
def applyTxTo (id : TxID) (t : Tx) : Outcome Err Unit × Batch :=
  let indexed : Outcome Err Unit × Batch :=
    match t.type with
    | .node => indexTxNode t id
    | .did => indexTxDID t id
    | .vc => (.err (.new "not implemented"), [])
    | .other _ => (.err (.new "unsupported tx type"), [])
  match t.type, indexed with
  | _, (.panic, ws) => (.err (.new "failed to apply tx"), ws)
  | .other _, r => r
  | _, (r, ws) => (r.mapErr (·.wrap ("indexing tx " ++ id.string)), ws)

/-- `ApplyTx` as the validator calls it, without a batch in its context. -/
def applyTx (id : TxID) (t : Tx) (s : IPFSStorage) : Outcome Err Unit × IPFSStorage :=
  match s.pfTipApply with
  | none => (.err (.new "applying tx without batch"), s)
  | some batch =>
    let (r, ws) := applyTxTo id t
    (r, { s with pfTipApply := some (batch ++ ws) })

/-- The loop of `indexBlock`: the writes it made and how it ended. -/
def indexTxs (ω : Runtime) (inTest : Bool) (bId : BlockID) :
    List TxEntry → Outcome Err Unit × Batch
  | [] => (.ok (), [])
  | e :: es =>
    let w : Write Bytes MetaVal := ⟨typedKey .txBlock [e.1.string], some (.cid bId)⟩
    match applyTxTo e.1 e.2 with
    | (.panic, ws) => (.panic, w :: ws)
    | (.err err, ws) => (.err (err.wrap "applying tx"), w :: ws)
    | (.ok (), ws) =>
      if !inTest && ω.flip e.1 && !ω.pin e.1 then (.err (.wrap (.new "pin") "pinning block"), w :: ws)
      else
        let (r, rest) := indexTxs ω inTest bId es
        (r, w :: ws ++ rest)

/-- `indexBlock`. -/
def indexBlock (ω : Runtime) (bId : BlockID) (s : IPFSStorage) : Outcome Err Unit × IPFSStorage :=
  match s.getBlock bId with
  | .panic => (.panic, s)
  | .err e => (.err (e.wrap "getting block"), s)
  | .ok b =>
    match s.allTx b with
    | .panic => (.panic, s)
    | .err e => (.err (e.wrap "getting block transactions"), s)
    | .ok txs =>
      if !ω.pin bId then (.err (.wrap (.new "pin") "pinning block"), s)
      else
        match s.pfTipApply with
        | some batch =>
          let (r, ws) := indexTxs ω true bId (ω.order txs.entries)
          (r, { s with pfTipApply := some (batch ++ ws) })
        | none =>
          match indexTxs ω false bId (ω.order txs.entries) with
          | (.ok (), ws) =>
            if ω.commit then (.ok (), { s with metadata := Write.applyAll s.metadata ws })
            else (.err (.wrap (.new "commit") "applying metadata batch index"), s)
          | (r, _) => (r, s)

/-- The recorded state of a block; four zero bytes stand for a missing one. -/
def stateOf (s : IPFSStorage) (id : BlockID) : BlockState :=
  ((s.metadataGet (typedKey .blockState [id.string])).map MetaVal.toState).getD .unvalidated

/-- `MarkBlock`. -/
def markBlock (ω : Runtime) (id : BlockID) (state : BlockState) (s : IPFSStorage) :
    Outcome Err Unit × IPFSStorage :=
  let cState := s.stateOf id
  let s := s.metadataSet (typedKey .blockState [id.string]) (.state state)
  if cState = .validated ∧ state = .accepted then
    match s.indexBlock ω id with
    | (.ok (), s) => (.ok (), s.metadataSet (typedKey .latestBlock []) (.cid id))
    | (r, s) => (r.mapErr (·.wrap "indexing block"), s)
  else (.ok (), s)

/-! ## Reading the indexes -/

def lookupDID (s : IPFSStorage) (did : String) : Outcome Err (Option Document) :=
  match s.metadataGet (typedKey .did [did]) with
  | none => .err .notFound
  | some txB =>
    match castCid txB with
    | none => .err (.wrap (.new "cid") "casting did tx cid")
    | some cid => do
      let t ← (s.getTx cid).mapErr (·.wrap "lookup id tx")
      if t.type ≠ .did then .err (.new "unexpected tx type")
      else
        match t.data with
        | some (.did document) => .ok document
        | _ => .panic

/-- The string a key of the node table was made of. -/
def nodeOfKey (key : Bytes) : String := (String.fromUTF8? ⟨(key.drop 1).toArray⟩).getD ""

/-- `Nodes`: the keys of the node table, in byte order, which for UTF-8 is the order of the
strings. -/
def nodes (s : IPFSStorage) : Outcome Err (List String) :=
  .ok (sortedList
    ((s.view.keys.filter fun key => key.head? = some MetadataKeyType.nodes.byte).image nodeOfKey))

def node (s : IPFSStorage) (id : String) : Outcome Err Node :=
  match s.metadataGet (typedKey .nodes [id]) with
  | none => .err .notFound
  | some v =>
    match castCid v with
    | none => .err (.wrap (.new "cid") "casting node cid")
    | some cid => do
      let nodeTx ← (s.getTx cid).mapErr (·.wrap "getting node tx")
      if nodeTx.type ≠ .node then .err (.new "unexpected tx type")
      else if nodeTx.action = .revoke then .err .notFound
      else
        match nodeTx.data with
        | some (.node n) => .ok n
        | _ => .panic

/-! ## The history of a DID -/

def allTxNWorkers : Nat := 3

/-- The CIDs `DIDHistory` collects: the whole table is scanned, whatever the id. -/
def historyCids (s : IPFSStorage) : Finset Cid :=
  (s.view.keys.filter fun key => key.head? = some MetadataKeyType.didHistory.byte).biUnion
    fun key => ((s.view.lookup key).bind castCid).toFinset

/-- The goroutines of `DIDHistory`. The channel for errors is never made, so an error cannot be
sent on it, nor received. -/
def historyPlan (s : IPFSStorage) : WorkerPool.Plan Cid Tx (List Tx) where
  work c :=
    match s.getTx c with
    | .ok t => some t
    | _ => none
  panics c := s.getTx c = .panic
  record t txs := txs ++ [t]
  onError := .halt
  feederWaits := true
  expires := false

/-- `DIDHistory`, with the CIDs in the order the runtime visits them in. -/
def didHistory (s : IPFSStorage) (_id : String) (keys : List Cid) :
    Conf (WorkerPool.Shared Cid (List Tx)) (WorkerPool.Place Cid Tx) :=
  WorkerPool.start s.historyPlan allTxNWorkers keys []

/-! ## Genesis -/

def hasGenesisApplied (s : IPFSStorage) : Bool :=
  (s.metadataGet (typedKey .genesis [])).isSome

/-- The loop of `ApplyGenesis`: the identifiers and the batch. -/
def applyGenesisTxs (ω : Runtime) :
    List Tx → IPFSStorage → Outcome Err (List Cid × Batch) × IPFSStorage
  | [], s => (.ok ([], []), s)
  | t :: ts, s =>
    match s.putTx ω t with
    | (.panic, s) => (.panic, s)
    | (.err e, s) => (.err (e.wrap "storing tx"), s)
    | (.ok cid, s) =>
      match applyTxTo cid t with
      | (.panic, _) => (.panic, s)
      | (.err e, _) => (.err (e.wrap "applying tx"), s)
      | (.ok (), ws) =>
        let (r, s) := applyGenesisTxs ω ts s
        ((do let (cids, batch) ← r; return (cid :: cids, ws ++ batch)), s)

/-- `ApplyGenesis`. The batch is one of its own, never the one of a trial. -/
def applyGenesis (ω : Runtime) (g : GenesisInfo) (s : IPFSStorage) :
    Outcome Err Unit × IPFSStorage :=
  match applyGenesisTxs ω g.txs s with
  | (.panic, s) => (.panic, s)
  | (.err e, s) => (.err e, s)
  | (.ok (cids, batch), s) =>
    match newTxSet (putSet ω) cids s with
    | (.panic, s) => (.panic, s)
    | (.err e, s) => (.err (e.wrap "storing tx set"), s)
    | (.ok set, s) =>
      if set.cid ≠ g.block.txRoot then
        (.err (.new ("calculated tx set does not match block root: got " ++ set.cid.string ++
          " wanted " ++ g.block.txRoot.string)), s)
      else
        match s.putBlock ω g.block with
        | (.panic, s) => (.panic, s)
        | (.err e, s) => (.err (e.wrap "putting block"), s)
        | (.ok bcid, s) =>
          let batch : Batch := batch ++
            [⟨typedKey .latestBlock [], some (.cid bcid)⟩, ⟨typedKey .genesis [], some .empty⟩]
          if ω.commit then (.ok (), { s with metadata := Write.applyAll s.metadata batch })
          else (.err (.wrap (.new "commit") "applying batch"), s)

instance : Store IPFSStorage where
  startTest := startTest
  completeTest := completeTest
  putTx := putTx
  getTx := getTx
  putBlock := putBlock
  getBlock := getBlock
  allTx := allTx
  putSet := putSet
  getSet := getSet
  getTxBlock := getTxBlock
  markBlock := markBlock
  updateLastApplied := updateLastApplied
  getLastApplied := getLastApplied
  lookupDID := lookupDID
  nodes := nodes
  node := node
  hasGenesisApplied := hasGenesisApplied
  applyGenesis := applyGenesis
  applyTx := applyTx

/-! ## What the getters depend on -/

section

omit [CidText] [Hash] [SigLib]

/-- What a block is and holds is a matter of the objects. -/
theorem getBlock_congr {s s' : IPFSStorage} (h : s'.objects = s.objects) :
    s'.getBlock = s.getBlock := by
  funext id
  simp only [getBlock, getRaw, h]

theorem allTx_congr {s s' : IPFSStorage} (h : s'.objects = s.objects) : s'.allTx = s.allTx := by
  have hset : s'.getSet = s.getSet := by funext c; simp only [getSet, getRaw, h]
  have htx : s'.getTx = s.getTx := by funext c; simp only [getTx, getRaw, h]
  funext b
  rw [allTx, allTx, hset, htx, h]

end
end IPFSStorage
end Didem.Storage
