import Didem.Lib.Writes
import Didem.Storage.Store
import Mathlib.Data.String.Basic

/-!
# The in-memory store

`pkg/storage/memstore.go`. The Go maps are finite maps; `bState` answers the zero value for a
block it has no entry of, which is `Unvalidated`. The map `claims` has no writer and is left out.

What indexing does to the store is described once, by the writes of an entry to each of the three
indexes (`didWrites`, `nodeWrites`, and the single write of the transaction's block). An
`applyTxs` that succeeds is exactly those logs (`applyTxs_ok`); everything about its order is then
a fact about logs.
-/

set_option autoImplicit false

namespace Didem.Storage

open Lib

/-- `MemStore`. -/
structure MemStore where
  objects : Finmap (fun _ : Cid => Obj) := ∅
  txbIndex : Finmap (fun _ : TxID => BlockID) := ∅
  bState : Finmap (fun _ : BlockID => BlockState) := ∅
  nodes : Finmap (fun _ : String => Cid) := ∅
  dids : Finmap (fun _ : String => Cid) := ∅
  lastBlock : BlockID := .undef
  genesisApplied : Bool := false
  deriving DecidableEq

namespace MemStore

/-! ## Objects -/

/-- `StartTest`: the maps are copied, the last block and the genesis flag are not. -/
def startTest (m : MemStore) : Outcome Err MemStore :=
  .ok { m with lastBlock := .undef, genesisApplied := false }

def completeTest (m : MemStore) : Outcome Err Unit × MemStore := (.ok (), m)

def putObj [Hash] (o : Obj) (m : MemStore) : Cid × MemStore :=
  (Hash.sum o, { m with objects := m.objects.insert (Hash.sum o) o })

/-- The four getters: look the object up and decode it. -/
def getObj {α : Type} (unmarshal : Obj → Outcome Err α) (m : MemStore) (id : Cid) : Outcome Err α :=
  match m.objects.lookup id with
  | none => .err .notFound
  | some d => (unmarshal d).mapErr (·.wrap "unmarshalling ")

def putTx [Hash] (t : Tx) (m : MemStore) : Outcome Err Cid × MemStore :=
  let (c, m) := m.putObj (.tx t)
  (.ok c, m)

def getTx (m : MemStore) (id : TxID) : Outcome Err Tx := m.getObj unmarshalTx id

def putBlock [Hash] (b : Block) (m : MemStore) : Outcome Err Cid × MemStore :=
  let (c, m) := m.putObj (marshalBlock b)
  (.ok c, m)

/-- `GetBlock`. The identifier of the block it returns is not set. -/
def getBlock (m : MemStore) (id : BlockID) : Outcome Err Block := m.getObj unmarshalBlock id

def putSet [Hash] (set : TxSet) (m : MemStore) : Outcome Err Cid × MemStore :=
  let (c, m) := m.putObj (marshalSet set)
  (.ok c, m)

def getSet (m : MemStore) (id : Cid) : Outcome Err TxSet := m.getObj unmarshalSet id

/-- `AllTx`, that is `allTxCids`. -/
def allTx (m : MemStore) (b : Block) : Outcome Err TxMap :=
  allTxFrom m.getSet m.getTx m.objects.keys b.txRoot

/-! ## Metadata -/

def getTxBlock (m : MemStore) (id : TxID) : Outcome Err Block :=
  match m.txbIndex.lookup id with
  | none => .err .notFound
  | some blkId => m.getBlock blkId

/-- `ApplyTx`. The payload is asserted to be of the type the transaction's type names, and the
document of a DID payload is dereferenced. -/
def applyTx (id : TxID) (t : Tx) (m : MemStore) : Outcome Err Unit × MemStore :=
  match t.type, t.data with
  | .did, some (.did (some document)) =>
    (.ok (), { m with dids := m.dids.insert document.id id })
  | .did, _ => (.panic, m)
  | .vc, _ => (.ok (), m)
  | .node, some (.node n) =>
    match t.action with
    | .add => (.ok (), { m with nodes := m.nodes.insert n.id id })
    | .revoke => (.ok (), { m with nodes := m.nodes.erase n.id })
    | _ => (.ok (), m)
  | .node, _ => (.panic, m)
  | .other _, _ => (.ok (), m)

/-- The loop of `applyTxs`. -/
def applyTxs (b : BlockID) : List TxEntry → MemStore → Outcome Err Unit × MemStore
  | [], m => (.ok (), m)
  | e :: es, m =>
    match applyTx e.1 e.2 { m with txbIndex := m.txbIndex.insert e.1 b } with
    | (.ok (), m) => applyTxs b es m
    | (r, m) => (r.mapErr (·.wrap "applying tx"), m)

def indexBlockTx (ω : Runtime) (b : BlockID) (m : MemStore) : Outcome Err Unit × MemStore :=
  match m.getBlock b with
  | .panic => (.panic, m)
  | .err e => (.err e, m)
  | .ok block =>
    match m.allTx block with
    | .panic => (.panic, m)
    | .err e => (.err (e.wrap "getting block tx"), m)
    | .ok txs => m.applyTxs b (ω.order txs.entries)

/-- `m.bState[b]`. -/
def stateOf (m : MemStore) (b : BlockID) : BlockState := (m.bState.lookup b).getD .unvalidated

/-- `MarkBlock`: the new state is written first, and stays when indexing fails. -/
def markBlock (ω : Runtime) (b : BlockID) (s : BlockState) (m : MemStore) :
    Outcome Err Unit × MemStore :=
  let c := m.stateOf b
  let m := { m with bState := m.bState.insert b s }
  if c = .validated ∧ s = .accepted then m.indexBlockTx ω b else (.ok (), m)

def updateLastApplied (id : BlockID) (m : MemStore) : Outcome Err Unit × MemStore :=
  (.ok (), { m with lastBlock := id })

def getLastApplied (m : MemStore) : Outcome Err (Option Block) :=
  if m.lastBlock = .undef then .ok none
  else do return some (← m.getBlock m.lastBlock)

/-- `LookupDID`. The object behind an index entry is a transaction; it is decoded as a document. -/
def lookupDID (m : MemStore) (id : String) : Outcome Err (Option Document) :=
  match m.dids.lookup id with
  | none => .err .notFound
  | some cid => do return some (← m.getObj unmarshalDocument cid)

def nodesList (m : MemStore) : Outcome Err (List String) := .ok (sortedList m.nodes.keys)

def node (m : MemStore) (id : String) : Outcome Err Node :=
  match m.nodes.lookup id with
  | none => .err .notFound
  | some cid =>
    match m.objects.lookup cid with
    | none => .err .notFound
    | some d =>
      match (unmarshalTx d).mapErr (·.wrap "unmarshalling") with
      | .panic => .panic
      | .err e => .err e
      | .ok t =>
        match t.type, t.data with
        | .node, some (.node n) => .ok n
        | _, _ => .panic

/-- The map `ApplyGenesis` collects while it stores the genesis transactions. -/
def putGenesis [Hash] : List Tx → TxMap → MemStore → TxMap × MemStore
  | [], txs, m => (txs, m)
  | t :: ts, txs, m =>
    let (c, m) := m.putObj (.tx t)
    putGenesis ts (txs.insert c t) m

/-- `ApplyGenesis`: the flag is set first; the transactions are indexed under no block. -/
def applyGenesis [Hash] (ω : Runtime) (gen : GenesisInfo) (m : MemStore) :
    Outcome Err Unit × MemStore :=
  let (txs, m) := putGenesis gen.txs ∅ { m with genesisApplied := true }
  m.applyTxs .undef (ω.order txs.entries)

instance [Hash] : Store MemStore where
  startTest := startTest
  completeTest := completeTest
  putTx _ := putTx
  getTx := getTx
  putBlock _ := putBlock
  getBlock := getBlock
  allTx := allTx
  putSet _ := putSet
  getSet := getSet
  getTxBlock := getTxBlock
  markBlock := markBlock
  updateLastApplied := updateLastApplied
  getLastApplied := getLastApplied
  lookupDID := lookupDID
  nodes := nodesList
  node := node
  hasGenesisApplied := genesisApplied
  applyGenesis := applyGenesis
  applyTx := applyTx

/-! ## What the getters return -/

theorem getObj_eq_ok {α : Type} {unmarshal : Obj → Outcome Err α} {m : MemStore} {id : Cid} {a : α}
    (h : m.getObj unmarshal id = .ok a) :
    ∃ d, m.objects.lookup id = some d ∧ unmarshal d = .ok a := by
  unfold getObj at h
  split at h
  · exact absurd h (by simp)
  · rename_i d hd
    exact ⟨d, hd, Outcome.mapErr_eq_ok.mp h⟩

/-- The object under the CID is a transaction. -/
def HoldsTx (m : MemStore) (id : Cid) : Prop := ∃ t, m.objects.lookup id = some (.tx t)

theorem holdsTx_of_getTx {m : MemStore} {id : TxID} {t : Tx} (h : m.getTx id = .ok t) :
    m.HoldsTx id := by
  obtain ⟨d, hd, hu⟩ := getObj_eq_ok h
  obtain ⟨t₀, data, rfl, -, -⟩ := unmarshalTx_eq_ok.mp hu
  exact ⟨t₀, hd⟩

/-- What a block is and holds is a matter of the objects. -/
theorem getBlock_congr {m m' : MemStore} (h : m'.objects = m.objects) :
    m'.getBlock = m.getBlock := by
  funext id
  simp only [getBlock, getObj, h]

theorem allTx_congr {m m' : MemStore} (h : m'.objects = m.objects) : m'.allTx = m.allTx := by
  have hset : m'.getSet = m.getSet := by funext c; simp only [getSet, getObj, h]
  have htx : m'.getTx = m.getTx := by funext c; simp only [getTx, getObj, h]
  funext b
  rw [allTx, allTx, hset, htx, h]

/-- Every transaction `AllTx` returns is stored. -/
theorem holdsTx_of_allTx {m : MemStore} {b : Block} {txs : TxMap} (h : m.allTx b = .ok txs)
    {id : TxID} {t : Tx} (hl : txs.lookup id = some t) : m.HoldsTx id :=
  holdsTx_of_getTx (getTx_of_allTxFrom h hl)

theorem getObj_ne_panic {α : Type} {u : Obj → Outcome Err α} (hu : ∀ d, u d ≠ .panic)
    (m : MemStore) (c : Cid) : m.getObj u c ≠ .panic := by
  unfold getObj
  cases m.objects.lookup c with
  | none => simp
  | some d =>
    rw [ne_eq, Outcome.mapErr_eq_panic]
    exact hu d

theorem getSet_ne_panic (m : MemStore) (c : Cid) : m.getSet c ≠ .panic :=
  m.getObj_ne_panic unmarshalSet_ne_panic c

theorem getBlock_ne_panic (m : MemStore) (id : BlockID) : m.getBlock id ≠ .panic :=
  m.getObj_ne_panic unmarshalBlock_ne_panic id

/-- What can be read as a set is stored. -/
theorem mem_keys_of_getSet {m : MemStore} {c : Cid} {set : TxSet} (h : m.getSet c = .ok set) :
    c ∈ m.objects.keys := by
  obtain ⟨d, hd, -⟩ := getObj_eq_ok h
  exact Finmap.mem_keys.mpr (Finmap.lookup_isSome.mp (by simp [hd]))

/-! ## Indexing as write logs -/

/-- The writes of a transaction to the DID index: one entry, whatever the action. -/
def didWrites (e : TxEntry) : List (Write String Cid) :=
  match e.2.type, e.2.data with
  | .did, some (.did (some document)) => [⟨document.id, some e.1⟩]
  | _, _ => []

/-- The writes of a transaction to the node index. -/
def nodeWrites (e : TxEntry) : List (Write String Cid) :=
  match e.2.type, e.2.data, e.2.action with
  | .node, some (.node n), .add => [⟨n.id, some e.1⟩]
  | .node, some (.node n), .revoke => [⟨n.id, none⟩]
  | _, _, _ => []

/-- `ApplyTx` does not panic on the transaction. -/
def applicable (e : TxEntry) : Bool :=
  match e.2.type, e.2.data with
  | .did, some (.did (some _)) => true
  | .did, _ => false
  | .node, some (.node _) => true
  | .node, _ => false
  | _, _ => true

/-- `ApplyTx` in full. -/
theorem applyTx_eq (e : TxEntry) (m : MemStore) :
    applyTx e.1 e.2 m = if applicable e then
        (.ok (), { m with dids := Write.applyAll m.dids (didWrites e)
                          nodes := Write.applyAll m.nodes (nodeWrites e) })
      else (.panic, m) := by
  obtain ⟨id, ⟨version, ts, sender, type, action, data, signature⟩⟩ := e
  cases type with
  | did => rcases data with _ | ((_ | document) | n | d) <;> rfl
  | vc => rfl
  | node => rcases data with _ | (d | n | d) <;> cases action <;> rfl
  | other n => rfl

/-- However it ends, indexing transactions writes the three indexes and nothing else. -/
theorem applyTxs_writes (b : BlockID) (es : List TxEntry) (m : MemStore) :
    ∃ txbIndex dids nodes,
      (applyTxs b es m).2 = { m with txbIndex := txbIndex, dids := dids, nodes := nodes } := by
  induction es generalizing m with
  | nil => exact ⟨m.txbIndex, m.dids, m.nodes, rfl⟩
  | cons e es ih =>
    rw [applyTxs, applyTx_eq]
    by_cases he : applicable e
    · rw [if_pos he]
      obtain ⟨txbIndex, dids, nodes, h⟩ := ih _
      exact ⟨txbIndex, dids, nodes, h⟩
    · rw [if_neg he]
      exact ⟨m.txbIndex.insert e.1 b, m.dids, m.nodes, rfl⟩

/-- Storing the genesis transactions adds objects and changes nothing else. -/
theorem snd_putGenesis [Hash] (ts : List Tx) (txs : TxMap) (m : MemStore) :
    (putGenesis ts txs m).2 = { m with objects := (putGenesis ts txs m).2.objects } := by
  induction ts generalizing txs m with
  | nil => rfl
  | cons t ts ih => exact ih _ _

/-- A mark that is not the acceptance of a validated block only writes the state. -/
theorem markBlock_of_not_indexing (ω : Runtime) {b : BlockID} {s : BlockState} {m : MemStore}
    (h : ¬ (m.stateOf b = .validated ∧ s = .accepted)) :
    m.markBlock ω b s = (.ok (), { m with bState := m.bState.insert b s }) := by
  simp only [markBlock, if_neg h]

/-- However it ends, a mark writes the state of its block and the three indexes. -/
theorem markBlock_writes (ω : Runtime) (b : BlockID) (s : BlockState) (m : MemStore) :
    ∃ txbIndex dids nodes, (m.markBlock ω b s).2 =
      { m with
        bState := m.bState.insert b s, txbIndex := txbIndex, dids := dids, nodes := nodes } := by
  simp only [markBlock]
  split
  · unfold indexBlockTx
    repeat' split
    · exact ⟨m.txbIndex, m.dids, m.nodes, rfl⟩
    · exact ⟨m.txbIndex, m.dids, m.nodes, rfl⟩
    · exact ⟨m.txbIndex, m.dids, m.nodes, rfl⟩
    · exact ⟨m.txbIndex, m.dids, m.nodes, rfl⟩
    · exact applyTxs_writes _ _ _
  · exact ⟨m.txbIndex, m.dids, m.nodes, rfl⟩

/-- Marking a block, however it ends, does not touch the objects. -/
theorem objects_markBlock (ω : Runtime) (b : BlockID) (s : BlockState) (m : MemStore) :
    (m.markBlock ω b s).2.objects = m.objects := by
  obtain ⟨txbIndex, dids, nodes, h⟩ := markBlock_writes ω b s m
  rw [h]

/-- The state an `applyTxs` that succeeds leaves. -/
def indexed (b : BlockID) (es : List TxEntry) (m : MemStore) : MemStore :=
  { m with
    txbIndex := Write.applyAll m.txbIndex (es.map fun e => ⟨e.1, some b⟩)
    dids := Write.applyAll m.dids (es.flatMap didWrites)
    nodes := Write.applyAll m.nodes (es.flatMap nodeWrites) }

/-- **Indexing succeeds exactly on applicable transactions, and then is its three logs.** -/
theorem applyTxs_ok {b : BlockID} {es : List TxEntry} {m m' : MemStore} :
    applyTxs b es m = (.ok (), m') ↔ (∀ e ∈ es, applicable e) ∧ m' = indexed b es m := by
  induction es generalizing m with
  | nil => simp only [applyTxs, indexed, Prod.mk.injEq, true_and, List.not_mem_nil]; tauto
  | cons e es ih =>
    rw [applyTxs, applyTx_eq]
    by_cases he : applicable e
    · rw [if_pos he]
      simp only [ih, List.forall_mem_cons, he, true_and]
      simp [indexed, Write.applyAll_append, Write.apply]
    · simp [he, Outcome.mapErr]

end MemStore
end Didem.Storage
