import Didem.Lib.Run
import Didem.Storage.Proof.Content
import Didem.Storage.Proof.MapOrder

/-!
# The metadata of an `IPFSStorage` is the fold of what it indexed

A block that goes from validated to accepted adds its transactions to three tables: the entry of a
DID points to the transaction that last added or updated it, the entry of a node to the one that
added it, and the entry of a transaction to its block. Reading a table should then be the same as
going through the history of indexed blocks and taking the last transaction that has to do with the
key.

The history is kept beside the store (`Ledger`) while it is marked in any way, written to and filled
with content. The **log** of a history is what its blocks wrote, one after the other and each in one
fixed order; as long as no block has two transactions of one DID or one node, the order in which the
runtime visited them leaves the same in the tables. So the tables are the log (`Ledger.Inv.log`),
and a key of the log holds what was written to it last.
-/

set_option autoImplicit false

namespace Didem.Storage

open Lib

/-! ## Histories -/

/-- The DID a transaction is about. -/
def didOf (e : TxEntry) : Option String :=
  match e.2.type, e.2.data with
  | .did, some (.did (some document)) => some document.id
  | _, _ => none

theorem type_of_didOf {e : TxEntry} {d : String} (h : didOf e = some d) : e.2.type = .did := by
  unfold didOf at h
  split at h
  · assumption
  · exact absurd h (by simp)

theorem wellTyped_of_didOf {e : TxEntry} {d : String} (h : didOf e = some d) :
    e.2.wellTyped = true := by
  unfold didOf at h
  split at h
  · next htype hdata => simp [Tx.wellTyped, htype, hdata]
  · exact absurd h (by simp)

/-- The node a transaction is about. -/
def nodeOf (e : TxEntry) : Option String :=
  match e.2.type, e.2.data with
  | .node, some (.node n) => some n.id
  | _, _ => none

/-- A block that was indexed, with its transactions. -/
structure IndexedBlock where
  id : BlockID
  txs : TxMap

/-- At most one transaction for each DID and for each node. -/
structure OnePerKey (txs : TxMap) : Prop where
  did : txs.entries.Pairwise fun e e' => ∀ d, didOf e = some d → didOf e' ≠ some d
  node : txs.entries.Pairwise fun e e' => ∀ i, nodeOf e = some i → nodeOf e' ≠ some i

section

variable (h : List IndexedBlock)

/-- The transactions of a history, the oldest block first. -/
def applied : List TxEntry := h.flatMap fun r => r.txs.entries

/-- The last transaction about a DID, about a node, and the last block with a transaction. -/
def lastDid (d : String) : Option TxEntry := ((applied h).filter fun e => didOf e = some d).getLast?

def lastNode (i : String) : Option TxEntry := ((applied h).filter fun e => nodeOf e = some i).getLast?

def lastBlock (t : TxID) : Option IndexedBlock := (h.filter fun r => t ∈ r.txs.keys).getLast?

end

theorem lastBlock_concat (h : List IndexedBlock) (r : IndexedBlock) (t : TxID) :
    lastBlock (h ++ [r]) t = if t ∈ r.txs.keys then some r else lastBlock h t := by
  by_cases ht : t ∈ r.txs.keys <;> simp [lastBlock, ht]

theorem mem_of_lastBlock {h : List IndexedBlock} {t : TxID} {r : IndexedBlock}
    (hr : lastBlock h t = some r) : r ∈ h :=
  List.mem_of_mem_filter (List.mem_of_getLast? hr)

/-- **The indexes read as the history says.** -/
structure Folds [CidText] [Hash] [SigLib] (s : IPFSStorage) (h : List IndexedBlock) : Prop where
  did : ∀ d e, lastDid h d = some e → e.2.action ≠ .revoke →
    ∃ document, e.2.data = some (.did (some document)) ∧ Store.lookupDID s d = .ok (some document)
  didGone : ∀ d, (∀ e, lastDid h d = some e → e.2.action = .revoke) →
    Store.lookupDID s d = .err .notFound
  node : ∀ i e, lastNode h i = some e → e.2.action = .add →
    ∃ n, e.2.data = some (.node n) ∧ Store.node s i = .ok n
  nodeGone : ∀ i, (∀ e, lastNode h i = some e → e.2.action ≠ .add) →
    Store.node s i = .err .notFound
  nodes : ∃ l, Store.nodes s = .ok l ∧ l.Nodup ∧
    ∀ i, i ∈ l ↔ ∃ e, lastNode h i = some e ∧ e.2.action = .add
  txBlock : ∀ t r, lastBlock h t = some r →
    ∃ b, Store.getBlock s r.id = .ok b ∧ b.id = r.id ∧ Store.getTxBlock s t = .ok b
  txBlockGone : ∀ t, lastBlock h t = none →
    Store.getTxBlock s t = .err (.wrap .pebbleNotFound "looking up tx block")

namespace IPFSStorage

/-! ## What a transaction writes -/

section

variable [CidText]

/-- A DID transaction writes the entry of its DID, a node transaction that of its node. -/
theorem key_of_mem_applyTxTo {e : TxEntry} {w : Write Bytes MetaVal}
    (h : w ∈ (applyTxTo e.1 e.2).2) (hK : InTables w.key) :
    (∃ d, didOf e = some d ∧ w.key = typedKey .did [d]) ∨
      ∃ i, nodeOf e = some i ∧ w.key = typedKey .nodes [i] := by
  obtain ⟨id, ⟨version, ts, sender, type, action, data, signature⟩⟩ := e
  cases type with
  | did =>
    rcases data with _ | ((_ | document) | n | d) <;> cases action <;>
      simp [applyTxTo, indexTxDID] at h <;> rcases h with rfl | rfl <;>
      first
        | exact .inl ⟨document.id, rfl, rfl⟩
        | exact absurd rfl hK
  | vc => simp [applyTxTo] at h
  | node =>
    rcases data with _ | (d | n | d) <;> cases action <;>
      simp [applyTxTo, indexTxNode] at h <;> exact .inr ⟨n.id, rfl, by rw [h]⟩
  | other n => simp [applyTxTo] at h

/-- Transactions of different DIDs and nodes do not clash. -/
theorem pairwise_not_clash {b : BlockID} {txs : TxMap} (h : OnePerKey txs) :
    txs.entries.Pairwise fun e e' => ¬ Write.Clash (entryWrites b) InTables e e' := by
  refine h.did.imp₂ ?_ h.node
  intro e e' hdid hnode hclash
  rw [clash_entryWrites_iff] at hclash
  obtain ⟨w, hw, w', hw', hK, hkey, -⟩ := hclash
  rcases key_of_mem_applyTxTo hw hK with ⟨d, hd, hk⟩ | ⟨i, hi, hk⟩ <;>
    rcases key_of_mem_applyTxTo hw' (hkey ▸ hK) with ⟨d', hd', hk'⟩ | ⟨i', hi', hk'⟩ <;>
    rw [hk, hk', typedKey_inj] at hkey
  · exact hdid d hd (hkey.2 ▸ hd')
  · exact absurd hkey.1 (by simp)
  · exact absurd hkey.1 (by simp)
  · exact hnode i hi (hkey.2 ▸ hi')

/-- What a transaction that applies leaves at the entry of a DID, of a node and of a transaction. -/
def didVal (e : TxEntry) : Option MetaVal := if e.2.action = .revoke then none else some (.cid e.1)

def nodeVal (e : TxEntry) : Option MetaVal := if e.2.action = .add then some (.cid e.1) else none

section

variable {e : TxEntry} (happ : (applyTxTo e.1 e.2).1 = .ok ()) (b : BlockID)
include happ

theorem filter_entryWrites_did (d : String) :
    (entryWrites b e).filter (fun w => w.key = typedKey .did [d]) =
      if didOf e = some d then [⟨typedKey .did [d], didVal e⟩] else [] := by
  obtain ⟨id, ⟨version, ts, sender, type, action, data, signature⟩⟩ := e
  have htx := typedKey_ne .txBlock .did (by simp) [id.string] [d]
  have hnode := fun i => typedKey_ne .nodes .did (by simp) [i] [d]
  have hhistory := fun i => typedKey_ne .didHistory .did (by simp) i [d]
  cases type with
  | did =>
    rcases data with _ | ((_ | document) | n | a) <;> cases action <;>
      simp_all [applyTxTo, indexTxDID, Outcome.mapErr, entryWrites, didOf, didVal] <;>
      by_cases hd : document.id = d <;> simp [hd]
  | vc => simp [applyTxTo, Outcome.mapErr] at happ
  | node =>
    rcases data with _ | (a | n | a) <;> cases action <;>
      simp_all [applyTxTo, indexTxNode, Outcome.mapErr, entryWrites, didOf]
  | other n => simp [applyTxTo] at happ

theorem filter_entryWrites_node (i : String) :
    (entryWrites b e).filter (fun w => w.key = typedKey .nodes [i]) =
      if nodeOf e = some i then [⟨typedKey .nodes [i], nodeVal e⟩] else [] := by
  obtain ⟨id, ⟨version, ts, sender, type, action, data, signature⟩⟩ := e
  have htx := typedKey_ne .txBlock .nodes (by simp) [id.string] [i]
  have hdid := fun d => typedKey_ne .did .nodes (by simp) [d] [i]
  have hhistory := fun d => typedKey_ne .didHistory .nodes (by simp) d [i]
  cases type with
  | did =>
    rcases data with _ | ((_ | document) | n | a) <;> cases action <;>
      simp_all [applyTxTo, indexTxDID, Outcome.mapErr, entryWrites, nodeOf]
  | vc => simp [applyTxTo, Outcome.mapErr] at happ
  | node =>
    rcases data with _ | (a | n | a) <;> cases action <;>
      simp_all [applyTxTo, indexTxNode, Outcome.mapErr, entryWrites, nodeOf, nodeVal] <;>
      by_cases hi : n.id = i <;> simp [hi]
  | other n => simp [applyTxTo] at happ

end

/-- Every transaction, whether it applies or not, writes its own block entry and no other. -/
theorem filter_entryWrites_txBlock (b : BlockID) (e : TxEntry) (t : TxID) :
    (entryWrites b e).filter (fun w => w.key = typedKey .txBlock [t.string]) =
      if e.1 = t then [⟨typedKey .txBlock [t.string], some (.cid b)⟩] else [] := by
  have hrest : (applyTxTo e.1 e.2).2.filter (fun w => w.key = typedKey .txBlock [t.string]) =
      [] := by
    refine List.filter_eq_nil_iff.mpr fun w hw hkey => ?_
    refine ((writes_applyTxTo e).1 w hw).1 ?_
    rw [of_decide_eq_true hkey]
    exact head_typedKey .txBlock _
  rw [entryWrites, List.filter_cons, hrest]
  by_cases ht : e.1 = t
  · simp [ht]
  · simp [ht, Cid.string_inj]

/-! ## The log of a history -/

/-- What the blocks of a history write, one after the other. -/
def log (h : List IndexedBlock) : Batch := h.flatMap fun r => r.txs.entries.flatMap (entryWrites r.id)

/-- Every transaction of the history applied when it was indexed. -/
def AllApplied (h : List IndexedBlock) : Prop :=
  ∀ r ∈ h, ∀ e ∈ r.txs.entries, (applyTxTo e.1 e.2).1 = .ok ()

variable {h : List IndexedBlock}

/-- A key to which every transaction writes at most once holds what the last one that does wrote. -/
theorem lookup_log_of_slot {k : Bytes} {p : TxEntry → Prop} [DecidablePred p]
    {v : TxEntry → Option MetaVal} (hslot : ∀ r ∈ h, ∀ e ∈ r.txs.entries,
      (entryWrites r.id e).filter (fun w => w.key = k) = if p e then [⟨k, v e⟩] else []) :
    (Write.applyAll ∅ (log h)).lookup k = (((applied h).filter p).getLast?).bind v := by
  have hfilter : (log h).filter (fun w => w.key = k) =
      ((applied h).filter p).map fun e => ⟨k, v e⟩ := by
    have hblock : ∀ es : List TxEntry,
        es.flatMap (fun e => if p e then [(⟨k, v e⟩ : Write Bytes MetaVal)] else []) =
          (es.filter p).map fun e => ⟨k, v e⟩ := by
      intro es
      induction es with
      | nil => rfl
      | cons e es ih => by_cases he : p e <;> simp [he, ih]
    rw [← hblock, applied, log, List.filter_flatMap, List.flatMap_assoc]
    refine List.flatMap_congr fun r hr => ?_
    rw [List.filter_flatMap]
    exact List.flatMap_congr (hslot r hr)
  rw [Write.lookup_applyAll_eq_getLast, hfilter, List.getLast?_map]
  cases ((applied h).filter p).getLast? <;> simp

theorem lookup_log_did (happ : AllApplied h) (d : String) :
    (Write.applyAll ∅ (log h)).lookup (typedKey .did [d]) = (lastDid h d).bind didVal :=
  lookup_log_of_slot fun r hr e he => filter_entryWrites_did (happ r hr e he) r.id d

theorem lookup_log_node (happ : AllApplied h) (i : String) :
    (Write.applyAll ∅ (log h)).lookup (typedKey .nodes [i]) = (lastNode h i).bind nodeVal :=
  lookup_log_of_slot fun r hr e he => filter_entryWrites_node (happ r hr e he) r.id i

/-- Indexing transactions sets their block entries and no others. -/
theorem lookup_entryWrites_txBlock (b : BlockID) (es : List TxEntry) (t : TxID)
    (m : Finmap fun _ : Bytes => MetaVal) :
    (Write.applyAll m (es.flatMap (entryWrites b))).lookup (typedKey .txBlock [t.string]) =
      if t ∈ es.map Sigma.fst then some (.cid b)
      else m.lookup (typedKey .txBlock [t.string]) := by
  -- what is written at this key
  have hwrite : ∀ w ∈ es.flatMap (entryWrites b),
      w.key = typedKey .txBlock [t.string] → t ∈ es.map Sigma.fst ∧ w.val = some (.cid b) := by
    intro w hw hkey
    obtain ⟨e, he, hwe⟩ := List.mem_flatMap.mp hw
    have hmem : w ∈ (entryWrites b e).filter (fun w => w.key = typedKey .txBlock [t.string]) :=
      List.mem_filter.mpr ⟨hwe, decide_eq_true hkey⟩
    rw [filter_entryWrites_txBlock] at hmem
    split at hmem
    · rename_i ht
      rw [List.mem_singleton.mp hmem, ← ht]
      exact ⟨List.mem_map_of_mem he, rfl⟩
    · exact absurd hmem (by simp)
  by_cases ht : t ∈ es.map Sigma.fst
  · rw [if_pos ht]
    obtain ⟨e, he, rfl⟩ := List.mem_map.mp ht
    exact Write.lookup_applyAll_of_agree (fun w hw hkey => (hwrite w hw hkey).2)
      ⟨⟨typedKey .txBlock [e.1.string], some (.cid b)⟩,
        List.mem_flatMap.mpr ⟨e, he, List.mem_cons_self⟩, rfl⟩ _
  · rw [if_neg ht]
    exact Write.lookup_applyAll_of_notMem (fun w hw hkey => ht (hwrite w hw hkey).1) _

/-- The entry of a transaction is the last block that has it. -/
theorem lookup_log_txBlock (h : List IndexedBlock) (t : TxID) :
    (Write.applyAll ∅ (log h)).lookup (typedKey .txBlock [t.string]) =
      (lastBlock h t).map fun r => .cid r.id := by
  induction h using List.reverseRecOn with
  | nil => rfl
  | append_singleton h r ih =>
    rw [log, List.flatMap_append, List.flatMap_singleton, Write.applyAll_append, ← log,
      lookup_entryWrites_txBlock, lastBlock_concat, ih,
      show r.txs.entries.map Sigma.fst = r.txs.keys
        from rfl]
    by_cases ht : t ∈ r.txs.keys <;> simp [ht]

/-- The node table has keys of nodes only. -/
theorem key_of_lookup_log {key : Bytes} {v : MetaVal}
    (hhead : key.head? = some MetadataKeyType.nodes.byte)
    (hv : (Write.applyAll ∅ (log h)).lookup key = some v) : ∃ i, key = typedKey .nodes [i] := by
  by_contra hne
  have hnone : ∀ w ∈ log h, w.key ≠ key := by
    rintro w hw rfl
    obtain ⟨r, -, hw⟩ := List.mem_flatMap.mp hw
    obtain ⟨e, -, hw⟩ := List.mem_flatMap.mp hw
    rcases List.mem_cons.mp hw with rfl | hw
    · exact absurd hhead (by simp [MetadataKeyType.byte])
    · have hK : InTables w.key := by rw [InTables, hhead]; decide
      rcases key_of_mem_applyTxTo hw hK with ⟨d, -, hk⟩ | ⟨i, -, hk⟩
      · rw [hk] at hhead
        exact absurd hhead (by simp [MetadataKeyType.byte])
      · exact hne ⟨i, hk⟩
  rw [Write.lookup_applyAll_of_notMem hnone] at hv
  exact absurd hv (by simp)

end
end IPFSStorage

/-! ## A store with its history -/

/-- A store, and the blocks it has indexed so far, the newest last. -/
structure Ledger (S : Type) where
  store : S
  history : List IndexedBlock

section

variable {S : Type} [Store S]

/-- The transactions of the block stored under an identifier. -/
def blockTxs (s : S) (id : BlockID) : Outcome Err TxMap := do Store.allTx s (← Store.getBlock s id)

namespace Index

variable {I : Index S} {ω : Runtime} {id : BlockID} {state : BlockState} {s : S}

/-- The block that a mark adds to the history: one that goes from validated to accepted, without an
error. -/
def indexedBy (I : Index S) (ω : Runtime) (id : BlockID) (state : BlockState) (s : S) :
    List IndexedBlock :=
  if I.stateOf s id = .validated ∧ state = .accepted ∧
      (Store.markBlock ω id state s).1 = .ok () then
    match blockTxs s id with
    | .ok txs => [⟨id, txs⟩]
    | _ => []
  else []

theorem indexedBy_eq {block : Block} {txs : TxMap} (hstate : I.stateOf s id = .validated)
    (hok : (Store.markBlock ω id .accepted s).1 = .ok ())
    (hblock : Store.getBlock s id = .ok block) (hall : Store.allTx s block = .ok txs) :
    I.indexedBy ω id .accepted s = [⟨id, txs⟩] := by
  rw [indexedBy, if_pos ⟨hstate, rfl, hok⟩, blockTxs, hblock, Outcome.ok_bind, hall]

/-- Only a stored block is indexed. -/
theorem getBlock_of_mem_indexedBy {r : IndexedBlock} (h : r ∈ I.indexedBy ω id state s) :
    ∃ b, Store.getBlock s r.id = .ok b := by
  unfold indexedBy at h
  split at h
  · split at h
    · rename_i txs htxs
      obtain ⟨b, hb, -⟩ := Outcome.bind_eq_ok.mp htxs
      rw [List.mem_singleton.mp h]
      exact ⟨b, hb⟩
    · exact absurd h List.not_mem_nil
  · exact absurd h List.not_mem_nil

end Index
end

/-- What happens to the store: a block is marked, the last applied block is recorded, content
arrives. -/
inductive IndexEvent where
  | mark (ω : Runtime) (id : BlockID) (state : BlockState)
  | updateLastApplied (id : BlockID)
  | arrive (objects : Objects)

namespace Ledger

/-- The tables that are read. -/
def InIndex (key : Bytes) : Prop :=
  key.head? ∈ [MetadataKeyType.txBlock, .did, .nodes].map fun kType => some kType.byte

theorem InIndex.ne_typedKey {key : Bytes} (hkey : InIndex key) (kType : MetadataKeyType)
    (hk : kType ∉ [MetadataKeyType.txBlock, .did, .nodes]) (parts : List String) :
    key ≠ typedKey kType parts := by
  rintro rfl
  simp only [InIndex, List.mem_map, IPFSStorage.head_typedKey, Option.some.injEq] at hkey
  obtain ⟨kType', hmem, hbyte⟩ := hkey
  exact hk (MetadataKeyType.byte_injective hbyte ▸ hmem)

theorem InIndex.inTables {key : Bytes} (hkey : InIndex key) : IPFSStorage.InTables key := by
  simp only [InIndex, List.mem_map] at hkey
  obtain ⟨kType, hmem, hbyte⟩ := hkey
  rw [IPFSStorage.InTables, ← hbyte]
  intro heq
  rw [MetadataKeyType.byte_injective (Option.some.inj heq)] at hmem
  exact absurd hmem (by simp)

variable [CidText]

section

variable [Hash] [SigLib]

def step (c : Ledger IPFSStorage) : IndexEvent → Ledger IPFSStorage
  | .mark ω id state =>
    { store := (c.store.markBlock ω id state).2
      history := c.history ++ IPFSStorage.index.indexedBy ω id state c.store }
  | .updateLastApplied id => { c with store := (c.store.updateLastApplied id).2 }
  | .arrive objects => { c with store := { c.store with objects := objects } }

/-- A block that is accepted has at most one transaction for each DID and each node. Content arrives
under defined CIDs and replaces nothing. -/
def Allowed (c : Ledger IPFSStorage) : IndexEvent → Prop
  | .mark _ id .accepted =>
    c.store.stateOf id = .validated → ∀ txs, blockTxs c.store id = .ok txs → OnePerKey txs
  | .arrive objects => Extends c.store.objects objects ∧ objects.lookup .undef = none
  | _ => True

end

/-- **The tables are the log of the history**, and what the history mentions is stored. -/
structure Inv (c : Ledger IPFSStorage) : Prop where
  outside : c.store.pfTipApply = none
  defined : c.store.objects.lookup .undef = none
  log : ∀ key, InIndex key →
    c.store.view.lookup key = (Write.applyAll ∅ (IPFSStorage.log c.history)).lookup key
  allApplied : IPFSStorage.AllApplied c.history
  block : ∀ r ∈ c.history, ∃ b, c.store.getBlock r.id = .ok b
  tx : ∀ r ∈ c.history, ∀ e ∈ r.txs.entries, c.store.getTx e.1 = .ok e.2

/-- A mark that does not index records the state. -/
theorem view_markBlock_of_not_indexed {ω : Runtime} {id : BlockID} {st : BlockState}
    {s : IPFSStorage} (houtside : s.pfTipApply = none)
    (h : ¬ (s.stateOf id = .validated ∧ st = .accepted ∧ (s.markBlock ω id st).1 = .ok ())) :
    (s.markBlock ω id st).2.view = s.view.insert (typedKey .blockState [id.string]) (.state st) := by
  by_cases hok : (s.markBlock ω id st).1 = .ok ()
  · obtain ⟨ws, hws, hview⟩ := IPFSStorage.view_markBlock ω id st s
    have hnil : ws = [] := List.eq_nil_iff_forall_not_mem.mpr fun w hw =>
      h ⟨(hws w hw).1.1, (hws w hw).1.2, hok⟩
    rw [hview, hnil, Write.applyAll_nil]
  · rw [IPFSStorage.markBlock_of_ne_ok houtside hok, IPFSStorage.view_metadataSet]

/-- The tables are left alone then. -/
theorem lookup_markBlock_of_not_indexed {ω : Runtime} {id : BlockID} {st : BlockState}
    {s : IPFSStorage} (houtside : s.pfTipApply = none)
    (h : ¬ (s.stateOf id = .validated ∧ st = .accepted ∧ (s.markBlock ω id st).1 = .ok ()))
    {key : Bytes} (hkey : InIndex key) :
    (s.markBlock ω id st).2.view.lookup key = s.view.lookup key := by
  rw [view_markBlock_of_not_indexed houtside h,
    Finmap.lookup_insert_of_ne _ (hkey.ne_typedKey .blockState (by simp) [id.string])]

section

variable [Hash] [SigLib]

/-- A step that does not index changes nothing the invariant speaks of. -/
theorem Inv.of_store {c c' : Ledger IPFSStorage} (hc : c.Inv) (hhistory : c'.history = c.history)
    (houtside : c'.store.pfTipApply = none) (hdefined : c'.store.objects.lookup .undef = none)
    (hextends : Extends c.store.objects c'.store.objects)
    (hview : ∀ key, InIndex key → c'.store.view.lookup key = c.store.view.lookup key) : c'.Inv := by
  have hkeeps : Keeps c.store c'.store := IPFSStorage.keeps_of_extends hextends
  constructor
  · exact houtside
  · exact hdefined
  · intro key hkey
    rw [hview key hkey, hhistory, hc.log key hkey]
  · rw [hhistory]
    exact hc.allApplied
  · intro r hr
    rw [hhistory] at hr
    exact (hc.block r hr).imp fun _ => hkeeps.getBlock
  · intro r hr e he
    rw [hhistory] at hr
    exact hkeeps.getTx (hc.tx r hr e he)

/-- **A block is indexed**: its writes are the next part of the log. -/
theorem Inv.index {c : Ledger IPFSStorage} (hc : c.Inv) {ω : Runtime} {id : BlockID}
    {s' : IPFSStorage} (hstate : c.store.stateOf id = .validated)
    (hmark : c.store.markBlock ω id .accepted = (.ok (), s'))
    (hone : ∀ txs, blockTxs c.store id = .ok txs → OnePerKey txs) :
    ∃ txs, blockTxs c.store id = .ok txs ∧ Inv ⟨s', c.history ++ [⟨id, txs⟩]⟩ := by
  obtain ⟨block, txs, hblock, hall, happ, hkind, hview⟩ :=
    IPFSStorage.markBlock_accepted_eq_ok hstate hmark
  have htxs : blockTxs c.store id = .ok txs := Outcome.bind_eq_ok.mpr ⟨block, hblock, hall⟩
  have hkeeps : Keeps c.store s' := IPFSStorage.keeps_of_extends (hkind.1 ▸ .refl _)
  refine ⟨txs, htxs, ?_⟩
  constructor
  · exact hkind.outside hc.outside
  · rw [hkind.1]
    exact hc.defined
  · intro key hkey
    -- the order of the runtime is as good as the one of the log
    have hpair : (ω.order txs.entries).Pairwise
        fun e e' => ¬ Write.Clash (IPFSStorage.entryWrites id) IPFSStorage.InTables e e' :=
      ((ω.order_perm txs.entries).pairwise_iff fun h h' => h h'.symm).mpr
        (IPFSStorage.pairwise_not_clash (hone txs htxs))
    rw [hview, Finmap.lookup_insert_of_ne _ (hkey.ne_typedKey .latestBlock (by simp) []),
      Write.lookup_flatMap_perm (ω.order_perm txs.entries)
        (fun e _ => IPFSStorage.not_clash_self id e) hpair hkey.inTables]
    simp only [IPFSStorage.log, List.flatMap_append, List.flatMap_singleton, Write.applyAll_append]
    refine Write.lookup_applyAll_congr ?_ _
    rw [Finmap.lookup_insert_of_ne _ (hkey.ne_typedKey .blockState (by simp) [id.string])]
    exact hc.log key hkey
  · intro r hr
    rcases List.mem_append.mp hr with hr | hr
    · exact hc.allApplied r hr
    · rw [List.mem_singleton.mp hr]
      exact happ
  · intro r hr
    rcases List.mem_append.mp hr with hr | hr
    · exact (hc.block r hr).imp fun _ => hkeeps.getBlock
    · rw [List.mem_singleton.mp hr]
      exact ⟨block, hkeeps.getBlock hblock⟩
  · intro r hr e he
    rcases List.mem_append.mp hr with hr | hr
    · exact hkeeps.getTx (hc.tx r hr e he)
    · rw [List.mem_singleton.mp hr] at he
      exact hkeeps.getTx (getTx_of_allTxFrom hall (AList.mem_lookup_iff.mpr he))

/-- **One step** keeps the invariant. -/
theorem Inv.step {c : Ledger IPFSStorage} (hc : c.Inv) {i : IndexEvent} (hi : c.Allowed i) :
    (c.step i).Inv := by
  cases i with
  | mark ω id state =>
    have hkind := IPFSStorage.sameKind_markBlock ω id state c.store
    by_cases hindexed : c.store.stateOf id = .validated ∧ state = .accepted ∧
        (c.store.markBlock ω id state).1 = .ok ()
    · obtain ⟨hstate, rfl, hok⟩ := hindexed
      obtain ⟨txs, htxs, hinv⟩ := hc.index hstate (Prod.ext hok rfl) (hi hstate)
      obtain ⟨block, hblock, hall⟩ := Outcome.bind_eq_ok.mp htxs
      have hadds := IPFSStorage.index.indexedBy_eq hstate hok hblock hall
      simpa only [Ledger.step, hadds] using hinv
    · have hadds : IPFSStorage.index.indexedBy ω id state c.store = [] := if_neg hindexed
      refine hc.of_store (by simp [Ledger.step, hadds]) (hkind.outside hc.outside) ?_ ?_ ?_
      · simp only [Ledger.step, hkind.1]
        exact hc.defined
      · simp only [Ledger.step, hkind.1]
        exact .refl _
      · exact fun key hkey => lookup_markBlock_of_not_indexed hc.outside hindexed hkey
  | updateLastApplied id =>
    have hstore : (c.step (.updateLastApplied id)).store =
        c.store.metadataSet (typedKey .latestBlock []) (.text id.string) := rfl
    refine hc.of_store rfl ?_ ?_ ?_ ?_
    · simp [hstore, IPFSStorage.metadataSet, hc.outside]
    · rw [hstore, IPFSStorage.objects_metadataSet]
      exact hc.defined
    · rw [hstore, IPFSStorage.objects_metadataSet]
      exact .refl _
    · intro key hkey
      rw [hstore, IPFSStorage.view_metadataSet,
        Finmap.lookup_insert_of_ne _ (hkey.ne_typedKey .latestBlock (by simp) [])]
  | arrive objects =>
    exact hc.of_store rfl hc.outside hi.2 hi.1 fun _ _ => rfl

end

/-! ## Reading the tables -/

/-- A transaction of the history is stored, under a defined CID. -/
theorem Inv.stored {c : Ledger IPFSStorage} (hc : c.Inv) {e : TxEntry}
    (he : e ∈ applied c.history) :
    c.store.getTx e.1 = .ok e.2 ∧ castCid (.cid e.1) = some e.1 := by
  obtain ⟨r, hr, hmem⟩ := List.mem_flatMap.mp he
  have htx := hc.tx r hr e hmem
  refine ⟨htx, if_neg ?_⟩
  intro hundef
  obtain ⟨d, hd, -⟩ := IPFSStorage.getTx_eq_ok.mp htx
  rw [hundef, hc.defined] at hd
  exact absurd hd (by simp)

/-- What the store has at the entry of a DID, of a node and of a transaction. -/
theorem Inv.metadataGet_did {c : Ledger IPFSStorage} (hc : c.Inv) (d : String) :
    c.store.metadataGet (typedKey .did [d]) = (lastDid c.history d).bind IPFSStorage.didVal :=
  (hc.log _ (by simp [InIndex])).trans (IPFSStorage.lookup_log_did hc.allApplied d)

theorem Inv.metadataGet_node {c : Ledger IPFSStorage} (hc : c.Inv) (i : String) :
    c.store.metadataGet (typedKey .nodes [i]) = (lastNode c.history i).bind IPFSStorage.nodeVal :=
  (hc.log _ (by simp [InIndex])).trans (IPFSStorage.lookup_log_node hc.allApplied i)

theorem Inv.metadataGet_txBlock {c : Ledger IPFSStorage} (hc : c.Inv) (t : TxID) :
    c.store.metadataGet (typedKey .txBlock [t.string]) =
      (lastBlock c.history t).map fun r => .cid r.id :=
  (hc.log _ (by simp [InIndex])).trans (IPFSStorage.lookup_log_txBlock c.history t)

/-- The entry of a node is there exactly when its last transaction adds it. -/
theorem Inv.metadataGet_node_isSome {c : Ledger IPFSStorage} (hc : c.Inv) (i : String) :
    (c.store.metadataGet (typedKey .nodes [i])).isSome ↔
      ∃ e, lastNode c.history i = some e ∧ e.2.action = .add := by
  rw [hc.metadataGet_node]
  cases lastNode c.history i with
  | none => simp
  | some e => by_cases hadd : e.2.action = .add <;> simp [IPFSStorage.nodeVal, hadd]

/-- `Nodes` lists the nodes whose entry is there. -/
theorem Inv.mem_nodes {c : Ledger IPFSStorage} (hc : c.Inv) (i : String) :
    i ∈ (c.store.view.keys.filter fun key => key.head? = some MetadataKeyType.nodes.byte).image
        IPFSStorage.nodeOfKey ↔ (c.store.metadataGet (typedKey .nodes [i])).isSome := by
  simp only [Finset.mem_image, Finset.mem_filter, Finmap.mem_keys, ← Finmap.lookup_isSome]
  constructor
  · rintro ⟨key, ⟨hsome, hhead⟩, rfl⟩
    obtain ⟨v, hv⟩ := Option.isSome_iff_exists.mp hsome
    have hindex : InIndex key := by simp [InIndex, hhead]
    rw [hc.log key hindex] at hv
    obtain ⟨i, rfl⟩ := IPFSStorage.key_of_lookup_log hhead hv
    rw [nodeOfKey_typedKey]
    exact hsome
  · intro hsome
    exact ⟨typedKey .nodes [i], ⟨hsome, IPFSStorage.head_typedKey .nodes _⟩, nodeOfKey_typedKey i⟩

omit [CidText] in
/-- The last transaction for a key is one of the history, for that key. -/
theorem mem_of_getLast_filter {h : List IndexedBlock} {p : TxEntry → Prop} [DecidablePred p]
    {e : TxEntry} (he : ((applied h).filter p).getLast? = some e) : e ∈ applied h ∧ p e := by
  simpa using List.mem_filter.mp (List.mem_of_getLast? he)

theorem Inv.lookupDID_of_last [Hash] [SigLib] {c : Ledger IPFSStorage} (hc : c.Inv) {d : String}
    {e : TxEntry} (he : lastDid c.history d = some e) (hrevoke : e.2.action ≠ .revoke) :
    ∃ document, e.2.data = some (.did (some document)) ∧
      Store.lookupDID c.store d = .ok (some document) := by
  obtain ⟨hmem, hdid⟩ := mem_of_getLast_filter he
  obtain ⟨htx, hcast⟩ := hc.stored hmem
  have hget := hc.metadataGet_did d
  rw [he, Option.bind_some, IPFSStorage.didVal, if_neg hrevoke] at hget
  unfold didOf at hdid
  split at hdid
  · rename_i document htype hdata
    refine ⟨document, hdata, ?_⟩
    simp [Store.lookupDID, IPFSStorage.lookupDID, hget, hcast, htx, Outcome.mapErr, htype, hdata]
  · exact absurd hdid (by simp)

theorem Inv.node_of_last [Hash] [SigLib] {c : Ledger IPFSStorage} (hc : c.Inv) {i : String}
    {e : TxEntry} (he : lastNode c.history i = some e) (hadd : e.2.action = .add) :
    ∃ n, e.2.data = some (.node n) ∧ Store.node c.store i = .ok n := by
  obtain ⟨hmem, hnode⟩ := mem_of_getLast_filter he
  obtain ⟨htx, hcast⟩ := hc.stored hmem
  have hget := hc.metadataGet_node i
  rw [he, Option.bind_some, IPFSStorage.nodeVal, if_pos hadd] at hget
  unfold nodeOf at hnode
  split at hnode
  · rename_i n htype hdata
    refine ⟨n, hdata, ?_⟩
    simp [Store.node, IPFSStorage.node, hget, hcast, htx, Outcome.mapErr, htype, hdata, hadd]
  · exact absurd hnode (by simp)

theorem Inv.getTxBlock_of_last [Hash] [SigLib] {c : Ledger IPFSStorage} (hc : c.Inv) {t : TxID}
    {r : IndexedBlock} (hr : lastBlock c.history t = some r) :
    ∃ b, Store.getBlock c.store r.id = .ok b ∧ b.id = r.id ∧
      Store.getTxBlock c.store t = .ok b := by
  have hget := hc.metadataGet_txBlock t
  obtain ⟨b, hb⟩ := hc.block r (mem_of_lastBlock hr)
  obtain ⟨d, b', hd, -, rfl⟩ := IPFSStorage.getBlock_eq_ok.mp hb
  have hcast : castCid (.cid r.id) = some r.id := by
    refine if_neg fun hundef => ?_
    rw [hundef, hc.defined] at hd
    exact absurd hd (by simp)
  refine ⟨_, hb, rfl, ?_⟩
  simp [Store.getTxBlock, IPFSStorage.getTxBlock, hget, hr, hcast, hb]

/-- **The tables read as the history says.** -/
theorem Inv.folds [Hash] [SigLib] {c : Ledger IPFSStorage} (hc : c.Inv) :
    Folds c.store c.history where
  did _ _ he hrevoke := hc.lookupDID_of_last he hrevoke
  didGone d hgone := by
    have hget := hc.metadataGet_did d
    have hnone : (lastDid c.history d).bind IPFSStorage.didVal = none := by
      cases he : lastDid c.history d with
      | none => rfl
      | some e => simp [IPFSStorage.didVal, hgone e he]
    simp [Store.lookupDID, IPFSStorage.lookupDID, hget, hnone]
  node _ _ he hadd := hc.node_of_last he hadd
  nodeGone i hgone := by
    have hnone : c.store.metadataGet (typedKey .nodes [i]) = none := by
      rw [← Option.not_isSome_iff_eq_none, hc.metadataGet_node_isSome]
      rintro ⟨e, he, hadd⟩
      exact hgone e he hadd
    simp [Store.node, IPFSStorage.node, hnone]
  nodes := by
    refine ⟨_, rfl, nodup_sortedList _, fun i => ?_⟩
    rw [mem_sortedList, hc.mem_nodes, hc.metadataGet_node_isSome]
  txBlock _ _ hr := hc.getTxBlock_of_last hr
  txBlockGone t hnone := by
    have hget := hc.metadataGet_txBlock t
    rw [hnone, Option.map_none] at hget
    simp only [Store.getTxBlock, IPFSStorage.getTxBlock, hget]

/-- A store outside a trial that has not indexed anything yet. -/
structure Blank (s : IPFSStorage) : Prop where
  outside : s.pfTipApply = none
  defined : s.objects.lookup .undef = none
  empty : ∀ key, InIndex key → s.view.lookup key = none

/-- **The metadata is the fold of the indexed transactions**, in every run from a store without an
index. -/
theorem folds_of_run [Hash] [SigLib] {s : IPFSStorage} (hs : Blank s) {es : List IndexEvent}
    (hes : Along Ledger.step Ledger.Allowed ⟨s, []⟩ es) :
    Folds (es.foldl Ledger.step ⟨s, []⟩).store (es.foldl Ledger.step ⟨s, []⟩).history := by
  have hstart : Inv ⟨s, []⟩ :=
    { outside := hs.outside, defined := hs.defined
      log := fun key hkey => (hs.empty key hkey).trans (by simp [IPFSStorage.log])
      allApplied := by simp [IPFSStorage.AllApplied], block := by simp, tx := by simp }
  exact (Along.invariant (P := Inv) (fun c i hc hi => hc.step hi) hstart hes).folds

end Ledger

section

open Storage.Sample

/-- A block that adds two DIDs and one that updates the first, marked one after the other. -/
def addBlock : Block := pairBlock (didTx 1 .add "did:a:b" []) (didTx 2 .add "did:a:c" [])

def updateTx : Tx := didTx 3 .update "did:a:b" []

def addStore : IPFSStorage where
  objects := (putBlockOf 3 updateTx
    (pairStore (didTx 1 .add "did:a:b" []) (didTx 2 .add "did:a:c" []))).objects

def addRun : List IndexEvent :=
  [.mark runtime addBlock.id .validated, .mark runtime addBlock.id .accepted,
    .mark runtime (blockId 3 updateTx) .validated, .mark runtime (blockId 3 updateTx) .accepted]

/-- The history has both blocks, and the first DID reads as the second left it. -/
theorem addRun_folds :
    let c := addRun.foldl Ledger.step ⟨addStore, []⟩
    (c.history.map fun r => (r.id, r.txs.entries)) =
        [(addBlock.id, [⟨⟨[1, 2]⟩, didTx 2 .add "did:a:c" []⟩,
          ⟨⟨[1, 1]⟩, didTx 1 .add "did:a:b" []⟩]), (blockId 3 updateTx, [⟨⟨[1, 3]⟩, updateTx⟩])] ∧
      lastDid c.history "did:a:b" = some ⟨⟨[1, 3]⟩, updateTx⟩ ∧ Folds c.store c.history := by
  refine ⟨by decide, by decide, Ledger.folds_of_run
    ⟨rfl, by decide, fun key _ => Finmap.lookup_empty key⟩ ⟨trivial, ?_, trivial, ?_, trivial⟩⟩
  · rintro - txs htxs
    have hentries : (blockTxs (Ledger.step ⟨addStore, []⟩ (.mark runtime addBlock.id
        .validated)).store addBlock.id).bind (fun txs => .ok txs.entries) =
        .ok [⟨⟨[1, 2]⟩, didTx 2 .add "did:a:c" []⟩, ⟨⟨[1, 1]⟩, didTx 1 .add "did:a:b" []⟩] := by
      decide
    rw [htxs, Outcome.bind, Outcome.ok.injEq] at hentries
    constructor <;>
    · rw [hentries, List.pairwise_pair]
      simp [didOf, nodeOf, didTx, document]
  · rintro - txs htxs
    have hentries : (blockTxs ((addRun.take 3).foldl Ledger.step ⟨addStore, []⟩).store
        (blockId 3 updateTx)).bind (fun txs => .ok txs.entries) = .ok [⟨⟨[1, 3]⟩, updateTx⟩] := by
      decide
    have htxs' : blockTxs ((addRun.take 3).foldl Ledger.step ⟨addStore, []⟩).store
        (blockId 3 updateTx) = .ok txs := htxs
    rw [htxs', Outcome.bind, Outcome.ok.injEq] at hentries
    constructor <;>
    · rw [hentries]
      exact List.pairwise_singleton _ _

end
end Didem.Storage
