import Didem.Storage.Proof.Fold
import Didem.Storage.Proof.TxSets
import Didem.Storage.Sample

/-!
# Genesis is all or nothing

`IPFSStorage.ApplyGenesis` stores its transactions one by one and gathers what they write to the
tables in a batch, compares the root of the set it has built with the one in the genesis block,
stores the block, and commits. It can fail at every one of these steps; all of them come before the
commit, and none of them writes metadata (`SameMetadata`). So there are two ways out
(`applyGenesis_cases`): with the batch, or with the metadata as it was.

What the batch amounts to is said by an index of its own kind: a function from names to what they
point to, over which the genesis transactions are folded in the order of their list.
-/

set_option autoImplicit false

namespace Didem.Storage

open Lib

/-! ## What the indexes point to -/

/-- What an index points to. -/
abbrev Pointers := String → Option MetaVal

namespace Pointers

/-- The DID index after a transaction. -/
def applyDid (index : Pointers) (e : TxEntry) : Pointers :=
  match didOf e with
  | some d => Function.update index d (IPFSStorage.didVal e)
  | none => index

/-- The node index after a transaction. -/
def applyNode (index : Pointers) (e : TxEntry) : Pointers :=
  match nodeOf e with
  | some i => Function.update index i (IPFSStorage.nodeVal e)
  | none => index

end Pointers

namespace IPFSStorage

/-- The DID index of a store. -/
def didIndex (s : IPFSStorage) : Pointers := fun d => s.metadataGet (typedKey .did [d])

/-- The node index of a store. -/
def nodeIndex (s : IPFSStorage) : Pointers := fun i => s.metadataGet (typedKey .nodes [i])

section

variable [CidText]

/-- One transaction, at an entry of a table in which it writes at most one. -/
theorem lookup_applyTxTo {kType : MetadataKeyType} {named : Option String} {val : Option MetaVal}
    {e : TxEntry} {id : BlockID} {name : String} (hkey : kType ≠ .txBlock)
    (hfilter : (entryWrites id e).filter (fun w => w.key = typedKey kType [name]) =
      if named = some name then [⟨typedKey kType [name], val⟩] else [])
    (m : Finmap fun _ : Bytes => MetaVal) :
    (Write.applyAll m (applyTxTo e.1 e.2).2).lookup (typedKey kType [name]) =
      (match named with
        | some i => Function.update (fun i => m.lookup (typedKey kType [i])) i val
        | none => fun i => m.lookup (typedKey kType [i])) name := by
  -- the block entry that `entryWrites` has as well is in another table
  rw [entryWrites, List.filter_cons_of_neg (by simp [typedKey_ne, hkey.symm])] at hfilter
  rw [Write.lookup_applyAll_eq_getLast, hfilter]
  cases named with
  | none => simp
  | some i =>
    by_cases hi : i = name
    · subst hi
      simp
    · simp [hi, Function.update_of_ne (Ne.symm hi)]

/-- One transaction, in the DID index. -/
theorem lookup_applyTxTo_did {e : TxEntry} (happ : (applyTxTo e.1 e.2).1 = .ok ())
    (m : Finmap fun _ : Bytes => MetaVal) :
    (fun d => (Write.applyAll m (applyTxTo e.1 e.2).2).lookup (typedKey .did [d])) =
      Pointers.applyDid (fun d => m.lookup (typedKey .did [d])) e :=
  funext fun d => lookup_applyTxTo (by simp) (filter_entryWrites_did happ .undef d) m

/-- One transaction, in the node index. -/
theorem lookup_applyTxTo_node {e : TxEntry} (happ : (applyTxTo e.1 e.2).1 = .ok ())
    (m : Finmap fun _ : Bytes => MetaVal) :
    (fun i => (Write.applyAll m (applyTxTo e.1 e.2).2).lookup (typedKey .nodes [i])) =
      Pointers.applyNode (fun i => m.lookup (typedKey .nodes [i])) e :=
  funext fun i => lookup_applyTxTo (by simp) (filter_entryWrites_node happ .undef i) m

/-- What a list of transactions writes, in its order. -/
def writesOf (es : List TxEntry) : Batch := es.flatMap fun e => (applyTxTo e.1 e.2).2

/-- A table that every transaction changes by `apply` is changed by a list of them by the fold. -/
theorem lookup_writesOf {kType : MetadataKeyType} {apply : Pointers → TxEntry → Pointers}
    {es : List TxEntry} (happly : ∀ e ∈ es, ∀ m : Finmap fun _ : Bytes => MetaVal,
      (fun i => (Write.applyAll m (applyTxTo e.1 e.2).2).lookup (typedKey kType [i])) =
        apply (fun i => m.lookup (typedKey kType [i])) e)
    (m : Finmap fun _ : Bytes => MetaVal) :
    (fun i => (Write.applyAll m (writesOf es)).lookup (typedKey kType [i])) =
      es.foldl apply fun i => m.lookup (typedKey kType [i]) := by
  induction es generalizing m with
  | nil => rfl
  | cons e es ih =>
    rw [writesOf, List.flatMap_cons, ← writesOf, List.foldl_cons, ← happly e List.mem_cons_self]
    simp only [Write.applyAll_append]
    exact ih (fun e' he' => happly e' (List.mem_cons_of_mem e he')) _

end

/-! ## The two ways out of `ApplyGenesis` -/

section

variable [CidText] [Hash] [SigLib]

/-- The genesis transactions under their CIDs. -/
def genesisEntries (ts : List Tx) : List TxEntry := ts.map fun t => ⟨Hash.sum (.tx t), t⟩

/-- What a genesis that is applied writes. -/
def genesisBatch (g : GenesisInfo) : Batch :=
  writesOf (genesisEntries g.txs) ++
    [⟨typedKey .latestBlock [], some (.cid (Hash.sum (marshalBlock g.block)))⟩,
      ⟨typedKey .genesis [], some .empty⟩]

/-- A loop that succeeds has every transaction's CID and its writes. -/
theorem applyGenesisTxs_eq_ok {ω : Runtime} {ts : List Tx} {s s' : IPFSStorage} {cids : List Cid}
    {batch : Batch} (h : applyGenesisTxs ω ts s = (.ok (cids, batch), s')) :
    cids = (genesisEntries ts).map Sigma.fst ∧ batch = writesOf (genesisEntries ts) ∧
      ∀ e ∈ genesisEntries ts, (applyTxTo e.1 e.2).1 = .ok () := by
  induction ts generalizing s cids batch with
  | nil =>
    obtain ⟨rfl, rfl⟩ := Prod.mk.inj (Outcome.ok.inj (Prod.mk.inj h).1)
    exact ⟨rfl, rfl, fun e he => absurd he List.not_mem_nil⟩
  | cons t ts ih =>
    rw [applyGenesisTxs] at h
    split at h
    · exact absurd h (by simp)
    · exact absurd h (by simp)
    · rename_i cid s₁ hput
      obtain ⟨-, hcid, -⟩ := putRaw_eq_ok.mp (putTx_eq_ok hput)
      split at h
      · exact absurd h (by simp)
      · exact absurd h (by simp)
      · rename_i ws happ
        obtain ⟨hr, hs'⟩ := Prod.mk.inj h
        obtain ⟨⟨cids', batch'⟩, hrest, heq⟩ := Outcome.bind_eq_ok.mp hr
        obtain ⟨rfl, rfl⟩ := Prod.mk.inj (Outcome.ok.inj heq)
        obtain ⟨rfl, rfl, hall⟩ := ih (Prod.ext hrest hs')
        rw [hcid] at happ ⊢
        refine ⟨rfl, ?_, ?_⟩
        · simp [genesisEntries, writesOf, happ]
        · intro e he
          rcases List.mem_cons.mp he with rfl | he
          · exact congrArg Prod.fst happ
          · exact hall e he

section Within

variable {ω : Runtime} {R : IPFSStorage → IPFSStorage → Prop} [Std.Refl R] [IsTrans IPFSStorage R]

/-- The loop only stores content: what storing a transaction keeps to, it keeps to. -/
theorem applyGenesisTxs_within (hput : ∀ (t : Tx) (s : IPFSStorage), R s (s.putTx ω t).2)
    (ts : List Tx) (s : IPFSStorage) : R s (applyGenesisTxs ω ts s).2 := by
  induction ts generalizing s with
  | nil => exact Std.Refl.refl s
  | cons t ts ih =>
    have hstored := hput t s
    rw [applyGenesisTxs]
    split
    · rename_i s₁ h; rw [h] at hstored; exact hstored
    · rename_i e s₁ h; rw [h] at hstored; exact hstored
    · rename_i cid s₁ h
      rw [h] at hstored
      split
      · exact hstored
      · exact hstored
      · exact IsTrans.trans _ _ _ hstored (ih s₁)

/-- **The two ways out of `ApplyGenesis`**: with the whole batch written to a store that has only
been given content, or with that store as it is. -/
theorem applyGenesis_within (hputTx : ∀ (t : Tx) (s : IPFSStorage), R s (s.putTx ω t).2)
    (hputSet : ∀ (n : TxSet) (s : IPFSStorage), R s (s.putSet ω n).2)
    (hputBlock : ∀ (b : Block) (s : IPFSStorage), R s (s.putBlock ω b).2) (g : GenesisInfo)
    (s : IPFSStorage) :
    (∃ root s₁ s₂ s₃, s.applyGenesis ω g =
        (.ok (), { s₃ with metadata := Write.applyAll s₃.metadata (genesisBatch g) }) ∧
      (∀ e ∈ genesisEntries g.txs, (applyTxTo e.1 e.2).1 = .ok ()) ∧
      newTxSet (putSet ω) ((genesisEntries g.txs).map Sigma.fst) s₁ = (.ok root, s₂) ∧
      root.cid = g.block.txRoot ∧ R s s₃) ∨
    (s.applyGenesis ω g).1 ≠ .ok () ∧ R s (s.applyGenesis ω g).2 := by
  have htxs := applyGenesisTxs_within hputTx g.txs s
  rw [applyGenesis]
  split
  · rename_i s₁ h₁; rw [h₁] at htxs; exact .inr ⟨by simp, htxs⟩
  · rename_i e s₁ h₁; rw [h₁] at htxs; exact .inr ⟨by simp, htxs⟩
  · rename_i cids batch s₁ h₁
    rw [h₁] at htxs
    obtain ⟨rfl, rfl, hall⟩ := applyGenesisTxs_eq_ok h₁
    have hset := IsTrans.trans _ _ _ htxs
      (newTxSet_within hputSet ((genesisEntries g.txs).map Sigma.fst) s₁)
    split
    · rename_i s₂ h₂; rw [h₂] at hset; exact .inr ⟨by simp, hset⟩
    · rename_i e s₂ h₂; rw [h₂] at hset; exact .inr ⟨by simp, hset⟩
    · rename_i root s₂ h₂
      rw [h₂] at hset
      split
      · exact .inr ⟨by simp, hset⟩
      · rename_i hroot
        have hblock := IsTrans.trans _ _ _ hset (hputBlock g.block s₂)
        split
        · rename_i s₃ h₃; rw [h₃] at hblock; exact .inr ⟨by simp, hblock⟩
        · rename_i e s₃ h₃; rw [h₃] at hblock; exact .inr ⟨by simp, hblock⟩
        · rename_i bcid s₃ h₃
          rw [h₃] at hblock
          obtain ⟨-, rfl, -⟩ := putRaw_eq_ok.mp h₃
          split
          · exact .inl ⟨root, s₁, s₂, s₃, rfl, hall, h₂, not_not.mp hroot, hblock⟩
          · exact .inr ⟨by simp, hblock⟩

end Within

/-- Content is no metadata: the batch is written to the metadata genesis began with. -/
theorem applyGenesis_cases (ω : Runtime) (g : GenesisInfo) (s : IPFSStorage) :
    (∃ root s₁ s₂ s₃, s.applyGenesis ω g =
        (.ok (), { s₃ with metadata := Write.applyAll s.metadata (genesisBatch g) }) ∧
      (∀ e ∈ genesisEntries g.txs, (applyTxTo e.1 e.2).1 = .ok ()) ∧
      newTxSet (putSet ω) ((genesisEntries g.txs).map Sigma.fst) s₁ = (.ok root, s₂) ∧
      root.cid = g.block.txRoot ∧ SameMetadata s s₃) ∨
    (s.applyGenesis ω g).1 ≠ .ok () ∧ SameMetadata s (s.applyGenesis ω g).2 := by
  refine (applyGenesis_within (sameMetadata_putTx ω) (sameMetadata_putSet ω)
    (fun b => sameMetadata_putRaw ω (marshalBlock b)) g s).imp_left ?_
  intro ⟨root, s₁, s₂, s₃, heq, hall, hroot, hcid, hsame⟩
  rw [hsame.metadata] at heq
  exact ⟨root, s₁, s₂, s₃, heq, hall, hroot, hcid, hsame⟩

/-! ## All or nothing -/

/-- The genesis is in the store: its root is the one of its transactions, on whatever store it is
recomputed; it is flagged and is the last block; and the indexes are the old ones with its
transactions applied in order. -/
structure GenesisApplied (g : GenesisInfo) (s s' : IPFSStorage) : Prop where
  built : ∃ (ω : Runtime) (s₁ s₂ : IPFSStorage) (root : TxSet),
    newTxSet (putSet ω) ((genesisEntries g.txs).map Sigma.fst) s₁ = (.ok root, s₂)
  root : ∀ (ω : Runtime) (s₁ s₂ : IPFSStorage) (root : TxSet),
    newTxSet (putSet ω) ((genesisEntries g.txs).map Sigma.fst) s₁ = (.ok root, s₂) →
      root.cid = g.block.txRoot
  flag : s'.hasGenesisApplied = true
  latest : s'.metadataGet (typedKey .latestBlock []) = some (.cid (Hash.sum (marshalBlock g.block)))
  dids : s'.didIndex = (genesisEntries g.txs).foldl Pointers.applyDid s.didIndex
  nodes : s'.nodeIndex = (genesisEntries g.txs).foldl Pointers.applyNode s.nodeIndex

omit [SigLib] in
/-- The last two writes of the batch are to tables of their own. -/
theorem lookup_genesisBatch {kType : MetadataKeyType} (hlatest : kType ≠ .latestBlock)
    (hgenesis : kType ≠ .genesis) (g : GenesisInfo) (parts : List String)
    (m : Finmap fun _ : Bytes => MetaVal) :
    (Write.applyAll m (genesisBatch g)).lookup (typedKey kType parts) =
      (Write.applyAll m (writesOf (genesisEntries g.txs))).lookup (typedKey kType parts) := by
  rw [genesisBatch, Write.applyAll_append]
  refine Write.lookup_applyAll_of_notMem ?_ _
  intro w hw
  simp only [List.mem_cons, List.not_mem_nil, or_false] at hw
  rcases hw with rfl | rfl
  · exact typedKey_ne _ _ hlatest.symm _ _
  · exact typedKey_ne _ _ hgenesis.symm _ _

omit [SigLib] in
/-- The last two writes of the batch, read back. -/
theorem lookup_genesisBatch_last (g : GenesisInfo) (m : Finmap fun _ : Bytes => MetaVal) :
    (Write.applyAll m (genesisBatch g)).lookup (typedKey .latestBlock []) =
        some (.cid (Hash.sum (marshalBlock g.block))) ∧
      (Write.applyAll m (genesisBatch g)).lookup (typedKey .genesis []) = some .empty := by
  rw [genesisBatch, Write.applyAll_append]
  constructor
  · simp [Write.apply, Finmap.lookup_insert_of_ne, typedKey_ne]
  · simp [Write.apply]

/-- The root of a list does not depend on the store it is built in. -/
theorem newTxSet_cid_eq {ω ω' : Runtime} {l : List Cid} {s s₁ s' s₁' : IPFSStorage}
    {root root' : TxSet} (h : newTxSet (putSet ω) l s = (.ok root, s₁))
    (h' : newTxSet (putSet ω') l s' = (.ok root', s₁')) : root.cid = root'.cid := by
  obtain ⟨nodes, s₂, hnodes, hroot⟩ := newTxSet_eq_ok h
  obtain ⟨nodes', s₂', hnodes', hroot'⟩ := newTxSet_eq_ok h'
  rw [putSets_eq_map (contentAddressed ω) hnodes] at hroot
  rw [putSets_eq_map (contentAddressed ω') hnodes'] at hroot'
  rw [reduceSets_det (contentAddressed ω) (contentAddressed ω') hroot hroot']

omit [CidText] [Hash] [SigLib] in
/-- What a store holds that is not in a test is what its database holds. -/
theorem metadataGet_of_not_testing {s : IPFSStorage} (htest : s.pfTipApply = none) (key : Bytes) :
    s.metadataGet key = s.metadata.lookup key := by
  simp only [metadataGet, IPFSStorage.view, htest]

omit [SigLib] in
/-- An index that every genesis transaction changes by `apply`, when the batch is in the database.
-/
theorem index_of_batch {kType : MetadataKeyType} (hlatest : kType ≠ .latestBlock)
    (hgenesis : kType ≠ .genesis) {apply : Pointers → TxEntry → Pointers} {g : GenesisInfo}
    {s s' : IPFSStorage}
    (happly : ∀ e ∈ genesisEntries g.txs, ∀ m : Finmap fun _ : Bytes => MetaVal,
      (fun i => (Write.applyAll m (applyTxTo e.1 e.2).2).lookup (typedKey kType [i])) =
        apply (fun i => m.lookup (typedKey kType [i])) e)
    (htest : s.pfTipApply = none) (htest' : s'.pfTipApply = none)
    (hbatch : s'.metadata = Write.applyAll s.metadata (genesisBatch g)) :
    (fun i => s'.metadataGet (typedKey kType [i])) =
      (genesisEntries g.txs).foldl apply fun i => s.metadataGet (typedKey kType [i]) := by
  simp only [metadataGet_of_not_testing htest, metadataGet_of_not_testing htest', hbatch,
    lookup_genesisBatch hlatest hgenesis]
  exact lookup_writesOf happly s.metadata

/-- All: the batch is in the database. -/
theorem genesisApplied_of_batch {ω : Runtime} {g : GenesisInfo} {s s₁ s₂ s' : IPFSStorage}
    {root : TxSet} (hall : ∀ e ∈ genesisEntries g.txs, (applyTxTo e.1 e.2).1 = .ok ())
    (hroot : newTxSet (putSet ω) ((genesisEntries g.txs).map Sigma.fst) s₁ = (.ok root, s₂))
    (hcid : root.cid = g.block.txRoot) (htest : s.pfTipApply = none) (htest' : s'.pfTipApply = none)
    (hbatch : s'.metadata = Write.applyAll s.metadata (genesisBatch g)) :
    GenesisApplied g s s' where
  built := ⟨ω, s₁, s₂, root, hroot⟩
  root ω' s₁' s₂' root' hroot' := (newTxSet_cid_eq hroot' hroot).trans hcid
  flag := by
    rw [hasGenesisApplied, metadataGet_of_not_testing htest', hbatch,
      (lookup_genesisBatch_last g _).2]
    rfl
  latest := by
    rw [metadataGet_of_not_testing htest', hbatch]
    exact (lookup_genesisBatch_last g _).1
  dids := index_of_batch (by simp) (by simp) (fun e he => lookup_applyTxTo_did (hall e he)) htest
    htest' hbatch
  nodes := index_of_batch (by simp) (by simp) (fun e he => lookup_applyTxTo_node (hall e he)) htest
    htest' hbatch

/-- **Genesis is all or nothing**, outside a test. -/
theorem applyGenesis_atomic (ω : Runtime) (g : GenesisInfo) (s : IPFSStorage)
    (htest : s.pfTipApply = none) :
    (∀ s', Store.applyGenesis ω g s = (.ok (), s') → GenesisApplied g s s') ∧
    ∀ r s', Store.applyGenesis ω g s = (r, s') → r ≠ .ok () →
      s'.metadata = s.metadata ∧ s'.pfTipApply = none ∧
        s'.hasGenesisApplied = s.hasGenesisApplied := by
  have happ : Store.applyGenesis ω g s = s.applyGenesis ω g := rfl
  rw [happ]
  rcases applyGenesis_cases ω g s with
    ⟨root, s₁, s₂, s₃, heq, hall, hroot, hcid, hsame⟩ | ⟨hne, hsame⟩
  · constructor
    · intro s' h
      obtain rfl := (Prod.mk.inj (heq.symm.trans h)).2
      exact genesisApplied_of_batch hall hroot hcid htest (hsame.pfTipApply.trans htest) rfl
    · intro r s' h hr
      exact absurd (Prod.mk.inj (heq.symm.trans h)).1.symm hr
  · constructor
    · intro s' h
      exact absurd (congrArg Prod.fst h) hne
    · intro r s' h _
      rw [h] at hsame
      refine ⟨hsame.metadata, hsame.pfTipApply.trans htest, ?_⟩
      rw [hasGenesisApplied, metadataGet, hsame.view]
      rfl

end

/-! ### A DID that is added and revoked again, and one that stays -/

section

open Storage.Sample

/-- A genesis of these transactions. -/
def genesisOf [Hash] (txs : List Tx) : GenesisInfo where
  chainID := "c"
  block :=
    match (newTxSet MemStore.putSet (txs.map fun t => Hash.sum (.tx t)) {}).1 with
    | .ok set => { txRoot := set.cid }
    | _ => {}
  txs := txs

/-- The order matters: the first two transactions are of one DID. -/
def orderedGenesis : GenesisInfo :=
  genesisOf [didTx 1 .add "did:a:b" [], didTx 2 .revoke "did:a:b" [], didTx 3 .add "did:c:d" []]

theorem orderedGenesis_applied :
    ∃ s', Store.applyGenesis runtime orderedGenesis ({} : IPFSStorage) = (.ok (), s') ∧
      GenesisApplied orderedGenesis {} s' ∧
      s'.didIndex "did:a:b" = none ∧ s'.didIndex "did:c:d" = some (.cid ⟨[1, 3]⟩) := by
  have hok : (Store.applyGenesis runtime orderedGenesis ({} : IPFSStorage)).1 = .ok () := by
    decide +kernel
  have happlied := (applyGenesis_atomic runtime orderedGenesis {} rfl).1 _ (Prod.ext hok rfl)
  refine ⟨_, Prod.ext hok rfl, happlied, ?_⟩
  rw [happlied.dids]
  decide +kernel

end
end IPFSStorage
end Didem.Storage
