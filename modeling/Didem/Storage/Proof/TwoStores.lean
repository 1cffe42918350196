import Didem.Storage.Proof.Content
import Didem.Storage.Proof.Tables
import Mathlib.Data.Finset.Preimage
import Mathlib.Data.Fintype.Card

/-!
# One interface, two stores

`MemStore` and `IPFSStorage` implement one interface, and what is written against it is tested on
the first and runs on the second. They would be interchangeable if the same operations led to the
same observations (`Agree`).

**They never do.** The two disagree about what a transaction is that is in no block: the one says
`ErrNotFound`, the other passes on the error of its database, which is a different one — and the
validator asks for the first. There is always such a transaction, whatever operations came before
(`twins_never_agree`).

That is not all. After a genesis the one shows the empty document for a DID and has no last applied
block, the other shows the document and the genesis block (`genesis_twins_differ`).
-/

set_option autoImplicit false

namespace Didem.Storage

open Lib

/-! ## Operations and observations -/

/-- The writing operations of a store. -/
inductive StoreOp where
  | putTx (t : Tx)
  | putSet (set : TxSet)
  | putBlock (b : Block)
  | applyGenesis (gen : GenesisInfo)
  | markBlock (id : BlockID) (state : BlockState)
  | updateLastApplied (id : BlockID)

/-- The store an operation leaves, however it ends. -/
def StoreOp.run {S : Type} [Store S] (ω : Runtime) (s : S) : StoreOp → S
  | .putTx t => (Store.putTx ω t s).2
  | .putSet set => (Store.putSet ω set s).2
  | .putBlock b => (Store.putBlock ω b s).2
  | .applyGenesis gen => (Store.applyGenesis ω gen s).2
  | .markBlock id state => (Store.markBlock ω id state s).2
  | .updateLastApplied id => (Store.updateLastApplied id s).2

/-- Two results correspond: both succeed, with values that do, or both fail, and both or neither
because there is no such thing. -/
def Corresponds {α β : Type} (R : α → β → Prop) : Outcome Err α → Outcome Err β → Prop
  | .ok a, .ok b => R a b
  | .err e, .err e' => e.is .notFound = e'.is .notFound
  | .panic, .panic => True
  | _, _ => False

/-- **The two stores cannot be told apart by reading them.** Blocks are compared without their
identifiers, which only one of the two sets. -/
structure Agree [CidText] [Hash] [SigLib] (m : MemStore) (s : IPFSStorage) : Prop where
  lookupDID : ∀ d, Corresponds Eq (Store.lookupDID m d) (Store.lookupDID s d)
  node : ∀ i, Corresponds Eq (Store.node m i) (Store.node s i)
  nodes : Corresponds Eq (Store.nodes m) (Store.nodes s)
  getTxBlock : ∀ t, Corresponds (fun b b' => b.bare = b'.bare) (Store.getTxBlock m t)
    (Store.getTxBlock s t)
  getLastApplied : Corresponds (fun b b' => b.map Block.bare = b'.map Block.bare)
    (Store.getLastApplied m) (Store.getLastApplied s)
  hasGenesisApplied : Store.hasGenesisApplied m = Store.hasGenesisApplied s

/-- An operation on both stores, with what the runtime does in each. -/
structure TwinOp where
  op : StoreOp
  onMem : Runtime
  onIpfs : Runtime

section

variable [CidText] [Hash] [SigLib]

/-- Both stores after the same operations, from the start. -/
def twinMem (ops : List TwinOp) : MemStore := ops.foldl (fun m o => o.op.run o.onMem m) {}

def twinIpfs (ops : List TwinOp) : IPFSStorage := ops.foldl (fun s o => o.op.run o.onIpfs s) {}

/-! ## A transaction in no block -/

omit [Hash] [SigLib] in
/-- There are more CIDs than entries. -/
theorem exists_unindexed (m : MemStore) (s : IPFSStorage) :
    ∃ t : TxID, m.txbIndex.lookup t = none ∧
      s.metadataGet (typedKey .txBlock [t.string]) = none := by
  have hinf : Infinite Cid :=
    .of_injective (Cid.mk : Bytes → Cid) fun _ _ h => congrArg Cid.str h
  have hkey : Function.Injective fun t : TxID => typedKey .txBlock [t.string] := by
    intro t t' h
    exact Cid.string_inj.mp (typedKey_inj.mp h).2
  obtain ⟨t, ht⟩ := Infinite.exists_notMem_finset
    (m.txbIndex.keys ∪ s.view.keys.preimage _ hkey.injOn)
  rw [Finset.mem_union, not_or, Finset.mem_preimage, Finmap.mem_keys, Finmap.mem_keys,
    ← Finmap.lookup_eq_none, ← Finmap.lookup_eq_none] at ht
  exact ⟨t, ht.1, ht.2⟩

/-- **No two states of the stores agree.** -/
theorem not_agree (m : MemStore) (s : IPFSStorage) : ¬ Agree m s := by
  intro h
  obtain ⟨t, hmem, hipfs⟩ := exists_unindexed m s
  have hget := h.getTxBlock t
  have hm : Store.getTxBlock m t = .err .notFound := by
    simp [Store.getTxBlock, MemStore.getTxBlock, hmem]
  have hs : Store.getTxBlock s t = .err (.wrap .pebbleNotFound "looking up tx block") := by
    simp [Store.getTxBlock, IPFSStorage.getTxBlock, hipfs]
  rw [hm, hs] at hget
  exact absurd hget (by simp [Corresponds, Err.is])

/-- **The stores disagree after every sequence of operations.** -/
theorem twins_never_agree (ops : List TwinOp) : ¬ Agree (twinMem ops) (twinIpfs ops) :=
  not_agree _ _

end

/-! ## After a genesis -/

section

open Storage.Sample

/-- A genesis with one DID. -/
def didGenesis : List TwinOp :=
  [{ op := .applyGenesis
      { chainID := "", block := blockOf 1 (didTx 1 .add "did:a:b" [])
        txs := [didTx 1 .add "did:a:b" []] }
     onMem := runtime, onIpfs := runtime }]

/-- **The stores differ in what they show of a DID, of the last block and of an unknown
transaction.** -/
theorem genesis_twins_differ :
    (Store.lookupDID (twinMem didGenesis) "did:a:b" = .ok (some {}) ∧
      Store.lookupDID (twinIpfs didGenesis) "did:a:b" = .ok (some (document "did:a:b"))) ∧
    (Store.getLastApplied (twinMem didGenesis) = .ok none ∧
      ∃ b, Store.getLastApplied (twinIpfs didGenesis) = .ok (some b)) ∧
    (Store.getTxBlock (twinMem didGenesis) ⟨[9]⟩ = .err .notFound ∧
      Store.getTxBlock (twinIpfs didGenesis) ⟨[9]⟩ =
        .err (.wrap .pebbleNotFound "looking up tx block")) ∧
    ¬ Agree (twinMem didGenesis) (twinIpfs didGenesis) := by
  refine ⟨⟨by decide, by decide⟩, ⟨by decide, ?_⟩, ⟨by decide, by decide⟩, not_agree _ _⟩
  exact ⟨{ blockOf 1 (didTx 1 .add "did:a:b" []) with
    id := blockId 1 (didTx 1 .add "did:a:b" []) }, by decide⟩

end
end Didem.Storage
