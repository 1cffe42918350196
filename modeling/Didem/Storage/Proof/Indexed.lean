import Didem.Storage.Proof.Trial

/-!
# A validated block is not indexed when it is accepted

The engine and `ApplyFromTip` both rely on the pair "validate, then mark accepted" to bring the
transactions of a block into the indexes. Indexing is triggered by the *transition* from
validated to accepted, and the validator writes the first of these marks while its store is the
trial one. The real store still says unvalidated when the second mark arrives, which is then
recorded and nothing else happens.

On a `MemStore` the pair therefore indexes nothing, and since an accepted block has only
transactions that were not indexed before, it does what it should for exactly the blocks without
transactions. On an `IPFSStorage` the first half of the pair never succeeds.
-/

set_option autoImplicit false

namespace Didem.Storage

open Lib

namespace MemStore

/-- The metadata reflects a transaction of the block `b`: its block is `b`, and the DID and node
entries it writes are there. -/
def Reflects (m : MemStore) (b : BlockID) (e : TxEntry) : Prop :=
  (∃ block, m.getTxBlock e.1 = .ok block ∧ m.getBlock b = .ok block) ∧
  (∀ w ∈ didWrites e, m.dids.lookup w.key = w.val) ∧
  ∀ w ∈ nodeWrites e, m.nodes.lookup w.key = w.val

/-- A validation leaves the block unvalidated in the store it was asked on. -/
theorem snd_isBlockValid [Hash] [SigLib] (ω : Runtime) (b : Block) (isNewBlock : Bool)
    (m : MemStore) : (isBlockValid ω b isNewBlock m).2 = m.unmarked b.id := by
  rw [isBlockValid_eq]
  split <;> rfl

/-- Accepting a block that is not marked validated writes the mark and nothing else. -/
theorem markBlock_accepted_unmarked (ω : Runtime) (b : BlockID) (m : MemStore) :
    (m.unmarked b).markBlock ω b .accepted =
      (.ok (), { m with bState := (m.bState.insert b .unvalidated).insert b .accepted }) := by
  simp [markBlock, stateOf, unmarked]

end MemStore

/-- **Validated and accepted, a block is indexed exactly when there is nothing to index.** On an
`IPFSStorage` no block is validated. -/
theorem reflects_iff_no_tx [CidText] [Hash] [SigLib] :
    (∀ (ω₁ ω₂ : Runtime) (m m₁ m₂ : MemStore) (b : Block) (txs : TxMap),
      m.allTx b = .ok txs →
      isBlockValid ω₁ b true m = (.ok (), m₁) →
      Store.markBlock ω₂ b.id .accepted m₁ = (.ok (), m₂) →
      ((∀ e ∈ txs.entries, m₂.Reflects b.id e) ↔ txs.entries = [])) ∧
    ∀ (ω : Runtime) (s : IPFSStorage) (b : Block), (isBlockValid ω b true s).1 ≠ .ok () := by
  refine ⟨?_, fun ω s b => IPFSStorage.isBlockValid_ne_ok ω b true s⟩
  intro ω₁ ω₂ m m₁ m₂ b txs hall hvalid haccept
  have hm₁ : m₁ = m.unmarked b.id := by
    rw [← MemStore.snd_isBlockValid ω₁ b true m, hvalid]
  subst hm₁
  have hm₂ := (MemStore.markBlock_accepted_unmarked ω₂ b.id m).symm.trans haccept
  rw [Prod.mk.injEq] at hm₂
  obtain ⟨-, rfl⟩ := hm₂
  constructor
  · -- an accepted transaction was in no block before, and nothing has put it into one since
    intro hreflects
    obtain ⟨txs', hall', haccepted, -⟩ := MemStore.isBlockValid_eq_ok.mp (by rw [hvalid])
    rw [hall, Outcome.ok.injEq] at hall'
    subst hall'
    refine List.eq_nil_iff_forall_not_mem.mpr ?_
    intro e he
    obtain ⟨⟨block, hblock, -⟩, -⟩ := hreflects e he
    have hfresh := (haccepted e he).2
    have hfound : Store.getTxBlock m e.1 = .ok block := hblock
    simp [notInBlock, hfound] at hfresh
  · intro hnil e he
    rw [hnil] at he
    exact absurd he (by simp)

/-! ## Two blocks -/

section

open Storage.Sample

/-- A stored set without transactions, and a block of it. -/
def emptySetStore : MemStore :=
  let s := (MemStore.putSet {} {}).2
  (s.putBlock { txRoot := Sample.sum (.set [] none) }).2

def emptyBlock : Block :=
  { id := Sample.sum (.block { txRoot := Sample.sum (.set [] none) })
    txRoot := Sample.sum (.set [] none) }

theorem emptyBlock_reflected :
    (isBlockValid runtime emptyBlock true emptySetStore).1 = .ok () ∧
      ∀ e ∈ (∅ : TxMap).entries,
        ((emptySetStore.unmarked emptyBlock.id).markBlock runtime emptyBlock.id
          .accepted).2.Reflects emptyBlock.id e :=
  ⟨by decide,
    (reflects_iff_no_tx.1 runtime runtime emptySetStore _ _ emptyBlock ∅ rfl
      (Prod.ext (by decide) (MemStore.snd_isBlockValid _ _ _ _)) (by decide)).mpr rfl⟩

/-- A block of one transaction is validated and accepted, both without an error, and the
transaction is in no block. -/
theorem accepted_not_indexed :
    let m := putBlockOf 1 (vcTx 1) {}
    let b := { blockOf 1 (vcTx 1) with id := blockId 1 (vcTx 1) }
    let validated := isBlockValid runtime b true m
    let accepted := Store.markBlock runtime b.id .accepted validated.2
    Store.getBlock m b.id = .ok (blockOf 1 (vcTx 1)) ∧
      (Store.allTx m b).bind (fun txs => .ok txs.entries) = .ok [⟨⟨[1, 1]⟩, vcTx 1⟩] ∧
      validated.1 = .ok () ∧ accepted.1 = .ok () ∧
      Store.getTxBlock accepted.2 ⟨[1, 1]⟩ = .err .notFound := by
  decide

end
end Didem.Storage
