import Didem.Consensus.Proof.Recommit
import Didem.Storage.Faulty

/-!
# A commit that fails

`onBlock` calls `MarkBlock` and `UpdateLastApplied` and logs what they return. An error of either is
the end of that call and of nothing else: the next line is reached, and **the tip moves as if the
store had followed**. All a store can do about it is not to be asked to move.

Over an `IPFSStorage` an error need not come from the block. The database may refuse the write,
which is why the result is about `FaultyStorage`.
-/

set_option autoImplicit false

namespace Didem

open Lib Storage

namespace Storage

/-- Indexing a block does not touch the latest one. -/
theorem IPFSStorage.latest_indexBlock [CidText] (ω : Runtime) (id : BlockID) (s : IPFSStorage) :
    (s.indexBlock ω id).2.latest = s.latest := by
  obtain ⟨ws, hws, hview⟩ := view_indexBlock ω id s
  rw [latest, latest, metadataGet, metadataGet, hview]
  refine Write.lookup_applyAll_of_notMem ?_ _
  intro w hw hkey
  obtain ⟨block, txs, e, -, -, -, hwe⟩ := hws w hw
  rcases head_of_mem_entryWrites hwe with h | ⟨-, h | h⟩ | ⟨-, h⟩ <;>
    exact absurd (hkey ▸ h) (by simp [MetadataKeyType.byte])

namespace FaultyStorage

variable [CidText]

/-- What is under the latest-block key. -/
def latest (s : FaultyStorage) : Option MetaVal := s.toIPFSStorage.latest

theorem updateLastApplied_ne_panic (id : BlockID) (s : FaultyStorage) :
    (s.updateLastApplied id).1 ≠ .panic := by
  unfold updateLastApplied
  split <;> simp [lifted, IPFSStorage.updateLastApplied]

/-- What a mark can have done when it ends: nothing, or what does not concern the latest block, or
that and a write of the latest block that did not fail. -/
theorem markBlock_cases (ω : Runtime) (id : BlockID) (state : BlockState) (s : FaultyStorage) :
    (s.markBlock ω id state).2 = s ∨
      ∃ i : IPFSStorage, IPFSStorage.SameKind i s.toIPFSStorage ∧ i.latest = s.latest ∧
        ((s.markBlock ω id state).2 = { s with toIPFSStorage := i } ∨
          s.setFails (typedKey .latestBlock []) = false ∧
            (s.markBlock ω id state).2 = { s with
              toIPFSStorage := i.metadataSet (typedKey .latestBlock []) (.cid id) }) := by
  have hkind := IPFSStorage.sameKind_metadataSet (typedKey .blockState [id.string]) (.state state)
    s.toIPFSStorage
  have hlatest : (s.toIPFSStorage.metadataSet (typedKey .blockState [id.string])
      (.state state)).latest = s.latest := IPFSStorage.metadataGet_metadataSet (by simp) _ _ _
  unfold markBlock
  simp only
  generalize s.toIPFSStorage.metadataSet _ _ = i at hkind hlatest
  split
  · exact .inl rfl
  · split
    · exact .inl rfl
    · split
      · have hkind' := (IPFSStorage.sameKind_indexBlock ω id i).trans hkind
        have hlatest' := (IPFSStorage.latest_indexBlock ω id i).trans hlatest
        generalize IPFSStorage.indexBlock ω id i = r at hkind' hlatest'
        obtain ⟨outcome, i'⟩ := r
        refine .inr ⟨i', hkind', hlatest', ?_⟩
        cases outcome with
        | ok u =>
          simp only
          split
          · exact .inl rfl
          · next hset => exact .inr ⟨Bool.eq_false_iff.mpr hset, rfl⟩
        | err e => exact .inl rfl
        | panic => exact .inl rfl
      · exact .inr ⟨i, hkind, hlatest, .inl rfl⟩

/-- Whether the latest block can be written is not a matter of the blocks. -/
theorem setFails_markBlock (ω : Runtime) (id : BlockID) (state : BlockState) (s : FaultyStorage)
    (key : Bytes) : (s.markBlock ω id state).2.setFails key = s.setFails key := by
  have hsame : ∀ i : IPFSStorage, IPFSStorage.SameKind i s.toIPFSStorage →
      setFails key { s with toIPFSStorage := i } = s.setFails key := by
    intro i hi
    simp only [setFails, ← Option.not_isSome, hi.2]
  rcases markBlock_cases ω id state s with h | ⟨i, hkind, -, h | ⟨-, h⟩⟩ <;> rw [h]
  · exact hsame i hkind
  · exact hsame _ ((IPFSStorage.sameKind_metadataSet _ _ i).trans hkind)

/-- While it cannot be written, it stays. -/
theorem latest_markBlock (ω : Runtime) (id : BlockID) (state : BlockState) {s : FaultyStorage}
    (hfails : s.setFails (typedKey .latestBlock []) = true) :
    (s.markBlock ω id state).2.latest = s.latest := by
  rcases markBlock_cases ω id state s with h | ⟨i, -, hlatest, h | ⟨hset, -⟩⟩
  · rw [h]
  · rw [h]
    exact hlatest
  · exact absurd (hset.symm.trans hfails) Bool.false_ne_true

/-- `UpdateLastApplied` fails and changes nothing, or leaves the text of the block. -/
theorem latest_updateLastApplied (id : BlockID) (s : FaultyStorage) :
    (s.updateLastApplied id).2.latest =
      if s.setFails (typedKey .latestBlock []) then s.latest else some (.text id.string) := by
  unfold updateLastApplied
  split
  · rfl
  · exact IPFSStorage.latest_updateLastApplied id s.toIPFSStorage

end FaultyStorage
end Storage

/-! ## The engine -/

namespace Consensus

variable {S M : Type} [Store S]

/-- One of the two calls of a commit returns an error. -/
def CommitFails (ω : Env) (c : Consensus S M) : Prop :=
  ¬ c.MarkPanics ω ∧
    ((c.propsalState.lockedValue ≠ .undef ∧
        ∃ e, (Store.markBlock ω.toRuntime c.propsalState.lockedValue .accepted c.store).1 =
          .err e) ∨
      ∃ e, (Store.updateLastApplied c.propsalState.lockedValue (c.markedStore ω)).1 = .err e)

/-- The tip is where it was, and so is the last applied block of the store. -/
def Unmoved {ρ : Type} (ref : S → ρ) (c c' : Consensus S M) : Prop :=
  c'.state.tip = c.state.tip ∧ ref c'.store = ref c.store

variable [Validator S] [MemPool M] [CryptoLib] [CidText] [SigLib]

/-- An announcement that passes moves the tip, whatever the store returned. -/
theorem unmoved_handle_iff {ρ : Type} {ref : S → ρ}
    (hupdate : ∀ (id : BlockID) (s : S), (Store.updateLastApplied id s).1 ≠ .panic) {ω : Env}
    {msg : ConsensusMsgBlock} {c : Consensus S M} (hup : c.crashed = false) (hpass : c.Passes msg)
    (hfails : c.CommitFails ω) :
    Unmoved ref c (c.handle ω msg) ↔ c.state.tip = c.core.nextTip ∧
      ref (Store.updateLastApplied c.propsalState.lockedValue (c.markedStore ω)).2 =
        ref c.store := by
  have hrun := ((handle_of_passes hupdate ω hup hpass).resolve_left fun h => hfails.1 h.1).2
  rw [hrun]
  exact and_congr_left' eq_comm

end Consensus

section

variable {M : Type} [MemPool M] [Hash] [CryptoLib] [CidText] [SigLib] [Validator MemStore]
  [Validator FaultyStorage]

/-- **Where a failed commit leaves the node.** Take any state in which a node is up, over a
`MemStore` or an `IPFSStorage` whose database may fail, and an announcement that passes the guard.
If `MarkBlock` or `UpdateLastApplied` returns an error, the tip and the last applied block of the
store stay exactly if the tip is the one the commit moves to and the store names the locked block,
or cannot be made to. -/
theorem failed_commit_unmoved_iff (ω : Env) (msg : ConsensusMsgBlock) :
    (∀ c : Consensus MemStore M, c.crashed = false → c.Passes msg → c.CommitFails ω →
      (c.Unmoved MemStore.lastBlock (c.handle ω msg) ↔
        c.state.tip = c.core.nextTip ∧ c.store.lastBlock = c.propsalState.lockedValue)) ∧
    (∀ c : Consensus FaultyStorage M, c.crashed = false → c.Passes msg → c.CommitFails ω →
      (c.Unmoved FaultyStorage.latest (c.handle ω msg) ↔
        c.state.tip = c.core.nextTip ∧
          (c.store.setFails (typedKey .latestBlock []) = true ∨
            c.store.latest = some (.text c.propsalState.lockedValue.string)))) := by
  constructor
  · intro c hup hpass hfails
    rw [Consensus.unmoved_handle_iff MemStore.replays.updateLastApplied_ne_panic hup hpass hfails]
    exact and_congr_right' eq_comm
  · intro c hup hpass hfails
    rw [Consensus.unmoved_handle_iff FaultyStorage.updateLastApplied_ne_panic hup hpass hfails]
    refine and_congr_right' ?_
    -- marking the block changes neither the latest one, as far as it matters, nor the database
    have hmarked : (c.markedStore ω).setFails (typedKey .latestBlock []) =
          c.store.setFails (typedKey .latestBlock []) ∧
        (c.store.setFails (typedKey .latestBlock []) = true →
          (c.markedStore ω).latest = c.store.latest) := by
      unfold Consensus.markedStore
      split
      · exact ⟨rfl, fun _ => rfl⟩
      · exact ⟨FaultyStorage.setFails_markBlock _ _ _ _ _, FaultyStorage.latest_markBlock _ _ _⟩
    show (FaultyStorage.updateLastApplied _ _).2.latest = _ ↔ _
    rw [FaultyStorage.latest_updateLastApplied, hmarked.1]
    cases hset : c.store.setFails (typedKey .latestBlock []) with
    | true => simp [hmarked.2 hset]
    | false => simp [eq_comm]

end

section

open Storage.Sample Sample Consensus NodeValidator

/-- A registered network over a database that takes no more writes. -/
def readOnlyStore : FaultyStorage where
  toIPFSStorage := (IPFSStorage.applyGenesis runtime (rootedGenesis genesis.txs) {}).2
  writeFails _ := true

/-- The node `a` over it, when all have agreed that there is no block and `p` is to say so. -/
def stuckNode : Consensus FaultyStorage TxMemPool :=
  [(env, .call beacon), (env, .recv (proposal "p" 1 1 Cid.undef.string)),
   (env, .recv (vote "b" .preVote 1 1 Cid.undef.string)),
   (env, .recv (vote "b" .preCommit 1 1 Cid.undef.string))].foldl step
    (.boot [9] "a" (some (point "a")) {} readOnlyStore none)

def announcedNone : ConsensusMsgBlock := ⟨1, 1, Cid.undef.string, [], []⟩

theorem stuckNode_facts : stuckNode.crashed = false ∧ stuckNode.Passes announcedNone ∧
    stuckNode.propsalState.lockedValue = .undef ∧ stuckNode.state.tip = ⟨0, .undef, .undef⟩ ∧
    stuckNode.core.nextTip = ⟨1, .undef, .undef⟩ ∧
    stuckNode.store.setFails (typedKey .latestBlock []) = true := by
  decide +kernel

theorem stuckNode_fails : stuckNode.CommitFails env := by
  obtain ⟨-, -, hnil, -, -, hset⟩ := stuckNode_facts
  refine ⟨fun h => h.1 hnil, .inr ⟨FaultyStorage.databaseErr "storing last block ref", ?_⟩⟩
  have hmarked : stuckNode.markedStore env = stuckNode.store := if_pos hnil
  rw [hmarked]
  show (FaultyStorage.updateLastApplied _ stuckNode.store).1 = _
  rw [FaultyStorage.updateLastApplied, if_pos hset]

/-- The node `a` over a `MemStore` that has lost the block and remembers it as validated. -/
def lostNode : Consensus MemStore TxMemPool :=
  awaitingNode.step (env, .store
    { genesisStore with bState := genesisStore.bState.insert block .validated })

theorem lostNode_facts : lostNode.crashed = false ∧ lostNode.Passes announced ∧
    lostNode.propsalState.lockedValue = block ∧ block ≠ .undef ∧
    (MemStore.markBlock env.toRuntime block .accepted lostNode.store).1 =
      .err .notFound := by
  decide +kernel

theorem lostNode_fails : lostNode.CommitFails env := by
  obtain ⟨-, -, hlocked, hblock, hmark⟩ := lostNode_facts
  have hmark' : (Store.markBlock env.toRuntime lostNode.propsalState.lockedValue .accepted
      lostNode.store).1 = .err .notFound := by
    rw [hlocked]
    exact hmark
  refine ⟨fun h => ?_, .inl ⟨hlocked ▸ hblock, _, hmark'⟩⟩
  exact absurd (h.2.symm.trans hmark') (by simp)

/-- **The tip ahead of the store.** The database refuses the write and the node says that it is at
height one; the store still names genesis. -/
theorem tip_ahead_of_store :
    stuckNode.Passes announcedNone ∧ stuckNode.CommitFails env ∧
      (stuckNode.step (env, .recv (announcement "p" 1 1 Cid.undef.string))).state.height = 1 ∧
      stuckNode.state.height = 0 ∧
      (stuckNode.step (env, .recv (announcement "p" 1 1 Cid.undef.string))).store.latest =
        stuckNode.store.latest ∧
      ¬ stuckNode.Unmoved FaultyStorage.latest (stuckNode.handle env announcedNone) := by
  obtain ⟨hup, hpass, -, htip, hnext, -⟩ := stuckNode_facts
  refine ⟨hpass, stuckNode_fails, by decide +kernel, congrArg Tip.height htip,
    by decide +kernel, ?_⟩
  rw [unmoved_handle_iff FaultyStorage.updateLastApplied_ne_panic hup hpass stuckNode_fails, htip,
    hnext]
  exact fun h => absurd h.1 (by decide)

/-- Both stores have such states. -/
theorem failed_commits_move :
    (lostNode.CommitFails env ∧
      (lostNode.Unmoved MemStore.lastBlock (lostNode.handle env announced) ↔
        lostNode.state.tip = lostNode.core.nextTip ∧
          lostNode.store.lastBlock = lostNode.propsalState.lockedValue)) ∧
    stuckNode.CommitFails env ∧
      (stuckNode.Unmoved FaultyStorage.latest (stuckNode.handle env announcedNone) ↔
        stuckNode.state.tip = stuckNode.core.nextTip ∧
          (stuckNode.store.setFails (typedKey .latestBlock []) = true ∨
            stuckNode.store.latest = some (.text stuckNode.propsalState.lockedValue.string))) :=
  ⟨⟨lostNode_fails, (failed_commit_unmoved_iff env announced).1 lostNode lostNode_facts.1
      lostNode_facts.2.1 lostNode_fails⟩,
    stuckNode_fails, (failed_commit_unmoved_iff env announcedNone).2 stuckNode stuckNode_facts.1
      stuckNode_facts.2.1 stuckNode_fails⟩

end

end Didem
