import Didem.Consensus.Proof.Restart
import Didem.Consensus.Proof.Steps
import Didem.Storage.Proof.Atomic

/-!
# An announcement handled twice

Nothing in the proposal state says that the round has been committed, and the announcement of the
proposer is a signed message that anybody can publish again. The second one passes the guard like
the first. **The store does not mind**: the block is recorded as accepted by then, so it is not
indexed again, and the last block is the same one (`Replays`). The engine does: it moves `Block`
into `ParentBlock` once more, and the block becomes its own parent.
-/

set_option autoImplicit false

namespace Didem

open Lib Storage

/-! ## The stores -/

/-- What a commit does to the store, done again, leaves the store as it is. -/
structure Replays (S : Type) [Store S] (Same : S → S → Prop) : Prop where
  refl : ∀ s : S, Same s s
  updateLastApplied_ne_panic : ∀ (id : BlockID) (s : S), (Store.updateLastApplied id s).1 ≠ .panic
  update : ∀ (id : BlockID) (s s' : S), s' = (Store.updateLastApplied id s).2 →
    Same s' (Store.updateLastApplied id s').2
  mark : ∀ (ω ω' : Runtime) (id : BlockID) (s s' : S),
    s' = (Store.updateLastApplied id (Store.markBlock ω id .accepted s).2).2 →
    (Store.markBlock ω' id .accepted s').1 ≠ .panic ∧
      Same s' (Store.updateLastApplied id (Store.markBlock ω' id .accepted s').2).2

namespace Storage

theorem MemStore.replays [Hash] : Replays MemStore Eq where
  refl _ := rfl
  updateLastApplied_ne_panic _ _ := by simp [Store.updateLastApplied, updateLastApplied]
  update id m m' hm' := by
    subst hm'
    rfl
  mark ω ω' id m m' hm' := by
    obtain ⟨txbIndex, dids, nodes, hmark⟩ := markBlock_writes ω id .accepted m
    have hm' : m' = { m with
        bState := m.bState.insert id .accepted, txbIndex := txbIndex, dids := dids, nodes := nodes
        lastBlock := id } := by
      rw [hm', show Store.markBlock ω id .accepted m = m.markBlock ω id .accepted from rfl, hmark]
      rfl
    have hagain : Store.markBlock ω' id .accepted m' = (.ok (), m') :=
      markBlock_again ω' (by rw [hm', Finmap.lookup_insert])
    rw [hagain]
    refine ⟨by simp, ?_⟩
    rw [hm']
    rfl

namespace IPFSStorage

theorem replays [CidText] [Hash] [SigLib] : Replays IPFSStorage SameContent where
  refl _ := ⟨⟨rfl, rfl⟩, rfl⟩
  updateLastApplied_ne_panic _ _ := by simp [Store.updateLastApplied, updateLastApplied]
  update id s s' hs' := by
    refine sameContent_metadataSet ?_
    rw [hs']
    exact latest_updateLastApplied id s
  mark ω ω' id s s' hs' := by
    have hlatest : s'.latest = some (.text id.string) := by
      rw [hs']
      exact latest_updateLastApplied id _
    have hstate : s'.metadataGet (typedKey .blockState [id.string]) = some (.state .accepted) := by
      rw [hs', ← metadataGet_markBlock ω id .accepted s]
      exact metadataGet_metadataSet (show .blockState ≠ .latestBlock by simp) _ _ _
    obtain ⟨hok, hagain⟩ := markBlock_again ω' hstate
    refine ⟨by simp [Store.markBlock, hok], hagain.trans (sameContent_metadataSet ?_)⟩
    rw [metadataGet, hagain.view]
    exact hlatest

end IPFSStorage
end Storage

/-! ## The engine -/

namespace Consensus

variable {S M : Type} [Store S] [Validator S] [MemPool M] [CryptoLib] [CidText] [SigLib]

/-- The node takes in an announcement of the one it takes for the proposer. -/
def handle (ω : Env) (msg : ConsensusMsgBlock) (c : Consensus S M) : Consensus S M :=
  c.step (ω, .call (.block (some msg) c.state.proposer))

/-- The announcement passes the guard of `onBlock`. -/
def Passes (msg : ConsensusMsgBlock) (c : Consensus S M) : Prop :=
  c.core.Passes msg c.state.proposer

instance decidablePasses (msg : ConsensusMsgBlock) (c : Consensus S M) : Decidable (c.Passes msg) :=
  inferInstanceAs (Decidable (c.core.Passes msg c.state.proposer))

theorem handle_of_crashed {ω : Env} {msg : ConsensusMsgBlock} {c : Consensus S M}
    (hdown : c.crashed = true) : c.handle ω msg = c := by
  rw [handle, step, if_pos hdown]

theorem handle_of_not_passes {ω : Env} {msg : ConsensusMsgBlock} {c : Consensus S M}
    (hpass : ¬ c.Passes msg) : c.handle ω msg = c := by
  have hguard : ¬ c.core.Passes msg c.state.proposer := hpass
  simp only [handle, step, exec, run, onBlock_run, if_neg hguard, ite_self]

/-- What an announcement that passes does, over a store that does not panic when it is told the last
block. -/
theorem handle_of_passes
    (hupdate : ∀ (id : BlockID) (s : S), (Store.updateLastApplied id s).1 ≠ .panic) (ω : Env)
    {msg : ConsensusMsgBlock} {c : Consensus S M} (hup : c.crashed = false) (hpass : c.Passes msg) :
    (c.MarkPanics ω ∧ c.handle ω msg = (c.marked ω).crash) ∨
      (¬ c.MarkPanics ω ∧ c.handle ω msg = c.afterCommit ω) := by
  have hguard : c.core.Passes msg c.state.proposer := hpass
  have hrun : c.handle ω msg = c.run (commit ω) := by
    simp only [handle, step, hup, Bool.false_eq_true, if_false, exec, run, onBlock_run,
      if_pos hguard]
  rw [hrun, run]
  by_cases hpanic : c.MarkPanics ω
  · rw [commit_run_of_panics hpanic]
    exact .inl ⟨hpanic, rfl⟩
  · rw [commit_run hupdate hpanic]
    exact .inr ⟨hpanic, rfl⟩

/-- Between the two nodes neither the tip nor the proposal state nor the store has changed. -/
structure SameAs (Same : S → S → Prop) (c c' : Consensus S M) : Prop where
  tip : c'.state.tip = c.state.tip
  propsalState : c'.propsalState = c.propsalState
  store : Same c.store c'.store

omit [Validator S] [MemPool M] [CryptoLib] [CidText] [SigLib] in
/-- A commit on top of one of the same block goes through, and leaves the store as it was. -/
theorem same_store_again {Same : S → S → Prop} (hstore : Replays S Same) (ω ω' : Env)
    (c : Consensus S M) :
    ¬ (c.afterCommit ω).MarkPanics ω' ∧
      Same (c.afterCommit ω).store ((c.afterCommit ω).afterCommit ω').store := by
  show _ ∧ Same _ (Store.updateLastApplied c.propsalState.lockedValue
    ((c.afterCommit ω).markedStore ω')).2
  by_cases hnil : c.propsalState.lockedValue = .undef
  · have hmarked : (c.afterCommit ω).markedStore ω' = (c.afterCommit ω).store := if_pos hnil
    rw [hmarked]
    exact ⟨fun h => h.1 hnil, hstore.update _ (c.markedStore ω) _ rfl⟩
  · have hmarked : (c.afterCommit ω).markedStore ω' = (Store.markBlock ω'.toRuntime
        c.propsalState.lockedValue .accepted (c.afterCommit ω).store).2 := if_neg hnil
    obtain ⟨hpanic, hsame⟩ := hstore.mark ω.toRuntime ω'.toRuntime c.propsalState.lockedValue
      c.store (c.afterCommit ω).store (by simp only [afterCommit, markedStore, if_neg hnil])
    rw [hmarked]
    exact ⟨fun h => hpanic h.2, hsame⟩

/-- **An announcement handled twice** does what it does once, exactly if it does not pass the guard,
if marking the block panics, or if the block is the tip already. -/
theorem handle_again_iff {Same : S → S → Prop} (hstore : Replays S Same) (ω ω' : Env)
    (msg : ConsensusMsgBlock) (c : Consensus S M) :
    SameAs Same (c.handle ω msg) ((c.handle ω msg).handle ω' msg) ↔
      (c.crashed = false → c.Passes msg → c.state.block = c.propsalState.lockedValue ∨
        c.MarkPanics ω) := by
  have hrefl : ∀ c : Consensus S M, SameAs Same c c := fun c => ⟨rfl, rfl, hstore.refl c.store⟩
  cases hup : c.crashed with
  | true =>
    rw [handle_of_crashed hup, handle_of_crashed hup]
    exact iff_of_true (hrefl c) (by simp)
  | false =>
    by_cases hpass : c.Passes msg
    · rcases handle_of_passes hstore.updateLastApplied_ne_panic ω hup hpass with
        ⟨hpanic, hrun⟩ | ⟨hpanic, hrun⟩
      · rw [hrun, handle_of_crashed rfl]
        exact iff_of_true (hrefl _) fun _ _ => .inr hpanic
      · obtain ⟨hpanic', hsame⟩ := same_store_again hstore ω ω' c
        have hrun' : (c.afterCommit ω).handle ω' msg = (c.afterCommit ω).afterCommit ω' :=
          ((handle_of_passes hstore.updateLastApplied_ne_panic ω' (c := c.afterCommit ω) hup
            hpass).resolve_left fun h => hpanic' h.1).2
        rw [hrun, hrun']
        constructor
        · intro h _ _
          exact .inl (congrArg Tip.parentBlock h.tip).symm
        · intro h
          have hblock := (h rfl hpass).resolve_right hpanic
          refine ⟨?_, rfl, hsame⟩
          show Tip.mk c.propsalState.height _ c.propsalState.lockedValue =
            Tip.mk c.propsalState.height _ c.state.block
          rw [hblock]
          rfl
    · rw [handle_of_not_passes hpass, handle_of_not_passes hpass]
      exact iff_of_true (hrefl c) fun _ h => absurd h hpass

end Consensus

/-! ## Both stores -/

section

variable {M : Type} [MemPool M] [Hash] [CryptoLib] [CidText] [SigLib] [Validator MemStore]
  [Validator IPFSStorage]

/-- **When a commit is idempotent.** In whatever state a node is, over either store, and whatever
the runtimes of the two calls do: handling an announcement of the proposer twice leaves the tip, the
proposal state and the store as handling it once does, exactly if it is not accepted or the locked
block is the tip already, or if indexing the block panics. -/
theorem recommit_iff (ω ω' : Env) (msg : ConsensusMsgBlock) :
    (∀ c : Consensus MemStore M, (c.handle ω msg).SameAs Eq ((c.handle ω msg).handle ω' msg) ↔
      (c.crashed = false → c.Passes msg → c.state.block = c.propsalState.lockedValue ∨
        c.propsalState.lockedValue ≠ .undef ∧
          memStoreHazards.accept ω.toRuntime c.propsalState.lockedValue c.store)) ∧
    (∀ c : Consensus IPFSStorage M,
      (c.handle ω msg).SameAs IPFSStorage.SameContent ((c.handle ω msg).handle ω' msg) ↔
      (c.crashed = false → c.Passes msg → c.state.block = c.propsalState.lockedValue ∨
        c.propsalState.lockedValue ≠ .undef ∧
          ipfsHazards.accept ω.toRuntime c.propsalState.lockedValue c.store)) := by
  constructor
  · intro c
    have hpanic : c.MarkPanics ω ↔ c.propsalState.lockedValue ≠ .undef ∧
        memStoreHazards.accept ω.toRuntime c.propsalState.lockedValue c.store :=
      and_congr_right fun _ => MemStore.markBlock_eq_panic
    rw [c.handle_again_iff MemStore.replays, hpanic]
  · intro c
    have hpanic : c.MarkPanics ω ↔ c.propsalState.lockedValue ≠ .undef ∧
        ipfsHazards.accept ω.toRuntime c.propsalState.lockedValue c.store :=
      and_congr_right fun _ => IPFSStorage.markBlock_accepted_eq_panic
    rw [c.handle_again_iff IPFSStorage.replays, hpanic]

end

section

open Storage.Sample Sample Consensus

/-- The node `a` when it waits for `p` to announce the block, and what `p` announces. -/
def awaitingNode : Consensus MemStore TxMemPool := (acceptingRun.take 5).foldl step (node "a")

def announced : ConsensusMsgBlock := ⟨1, 1, block.string, [], []⟩

/-- **The block becomes its own parent.** The node accepts the block of `p`, and then hears the same
signed message again. -/
theorem announcement_repeated :
    ((awaitingNode.handle env announced).state.tip = ⟨1, block, .undef⟩ ∧
      ((awaitingNode.handle env announced).handle env announced).state.tip = ⟨1, block, block⟩ ∧
      ([recv (announcement "p" 1 1 block.string),
        recv (announcement "p" 1 1 block.string)].foldl step awaitingNode).state.tip =
          ⟨1, block, block⟩) ∧
    ¬ (awaitingNode.handle env announced).SameAs Eq
      ((awaitingNode.handle env announced).handle env announced) := by
  have hfacts : (awaitingNode.handle env announced).state.tip = ⟨1, block, .undef⟩ ∧
      ((awaitingNode.handle env announced).handle env announced).state.tip = ⟨1, block, block⟩ ∧
      ([recv (announcement "p" 1 1 block.string),
        recv (announcement "p" 1 1 block.string)].foldl step awaitingNode).state.tip =
          ⟨1, block, block⟩ ∧
      block ≠ .undef := by
    decide +kernel
  obtain ⟨honce, htwice, hrecv, hblock⟩ := hfacts
  refine ⟨⟨honce, htwice, hrecv⟩, ?_⟩
  intro h
  have htip := h.tip
  rw [honce, htwice] at htip
  exact hblock (congrArg Tip.parentBlock htip)

end
end Didem
