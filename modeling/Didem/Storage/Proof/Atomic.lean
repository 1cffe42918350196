import Didem.Storage.Proof.BlockStates
import Didem.Storage.Proof.Totality

/-!
# Marks that fail

`MarkBlock` records the new state first and indexes the block then. What makes an acceptance index
is the state it finds, so **an acceptance that fails cannot be repeated**: the block is recorded as
accepted, and the next call has nothing to do. Nothing else is left behind, at least outside a
trial, but that byte is enough. On a `MemStore` the errors are of reading the block, on an
`IPFSStorage` also of pins, of the commit and of transactions that do not apply (`Readable`,
`Indexable`).
-/

set_option autoImplicit false

namespace Didem.Storage

open Lib

namespace MemStore

/-- The block and its transactions are there and can be decoded. -/
def Readable (m : MemStore) (id : BlockID) : Prop :=
  ∃ block txs, m.getBlock id = .ok block ∧ m.allTx block = .ok txs

/-- The block is there, and decoding its transactions panics. -/
def Blows (m : MemStore) (id : BlockID) : Prop :=
  ∃ block, m.getBlock id = .ok block ∧ m.Stumbles block

/-- Once accepted, a block is not indexed again. -/
theorem markBlock_again (ω : Runtime) {id : BlockID} {m : MemStore}
    (h : m.bState.lookup id = some .accepted) : m.markBlock ω id .accepted = (.ok (), m) := by
  rw [markBlock_of_not_indexing ω fun hindexing => absurd hindexing.1 (by simp [stateOf, h]),
    insert_eq_self h]

theorem indexBlockTx_err_iff {ω : Runtime} {id : BlockID} {m : MemStore} :
    (∃ e, (m.indexBlockTx ω id).1 = .err e) ↔ ¬ (m.Readable id ∨ m.Blows id) := by
  unfold indexBlockTx Readable Blows
  simp only [← allTx_eq_panic]
  cases hblock : m.getBlock id with
  | panic => exact absurd hblock (getBlock_ne_panic m id)
  | err e => simp
  | ok block =>
    cases hall : m.allTx block with
    | panic => simp [hall]
    | err e => simp [hall]
    | ok txs => simp [hall, applyTxs_ne_err]

/-- **The errors of a mark**: an acceptance of a validated block that cannot be read, though not for
a panic. -/
theorem markBlock_err_iff {ω : Runtime} {id : BlockID} {state : BlockState} {m : MemStore} :
    (∃ e, (m.markBlock ω id state).1 = .err e) ↔
      (m.stateOf id = .validated ∧ state = .accepted) ∧ ¬ (m.Readable id ∨ m.Blows id) := by
  unfold markBlock
  simp only
  split
  · next hindexing =>
    rw [indexBlockTx_err_iff, and_iff_right hindexing]
    rfl
  · next hindexing => simp [hindexing]

/-- The state of the block and all indexes are as they were. -/
structure Untouched (m : MemStore) (id : BlockID) (m' : MemStore) : Prop where
  stateOf : m'.stateOf id = m.stateOf id
  dids : m'.dids = m.dids
  nodes : m'.nodes = m.nodes
  txbIndex : m'.txbIndex = m.txbIndex
  lastBlock : m'.lastBlock = m.lastBlock

/-- **A mark is atomic** when it has no error to return, and only then. -/
theorem markBlock_atomic_iff (ω : Runtime) (id : BlockID) (state : BlockState) (m : MemStore) :
    (∀ e, (m.markBlock ω id state).1 = .err e → m.Untouched id (m.markBlock ω id state).2) ↔
      (m.stateOf id = .validated → state = .accepted → m.Readable id ∨ m.Blows id) := by
  constructor
  · intro h hstate haccepted
    by_contra hread
    obtain ⟨e, he⟩ := markBlock_err_iff.mpr ⟨⟨hstate, haccepted⟩, hread⟩
    have hkept := (h e he).stateOf
    rw [stateOf_markBlock, Function.update_self, hstate, haccepted] at hkept
    exact absurd hkept (by simp)
  · intro h e he
    obtain ⟨⟨hstate, haccepted⟩, hread⟩ := markBlock_err_iff.mp ⟨e, he⟩
    exact absurd (h hstate haccepted) hread

/-- After an error, accepting the block again does nothing and returns nil. -/
theorem markBlock_retry {ω ω' : Runtime} {id : BlockID} {state : BlockState} {m : MemStore}
    {e : Err} (h : (m.markBlock ω id state).1 = .err e) :
    (m.markBlock ω id state).2.markBlock ω' id .accepted =
      (.ok (), (m.markBlock ω id state).2) := by
  obtain ⟨⟨-, rfl⟩, -⟩ := markBlock_err_iff.mp ⟨e, h⟩
  refine markBlock_again ω' ?_
  rw [snd_markBlock_of_err h, Finmap.lookup_insert]

end MemStore

namespace IPFSStorage

/-- The two stores hold the same objects and show the same metadata; outside a trial they are
equal. -/
structure SameContent (s s' : IPFSStorage) : Prop where
  kind : SameKind s' s
  view : s'.view = s.view

theorem SameContent.trans {s s' s'' : IPFSStorage} (h : SameContent s s')
    (h' : SameContent s' s'') : SameContent s s'' :=
  ⟨h'.kind.trans h.kind, h'.view.trans h.view⟩

theorem SameContent.eq {s s' : IPFSStorage} (h : SameContent s s')
    (houtside : s.pfTipApply = none) : s' = s := by
  have houtside' := h.kind.outside houtside
  have hobjects := h.kind.1
  have hview := h.view
  rw [IPFSStorage.view, IPFSStorage.view, houtside, houtside'] at hview
  cases s
  cases s'
  simp_all

theorem sameContent_metadataSet {key : Bytes} {value : MetaVal} {s : IPFSStorage}
    (h : s.metadataGet key = some value) : SameContent s (s.metadataSet key value) :=
  ⟨sameKind_metadataSet key value s, by rw [view_metadataSet, insert_eq_self h]⟩

variable [CidText]

/-- What a mark leaves under the key of its block. -/
theorem metadataGet_markBlock (ω : Runtime) (id : BlockID) (state : BlockState) (s : IPFSStorage) :
    (s.markBlock ω id state).2.metadataGet (typedKey .blockState [id.string]) =
      some (.state state) := by
  rw [metadataGet, lookup_markBlock ω id state s (by simp [MetadataKeyType.byte]),
    Finmap.lookup_insert]

/-- Once accepted, a block is not indexed again. -/
theorem markBlock_again (ω : Runtime) {id : BlockID} {s : IPFSStorage}
    (h : s.metadataGet (typedKey .blockState [id.string]) = some (.state .accepted)) :
    (s.markBlock ω id .accepted).1 = .ok () ∧ SameContent s (s.markBlock ω id .accepted).2 := by
  rw [markBlock_of_not_indexing ω fun hindexing =>
    absurd hindexing.1 (by simp [stateOf, h, MetaVal.toState])]
  exact ⟨rfl, sameContent_metadataSet h⟩

/-- What it takes to index a block: it can be read, its transactions apply, and the pins and the
commit that are asked for succeed. Inside a trial only the pin of the block is. -/
structure Indexable (s : IPFSStorage) (ω : Runtime) (id : BlockID) : Prop where
  readable : ∃ block txs, s.getBlock id = .ok block ∧ s.allTx block = .ok txs ∧
    ∀ e ∈ txs.entries, (applyTxTo e.1 e.2).1 = .ok () ∧
      (s.pfTipApply = none → ω.flip e.1 = true → ω.pin e.1 = true)
  pin : ω.pin id = true
  commit : s.pfTipApply = none → ω.commit = true

/-- The block is there, and decoding its transactions panics. -/
def Blows (s : IPFSStorage) (id : BlockID) : Prop :=
  ∃ block, s.getBlock id = .ok block ∧ s.Stumbles block

theorem fst_indexTxs_eq_ok {ω : Runtime} {inTest : Bool} {b : BlockID} {es : List TxEntry} :
    (indexTxs ω inTest b es).1 = .ok () ↔ ∀ e ∈ es, (applyTxTo e.1 e.2).1 = .ok () ∧
      (inTest = false → ω.flip e.1 = true → ω.pin e.1 = true) := by
  induction es with
  | nil => simp [indexTxs]
  | cons e es ih =>
    rw [indexTxs, List.forall_mem_cons, ← ih]
    cases applyTxTo e.1 e.2 with
    | mk r ws =>
      cases r with
      | panic => simp
      | err err => simp
      | ok u =>
        simp only
        split
        · next hpin => simp_all
        · next hpin => simp_all

/-- A block that can be read has one list of transactions. -/
theorem indexable_iff {ω : Runtime} {id : BlockID} {s : IPFSStorage} {block : Block} {txs : TxMap}
    (hblock : s.getBlock id = .ok block) (hall : s.allTx block = .ok txs) :
    s.Indexable ω id ↔ ω.pin id = true ∧
      (∀ e ∈ ω.order txs.entries, (applyTxTo e.1 e.2).1 = .ok () ∧
        (s.pfTipApply = none → ω.flip e.1 = true → ω.pin e.1 = true)) ∧
      (s.pfTipApply = none → ω.commit = true) := by
  constructor
  · rintro ⟨⟨block', txs', hblock', hall', htxs⟩, hpin, hcommit⟩
    obtain rfl := Outcome.ok.inj (hblock.symm.trans hblock')
    obtain rfl := Outcome.ok.inj (hall.symm.trans hall')
    exact ⟨hpin, fun e he => htxs e ((ω.order_perm _).mem_iff.mp he), hcommit⟩
  · rintro ⟨hpin, htxs, hcommit⟩
    exact ⟨⟨block, txs, hblock, hall, fun e he => htxs e ((ω.order_perm _).mem_iff.mpr he)⟩, hpin,
      hcommit⟩

/-- **Indexing a block succeeds** exactly when everything it takes is there. -/
theorem indexBlock_eq_ok_iff {ω : Runtime} {id : BlockID} {s : IPFSStorage} :
    (s.indexBlock ω id).1 = .ok () ↔ s.Indexable ω id := by
  cases hblock : s.getBlock id with
  | panic => exact absurd hblock (getBlock_ne_panic s id)
  | err e =>
    refine iff_of_false (by simp [indexBlock, hblock]) fun h => ?_
    obtain ⟨block, txs, hblock', -⟩ := h.readable
    exact absurd (hblock.symm.trans hblock') (by simp)
  | ok block =>
    cases hall : s.allTx block with
    | panic | err e =>
      refine iff_of_false (by simp [indexBlock, hblock, hall]) fun h => ?_
      obtain ⟨block', txs, hblock', hall', -⟩ := h.readable
      obtain rfl := Outcome.ok.inj (hblock.symm.trans hblock')
      exact absurd (hall.symm.trans hall') (by simp)
    | ok txs =>
      rw [indexable_iff hblock hall]
      simp only [indexBlock, hblock, hall]
      cases hpin : ω.pin id with
      | false => simp
      | true =>
        cases htest : s.pfTipApply with
        | some batch => simp [fst_indexTxs_eq_ok]
        | none =>
          have hloop : (indexTxs ω false id (ω.order txs.entries)).1 = .ok () ↔ _ :=
            fst_indexTxs_eq_ok
          simp only [true_implies] at hloop ⊢
          rw [← hloop]
          cases hindex : indexTxs ω false id (ω.order txs.entries) with
          | mk r ws =>
            cases r with
            | ok u => cases hcommit : ω.commit <;> simp
            | err e => simp
            | panic => simp

theorem indexable_congr {ω : Runtime} {id : BlockID} {s s' : IPFSStorage} (h : SameKind s' s) :
    s'.Indexable ω id ↔ s.Indexable ω id := by
  have htest : s'.pfTipApply = none ↔ s.pfTipApply = none := by
    rw [← Option.not_isSome_iff_eq_none, ← Option.not_isSome_iff_eq_none, h.2]
  constructor
  · rintro ⟨hread, hpin, hcommit⟩
    rw [getBlock_congr h.1, allTx_congr h.1, htest] at hread
    exact ⟨hread, hpin, fun h => hcommit (htest.mpr h)⟩
  · rintro ⟨hread, hpin, hcommit⟩
    rw [← getBlock_congr h.1, ← allTx_congr h.1, ← htest] at hread
    exact ⟨hread, hpin, fun h => hcommit (htest.mp h)⟩

/-- **The errors of a mark**: an acceptance of a validated block that cannot be indexed, though not
for a panic. -/
theorem markBlock_err_iff {ω : Runtime} {id : BlockID} {state : BlockState} {s : IPFSStorage} :
    (∃ e, (s.markBlock ω id state).1 = .err e) ↔
      (s.stateOf id = .validated ∧ state = .accepted) ∧ ¬ (s.Indexable ω id ∨ s.Blows id) := by
  by_cases hindexing : s.stateOf id = .validated ∧ state = .accepted
  · have hok : (s.markBlock ω id state).1 = .ok () ↔ s.Indexable ω id := by
      rw [← indexable_congr
        (sameKind_metadataSet (typedKey .blockState [id.string]) (.state state) s),
        ← indexBlock_eq_ok_iff]
      simp only [markBlock, if_pos hindexing]
      generalize IPFSStorage.indexBlock ω id _ = r
      obtain ⟨outcome, s'⟩ := r
      cases outcome <;> simp [Outcome.mapErr]
    have hpanic : (s.markBlock ω id state).1 = .panic ↔ s.Blows id := by
      rw [markBlock_eq_panic, and_iff_right hindexing]
      rfl
    rw [and_iff_right hindexing, ← hok, ← hpanic]
    cases (s.markBlock ω id state).1 <;> simp
  · rw [markBlock_of_not_indexing ω hindexing]
    simp [hindexing]

/-- **A mark is atomic** when it has no error to return, and only then. -/
theorem markBlock_atomic_iff (ω : Runtime) (id : BlockID) (state : BlockState) (s : IPFSStorage) :
    (∀ e, (s.markBlock ω id state).1 = .err e → (s.markBlock ω id state).2.view = s.view) ↔
      (s.stateOf id = .validated → state = .accepted → s.Indexable ω id ∨ s.Blows id) := by
  constructor
  · intro h hstate haccepted
    by_contra hindex
    obtain ⟨e, he⟩ := markBlock_err_iff.mpr ⟨⟨hstate, haccepted⟩, hindex⟩
    have hkept := metadataGet_markBlock ω id state s
    rw [metadataGet, h e he] at hkept
    rw [stateOf, metadataGet, hkept, haccepted] at hstate
    exact absurd hstate (by simp [MetaVal.toState])
  · intro h e he
    obtain ⟨⟨hstate, haccepted⟩, hindex⟩ := markBlock_err_iff.mp ⟨e, he⟩
    exact absurd (h hstate haccepted) hindex

/-- After an error, accepting the block again does nothing and returns nil. -/
theorem markBlock_retry {ω ω' : Runtime} {id : BlockID} {state : BlockState} {s : IPFSStorage}
    {e : Err} (h : (s.markBlock ω id state).1 = .err e) :
    ((s.markBlock ω id state).2.markBlock ω' id .accepted).1 = .ok () ∧
      SameContent (s.markBlock ω id state).2
        ((s.markBlock ω id state).2.markBlock ω' id .accepted).2 := by
  obtain ⟨⟨-, rfl⟩, -⟩ := markBlock_err_iff.mp ⟨e, h⟩
  exact markBlock_again ω' (metadataGet_markBlock ω id .accepted s)

end IPFSStorage

/-! ## Both stores -/

/-- **When a mark that fails can be made again.** On either store, in whatever state, for every
block, target and runtime: an error leaves the state of the block and all the metadata as they were,
exactly if the call is not the acceptance of a validated block, or the block can be indexed, so that
there is no error, or the call panics over one of its transactions and there is none either. After
an error the block can no longer be indexed by accepting it. -/
theorem mark_retryable_iff [CidText] (ω : Runtime) (id : BlockID) (state : BlockState) :
    (∀ m : MemStore,
      ((∀ e, (m.markBlock ω id state).1 = .err e → m.Untouched id (m.markBlock ω id state).2) ↔
        (m.stateOf id = .validated → state = .accepted → m.Readable id ∨ m.Blows id)) ∧
      ∀ e, (m.markBlock ω id state).1 = .err e → ∀ ω',
        (m.markBlock ω id state).2.markBlock ω' id .accepted =
          (.ok (), (m.markBlock ω id state).2)) ∧
    (∀ s : IPFSStorage,
      ((∀ e, (s.markBlock ω id state).1 = .err e → (s.markBlock ω id state).2.view = s.view) ↔
        (s.stateOf id = .validated → state = .accepted → s.Indexable ω id ∨ s.Blows id)) ∧
      ∀ e, (s.markBlock ω id state).1 = .err e → ∀ ω',
        ((s.markBlock ω id state).2.markBlock ω' id .accepted).1 = .ok () ∧
          (s.markBlock ω id state).2.SameContent
            ((s.markBlock ω id state).2.markBlock ω' id .accepted).2) := by
  constructor
  · intro m
    exact ⟨m.markBlock_atomic_iff ω id state, fun e he ω' => MemStore.markBlock_retry he⟩
  · intro s
    exact ⟨s.markBlock_atomic_iff ω id state, fun e he ω' => IPFSStorage.markBlock_retry he⟩

section

open Storage.Sample

/-- A runtime in which nothing can be pinned. -/
def unpinned : Runtime := { runtime with pin := fun _ => false }

/-- A block that adds a DID, when it has been validated. -/
def addId : BlockID := blockId 1 (didTx 1 .add "did:a:b" [])

def validatedStore : IPFSStorage :=
  let s : IPFSStorage := { objects := (putBlockOf 1 (didTx 1 .add "did:a:b" []) {}).objects }
  (s.markBlock runtime addId .validated).2

/-- **A pin fails**, and the block is accepted and not indexed: neither then nor when the acceptance
is repeated with pins that succeed. At once it would have been. -/
theorem failed_acceptance_stays :
    validatedStore.stateOf addId = .validated ∧
      (validatedStore.markBlock unpinned addId .accepted).1 =
        .err (.wrap (.wrap (.new "pin") "pinning block") "indexing block") ∧
      (validatedStore.markBlock unpinned addId .accepted).2.stateOf addId = .accepted ∧
      ((validatedStore.markBlock unpinned addId .accepted).2.markBlock runtime addId .accepted).1 =
        .ok () ∧
      ((validatedStore.markBlock unpinned addId .accepted).2.markBlock runtime addId
        .accepted).2.lookupDID "did:a:b" = .err .notFound ∧
      (validatedStore.markBlock runtime addId .accepted).2.lookupDID "did:a:b" =
        .ok (some (document "did:a:b")) := by
  decide +kernel

end
end Didem.Storage
