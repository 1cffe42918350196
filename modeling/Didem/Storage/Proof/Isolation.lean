import Didem.Storage.Proof.Reachable
import Didem.Storage.Proof.Trial
import Didem.Storage.Sample

/-!
# The two store objects of a trial

`isBlockValid` keeps the real store beside the trial one and lets nothing flow back. That is what
`IsBlockValid` is meant to do, and this file looks at how it does it on an `IPFSStorage`. The store
a validator holds is a pointer. `StartTest` makes a second object, which shares the node and the
database of the first and has a batch of its own; the validator points at it until the deferred
function points it back. Whatever either object writes to the database, both see.

A `TxValidator` is the pair of objects over one database. Everything the source calls on `v.s` is a
call on the object pointed at (`call`). With that, **isolation is a fact about the batch**: on an
object that has one, no operation of the trial writes anywhere else (`BatchOnly`), so the pointers
can be forgotten (`isBlockValid_refines`).

What the pointers decide is the end: `CompleteTest` is called on the object that never had a batch,
and the batch of the trial is never closed.
-/

set_option autoImplicit false

namespace Didem.Storage

open Lib

/-- What `IsBlockValid` does on the trial store, with the store it leaves. -/
def tryBlockOn {S : Type} [Store S] [SigLib] (ω : Runtime) (b : Block) (isNewBlock : Bool)
    (txs : TxMap) (s : S) : Outcome Err Unit × S :=
  match tryTxs isNewBlock (ω.order txs.entries) s with
  | (.ok (), s) =>
    let (r, s) := Store.markBlock ω b.id .validated s
    (r.mapErr (·.wrap "marking block validated"), s)
  | r => r

theorem fst_tryBlockOn {S : Type} [Store S] [SigLib] (ω : Runtime) (b : Block) (isNewBlock : Bool)
    (txs : TxMap) (s : S) :
    (tryBlockOn ω b isNewBlock txs s).1 = tryBlock ω b isNewBlock txs s := by
  unfold tryBlockOn tryBlock
  cases tryTxs isNewBlock (ω.order txs.entries) s with
  | mk r s' => cases r <;> rfl

/-- **What the loop of `IsBlockValid` does to its store is what `ApplyTx` does**: a relation that a
call of `ApplyTx` keeps to is kept to by the loop, by induction over the transactions left. -/
theorem tryTxs_within {S : Type} [Store S] [SigLib] {R : S → S → Prop} (hrefl : ∀ s, R s s)
    (htrans : ∀ {s s' s''}, R s s' → R s' s'' → R s s'')
    (happly : ∀ (id : TxID) (t : Tx) (s : S), R s (Store.applyTx id t s).2) (isNewBlock : Bool)
    (es : List TxEntry) (s : S) : R s (tryTxs isNewBlock es s).2 := by
  have htry : ∀ (e : TxEntry) (s : S), R s (tryTx isNewBlock s e.1 e.2).2 := by
    intro e s
    unfold tryTx
    split
    · exact hrefl s
    · exact hrefl s
    · rename_i t _
      have h := happly e.1 t s
      split
      · exact hrefl s
      · exact hrefl s
      · split
        · rename_i s' hs'; rw [hs'] at h; exact h
        · rename_i err s' hs'; rw [hs'] at h; exact h
        · rename_i s' hs'; rw [hs'] at h; exact h
  induction es generalizing s with
  | nil => exact hrefl s
  | cons e es ih =>
    have hfirst := htry e s
    rw [tryTxs]
    split
    · rename_i s' h
      rw [h] at hfirst
      exact htrans hfirst (ih s')
    · exact hfirst

/-! ## The model -/

/-- A `TxValidator` with the store objects it has to do with: the one it was made with, and the one
`StartTest` made last. -/
structure TxValidator where
  objects : Objects
  metadata : Finmap (fun _ : Bytes => MetaVal)
  /-- `pfTipApply` of the object it was made with. -/
  batch : Option Batch
  /-- `pfTipApply` of the object of the trial. -/
  trialBatch : Option Batch := none
  /-- Whether the field `s` points at the object of the trial. -/
  onTrial : Bool := false

namespace TxValidator

/-- `NewTxValidator`. -/
def newTxValidator (s : IPFSStorage) : TxValidator where
  objects := s.objects
  metadata := s.metadata
  batch := s.pfTipApply

/-- The object the field `s` points at. -/
def s (v : TxValidator) : IPFSStorage where
  objects := v.objects
  metadata := v.metadata
  pfTipApply := if v.onTrial then v.trialBatch else v.batch

/-- A call on that object: the database is shared, the batch is its own. -/
def call {α : Type} (f : IPFSStorage → α × IPFSStorage) (v : TxValidator) : α × TxValidator :=
  let (a, s) := f v.s
  (a, { v with
    objects := s.objects
    metadata := s.metadata
    batch := if v.onTrial then v.batch else s.pfTipApply
    trialBatch := if v.onTrial then s.pfTipApply else v.trialBatch })

variable [CidText] [Hash] [SigLib]

/-- `IsBlockValid`, object by object. -/
def isBlockValid (ω : Runtime) (b : Block) (isNewBlock : Bool) (v : TxValidator) :
    Outcome Err Unit × TxValidator :=
  match v.call (Store.markBlock ω b.id .unvalidated) with
  | (.panic, v) => (.panic, v)
  | (.err e, v) => (.err (e.wrap "marking block unvalidated"), v)
  | (.ok (), v) =>
    match Store.allTx v.s b with
    | .panic => (.panic, v)
    | .err e => (.err (e.wrap "getting block txs"), v)
    | .ok txs =>
      match Store.startTest v.s with
      | .panic => (.panic, v)
      | .err e => (.err (e.wrap "failed to start test apply"), v)
      | .ok trial =>
        let v := { v with trialBatch := trial.pfTipApply, onTrial := true }
        let (verdict, v) := v.call (tryBlockOn ω b isNewBlock txs)
        -- the deferred function
        let v := { v with onTrial := false }
        match v.call Store.completeTest with
        | (.panic, v) => (.panic, v)
        | (_, v) => (verdict, v)

end TxValidator

/-! ## A trial writes to its batch only -/

namespace IPFSStorage

/-- From a store with a batch: it has one still, and what changed is in it. -/
def BatchOnly (s s' : IPFSStorage) : Prop :=
  s.pfTipApply.isSome →
    s'.pfTipApply.isSome ∧ s'.objects = s.objects ∧ s'.metadata = s.metadata

theorem BatchOnly.refl (s : IPFSStorage) : BatchOnly s s := fun h => ⟨h, rfl, rfl⟩

theorem BatchOnly.trans {s s' s'' : IPFSStorage} (h : BatchOnly s s') (h' : BatchOnly s' s'') :
    BatchOnly s s'' := by
  intro hbatch
  obtain ⟨hbatch', hobjects, hmetadata⟩ := h hbatch
  obtain ⟨hbatch'', hobjects', hmetadata'⟩ := h' hbatch'
  exact ⟨hbatch'', hobjects'.trans hobjects, hmetadata'.trans hmetadata⟩

theorem batchOnly_metadataSet (key : Bytes) (value : MetaVal) (s : IPFSStorage) :
    BatchOnly s (s.metadataSet key value) := by
  intro hbatch
  obtain ⟨batch, hs⟩ := Option.isSome_iff_exists.mp hbatch
  simp [metadataSet, hs]

variable [CidText] [Hash] [SigLib]

omit [Hash] [SigLib] in
theorem batchOnly_applyTx (id : TxID) (t : Tx) (s : IPFSStorage) :
    BatchOnly s (s.applyTx id t).2 := by
  intro hbatch
  obtain ⟨batch, hs⟩ := Option.isSome_iff_exists.mp hbatch
  simp [applyTx, hs]

/-- **A trial writes to its batch only.** -/
theorem batchOnly_tryBlockOn (ω : Runtime) (b : Block) (isNewBlock : Bool) (txs : TxMap)
    (s : IPFSStorage) : BatchOnly s (tryBlockOn ω b isNewBlock txs s).2 := by
  have htry : BatchOnly s (tryTxs isNewBlock (ω.order txs.entries) s).2 :=
    tryTxs_within .refl .trans batchOnly_applyTx isNewBlock (ω.order txs.entries) s
  unfold tryBlockOn
  split
  · rename_i s' h
    rw [h] at htry
    have hmark : Store.markBlock ω b.id .validated s' = _ :=
      markBlock_of_not_indexing ω (by simp)
    rw [hmark]
    exact htry.trans (batchOnly_metadataSet _ _ s')
  · exact htry

end IPFSStorage

/-! ## What the objects amount to -/

namespace TxValidator

open IPFSStorage

variable [CidText]

/-- The store with the mark `IsBlockValid` makes first. -/
def marked (b : Block) (s : IPFSStorage) : IPFSStorage :=
  s.metadataSet (typedKey .blockState [b.id.string]) (.state .unvalidated)

theorem isSome_pfTipApply_marked (b : Block) (s : IPFSStorage) :
    (marked b s).pfTipApply.isSome = s.pfTipApply.isSome :=
  (sameKind_metadataSet _ _ s).2

theorem allTx_marked (b : Block) (s : IPFSStorage) : (marked b s).allTx = s.allTx :=
  allTx_congr (sameKind_metadataSet _ _ s).1

variable [Hash] [SigLib]

/-- The batch a trial of a block leaves. -/
def leftBatch (ω : Runtime) (b : Block) (isNewBlock : Bool) (txs : TxMap) (s : IPFSStorage) :
    Option Batch :=
  (tryBlockOn ω b isNewBlock txs { marked b s with pfTipApply := some [] }).2.pfTipApply

/-- A validator in its trial is at the database it was at before. -/
theorem call_tryBlockOn (ω : Runtime) (b : Block) (isNewBlock : Bool) (txs : TxMap)
    (s : IPFSStorage) :
    ({ newTxValidator (marked b s) with trialBatch := some [], onTrial := true } : TxValidator).call
        (tryBlockOn ω b isNewBlock txs) =
      (tryBlock ω b isNewBlock txs { marked b s with pfTipApply := some [] },
        { newTxValidator (marked b s) with
          trialBatch := leftBatch ω b isNewBlock txs s
          onTrial := true }) := by
  obtain ⟨-, hobjects, hmetadata⟩ :=
    batchOnly_tryBlockOn ω b isNewBlock txs { marked b s with pfTipApply := some [] } rfl
  rw [← fst_tryBlockOn]
  simp only [call, TxValidator.s, newTxValidator, leftBatch, if_true]
  rw [hobjects, hmetadata]

/-- **`IsBlockValid` with its objects**: a trial that was begun is never closed. -/
theorem isBlockValid_run (ω : Runtime) (b : Block) (isNewBlock : Bool) (s : IPFSStorage) :
    (newTxValidator s).isBlockValid ω b isNewBlock =
      match s.allTx b with
      | .panic => (.panic, newTxValidator (marked b s))
      | .err e => (.err (e.wrap "getting block txs"), newTxValidator (marked b s))
      | .ok txs =>
        match s.pfTipApply with
        | some _ =>
          (.err (.wrap (.new "test apply already started") "failed to start test apply"),
            newTxValidator (marked b s))
        | none =>
          (.panic,
            { newTxValidator (marked b s) with trialBatch := leftBatch ω b isNewBlock txs s }) := by
  have hmark : (newTxValidator s).call (Store.markBlock ω b.id .unvalidated) =
      (.ok (), newTxValidator (marked b s)) := by
    have h : Store.markBlock ω b.id .unvalidated s = (.ok (), marked b s) :=
      markBlock_of_not_indexing ω (by simp)
    simp only [call, show (newTxValidator s).s = s from rfl, h]
    rfl
  have hall : Store.allTx (newTxValidator (marked b s)).s b = s.allTx b :=
    congrFun (allTx_marked b s) b
  have hsome := isSome_pfTipApply_marked b s
  rw [isBlockValid, hmark]
  simp only [hall]
  cases s.allTx b with
  | panic => rfl
  | err e => rfl
  | ok txs =>
    cases htest : s.pfTipApply with
    | some batch =>
      obtain ⟨batch', hbatch⟩ : ∃ batch', (marked b s).pfTipApply = some batch' :=
        Option.isSome_iff_exists.mp (by rw [hsome, htest]; rfl)
      have hstart : Store.startTest (newTxValidator (marked b s)).s =
          .err (.new "test apply already started") := by
        show (marked b s).startTest = _
        rw [startTest, hbatch]
      simp only [hstart]
    | none =>
      have hnone : (marked b s).pfTipApply = none :=
        Option.isNone_iff_eq_none.mp (by rw [← Option.not_isSome, hsome, htest]; rfl)
      have hstart : Store.startTest (newTxValidator (marked b s)).s =
          .ok { marked b s with pfTipApply := some [] } := by
        show (marked b s).startTest = _
        rw [startTest, hnone]
      simp only [hstart, call_tryBlockOn]
      -- the object `CompleteTest` is called on has no batch
      simp [call, TxValidator.s, newTxValidator, hnone, Store.completeTest, completeTest]

/-- **The objects can be forgotten**: the validator ends as the model of one store says, on the
store that model leaves. -/
theorem isBlockValid_refines (ω : Runtime) (b : Block) (isNewBlock : Bool) (s : IPFSStorage) :
    ((newTxValidator s).isBlockValid ω b isNewBlock).1 = (Storage.isBlockValid ω b isNewBlock s).1 ∧
      ((newTxValidator s).isBlockValid ω b isNewBlock).2.s =
        (Storage.isBlockValid ω b isNewBlock s).2 := by
  rw [isBlockValid_run, IPFSStorage.isBlockValid_eq]
  cases s.allTx b with
  | panic => exact ⟨rfl, rfl⟩
  | err e => exact ⟨rfl, rfl⟩
  | ok txs => cases s.pfTipApply <;> exact ⟨rfl, rfl⟩

/-! ## Isolation -/

/-- **What a validation should leave**: a result, the validator at its own store, that store as it
was but for the state of the block, and no batch. -/
structure Isolated (b : Block) (v : TxValidator) (r : Outcome Err Unit) (v' : TxValidator) :
    Prop where
  returns : r ≠ .panic
  restored : v'.onTrial = false ∧ v'.s.pfTipApply = v.s.pfTipApply
  frame : ∀ key, key ≠ typedKey .blockState [b.id.string] →
    v'.s.metadataGet key = v.s.metadataGet key
  released : v'.trialBatch = none

/-- The validator is back at its own store, and that is as it was but for the state of the block,
in any case. -/
theorem isBlockValid_frame (ω : Runtime) (b : Block) (isNewBlock : Bool) (s : IPFSStorage)
    (htest : s.pfTipApply = none) :
    ((newTxValidator s).isBlockValid ω b isNewBlock).2.onTrial = false ∧
      ((newTxValidator s).isBlockValid ω b isNewBlock).2.s.pfTipApply = none ∧
      ∀ key, key ≠ typedKey .blockState [b.id.string] →
        ((newTxValidator s).isBlockValid ω b isNewBlock).2.s.metadataGet key =
          s.metadataGet key := by
  have hnone : (marked b s).pfTipApply = none := (sameKind_metadataSet _ _ s).outside htest
  refine ⟨?_, ?_, ?_⟩
  · rw [isBlockValid_run]
    cases s.allTx b with
    | panic => rfl
    | err e => rfl
    | ok txs => cases s.pfTipApply <;> rfl
  · rw [(isBlockValid_refines ω b isNewBlock s).2, IPFSStorage.isBlockValid_eq]
    exact hnone
  · intro key hkey
    rw [(isBlockValid_refines ω b isNewBlock s).2, IPFSStorage.isBlockValid_eq, metadataGet,
      view_metadataSet, Finmap.lookup_insert_of_ne _ hkey]
    rfl

/-- **A trial on an `IPFSStorage` is isolated exactly if it is not begun**: the transactions of the
block cannot all be read, and reading them does not panic. The validator is back at its own store,
and this has changed in nothing but the state of the block, in any case. -/
theorem isolated_iff_not_readable (ω : Runtime) (b : Block) (isNewBlock : Bool) (s : IPFSStorage)
    (htest : s.pfTipApply = none) :
    (((newTxValidator s).isBlockValid ω b isNewBlock).2.onTrial = false ∧
      ∀ key, key ≠ typedKey .blockState [b.id.string] →
        ((newTxValidator s).isBlockValid ω b isNewBlock).2.s.metadataGet key = s.metadataGet key) ∧
    (Isolated b (newTxValidator s) ((newTxValidator s).isBlockValid ω b isNewBlock).1
        ((newTxValidator s).isBlockValid ω b isNewBlock).2 ↔
      ¬ AllReadable s.getSet s.getTx b.txRoot ∧ ¬ s.Stumbles b) := by
  obtain ⟨hpointer, hbatch, hframe⟩ := isBlockValid_frame ω b isNewBlock s htest
  refine ⟨⟨hpointer, hframe⟩, ?_⟩
  rw [← s.allTx_eq_ok_iff, ← allTx_eq_panic]
  constructor
  · intro h
    constructor
    · rintro ⟨txs, htxs⟩
      refine h.returns ?_
      simp only [isBlockValid_run, htxs, htest]
    · intro hpanic
      refine h.returns ?_
      simp only [isBlockValid_run, hpanic]
  · rintro ⟨hread, hpanic⟩
    cases hall : s.allTx b with
    | panic => exact absurd hall hpanic
    | ok txs => exact absurd ⟨txs, hall⟩ hread
    | err e =>
      refine ⟨?_, ⟨hpointer, hbatch.trans htest.symm⟩, hframe, ?_⟩
      · simp [isBlockValid_run, hall]
      · simp only [isBlockValid_run, hall]
        rfl

/-! ### A block that cannot be read, and one that can -/

end TxValidator

section

open Storage.Sample TxValidator

/-- Nothing is stored: the validation of any block is over before the trial begins. -/
theorem empty_isolated :
    Isolated { txRoot := ⟨[2]⟩ } (newTxValidator {})
      ((newTxValidator {}).isBlockValid runtime { txRoot := ⟨[2]⟩ } true).1
      ((newTxValidator {}).isBlockValid runtime { txRoot := ⟨[2]⟩ } true).2 := by
  refine (isolated_iff_not_readable runtime { txRoot := ⟨[2]⟩ } true {} rfl).2.mpr ⟨?_, ?_⟩
  · intro h
    obtain ⟨set, hset⟩ := h.sets _ .refl
    exact absurd hset (by simp [IPFSStorage.getSet, IPFSStorage.getRaw, bind, Outcome.bind])
  · rw [← IPFSStorage.allTx_eq_panic]
    decide

/-- A store with a block that adds a DID, as a proposer would have it. -/
def proposedStore : IPFSStorage :=
  { objects := (putBlockOf 1 (didTx 1 .add "did:a:b" [107, 1]) {}).objects }

/-- Its validation begins a trial, and all is well with the transaction; but `CompleteTest` panics
on the object without a batch, and the batch of the trial stays open. -/
theorem trial_never_closed :
    let t := didTx 1 .add "did:a:b" [107, 1]
    let b := { blockOf 1 t with id := blockId 1 t }
    let trial : IPFSStorage := { marked b proposedStore with pfTipApply := some [] }
    proposedStore.getBlock (blockId 1 t) = .ok b ∧ (isTxValid trial t).1 = .ok () ∧
      ((newTxValidator proposedStore).isBlockValid runtime b false).1 = .panic ∧
      ((newTxValidator proposedStore).isBlockValid runtime b false).2.trialBatch.isSome ∧
      proposedStore.completeTest.1 = .panic := by
  decide +kernel

end
end Didem.Storage
