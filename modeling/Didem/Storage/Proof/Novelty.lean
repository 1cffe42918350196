import Didem.Storage.Proof.Genesis
import Didem.Storage.Proof.Isolation
import Didem.Storage.Proof.Replay
import Didem.Storage.Proof.TwoStores

/-!
# The novelty check

`IsBlockValid` asks the store for the block of every transaction of a new block and expects
`ErrNotFound`. For that question to tell new transactions from old ones, two things have to be true
of a store: a transaction that was never indexed is answered with **that** error, and one that was
indexed is answered with its block (`Tells`).

What was indexed is kept beside the store, as a history of blocks: a mark that indexes adds its
block. `ApplyGenesis` of a `MemStore` puts its transactions into the same index, under `Undef`, and
so it adds a block too, one without an identifier. In every run of the operations of either store
the entry of a transaction is then the last block of the history that has it (`BlockIndex.Inv`), and
nothing the trial does to its store changes what is answered.

So each store fails at one end. A `MemStore` tells new from old except where the last block is the
genesis. An `IPFSStorage` answers with its block for a transaction that has one, and with an error
of its database, which is not `ErrNotFound`, for every other: **there the check refuses what is
new**.
-/

set_option autoImplicit false

namespace Didem.Storage

open Lib

/-! ## Runs of a store -/

/-- A call on a store, or the arrival of content. -/
inductive StoreCall where
  | op (ω : Runtime) (o : StoreOp)
  | applyTx (id : TxID) (t : Tx)
  | validate (ω : Runtime) (b : Block) (isNewBlock : Bool)
  | arrive (objects : Objects)

/-- The store a call leaves, however it ends; `arrive` is what it is for content to arrive. -/
def StoreCall.run {S : Type} [Store S] [SigLib] (arrive : Objects → S → S) (s : S) : StoreCall → S
  | .op ω o => o.run ω s
  | .applyTx id t => (Store.applyTx id t s).2
  | .validate ω b isNewBlock => (isBlockValid ω b isNewBlock s).2
  | .arrive objects => arrive objects s

/-- Content is not replaced, and none is stored under `Undef`. -/
def Faithful (objects objects' : Objects) : Prop :=
  Extends objects objects' ∧ objects'.lookup .undef = none

/-! ## What the check should find -/

section

variable {S : Type} [Store S]

/-- **The store tells whether the transaction is in a block**, and in which. -/
structure Tells (s : S) (h : List IndexedBlock) (t : TxID) : Prop where
  fresh : lastBlock h t = none → ∃ e, Store.getTxBlock s t = .err e ∧ e.is .notFound
  known : ∀ r, lastBlock h t = some r →
    ∃ b, Store.getBlock s r.id = .ok b ∧ Store.getTxBlock s t = .ok b
  check : notInBlock s t = .ok () ↔ lastBlock h t = none

/-- So does the store of a trial, at any transaction of the loop. -/
def TellsInTrial [SigLib] (c : Ledger S) (t : TxID) : Prop :=
  Tells c.store c.history t ∧ ∀ trial, Store.startTest c.store = .ok trial →
    ∀ es : List TxEntry, Tells (tryTxs true es trial).2 c.history t

theorem Tells.of_getters {s : S} {h : List IndexedBlock} {t : TxID}
    (hfresh : lastBlock h t = none → ∃ e, Store.getTxBlock s t = .err e ∧ e.is .notFound)
    (hknown : ∀ r, lastBlock h t = some r →
      ∃ b, Store.getBlock s r.id = .ok b ∧ Store.getTxBlock s t = .ok b) : Tells s h t where
  fresh := hfresh
  known := hknown
  check := by
    cases hlast : lastBlock h t with
    | none =>
      obtain ⟨e, he, hnot⟩ := hfresh hlast
      simp [notInBlock, he, hnot]
    | some r =>
      obtain ⟨b, -, hb⟩ := hknown r hlast
      simp [notInBlock, hb]

/-- The same answers about blocks and transactions. -/
def SameAnswers (s s' : S) : Prop :=
  Store.getBlock s' = Store.getBlock s ∧ Store.getTxBlock s' = Store.getTxBlock s

theorem SameAnswers.trans {s s' s'' : S} (h : SameAnswers s s') (h' : SameAnswers s' s'') :
    SameAnswers s s'' := ⟨h'.1.trans h.1, h'.2.trans h.2⟩

/-- A store that answers the same tells the same. -/
theorem Tells.congr {s s' : S} {h : List IndexedBlock} {t : TxID} (hs : Tells s h t)
    (hsame : SameAnswers s s') : Tells s' h t :=
  .of_getters (by rw [hsame.2]; exact hs.fresh) (by rw [hsame.1, hsame.2]; exact hs.known)

end

/-- Reading a longer history. -/
theorem lastBlock_append (h h' : List IndexedBlock) (t : TxID) :
    lastBlock (h ++ h') t = (lastBlock h' t).or (lastBlock h t) := by
  simp [lastBlock, List.getLast?_append]

/-! ## Stores with a block index -/

/-- **The index from transactions to blocks of a store**: the entry of a transaction and what the
entry under a block is, the error for a transaction without one, and the blocks a genesis adds.
Besides it the content, how it arrives, whether the store is in no trial, and which calls it comes
back from. -/
structure BlockIndex (S Entry : Type) extends Index S where
  entry : S → TxID → Option Entry
  under : BlockID → Entry
  missing : Err
  genesis : GenesisInfo → List IndexedBlock
  objects : S → Objects
  arrive : Objects → S → S
  Idle : S → Prop
  Returns : S → StoreCall → Prop

namespace BlockIndex

variable {S Entry : Type} [Store S] [SigLib]

section

variable (I : BlockIndex S Entry)

/-- The blocks a call adds to the history. -/
def recordedBy (s : S) : StoreCall → List IndexedBlock
  | .op ω (.markBlock id state) => I.indexedBy ω id state s
  | .op _ (.applyGenesis gen) => I.genesis gen
  | _ => []

def step (c : Ledger S) (k : StoreCall) : Ledger S :=
  ⟨k.run I.arrive c.store, c.history ++ I.recordedBy c.store k⟩

/-- The process goes on, and content is kept. -/
def Allowed (c : Ledger S) (k : StoreCall) : Prop :=
  I.Returns c.store k ∧ Faithful (I.objects c.store) (I.objects (I.step c k).store)

/-- **What the check needs of a store**: the entries are what is answered, a call changes those of
the blocks it records and no others, and the trial changes no answer. -/
structure Reliable : Prop where
  keeps : ∀ s s', Extends (I.objects s) (I.objects s') → Keeps s s'
  getBlock_undef : ∀ s b, (I.objects s).lookup .undef = none → Store.getBlock s .undef ≠ .ok b
  getTxBlock_some : ∀ s t id b, I.entry s t = some (I.under id) → id ≠ .undef →
    Store.getBlock s id = .ok b → Store.getTxBlock s t = .ok b
  getTxBlock_none : ∀ s t, I.entry s t = none → Store.getTxBlock s t = .err I.missing
  genesis_undef : ∀ gen, ∀ r ∈ I.genesis gen, r.id = .undef
  idle_run : ∀ (s : S) (k : StoreCall), I.Idle s → I.Idle (k.run I.arrive s)
  entry_run : ∀ (s : S) (k : StoreCall) (t : TxID), I.Idle s → I.Returns s k →
    I.entry (k.run I.arrive s) t =
      ((lastBlock (I.recordedBy s k) t).map fun r => I.under r.id).or (I.entry s t)
  startTest : ∀ s trial : S, Store.startTest s = .ok trial → SameAnswers s trial
  applyTx : ∀ (id : TxID) (t : Tx) (s : S), SameAnswers s (Store.applyTx id t s).2

/-- **The entry of a transaction is the last block of the history that has it.** A block of the
history is stored, unless it stands for a genesis. -/
structure Inv (c : Ledger S) : Prop where
  idle : I.Idle c.store
  defined : (I.objects c.store).lookup .undef = none
  index : ∀ t, I.entry c.store t = (lastBlock c.history t).map fun r => I.under r.id
  block : ∀ r ∈ c.history, (∃ gen, r ∈ I.genesis gen) ∨ ∃ b, Store.getBlock c.store r.id = .ok b

end

variable {I : BlockIndex S Entry}

/-- **One call** keeps the invariant. -/
theorem Inv.step {c : Ledger S} (hc : I.Inv c) (hI : I.Reliable) {k : StoreCall}
    (hk : I.Allowed c k) : I.Inv (I.step c k) where
  idle := hI.idle_run _ k hc.idle
  defined := hk.2.2
  index t := by
    rw [BlockIndex.step, lastBlock_append, hI.entry_run _ k t hc.idle hk.1, hc.index]
    cases lastBlock (I.recordedBy c.store k) t <;> rfl
  block r hr := by
    have hkeeps := hI.keeps _ _ hk.2.1
    rcases List.mem_append.mp hr with hr | hr
    · exact (hc.block r hr).imp_right fun h => h.imp fun _ => hkeeps.getBlock
    · unfold recordedBy at hr
      split at hr
      · exact .inr ((Index.getBlock_of_mem_indexedBy hr).imp fun _ => hkeeps.getBlock)
      · exact .inl ⟨_, hr⟩
      · exact absurd hr List.not_mem_nil

/-- **Where the store tells new from old**: where the error for a new transaction is `ErrNotFound`,
and what is old was not last indexed by a genesis. -/
theorem Inv.tells_iff {c : Ledger S} (hc : I.Inv c) (hI : I.Reliable) (t : TxID) :
    Tells c.store c.history t ↔ (lastBlock c.history t = none → I.missing.is .notFound) ∧
      ∀ r, lastBlock c.history t = some r → r.id ≠ .undef := by
  have hfresh : lastBlock c.history t = none → Store.getTxBlock c.store t = .err I.missing :=
    fun hlast => hI.getTxBlock_none _ t (by rw [hc.index, hlast]; rfl)
  constructor
  · intro h
    constructor
    · intro hlast
      obtain ⟨e, he, hnot⟩ := h.fresh hlast
      rw [hfresh hlast, Outcome.err.injEq] at he
      exact he ▸ hnot
    · intro r hr hid
      obtain ⟨b, hb, -⟩ := h.known r hr
      exact hI.getBlock_undef _ b hc.defined (hid ▸ hb)
  · rintro ⟨hmissing, hknown⟩
    refine .of_getters (fun hlast => ⟨_, hfresh hlast, hmissing hlast⟩) fun r hr => ?_
    -- a block with an identifier is not a genesis
    have hgenesis : ¬ ∃ gen, r ∈ I.genesis gen := fun h => h.elim fun gen hgen =>
      hknown r hr (hI.genesis_undef gen r hgen)
    obtain ⟨b, hb⟩ := (hc.block r (mem_of_lastBlock hr)).resolve_left hgenesis
    refine ⟨b, hb, hI.getTxBlock_some _ t r.id b ?_ (hknown r hr) hb⟩
    rw [hc.index, hr]
    rfl

/-- The store of a trial answers as the real one. -/
theorem Reliable.tells_inTrial (hI : I.Reliable) {s trial : S} {h : List IndexedBlock} {t : TxID}
    (hs : Tells s h t) (htrial : Store.startTest s = .ok trial) (es : List TxEntry) :
    Tells (tryTxs true es trial).2 h t :=
  hs.congr ((hI.startTest s trial htrial).trans
    (tryTxs_within (R := SameAnswers) (fun _ => ⟨rfl, rfl⟩) (fun h h' => h.trans h') hI.applyTx
      true es trial))

/-- **In every run from a new store.** -/
theorem Reliable.inTrial_iff (hI : I.Reliable) {s : S} (hstart : I.Inv ⟨s, []⟩)
    {ks : List StoreCall} (hks : Along I.step I.Allowed ⟨s, []⟩ ks) (t : TxID) :
    TellsInTrial (ks.foldl I.step ⟨s, []⟩) t ↔
      (lastBlock (ks.foldl I.step ⟨s, []⟩).history t = none → I.missing.is .notFound) ∧
        ∀ r, lastBlock (ks.foldl I.step ⟨s, []⟩).history t = some r → r.id ≠ .undef := by
  have hc := Along.invariant (P := I.Inv) (fun c k hc hk => hc.step hI hk) hstart hks
  rw [← hc.tells_iff hI]
  constructor
  · intro h
    exact h.1
  · intro h
    exact ⟨h, fun trial htrial => hI.tells_inTrial h htrial⟩

end BlockIndex

/-! ## `MemStore` -/

namespace MemStore

variable [Hash]

/-- A transaction without an entry is not found. A genesis is indexed under no block. The process
does not come back from a panic of the indexing, which leaves the index half written. -/
def blockIndex : BlockIndex MemStore BlockID where
  toIndex := index
  entry m t := m.txbIndex.lookup t
  under id := id
  missing := .notFound
  genesis gen := [⟨.undef, (putGenesis gen.txs ∅ {}).1⟩]
  objects := objects
  arrive objects m := { m with objects := objects }
  Idle _ := True
  Returns m
    | .op ω (.markBlock id state) => (m.markBlock ω id state).1 ≠ .panic
    | .op ω (.applyGenesis gen) => (m.applyGenesis ω gen).1 ≠ .panic
    | _ => True

/-- What genesis collects does not depend on the store. -/
theorem putGenesis_fst (ts : List Tx) (txs : TxMap) (m m' : MemStore) :
    (putGenesis ts txs m).1 = (putGenesis ts txs m').1 := by
  induction ts generalizing txs m m' with
  | nil => rfl
  | cons t ts ih => exact ih _ _ _

omit [Hash] in
/-- Indexing a block changes the entries of its transactions. -/
theorem entry_indexed {m : MemStore} {id : BlockID} {txs : TxMap} {es : List TxEntry}
    (hes : es.Perm txs.entries) (t : TxID) :
    (m.indexed id es).txbIndex.lookup t =
      ((Storage.lastBlock [⟨id, txs⟩] t).map IndexedBlock.id).or (m.txbIndex.lookup t) := by
  have hkeys : t ∈ es.map Sigma.fst ↔ t ∈ txs.keys := (hes.map Sigma.fst).mem_iff
  rw [lookup_txbIndex_indexed, show [(⟨id, txs⟩ : IndexedBlock)] = [] ++ [⟨id, txs⟩] from rfl,
    lastBlock_concat]
  by_cases ht : t ∈ txs.keys <;> simp [hkeys, ht, Storage.lastBlock]

/-- **A mark.** -/
theorem entry_markBlock {ω : Runtime} {id : BlockID} {state : BlockState} {m : MemStore}
    (hret : (m.markBlock ω id state).1 ≠ .panic) (t : TxID) :
    (m.markBlock ω id state).2.txbIndex.lookup t =
      ((Storage.lastBlock (index.indexedBy ω id state m) t).map IndexedBlock.id).or
        (m.txbIndex.lookup t) := by
  by_cases hindexing : m.stateOf id = .validated ∧ state = .accepted
  · obtain ⟨hvalidated, rfl⟩ := hindexing
    cases hr : (m.markBlock ω id .accepted).1 with
    | panic => exact absurd hr hret
    | err err =>
      have hadds : index.indexedBy ω id .accepted m = [] :=
        if_neg fun h => absurd (hr.symm.trans h.2.2) (by simp)
      rw [hadds, snd_markBlock_of_err hr]
      rfl
    | ok u =>
      have hmark : m.markBlock ω id .accepted = (.ok (), (m.markBlock ω id .accepted).2) :=
        Prod.ext hr rfl
      obtain ⟨block, txs, hblock, hall, -, hm⟩ := (markBlock_accepted_eq_ok hvalidated).mp hmark
      rw [index.indexedBy_eq hvalidated hr hblock hall, hm, entry_indexed (ω.order_perm _)]
  · have hadds : index.indexedBy ω id state m = [] :=
      if_neg fun h => hindexing ⟨h.1, h.2.1⟩
    rw [hadds, markBlock_of_not_indexing ω hindexing]
    rfl

/-- **The genesis** is indexed under no block. -/
theorem entry_applyGenesis {ω : Runtime} {gen : GenesisInfo} {m : MemStore}
    (hret : (m.applyGenesis ω gen).1 ≠ .panic) (t : TxID) :
    (m.applyGenesis ω gen).2.txbIndex.lookup t =
      ((Storage.lastBlock [⟨.undef, (putGenesis gen.txs ∅ {}).1⟩] t).map IndexedBlock.id).or
        (m.txbIndex.lookup t) := by
  have hput := congrArg txbIndex (snd_putGenesis gen.txs ∅ { m with genesisApplied := true })
  rw [putGenesis_fst gen.txs ∅ {} { m with genesisApplied := true }]
  rw [applyGenesis] at hret ⊢
  generalize putGenesis gen.txs ∅ { m with genesisApplied := true } = r at *
  obtain ⟨txs, m₁⟩ := r
  simp only at hput hret ⊢
  cases hr : (m₁.applyTxs .undef (ω.order txs.entries)).1 with
  | panic => exact absurd hr hret
  | err err => exact absurd hr (applyTxs_ne_err _ _ _ _)
  | ok u =>
    have happly : m₁.applyTxs .undef (ω.order txs.entries) =
        (.ok (), (m₁.applyTxs .undef (ω.order txs.entries)).2) := Prod.ext hr rfl
    rw [(applyTxs_ok.mp happly).2, entry_indexed (ω.order_perm _), hput]

/-- Content and index are all the answers depend on. -/
theorem sameAnswers {m m' : MemStore} (hobjects : m'.objects = m.objects)
    (htxb : m'.txbIndex = m.txbIndex) : SameAnswers m m' := by
  have hblock : m'.getBlock = m.getBlock := getBlock_congr hobjects
  refine ⟨hblock, ?_⟩
  funext t
  simp only [Store.getTxBlock, getTxBlock, htxb, hblock]

variable [SigLib]

theorem entry_run {m : MemStore} {k : StoreCall} (hret : blockIndex.Returns m k) (t : TxID) :
    (k.run blockIndex.arrive m).txbIndex.lookup t =
      ((Storage.lastBlock (blockIndex.recordedBy m k) t).map IndexedBlock.id).or
        (m.txbIndex.lookup t) := by
  cases k with
  | op ω o =>
    cases o with
    | putTx t => rfl
    | putSet set => rfl
    | putBlock b => rfl
    | applyGenesis gen => exact entry_applyGenesis hret t
    | markBlock id state => exact entry_markBlock hret t
    | updateLastApplied id => rfl
  | applyTx id tx =>
    show (MemStore.applyTx id tx m).2.txbIndex.lookup t = _
    rw [show MemStore.applyTx id tx m = _ from applyTx_eq ⟨id, tx⟩ m]
    split <;> rfl
  | validate ω b isNewBlock =>
    show (isBlockValid ω b isNewBlock m).2.txbIndex.lookup t = _
    rw [snd_isBlockValid]
    rfl
  | arrive objects => rfl

theorem blockIndex_reliable : blockIndex.Reliable where
  keeps _ _ := keeps_of_extends
  getBlock_undef m b hdefined := by
    have hdefined' : m.objects.lookup .undef = none := hdefined
    simp [Store.getBlock, getBlock, getObj, hdefined']
  getTxBlock_some m t id b hentry _ hb := by
    have hentry' : m.txbIndex.lookup t = some id := hentry
    simp only [Store.getTxBlock, getTxBlock, hentry']
    exact hb
  getTxBlock_none m t hentry := by
    have hentry' : m.txbIndex.lookup t = none := hentry
    simp only [Store.getTxBlock, getTxBlock, hentry']
    rfl
  genesis_undef gen r hr := by
    rw [List.mem_singleton.mp hr]
  idle_run _ _ _ := trivial
  entry_run _ _ t _ hret := entry_run hret t
  startTest m trial htrial := by
    obtain rfl := Outcome.ok.inj htrial
    exact sameAnswers rfl rfl
  applyTx id t m := by
    rw [show Store.applyTx id t m = _ from applyTx_eq ⟨id, t⟩ m]
    split <;> exact sameAnswers rfl rfl

omit [SigLib] in
/-- A new store. -/
theorem blockIndex_inv : blockIndex.Inv ⟨{}, []⟩ where
  idle := trivial
  defined := Finmap.lookup_empty _
  index t := (Finmap.lookup_empty t : ({} : MemStore).txbIndex.lookup t = none)
  block _ hr := absurd hr List.not_mem_nil

end MemStore

/-! ## `IPFSStorage` -/

namespace IPFSStorage

variable [CidText]

/-! ### Block entries -/

/-- What is under the block key of a transaction. -/
def blockEntry (s : IPFSStorage) (t : TxID) : Option MetaVal :=
  s.view.lookup (typedKey .txBlock [t.string])

/-- Writing elsewhere leaves the block entries alone. -/
theorem blockEntry_metadataSet {kType : MetadataKeyType} (hk : kType ≠ .txBlock)
    (parts : List String) (value : MetaVal) (s : IPFSStorage) (t : TxID) :
    (s.metadataSet (typedKey kType parts) value).blockEntry t = s.blockEntry t := by
  rw [blockEntry, view_metadataSet, Finmap.lookup_insert_of_ne _ (typedKey_ne _ _ hk.symm _ _)]
  rfl

/-- Transactions do not write block entries by themselves. -/
theorem lookup_applyTxTo_txBlock (e : TxEntry) (t : TxID) (m : Finmap fun _ : Bytes => MetaVal) :
    (Write.applyAll m (applyTxTo e.1 e.2).2).lookup (typedKey .txBlock [t.string]) =
      m.lookup (typedKey .txBlock [t.string]) := by
  refine Write.lookup_applyAll_of_notMem ?_ m
  intro w hw hkey
  refine ((writes_applyTxTo e).1 w hw).1 ?_
  rw [hkey]
  exact head_typedKey .txBlock _

theorem blockEntry_applyTx (id : TxID) (tx : Tx) (s : IPFSStorage) (t : TxID) :
    (s.applyTx id tx).2.blockEntry t = s.blockEntry t := by
  unfold applyTx
  cases hbatch : s.pfTipApply with
  | none => rfl
  | some batch =>
    simp only [blockEntry, IPFSStorage.view, hbatch, Write.applyAll_append]
    exact lookup_applyTxTo_txBlock ⟨id, tx⟩ t _

/-- A block that is indexed sets the entries of its transactions. -/
theorem blockEntry_markBlock {ω : Runtime} {id : BlockID} {s s' : IPFSStorage}
    (hstate : s.stateOf id = .validated) (h : s.markBlock ω id .accepted = (.ok (), s')) :
    ∃ block txs, s.getBlock id = .ok block ∧ s.allTx block = .ok txs ∧
      ∀ t, s'.blockEntry t = if t ∈ txs.keys then some (.cid id) else s.blockEntry t := by
  obtain ⟨block, txs, hblock, hall, -, -, hview⟩ := markBlock_accepted_eq_ok hstate h
  refine ⟨block, txs, hblock, hall, fun t => ?_⟩
  have hkeys : t ∈ (ω.order txs.entries).map Sigma.fst ↔ t ∈ txs.keys :=
    ((ω.order_perm txs.entries).map Sigma.fst).mem_iff
  rw [blockEntry, hview, Finmap.lookup_insert_of_ne _ (typedKey_ne _ _ (by simp) _ _),
    lookup_entryWrites_txBlock, Finmap.lookup_insert_of_ne _ (typedKey_ne _ _ (by simp) _ _)]
  simp only [hkeys]
  rfl

variable [Hash] [SigLib]

theorem pfTipApply_applyGenesis {s : IPFSStorage} (houtside : s.pfTipApply = none) (ω : Runtime)
    (g : GenesisInfo) : (s.applyGenesis ω g).2.pfTipApply = none := by
  rcases applyGenesis_cases ω g s with ⟨root, s₁, s₂, s₃, heq, -, -, -, hsame⟩ | ⟨-, hsame⟩
  · rw [heq]
    exact hsame.pfTipApply.trans houtside
  · exact hsame.pfTipApply.trans houtside

/-- A genesis writes no block entries. -/
theorem blockEntry_applyGenesis {s : IPFSStorage} (houtside : s.pfTipApply = none) (ω : Runtime)
    (g : GenesisInfo) (t : TxID) : (s.applyGenesis ω g).2.blockEntry t = s.blockEntry t := by
  rcases applyGenesis_cases ω g s with ⟨root, s₁, s₂, s₃, heq, -, -, -, hsame⟩ | ⟨-, hsame⟩
  · have houtside₃ : s₃.pfTipApply = none := hsame.pfTipApply.trans houtside
    have hwrites : ∀ (es : List TxEntry) (m : Finmap fun _ : Bytes => MetaVal),
        (Write.applyAll m (writesOf es)).lookup (typedKey .txBlock [t.string]) =
          m.lookup (typedKey .txBlock [t.string]) := by
      intro es
      induction es with
      | nil => exact fun _ => rfl
      | cons e es ih =>
        intro m
        rw [writesOf, List.flatMap_cons, ← writesOf, Write.applyAll_append, ih,
          lookup_applyTxTo_txBlock]
    rw [heq]
    simp only [blockEntry, IPFSStorage.view, houtside, houtside₃]
    rw [lookup_genesisBatch (by simp) (by simp), hwrites]
  · rw [blockEntry, hsame.view]
    rfl

/-! ### Runs -/

/-- A transaction without an entry is answered with the error of the database. A genesis is not in
the block index, and the entries are as they were after a call that panics. -/
def blockIndex : BlockIndex IPFSStorage MetaVal where
  toIndex := index
  entry := blockEntry
  under id := .cid id
  missing := .wrap .pebbleNotFound "looking up tx block"
  genesis _ := []
  objects := objects
  arrive objects s := { s with objects := objects }
  Idle s := s.pfTipApply = none
  Returns _ _ := True

/-- **A mark.** -/
theorem blockEntry_markBlock_eq {ω : Runtime} {id : BlockID} {state : BlockState} {s : IPFSStorage}
    (houtside : s.pfTipApply = none) (t : TxID) :
    (s.markBlock ω id state).2.blockEntry t =
      ((lastBlock (index.indexedBy ω id state s) t).map fun r => .cid r.id).or
        (s.blockEntry t) := by
  by_cases hindexed : s.stateOf id = .validated ∧ state = .accepted ∧
      (s.markBlock ω id state).1 = .ok ()
  · obtain ⟨hstate, rfl, hok⟩ := hindexed
    obtain ⟨block, txs, hblock, hall, hentry⟩ := blockEntry_markBlock hstate (Prod.ext hok rfl)
    rw [index.indexedBy_eq hstate hok hblock hall, hentry,
      show [(⟨id, txs⟩ : IndexedBlock)] = [] ++ [⟨id, txs⟩] from rfl, lastBlock_concat]
    by_cases ht : t ∈ txs.keys <;> simp [ht, lastBlock]
  · have hadds : index.indexedBy ω id state s = [] := if_neg hindexed
    rw [hadds]
    exact Ledger.lookup_markBlock_of_not_indexed houtside hindexed (by simp [Ledger.InIndex])

/-- **A call** keeps the store out of a trial and changes the entries of what it records. -/
theorem blockEntry_run {s : IPFSStorage} (houtside : s.pfTipApply = none) (k : StoreCall) :
    (k.run blockIndex.arrive s).pfTipApply = none ∧
      ∀ t, (k.run blockIndex.arrive s).blockEntry t =
        ((lastBlock (blockIndex.recordedBy s k) t).map fun r => .cid r.id).or
          (s.blockEntry t) := by
  -- storing content changes neither
  have hput : ∀ s' : IPFSStorage, SameMetadata s s' →
      s'.pfTipApply = none ∧ ∀ t, s'.blockEntry t = s.blockEntry t := by
    intro s' hsame
    refine ⟨hsame.pfTipApply.trans houtside, fun t => ?_⟩
    rw [blockEntry, hsame.view]
    rfl
  cases k with
  | op ω o =>
    cases o with
    | putTx t => exact hput _ (sameMetadata_putTx ω t s)
    | putSet set => exact hput _ (sameMetadata_putSet ω set s)
    | putBlock b => exact hput _ (sameMetadata_putRaw ω (marshalBlock b) s)
    | applyGenesis gen =>
      exact ⟨pfTipApply_applyGenesis houtside ω gen, blockEntry_applyGenesis houtside ω gen⟩
    | markBlock id state =>
      exact ⟨(sameKind_markBlock ω id state s).outside houtside, blockEntry_markBlock_eq houtside⟩
    | updateLastApplied id =>
      exact ⟨(sameKind_metadataSet _ _ s).outside houtside, blockEntry_metadataSet (by simp) _ _ s⟩
  | applyTx id t =>
    refine ⟨?_, blockEntry_applyTx id t s⟩
    show (s.applyTx id t).2.pfTipApply = none
    simp [IPFSStorage.applyTx, houtside]
  | validate ω b isNewBlock =>
    have hrun : StoreCall.run blockIndex.arrive s (.validate ω b isNewBlock) = _ :=
      congrArg Prod.snd (isBlockValid_eq ω b isNewBlock s)
    rw [hrun]
    exact ⟨(sameKind_metadataSet _ _ s).outside houtside, blockEntry_metadataSet (by simp) _ _ s⟩
  | arrive objects => exact hput _ rfl

/-- Content and entries are all the answers depend on. -/
theorem sameAnswers {s s' : IPFSStorage} (hobjects : s'.objects = s.objects)
    (hentry : ∀ t, s'.blockEntry t = s.blockEntry t) : SameAnswers s s' := by
  have hblock : s'.getBlock = s.getBlock := getBlock_congr hobjects
  refine ⟨hblock, ?_⟩
  funext t
  have hget : s'.metadataGet (typedKey .txBlock [t.string]) =
      s.metadataGet (typedKey .txBlock [t.string]) := hentry t
  simp only [Store.getTxBlock, getTxBlock, hget, hblock]

theorem blockIndex_reliable : blockIndex.Reliable where
  keeps _ _ := keeps_of_extends
  getBlock_undef s b hdefined hb := by
    obtain ⟨d, -, hd, -⟩ := getBlock_eq_ok.mp hb
    exact absurd (hdefined.symm.trans hd) (by simp)
  getTxBlock_some s t id b hentry hid hb := by
    have hget : s.metadataGet (typedKey .txBlock [t.string]) = some (.cid id) := hentry
    have hcast : castCid (.cid id) = some id := if_neg hid
    simp only [Store.getTxBlock, getTxBlock, hget, hcast]
    exact hb
  getTxBlock_none s t hentry := by
    have hget : s.metadataGet (typedKey .txBlock [t.string]) = none := hentry
    simp only [Store.getTxBlock, getTxBlock, hget]
    rfl
  genesis_undef gen r hr := absurd hr List.not_mem_nil
  idle_run _ k houtside := (blockEntry_run houtside k).1
  entry_run _ k t houtside _ := (blockEntry_run houtside k).2 t
  startTest s trial htrial := by
    replace htrial : s.startTest = .ok trial := htrial
    unfold startTest at htrial
    cases hbatch : s.pfTipApply with
    | some batch => simp [hbatch] at htrial
    | none =>
      simp only [hbatch, Outcome.ok.injEq] at htrial
      rw [← htrial]
      exact sameAnswers rfl fun t => by simp [blockEntry, IPFSStorage.view, hbatch]
  applyTx id t s := by
    refine sameAnswers ?_ (blockEntry_applyTx id t s)
    show (s.applyTx id t).2.objects = s.objects
    unfold applyTx
    split <;> rfl

/-- A new store. -/
theorem blockIndex_inv : blockIndex.Inv ⟨{}, []⟩ where
  idle := rfl
  defined := Finmap.lookup_empty _
  index t := (Finmap.lookup_empty _ : ({} : IPFSStorage).blockEntry t = none)
  block _ hr := absurd hr List.not_mem_nil

end IPFSStorage

/-! ## Both stores -/

/-- **The novelty check tells new transactions from old ones, in every run from the start: on a
`MemStore` exactly where a transaction was not last indexed by a genesis, on an `IPFSStorage`
exactly where it was indexed before.** -/
theorem tellsInTrial_iff [CidText] [Hash] [SigLib] :
    (∀ (ks : List StoreCall) (t : TxID),
      Along MemStore.blockIndex.step MemStore.blockIndex.Allowed ⟨{}, []⟩ ks →
      (TellsInTrial (ks.foldl MemStore.blockIndex.step ⟨{}, []⟩) t ↔
        ∀ r, lastBlock (ks.foldl MemStore.blockIndex.step ⟨{}, []⟩).history t = some r →
          r.id ≠ .undef)) ∧
    ∀ (ks : List StoreCall) (t : TxID),
      Along IPFSStorage.blockIndex.step IPFSStorage.blockIndex.Allowed ⟨{}, []⟩ ks →
      (TellsInTrial (ks.foldl IPFSStorage.blockIndex.step ⟨{}, []⟩) t ↔
        lastBlock (ks.foldl IPFSStorage.blockIndex.step ⟨{}, []⟩).history t ≠ none) := by
  constructor
  · intro ks t hks
    rw [MemStore.blockIndex_reliable.inTrial_iff MemStore.blockIndex_inv hks]
    exact and_iff_right fun _ => rfl
  · intro ks t hks
    -- no block of the history is a genesis
    have hc : IPFSStorage.blockIndex.Inv (ks.foldl IPFSStorage.blockIndex.step ⟨{}, []⟩) :=
      Along.invariant (fun c k hc hk => hc.step IPFSStorage.blockIndex_reliable hk)
        IPFSStorage.blockIndex_inv hks
    have hid : ∀ r, lastBlock (ks.foldl IPFSStorage.blockIndex.step ⟨{}, []⟩).history t = some r →
        r.id ≠ .undef := by
      intro r hr hundef
      obtain ⟨b, hb⟩ := (hc.block r (mem_of_lastBlock hr)).resolve_left fun h =>
        h.elim fun _ hmem => absurd hmem List.not_mem_nil
      exact IPFSStorage.blockIndex_reliable.getBlock_undef _ b hc.defined (hundef ▸ hb)
    rw [IPFSStorage.blockIndex_reliable.inTrial_iff IPFSStorage.blockIndex_inv hks,
      and_iff_left hid]
    constructor
    · intro h hlast
      exact absurd (h hlast) (by simp [IPFSStorage.blockIndex, Err.is])
    · intro h hlast
      exact absurd hlast h

/-! ### A block, before and after it is indexed -/

section

open Storage.Sample

/-- A block of one transaction arrives, is validated and accepted. -/
def indexingCalls : List StoreCall :=
  [.arrive (putBlockOf 1 (didTx 1 .add "did:a:b" [107, 1]) {}).objects,
    .op runtime (.markBlock (blockId 1 (didTx 1 .add "did:a:b" [107, 1])) .validated),
    .op runtime (.markBlock (blockId 1 (didTx 1 .add "did:a:b" [107, 1])) .accepted)]

/-- Once it is indexed, both stores know its transaction. -/
theorem indexed_known :
    TellsInTrial (indexingCalls.foldl MemStore.blockIndex.step ⟨{}, []⟩) ⟨[1, 1]⟩ ∧
      TellsInTrial (indexingCalls.foldl IPFSStorage.blockIndex.step ⟨{}, []⟩) ⟨[1, 1]⟩ := by
  have hempty : ∀ objects : Objects, Extends ∅ objects := by
    intro objects id o h
    exact absurd h (by simp)
  constructor
  · refine (tellsInTrial_iff.1 indexingCalls ⟨[1, 1]⟩ ?_).mpr ?_
    · exact ⟨⟨trivial, hempty _, by decide⟩,
        ⟨by simp only [MemStore.blockIndex]; decide, .refl _, by decide⟩,
        ⟨by simp only [MemStore.blockIndex]; decide, .refl _, by decide⟩, trivial⟩
    · decide
  · refine (tellsInTrial_iff.2 indexingCalls ⟨[1, 1]⟩ ?_).mpr ?_
    · exact ⟨⟨trivial, hempty _, by decide⟩, ⟨trivial, .refl _, by decide⟩,
        ⟨trivial, .refl _, by decide⟩, trivial⟩
    · decide

/-- **Before that**, the transaction is valid on the trial store of an `IPFSStorage` and is refused
as not new, since the error for it is not `ErrNotFound`; a `MemStore` accepts it. -/
theorem novel_tx_refused :
    let t := didTx 1 .add "did:a:b" [107, 1]
    let trial : IPFSStorage := { proposedStore with pfTipApply := some [] }
    (isTxValid trial t).1 = .ok () ∧
      Store.getTxBlock trial ⟨[1, 1]⟩ = .err (.wrap .pebbleNotFound "looking up tx block") ∧
      (Err.wrap .pebbleNotFound "looking up tx block").is .notFound = false ∧
      (tryTx true trial ⟨[1, 1]⟩ t).1 = .err (.wrap (.wrap .pebbleNotFound "looking up tx block")
        "checking for preexisting tx") ∧
      (tryTx true ({} : MemStore) ⟨[1, 1]⟩ t).1 = .ok () := by
  decide

end
end Didem.Storage
