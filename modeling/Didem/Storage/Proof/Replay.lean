import Didem.Storage.Proof.Fold
import Didem.Storage.Proof.NodeSet

/-!
# Transactions that come back

A new block may not contain a transaction that took effect before. `IsBlockValid` looks each one up
in the index from transactions to blocks and goes on if it is not there. Two kinds of transactions
have taken effect and are not there:

* the **genesis** transactions. `ApplyGenesis` of a `MemStore` indexes them under `Undef`; the
  lookup follows the entry, finds no block and says so with the very error that stands for a new
  transaction;
* a transaction under **another CID**. The index is by CID, and a CID is that of an encoding.

What else stands in the way of such a transaction is the rest of its validation. A DID transaction
is stopped there, because its DID exists and a `MemStore` shows every DID as an empty document
(`isTxValid_ne_ok_of_applied`); a node transaction is never valid. A credential is let through.

So the verdict on a block that repeats a transaction is an error exactly when nothing in it makes
the validation panic and something in it is wrong — a transaction in an indexed block, one that is
invalid by itself, or two of one DID (`isBlockValid_err_iff`). An `IPFSStorage` never comes to a
verdict.
-/

set_option autoImplicit false

namespace Didem.Storage

open Lib

namespace MemStore

variable [Hash]

/-! ## When a validation ends in an error -/

variable [SigLib]

/-- **The verdict on a block is an error, whatever the order, exactly when none of its transactions
makes the validation panic and it is not acceptable.** -/
theorem isBlockValid_err_iff {b : Block} {m : MemStore} {txs : TxMap} (hall : m.allTx b = .ok txs) :
    (∀ ω, ∃ err, (isBlockValid ω b true m).1 = .err err) ↔
      (∀ e ∈ txs.entries, (isTxValid m e.2).1 ≠ .panic) ∧
        ((∃ e ∈ txs.entries, ¬ Acceptable m e) ∨
          ¬ txs.entries.Pairwise fun e e' => ¬ SameDid e e') := by
  have hok : ∀ ω, (isBlockValid ω b true m).1 = .ok () ↔
      ¬ ((∃ e ∈ txs.entries, ¬ Acceptable m e) ∨
        ¬ txs.entries.Pairwise fun e e' => ¬ SameDid e e') := by
    intro ω
    rw [isBlockValid_eq_ok, hall]
    simp only [Outcome.ok.injEq, exists_eq_left']
    push Not
    rfl
  constructor
  · intro h
    constructor
    · intro e he hpanic
      obtain ⟨ω, hω⟩ := exists_isBlockValid_panic hall he hpanic
      obtain ⟨err, herr⟩ := h ω
      rw [hω] at herr
      exact absurd herr (by simp)
    · by_contra hacc
      obtain ⟨err, herr⟩ := h (.visiting txs.entries txs.entries .rfl)
      rw [(hok _).mpr hacc] at herr
      exact absurd herr (by simp)
  · rintro ⟨hpanic, hbad⟩ ω
    cases hr : (isBlockValid ω b true m).1 with
    | ok u => exact absurd hbad ((hok ω).mp hr)
    | err err => exact ⟨err, rfl⟩
    | panic => exact absurd hr (isBlockValid_ne_panic hall hpanic ω)

/-! ## DIDs that have been applied -/

omit [Hash] [SigLib] in
theorem mem_didWrites {e : TxEntry} {w : Write String Cid} :
    w ∈ didWrites e ↔ didOf e = some w.key ∧ w.val = some e.1 := by
  obtain ⟨k, v⟩ := w
  unfold didWrites
  split
  · rename_i document htype hdata
    have hdid : didOf e = some document.id := by
      unfold didOf
      rw [htype, hdata]
    simp [hdid, eq_comm]
  · rename_i hother
    have hdid : didOf e = none := by
      unfold didOf
      split
      · rename_i document htype hdata
        exact absurd hdata (hother document htype)
      · rfl
    simp [hdid]

/-- The DID has an entry, and it points to a stored transaction. -/
def HasEntry (m : MemStore) (d : String) : Prop :=
  ∃ cid, m.dids.lookup d = some cid ∧ m.HoldsTx cid

omit [SigLib] in
/-- Such a DID looks like an empty document. -/
theorem HasEntry.lookupDID {m : MemStore} {d : String} (h : m.HasEntry d) :
    Store.lookupDID m d = .ok (some {}) := by
  obtain ⟨cid, hcid, t, hobj⟩ := h
  simp [Store.lookupDID, MemStore.lookupDID, hcid, getObj, hobj, unmarshalDocument, Outcome.mapErr]

omit [Hash] [SigLib] in
/-- Indexing adds entries for the DIDs of its transactions and takes none away. -/
theorem HasEntry.indexed {m : MemStore} {b : BlockID} {es : List TxEntry} {d : String}
    (hstored : ∀ e ∈ es, m.HoldsTx e.1)
    (h : m.HasEntry d ∨ ∃ e ∈ es, didOf e = some d) : (m.indexed b es).HasEntry d := by
  unfold HasEntry
  simp only [MemStore.indexed]
  rw [Write.lookup_applyAll_eq_getLast]
  cases hlast : ((es.flatMap didWrites).filter fun w => w.key = d).getLast? with
  | none =>
    rcases h with h | ⟨e, he, hd⟩
    · exact h
    · -- a transaction of this DID writes its entry
      have hw : (⟨d, some e.1⟩ : Write String Cid) ∈
          (es.flatMap didWrites).filter fun w => w.key = d :=
        List.mem_filter.mpr ⟨List.mem_flatMap.mpr ⟨e, he, mem_didWrites.mpr ⟨hd, rfl⟩⟩, by simp⟩
      rw [List.getLast?_eq_none_iff.mp hlast] at hw
      exact absurd hw (by simp)
  | some w =>
    have hw := List.mem_of_mem_filter (List.mem_of_getLast? hlast)
    obtain ⟨e, he, hwe⟩ := List.mem_flatMap.mp hw
    exact ⟨e.1, (mem_didWrites.mp hwe).2, hstored e he⟩

/-- **A transaction that has taken effect is not valid any more, unless it is a credential.** -/
theorem isTxValid_ne_ok_of_applied {m : MemStore} {e : TxEntry} (htype : e.2.type ≠ .vc)
    (h : ∀ d, didOf e = some d → m.HasEntry d) : (isTxValid m e.2).1 ≠ .ok () := by
  intro hvalid
  cases hty : e.2.type with
  | did =>
    refine isTxValid_ne_ok_of_empty hty (fun document hdata => ?_) hvalid
    exact (h document.id (by simp [didOf, hty, hdata])).lookupDID
  | vc => exact htype hty
  | node => exact type_ne_node_of_isTxValid hvalid hty
  | other n =>
    simp only [isTxValid, hty] at hvalid
    split_ifs at hvalid

/-! ## What a mark does to the index -/

omit [Hash] [SigLib] in
/-- Indexing succeeds or panics. -/
theorem applyTxs_ne_err (b : BlockID) (es : List TxEntry) (m : MemStore) (err : Err) :
    (applyTxs b es m).1 ≠ .err err := by
  induction es generalizing m with
  | nil => simp [applyTxs]
  | cons e es ih =>
    rw [applyTxs, applyTx_eq]
    by_cases he : applicable e
    · rw [if_pos he]
      exact ih _
    · rw [if_neg he]
      simp [Outcome.mapErr]

omit [Hash] [SigLib] in
/-- A mark that returns an error has recorded the state of its block and nothing else. -/
theorem snd_markBlock_of_err {ω : Runtime} {id : BlockID} {st : BlockState} {m : MemStore}
    {err : Err} (h : (m.markBlock ω id st).1 = .err err) :
    (m.markBlock ω id st).2 = { m with bState := m.bState.insert id st } := by
  simp only [markBlock] at h ⊢
  split
  · rename_i hindexed
    rw [if_pos hindexed] at h
    unfold indexBlockTx at h ⊢
    split
    · rfl
    · rfl
    · split
      · rfl
      · rfl
      · rename_i block hblock _ txs hall
        simp only [hblock, hall] at h
        exact absurd h (applyTxs_ne_err _ _ _ _)
  · rfl

omit [Hash] [SigLib] in
/-- The entries of the block index after a block was indexed. -/
theorem lookup_txbIndex_indexed (b : BlockID) (es : List TxEntry) (m : MemStore) (t : TxID) :
    (m.indexed b es).txbIndex.lookup t =
      if t ∈ es.map Sigma.fst then some b else m.txbIndex.lookup t := by
  simp only [MemStore.indexed]
  split
  · rename_i ht
    obtain ⟨e, he, rfl⟩ := List.mem_map.mp ht
    refine Write.lookup_applyAll_of_agree ?_ ⟨⟨e.1, some b⟩, List.mem_map.mpr ⟨e, he, rfl⟩, rfl⟩ _
    intro w hw _
    obtain ⟨e', -, rfl⟩ := List.mem_map.mp hw
    rfl
  · rename_i ht
    refine Write.lookup_applyAll_of_notMem ?_ _
    rintro w hw rfl
    obtain ⟨e, he, rfl⟩ := List.mem_map.mp hw
    exact ht (List.mem_map_of_mem he)

/-! ## A store with its history -/

/-- The block that a call adds to the history. -/
def recordedBy (m : MemStore) : BlockCall → List IndexedBlock
  | .accept ω id => index.indexedBy ω id .accepted m
  | _ => []

end MemStore

/-- What happens to a `MemStore`: a call on a block, or content arrives. -/
inductive MemEvent where
  | call (c : BlockCall)
  | arrive (objects : Objects)

namespace MemStore

def ledgerStep [Hash] [SigLib] (c : Ledger MemStore) : MemEvent → Ledger MemStore
  | .call call => ⟨call.run c.store, c.history ++ c.store.recordedBy call⟩
  | .arrive objects => ⟨{ c.store with objects := objects }, c.history⟩

/-- The node does not crash. Content arrives under defined CIDs and replaces nothing; it need not be
under the CID its encoding here would have. -/
def LedgerAllowed (c : Ledger MemStore) : MemEvent → Prop
  | .call (.accept ω id) => (c.store.markBlock ω id .accepted).1 ≠ .panic
  | .call _ => True
  | .arrive objects => Extends c.store.objects objects ∧ objects.lookup .undef = none

/-- The transaction has the content of one that took effect. -/
def Repeated (gen : List Tx) (h : List IndexedBlock) (e : TxEntry) : Prop :=
  e.2 ∈ gen ∨ ∃ e' ∈ applied h, e'.2 = e.2

/-- The transaction is in an indexed block, under the CID it has. -/
def InHistory (h : List IndexedBlock) (t : TxID) : Prop := ∃ r ∈ h, t ∈ r.txs.keys

/-- **The block index tells the transactions of the indexed blocks from all others**, the genesis
transactions `gen` included, and the DIDs of all of them have an entry. -/
structure LedgerInv (gen : List Tx) (c : Ledger MemStore) : Prop where
  defined : c.store.objects.lookup .undef = none
  indexed : ∀ t, InHistory c.history t → ∃ r ∈ c.history, c.store.txbIndex.lookup t = some r.id
  fresh : ∀ t, ¬ InHistory c.history t →
    c.store.txbIndex.lookup t = none ∨ c.store.txbIndex.lookup t = some .undef
  block : ∀ r ∈ c.history, ∃ b, c.store.getBlock r.id = .ok b
  entry : ∀ e, Repeated gen c.history e → ∀ d, didOf e = some d → c.store.HasEntry d

namespace LedgerInv

variable {gen : List Tx} {c : Ledger MemStore}

/-- **A block is indexed.** -/
theorem index [Hash] (hc : LedgerInv gen c) {ω : Runtime} {id : BlockID} {m : MemStore}
    (hstate : c.store.stateOf id = .validated)
    (hmark : c.store.markBlock ω id .accepted = (.ok (), m)) :
    ∃ block txs, c.store.getBlock id = .ok block ∧ c.store.allTx block = .ok txs ∧
      LedgerInv gen ⟨m, c.history ++ [⟨id, txs⟩]⟩ := by
  obtain ⟨block, txs, hblock, hall, -, rfl⟩ := (markBlock_accepted_eq_ok hstate).mp hmark
  have hkeys : ∀ t, t ∈ (ω.order txs.entries).map Sigma.fst ↔ t ∈ txs.keys :=
    fun t => ((ω.order_perm txs.entries).map Sigma.fst).mem_iff
  have hhistory : ∀ t, InHistory (c.history ++ [⟨id, txs⟩]) t ↔
      InHistory c.history t ∨ t ∈ txs.keys := by
    intro t
    simp [InHistory, or_and_right, exists_or]
  have hstored : ∀ e ∈ ω.order txs.entries, c.store.HoldsTx e.1 := fun e he =>
    holdsTx_of_allTx hall (AList.mem_lookup_iff.mpr ((ω.order_perm _).mem_iff.mp he))
  refine ⟨block, txs, hblock, hall, ?_⟩
  constructor
  · exact hc.defined
  · intro t ht
    rw [lookup_txbIndex_indexed]
    by_cases hmem : t ∈ txs.keys
    · exact ⟨⟨id, txs⟩, by simp, if_pos ((hkeys t).mpr hmem)⟩
    · rw [if_neg (mt (hkeys t).mp hmem)]
      obtain ⟨r, hr, hlookup⟩ := hc.indexed t (((hhistory t).mp ht).resolve_right hmem)
      exact ⟨r, List.mem_append_left _ hr, hlookup⟩
  · intro t ht
    rw [hhistory, not_or] at ht
    rw [lookup_txbIndex_indexed, if_neg (mt (hkeys t).mp ht.2)]
    exact hc.fresh t ht.1
  · intro r hr
    rcases List.mem_append.mp hr with hr | hr
    · exact hc.block r hr
    · rw [List.mem_singleton.mp hr]
      exact ⟨block, hblock⟩
  · intro e he d hd
    refine HasEntry.indexed hstored ?_
    -- it took effect earlier, or just now
    rcases he with he | ⟨e', he', heq⟩
    · exact .inl (hc.entry e (.inl he) d hd)
    · rw [applied, List.flatMap_append, List.flatMap_singleton] at he'
      rcases List.mem_append.mp he' with he' | he'
      · exact .inl (hc.entry e (.inr ⟨e', he', heq⟩) d hd)
      · refine .inr ⟨e', (ω.order_perm _).mem_iff.mpr he', ?_⟩
        unfold didOf at hd ⊢
        rw [heq]
        exact hd

section

variable [Hash]

/-- A step that does not index changes nothing the invariant speaks of. -/
theorem of_store (hc : LedgerInv gen c) {m : MemStore} (hdefined : m.objects.lookup .undef = none)
    (hextends : Extends c.store.objects m.objects) (htxb : m.txbIndex = c.store.txbIndex)
    (hdids : m.dids = c.store.dids) : LedgerInv gen ⟨m, c.history⟩ := by
  have hkeeps : Keeps c.store m := keeps_of_extends hextends
  constructor
  · exact hdefined
  · intro t ht
    rw [htxb]
    exact hc.indexed t ht
  · intro t ht
    rw [htxb]
    exact hc.fresh t ht
  · intro r hr
    exact (hc.block r hr).imp fun _ => hkeeps.getBlock
  · intro e he d hd
    obtain ⟨cid, hcid, t, hobj⟩ := hc.entry e he d hd
    exact ⟨cid, by rw [hdids]; exact hcid, t, hextends cid _ hobj⟩

/-- The novelty check passes exactly on transactions that are in no indexed block. -/
theorem notInBlock_iff (hc : LedgerInv gen c) (t : TxID) :
    notInBlock c.store t = .ok () ↔ ¬ InHistory c.history t := by
  by_cases ht : InHistory c.history t
  · obtain ⟨r, hr, hlookup⟩ := hc.indexed t ht
    obtain ⟨b, hb⟩ := hc.block r hr
    have hget : Store.getTxBlock c.store t = .ok b := by
      simp only [Store.getTxBlock, getTxBlock, hlookup]
      exact hb
    simp [notInBlock, hget, ht]
  · have hget : Store.getTxBlock c.store t = .err .notFound := by
      simp only [Store.getTxBlock, getTxBlock]
      rcases hc.fresh t ht with hlookup | hlookup
      · simp [hlookup]
      · simp [hlookup, getBlock, getObj, hc.defined]
    simp [notInBlock, hget, ht, Err.is]

variable [SigLib]

/-- **One step** keeps the invariant. -/
theorem step (hc : LedgerInv gen c) {i : MemEvent} (hi : LedgerAllowed c i) :
    LedgerInv gen (ledgerStep c i) := by
  -- a call that only writes a state
  have hstate : ∀ states : Finmap (fun _ : BlockID => BlockState),
      LedgerInv gen ⟨{ c.store with bState := states }, c.history⟩ :=
    fun _ => hc.of_store hc.defined (.refl _) rfl rfl
  cases i with
  | arrive objects => exact hc.of_store hi.2 hi.1 rfl rfl
  | call call =>
    cases call with
    | validate ω b isNewBlock =>
      simp only [ledgerStep, recordedBy, List.append_nil, BlockCall.run, snd_isBlockValid]
      exact hstate _
    | markValidated ω id =>
      simp only [ledgerStep, recordedBy, List.append_nil, BlockCall.run, markBlock_validated]
      exact hstate _
    | accept ω id =>
      by_cases hvalidated : c.store.stateOf id = .validated
      · cases hr : (c.store.markBlock ω id .accepted).1 with
        | panic => exact absurd hr hi
        | err err =>
          have hadds : c.store.recordedBy (.accept ω id) = [] :=
            if_neg fun h => absurd (hr.symm.trans h.2.2) (by simp)
          have hstore : BlockCall.run c.store (.accept ω id) = _ := snd_markBlock_of_err hr
          simp only [ledgerStep, hadds, List.append_nil, hstore]
          exact hstate _
        | ok u =>
          obtain ⟨block, txs, hblock, hall, hinv⟩ := hc.index hvalidated (Prod.ext hr rfl)
          have hadds : c.store.recordedBy (.accept ω id) = [⟨id, txs⟩] :=
            MemStore.index.indexedBy_eq hvalidated hr hblock hall
          simp only [ledgerStep, hadds]
          exact hinv
      · have hadds : c.store.recordedBy (.accept ω id) = [] := if_neg fun h => hvalidated h.1
        have hmark : c.store.markBlock ω id .accepted =
            (.ok (), { c.store with bState := c.store.bState.insert id .accepted }) := by
          simp [markBlock, hvalidated]
        simp only [ledgerStep, hadds, List.append_nil, BlockCall.run]
        rw [show Store.markBlock ω id .accepted c.store = _ from hmark]
        exact hstate _

end
end LedgerInv

/-! ## Genesis -/

/-- What genesis collects is stored, and it collects every transaction. -/
theorem lookup_putGenesis [Hash] (hinj : Function.Injective (Hash.sum : Obj → Cid)) (ts : List Tx)
    (txs : TxMap) (m : MemStore) (hdefined : m.objects.lookup .undef = none)
    (hstored : ∀ c t, txs.lookup c = some t → m.objects.lookup c = some (.tx t)) :
    (putGenesis ts txs m).2.objects.lookup .undef = none ∧
      (∀ c t, (putGenesis ts txs m).1.lookup c = some t →
        (putGenesis ts txs m).2.objects.lookup c = some (.tx t)) ∧
      ∀ t, t ∈ ts ∨ txs.lookup (Hash.sum (.tx t)) = some t →
        (putGenesis ts txs m).1.lookup (Hash.sum (.tx t)) = some t := by
  induction ts generalizing txs m with
  | nil => exact ⟨hdefined, hstored, fun t ht => ht.resolve_left (by simp)⟩
  | cons t₀ ts ih =>
    have hne : Cid.undef ≠ Hash.sum (.tx t₀) :=
      fun h => Hash.sum_ne_undef _ (congrArg Cid.str h.symm)
    have hcollected : ∀ c t, (txs.insert (Hash.sum (.tx t₀)) t₀).lookup c = some t →
        (m.putObj (.tx t₀)).2.objects.lookup c = some (.tx t) := by
      intro c t hc
      by_cases hcid : c = Hash.sum (.tx t₀)
      · rw [hcid, AList.lookup_insert, Option.some.injEq] at hc
        rw [hcid, ← hc]
        exact Finmap.lookup_insert _
      · rw [AList.lookup_insert_ne hcid] at hc
        exact (Finmap.lookup_insert_of_ne _ hcid).trans (hstored c t hc)
    obtain ⟨hdef, hobj, hmem⟩ :=
      ih _ _ ((Finmap.lookup_insert_of_ne _ hne).trans hdefined) hcollected
    refine ⟨hdef, hobj, fun t ht => hmem t ?_⟩
    -- another transaction has another CID, so nothing collected is overwritten
    by_cases heq : t = t₀
    · rw [heq]
      exact .inr (AList.lookup_insert _)
    · rcases ht with ht | ht
      · exact .inl ((List.mem_cons.mp ht).resolve_left heq)
      · refine .inr ?_
        rw [AList.lookup_insert_ne fun h => heq (Obj.tx.inj (hinj h))]
        exact ht

/-- After genesis the history is empty, and the genesis transactions are not in the block index
either. -/
theorem LedgerInv.of_applyGenesis [Hash] (hinj : Function.Injective (Hash.sum : Obj → Cid))
    {ω : Runtime} {gen : GenesisInfo} {m₀ m : MemStore} (htxb : m₀.txbIndex = ∅)
    (hdefined : m₀.objects.lookup .undef = none) (h : m₀.applyGenesis ω gen = (.ok (), m)) :
    LedgerInv gen.txs ⟨m, []⟩ := by
  have hstore := snd_putGenesis gen.txs ∅ { m₀ with genesisApplied := true }
  obtain ⟨hdef, hobj, hmem⟩ :=
    lookup_putGenesis hinj gen.txs ∅ { m₀ with genesisApplied := true } hdefined (by simp)
  simp only [applyGenesis] at h
  generalize putGenesis gen.txs ∅ { m₀ with genesisApplied := true } = r at *
  obtain ⟨txs, m₁⟩ := r
  obtain ⟨-, rfl⟩ := applyTxs_ok.mp h
  simp only at hstore hdef hobj hmem
  have hperm := ω.order_perm txs.entries
  constructor
  · exact hdef
  · rintro t ⟨r, hr, -⟩
    exact absurd hr (by simp)
  · intro t _
    rw [lookup_txbIndex_indexed]
    split
    · exact .inr rfl
    · left
      rw [hstore]
      simp [htxb]
  · simp
  · intro e he d hd
    refine HasEntry.indexed (fun e' he' => ⟨e'.2, hobj e'.1 e'.2
      (AList.mem_lookup_iff.mpr (hperm.mem_iff.mp he'))⟩) (.inr ?_)
    have hgen : e.2 ∈ gen.txs := he.resolve_right (by simp [applied])
    have hentry := AList.mem_lookup_iff.mp (hmem e.2 (.inl hgen))
    exact ⟨_, hperm.mem_iff.mpr hentry, hd⟩

end MemStore

/-! ## Both stores -/

/-- **Nothing in the block makes the validation panic, and something in it is wrong**: a transaction
is in an indexed block or is not valid by itself, or two are of one DID. -/
def Refusable [Hash] [SigLib] (c : Ledger MemStore) (txs : TxMap) : Prop :=
  (∀ e ∈ txs.entries, (isTxValid c.store e.2).1 ≠ .panic) ∧
    ((∃ e ∈ txs.entries, MemStore.InHistory c.history e.1 ∨ (isTxValid c.store e.2).1 ≠ .ok ()) ∨
      ¬ txs.entries.Pairwise fun e e' => ¬ SameDid e e')

/-- **A block that repeats a transaction is refused exactly when it is refusable** — after genesis
and any run of validations, marks and arriving content on a `MemStore`; and what it repeats is not
valid any more, unless it is a credential. On an `IPFSStorage` there is no verdict. -/
theorem repeated_refused_iff [CidText] [Hash] [SigLib]
    (hinj : Function.Injective (Hash.sum : Obj → Cid)) :
    (∀ (ω : Runtime) (gen : GenesisInfo) (m₀ m : MemStore) (is : List MemEvent) (b : Block)
        (txs : TxMap), m₀.txbIndex = ∅ → m₀.objects.lookup .undef = none →
      m₀.applyGenesis ω gen = (.ok (), m) →
      Along MemStore.ledgerStep MemStore.LedgerAllowed ⟨m, []⟩ is →
      (is.foldl MemStore.ledgerStep ⟨m, []⟩).store.allTx b = .ok txs →
      (∃ e ∈ txs.entries,
        MemStore.Repeated gen.txs (is.foldl MemStore.ledgerStep ⟨m, []⟩).history e) →
      ((∀ ω', ∃ err, (isBlockValid ω' b true (is.foldl MemStore.ledgerStep ⟨m, []⟩).store).1 =
          .err err) ↔
        Refusable (is.foldl MemStore.ledgerStep ⟨m, []⟩) txs) ∧
      ∀ e ∈ txs.entries,
        MemStore.Repeated gen.txs (is.foldl MemStore.ledgerStep ⟨m, []⟩).history e →
        e.2.type ≠ .vc → (isTxValid (is.foldl MemStore.ledgerStep ⟨m, []⟩).store e.2).1 ≠ .ok ()) ∧
    ∀ (ω : Runtime) (s : IPFSStorage) (b : Block) (txs : TxMap), s.pfTipApply = none →
      s.allTx b = .ok txs → (isBlockValid ω b true s).1 = .panic := by
  constructor
  · intro ω gen m₀ m is b txs htxb hdefined hgen his hall _
    have hc : MemStore.LedgerInv gen.txs (is.foldl MemStore.ledgerStep ⟨m, []⟩) :=
      Along.invariant (P := MemStore.LedgerInv gen.txs) (fun c i hc hi => hc.step hi)
        (.of_applyGenesis hinj htxb hdefined hgen) his
    generalize is.foldl MemStore.ledgerStep ⟨m, []⟩ = c at hall hc ⊢
    refine ⟨?_, fun e _ hrepeated htype =>
      MemStore.isTxValid_ne_ok_of_applied htype (hc.entry e hrepeated)⟩
    rw [MemStore.isBlockValid_err_iff hall, Refusable]
    refine and_congr_right fun _ => or_congr_left
      (exists_congr fun e => and_congr_right fun _ => ?_)
    rw [MemStore.Acceptable, hc.notInBlock_iff, not_and_or, not_not, or_comm]
  · intro ω s b txs htest hall
    rw [IPFSStorage.isBlockValid_eq, hall, htest]

section

open Storage.Sample.Exact

/-- A genesis with a transaction that adds a node, and a set of it. -/
def firstGenesis : GenesisInfo := { chainID := "", block := {}, txs := [addNodeTx] }

def firstSet : TxSet := { tx := some (Hash.sum (.tx addNodeTx)) }

/-- A store with the set, after the genesis. -/
def afterGenesis : MemStore :=
  ((MemStore.putSet firstSet {}).2.applyGenesis Sample.runtime firstGenesis).2

/-- The node of a genesis transaction cannot be added a second time. -/
theorem genesis_node_refused :
    ∃ err, (isBlockValid Sample.runtime { txRoot := Hash.sum (marshalSet firstSet) } true
      afterGenesis).1 = .err err := by
  have htxs : (afterGenesis.allTx { txRoot := Hash.sum (marshalSet firstSet) }).bind
      (fun txs => .ok txs.entries) = .ok [⟨Hash.sum (.tx addNodeTx), addNodeTx⟩] := by decide +kernel
  have hvalid : (isTxValid afterGenesis addNodeTx).1 ≠ .panic := by decide +kernel
  cases hall : afterGenesis.allTx { txRoot := Hash.sum (marshalSet firstSet) } with
  | panic => rw [hall] at htxs; exact absurd htxs (by simp [Outcome.bind])
  | err e => rw [hall] at htxs; exact absurd htxs (by simp [Outcome.bind])
  | ok txs =>
    rw [hall, Outcome.bind, Outcome.ok.injEq] at htxs
    have hrepeated : MemStore.Repeated firstGenesis.txs [] ⟨Hash.sum (.tx addNodeTx), addNodeTx⟩ :=
      .inl List.mem_cons_self
    have hmem : (⟨Hash.sum (.tx addNodeTx), addNodeTx⟩ : TxEntry) ∈ txs.entries := by
      rw [htxs]
      exact List.mem_cons_self
    obtain ⟨hrefused, hinvalid⟩ := (repeated_refused_iff sum_injective).1 Sample.runtime
      firstGenesis (MemStore.putSet firstSet {}).2 afterGenesis [] _ txs rfl (by decide +kernel)
      (Prod.ext (by decide +kernel) rfl) trivial hall ⟨_, hmem, hrepeated⟩
    refine hrefused.mpr ⟨?_, .inl ⟨_, hmem, .inr (hinvalid _ hmem hrepeated (by decide))⟩⟩
      Sample.runtime
    rw [htxs]
    exact List.forall_mem_singleton.mpr hvalid

end

section

open Storage.Sample

/-- **A genesis transaction takes effect again**: a block of the credential that was in the genesis
passes as new, under the same CID. -/
theorem genesis_vc_accepted :
    let m := ((putBlockOf 1 (vcTx 1) {}).applyGenesis runtime
      { chainID := "", block := {}, txs := [vcTx 1] }).2
    m.txbIndex.lookup ⟨[1, 1]⟩ = some .undef ∧
      (m.allTx (blockOf 1 (vcTx 1))).bind (fun txs => .ok txs.entries) = .ok [⟨⟨[1, 1]⟩, vcTx 1⟩] ∧
      (isBlockValid runtime (blockOf 1 (vcTx 1)) true m).1 = .ok () := by
  decide

end
end Didem.Storage
