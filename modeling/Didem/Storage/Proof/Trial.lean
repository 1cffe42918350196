import Didem.Storage.Ipfs
import Didem.Storage.MemStore
import Didem.Storage.Proof.Authorised

/-!
# What the trial of a block accepts

`IsBlockValid` applies the transactions of a block one by one to a trial store and validates each
against what the ones before it left. On a `MemStore` that dependence is very thin. A transaction
is validated through `LookupDID` alone, and an entry that the trial itself wrote answers with the
**empty document** — the store decodes the transaction as a document — which exists, so nothing
can be added there, and has no verification method, so nothing can be signed by it.

So the loop accepts a list of stored transactions exactly when each is acceptable by itself and no
two of them name the same DID (`tryTxs_eq_ok`). Neither half mentions the order.

On an `IPFSStorage` the trial accepts nothing. The deferred `CompleteTest` runs on the restored
store, which has no batch to close (`isBlockValid_ne_ok`).
-/

set_option autoImplicit false

namespace Didem.Storage

open Lib

/-- Both are DID transactions, of one DID. -/
def SameDid (e e' : TxEntry) : Prop :=
  e.2.type = .did ∧ e'.2.type = .did ∧ ∃ document document',
    e.2.data = some (.did (some document)) ∧ e'.2.data = some (.did (some document')) ∧
    document.id = document'.id

theorem SameDid.symm {e e' : TxEntry} (h : SameDid e e') : SameDid e' e := by
  obtain ⟨htype, htype', document, document', hdata, hdata', hid⟩ := h
  exact ⟨htype', htype, document', document, hdata', hdata, hid.symm⟩

/-! ## The store a validation depends on -/

section

variable {S : Type} [Store S] [SigLib]

/-- The store enters the validation of a transaction through the lookup of its DID only. -/
theorem isTxValid_congr {s s' : S} {t : Tx}
    (h : ∀ document, t.type = .did → t.data = some (.did (some document)) →
      Store.lookupDID s document.id = Store.lookupDID s' document.id) :
    isTxValid s t = isTxValid s' t := by
  unfold isTxValid
  split_ifs
  · rfl
  · rfl
  · rfl
  · rfl
  · cases htype : t.type with
    | did =>
      simp only [isDIDTxValid]
      split
      · rename_i document hdata
        rw [h document htype hdata]
      · rfl
    | vc => rfl
    | node => rfl
    | other n => rfl

/-- **A DID that looks like an empty document can be neither added nor changed.** -/
theorem isTxValid_ne_ok_of_empty {s : S} {t : Tx} (htype : t.type = .did)
    (hempty : ∀ document, t.data = some (.did (some document)) →
      Store.lookupDID s document.id = .ok (some {})) : (isTxValid s t).1 ≠ .ok () := by
  intro hvalid
  have hdid := ((isTxValid_did_eq_ok htype).mp hvalid).2
  obtain ⟨document, msg, hdata, hmsg, hdoc⟩ := checks_of_isDIDTxValid hdid
  have hlookup := hempty document hdata
  rcases (isDIDTxValid_eq_ok hdata hmsg hdoc).mp hdid with
    ⟨-, hnew, -⟩ | ⟨-, ⟨err, hfailed⟩ | ⟨existing, hfound, hsigned⟩⟩
  · rw [hlookup] at hnew; exact absurd hnew (by simp)
  · rw [hlookup] at hfailed; exact absurd hfailed (by simp)
  · rw [hlookup, Outcome.ok.injEq, Option.some.injEq] at hfound
    rw [← hfound, Document.signed_of_no_method rfl] at hsigned
    exact absurd hsigned (by simp)

/-- A transaction on which the validation panics although its DID looks like an empty document makes
it panic on every store: the document is not what it panics on. -/
theorem isTxValid_panic_of_empty {s : S} {t : Tx} (htype : t.type = .did)
    (hempty : ∀ document, t.data = some (.did (some document)) →
      Store.lookupDID s document.id = .ok (some {})) (h : (isTxValid s t).1 = .panic) (s' : S) :
    (isTxValid s' t).1 = .panic := by
  have hdid : (isDIDTxValid s t).1 = .panic → (isDIDTxValid s' t).1 = .panic := by
    intro hpanic
    obtain ⟨version, ts, sender, type, action, data, signature⟩ := t
    rcases data with _ | ((_ | document) | n | d)
    · rfl
    · rfl
    · have hlookup := hempty document rfl
      simp only [isDIDTxValid, hlookup] at hpanic ⊢
      split
      · rfl
      · cases hmsg : Tx.marshal _ with
        | panic => rfl
        | err e => simp [hmsg] at hpanic
        | ok msg =>
          cases hdoc : document.isValid with
          | panic => rfl
          | err e => simp [hmsg, hdoc] at hpanic
          | ok u =>
            cases action <;>
              simp [hmsg, hdoc, Document.signed_of_no_method (d := {}) rfl] at hpanic
    · rfl
    · rfl
  unfold isTxValid at h ⊢
  split_ifs at h ⊢
  rw [htype] at h ⊢
  exact hdid h

end

namespace MemStore

/-! ## What an accepted transaction leaves behind -/

/-- The trial store after a transaction it accepted. -/
def tried (e : TxEntry) (m : MemStore) : MemStore :=
  { m with dids := Write.applyAll m.dids (didWrites e) }

/-- The DID of an entry the trial wrote looks like an empty document. -/
theorem lookupDID_tried_of_sameDid {m : MemStore} {e e' : TxEntry} {document : Document}
    (hstored : m.HoldsTx e.1) (hsame : SameDid e e')
    (hdata : e'.2.data = some (.did (some document))) :
    lookupDID (m.tried e) document.id = .ok (some {}) := by
  obtain ⟨htype, -, written, document', hwritten, hdata', hid⟩ := hsame
  rw [hdata, Option.some.injEq, TxData.did.injEq, Option.some.injEq] at hdata'
  have hwrites : didWrites e = [⟨document.id, some e.1⟩] := by
    simp [didWrites, htype, hwritten, hid, hdata']
  have hentry : (m.tried e).dids.lookup document.id = some e.1 := by
    simp [tried, hwrites, Write.apply]
  obtain ⟨t, hobject⟩ : (m.tried e).HoldsTx e.1 := hstored
  simp [lookupDID, hentry, getObj, hobject, unmarshalDocument, Outcome.mapErr]

/-- Another DID is looked up as before. -/
theorem lookupDID_tried_of_not_sameDid {m : MemStore} {e e' : TxEntry} {document : Document}
    (hsame : ¬ SameDid e e') (htype : e'.2.type = .did)
    (hdata : e'.2.data = some (.did (some document))) :
    lookupDID (m.tried e) document.id = lookupDID m document.id := by
  have hentry : (m.tried e).dids.lookup document.id = m.dids.lookup document.id := by
    refine Write.lookup_applyAll_of_notMem (fun w hw hkey => hsame ?_) _
    unfold didWrites at hw
    split at hw
    · rename_i written hetype hewritten
      rw [List.mem_singleton.mp hw] at hkey
      exact ⟨hetype, htype, written, document, hewritten, hdata, hkey⟩
    · exact absurd hw (by simp)
  simp only [lookupDID, hentry]
  rfl

/-! ## One turn of the loop -/

variable [Hash] [SigLib]

/-- An accepted transaction can be applied, and is not a node transaction. -/
theorem applicable_of_isTxValid {m : MemStore} {e : TxEntry}
    (h : (isTxValid m e.2).1 = .ok ()) : applicable e ∧ nodeWrites e = [] := by
  obtain ⟨id, t⟩ := e
  cases htype : t.type with
  | did =>
    obtain ⟨document, msg, hdata, -⟩ :=
      checks_of_isDIDTxValid ((isTxValid_did_eq_ok htype).mp h).2
    simp [applicable, nodeWrites, htype, hdata]
  | vc => simp [applicable, nodeWrites, htype]
  | node =>
    simp only [isTxValid, htype, isNodeTxValid] at h
    split_ifs at h
  | other n => simp [applicable, nodeWrites, htype]

/-- The transaction is acceptable by itself. -/
def Acceptable (m : MemStore) (e : TxEntry) : Prop :=
  (isTxValid m e.2).1 = .ok () ∧ notInBlock m e.1 = .ok ()

/-- One turn of the loop: it goes on exactly after an acceptable transaction. -/
theorem tryTx_eq_ok {m m' : MemStore} {e : TxEntry} :
    tryTx true m e.1 e.2 = (.ok (), m') ↔ Acceptable m e ∧ m' = m.tried e := by
  unfold tryTx Acceptable
  cases hvalid : isTxValid m e.2 with
  | mk r t =>
    cases r with
    | panic => simp
    | err err => simp
    | ok u =>
      have happ := applicable_of_isTxValid (m := m) (e := e) (by rw [hvalid])
      have happly : Store.applyTx e.1 t m = (.ok (), m.tried e) := by
        have ht : Store.applyTx e.1 t m = applyTx e.1 e.2 m := by
          have hsnd := snd_isTxValid (s := m) (t := e.2) (by rw [hvalid]; simp)
          rw [hvalid] at hsnd
          simp only at hsnd
          rw [hsnd]
          split <;> rfl
        rw [ht, applyTx_eq, if_pos happ.1, happ.2]
        rfl
      cases notInBlock m e.1 with
      | panic => simp
      | err err => simp
      | ok u' => simp [happly, eq_comm]

/-- **After an accepted transaction, the acceptable ones are those that were, less those of the
same DID.** -/
theorem acceptable_tried {m : MemStore} {e e' : TxEntry}
    (hstored : m.HoldsTx e.1) :
    Acceptable (m.tried e) e' ↔ Acceptable m e' ∧ ¬ SameDid e e' := by
  -- the trial does not touch the block index
  have hfresh : notInBlock (m.tried e) e'.1 = notInBlock m e'.1 := rfl
  unfold Acceptable
  rw [hfresh]
  by_cases hsame : SameDid e e'
  · -- what the trial wrote cannot be added to and signs nothing
    have hreject : ¬ (isTxValid (m.tried e) e'.2).1 = .ok () :=
      isTxValid_ne_ok_of_empty hsame.2.1 fun document hdata =>
        lookupDID_tried_of_sameDid hstored hsame hdata
    tauto
  · have hcongr : isTxValid (m.tried e) e'.2 = isTxValid m e'.2 :=
      isTxValid_congr fun document htype hdata =>
        lookupDID_tried_of_not_sameDid hsame htype hdata
    rw [hcongr]
    tauto

/-! ## The loop -/

/-- **The trial accepts a list of stored transactions exactly when each of them is acceptable and
no two are of the same DID.** -/
theorem tryTxs_eq_ok {m : MemStore} {es : List TxEntry}
    (hstored : ∀ e ∈ es, m.HoldsTx e.1) :
    (tryTxs true es m).1 = .ok () ↔
      (∀ e ∈ es, Acceptable m e) ∧ es.Pairwise fun e e' => ¬ SameDid e e' := by
  induction es generalizing m with
  | nil => simp [tryTxs]
  | cons e es ih =>
    have hrest : ∀ e' ∈ es, (m.tried e).HoldsTx e'.1 :=
      fun e' he' => hstored e' (List.mem_cons_of_mem e he')
    rw [tryTxs, List.forall_mem_cons, List.pairwise_cons]
    by_cases he : Acceptable m e
    · rw [tryTx_eq_ok.mpr ⟨he, rfl⟩]
      simp only [ih hrest, acceptable_tried (hstored e List.mem_cons_self)]
      constructor
      · rintro ⟨hall, hpair⟩
        exact ⟨⟨he, fun e' he' => (hall e' he').1⟩, fun e' he' => (hall e' he').2, hpair⟩
      · rintro ⟨⟨-, hall⟩, hsame, hpair⟩
        exact ⟨fun e' he' => ⟨hall e' he', hsame e' he'⟩, hpair⟩
    · have hstop : ∀ m', tryTx true m e.1 e.2 ≠ (.ok (), m') :=
        fun m' h => he (tryTx_eq_ok.mp h).1
      constructor
      · intro h
        split at h
        · rename_i m' hm'
          exact absurd hm' (hstop m')
        · exact (hstop (tryTx true m e.1 e.2).2 (Prod.ext h rfl)).elim
      · rintro ⟨⟨hacc, -⟩, -⟩
        exact absurd hacc he

/-! ## Panics -/

omit [SigLib] in
theorem notInBlock_ne_panic (m : MemStore) (id : TxID) : notInBlock m id ≠ .panic := by
  have hget : Store.getTxBlock m id ≠ .panic := by
    simp only [Store.getTxBlock, getTxBlock]
    split
    · simp
    · exact m.getBlock_ne_panic _
  unfold notInBlock
  split
  · rename_i h
    exact absurd h hget
  · simp
  · split <;> simp

/-- A turn of the loop panics only where the validation of its transaction does. -/
theorem tryTx_ne_panic {m : MemStore} {e : TxEntry} (h : (isTxValid m e.2).1 ≠ .panic) :
    (tryTx true m e.1 e.2).1 ≠ .panic := by
  by_cases hacc : Acceptable m e
  · rw [tryTx_eq_ok.mpr ⟨hacc, rfl⟩]
    simp
  · unfold tryTx
    have hfresh := notInBlock_ne_panic m e.1
    unfold Acceptable at hacc
    cases hvalid : isTxValid m e.2 with
    | mk r t =>
      rw [hvalid] at h hacc
      cases r with
      | panic => exact absurd rfl h
      | err err => simp
      | ok u =>
        cases hblock : notInBlock m e.1 with
        | panic => exact absurd hblock hfresh
        | err err => simp
        | ok u' => exact absurd ⟨rfl, hblock⟩ hacc

/-- So does the loop: what the trial writes on the way adds no reason to panic. -/
theorem tryTxs_ne_panic {m : MemStore} {es : List TxEntry}
    (hstored : ∀ e ∈ es, m.HoldsTx e.1)
    (h : ∀ e ∈ es, (isTxValid m e.2).1 ≠ .panic) : (tryTxs true es m).1 ≠ .panic := by
  induction es generalizing m with
  | nil => simp [tryTxs]
  | cons e es ih =>
    rw [List.forall_mem_cons] at h hstored
    have hfirst := tryTx_ne_panic h.1
    rw [tryTxs]
    split
    · rename_i m' hm'
      obtain ⟨-, rfl⟩ := tryTx_eq_ok.mp hm'
      refine ih (fun e' he' => hstored.2 e' he') fun e' he' hpanic => h.2 e' he' ?_
      by_cases hsame : SameDid e e'
      · exact isTxValid_panic_of_empty hsame.2.1
          (fun document hdata => lookupDID_tried_of_sameDid hstored.1 hsame hdata) hpanic m
      · rw [← hpanic]
        exact congrArg Prod.fst (isTxValid_congr fun document htype hdata =>
          (lookupDID_tried_of_not_sameDid hsame htype hdata).symm)
    · exact hfirst

/-! ## `IsBlockValid` -/

/-- The store a validation leaves: the block's state is reset, whatever the verdict. -/
def unmarked (b : BlockID) (m : MemStore) : MemStore :=
  { m with bState := m.bState.insert b .unvalidated }

/-- The store the trial of a block starts on. -/
def trialStore (b : BlockID) (m : MemStore) : MemStore :=
  { m.unmarked b with lastBlock := .undef, genesisApplied := false }

/-- `IsBlockValid` on a `MemStore`: marking never fails there, and the trial runs on a copy. -/
theorem isBlockValid_eq (ω : Runtime) (b : Block) (isNewBlock : Bool) (m : MemStore) :
    isBlockValid ω b isNewBlock m =
      match m.allTx b with
      | .panic => (.panic, m.unmarked b.id)
      | .err e => (.err (e.wrap "getting block txs"), m.unmarked b.id)
      | .ok txs =>
        ((tryTxs isNewBlock (ω.order txs.entries) (m.trialStore b.id)).1, m.unmarked b.id) := by
  have hmark : ∀ s : MemStore, Store.markBlock ω b.id .unvalidated s = (.ok (), s.unmarked b.id) :=
    fun s => by simp [Store.markBlock, markBlock, unmarked]
  have hvalidated : ∀ s : MemStore, (Store.markBlock ω b.id .validated s).1 = .ok () :=
    fun s => by simp [Store.markBlock, markBlock]
  have hall : Store.allTx (m.unmarked b.id) b = m.allTx b := rfl
  unfold isBlockValid
  rw [hmark]
  simp only [hall]
  cases m.allTx b with
  | panic => rfl
  | err e => rfl
  | ok txs =>
    have hstart : Store.startTest (m.unmarked b.id) = .ok (m.trialStore b.id) := rfl
    have hcomplete : Store.completeTest (m.unmarked b.id) = (.ok (), m.unmarked b.id) := rfl
    simp only [hstart, hcomplete, tryBlock]
    split
    · rename_i s hs
      simp [hs, hvalidated, Outcome.mapErr]
    · rename_i r s hr
      simp [hr]

/-- The verdict is that of the trial. -/
theorem fst_isBlockValid {b : Block} {m : MemStore} {txs : TxMap} (hall : m.allTx b = .ok txs)
    (ω : Runtime) (isNewBlock : Bool) :
    (isBlockValid ω b isNewBlock m).1 =
      (tryTxs isNewBlock (ω.order txs.entries) (m.trialStore b.id)).1 := by
  rw [isBlockValid_eq, hall]

/-- The trial store differs from the real one in nothing a validation reads. -/
theorem isTxValid_trialStore (b : BlockID) (m : MemStore) (t : Tx) :
    isTxValid (m.trialStore b) t = isTxValid m t :=
  isTxValid_congr fun _ _ _ => rfl

theorem acceptable_trialStore {b : BlockID} {m : MemStore} {e : TxEntry} :
    Acceptable (m.trialStore b) e ↔ Acceptable m e := by
  unfold Acceptable
  rw [isTxValid_trialStore]
  rfl

omit [Hash] [SigLib] in
/-- What the trial of a block visits is stored. -/
theorem holdsTx_trialStore {b : Block} {m : MemStore} {txs : TxMap} (hall : m.allTx b = .ok txs)
    (ω : Runtime) : ∀ e ∈ ω.order txs.entries, (m.trialStore b.id).HoldsTx e.1 := fun _ he =>
  holdsTx_of_allTx hall (AList.mem_lookup_iff.mpr ((ω.order_perm txs.entries).mem_iff.mp he))

/-- **A `MemStore` accepts a block exactly when each of its transactions is acceptable by itself
and no two are of the same DID.** -/
theorem isBlockValid_eq_ok {ω : Runtime} {b : Block} {m : MemStore} :
    (isBlockValid ω b true m).1 = .ok () ↔ ∃ txs, m.allTx b = .ok txs ∧
      (∀ e ∈ txs.entries, Acceptable m e) ∧
      txs.entries.Pairwise fun e e' => ¬ SameDid e e' := by
  rw [isBlockValid_eq]
  cases hall : m.allTx b with
  | panic => simp
  | err e => simp
  | ok txs =>
    have hperm := ω.order_perm txs.entries
    have hpair : (ω.order txs.entries).Pairwise (fun e e' => ¬ SameDid e e') ↔
        txs.entries.Pairwise fun e e' => ¬ SameDid e e' :=
      hperm.pairwise_iff fun h h' => h h'.symm
    simp only [Outcome.ok.injEq, exists_eq_left']
    rw [tryTxs_eq_ok (holdsTx_trialStore hall ω), hpair]
    simp only [acceptable_trialStore, hperm.mem_iff]

end MemStore

/-! ## `IPFSStorage` -/

namespace IPFSStorage

variable [CidText]

/-- A mark that is not the acceptance of a validated block only writes the state. -/
theorem markBlock_of_not_indexing (ω : Runtime) {id : BlockID} {state : BlockState}
    {s : IPFSStorage} (h : ¬ (s.stateOf id = .validated ∧ state = .accepted)) :
    s.markBlock ω id state =
      (.ok (), s.metadataSet (typedKey .blockState [id.string]) (.state state)) := by
  simp only [markBlock, if_neg h]

variable [Hash] [SigLib]

/-- `IsBlockValid` on an `IPFSStorage`: outside a trial it panics in `CompleteTest`, inside one it
cannot start. All it leaves behind is the mark it makes first. -/
theorem isBlockValid_eq (ω : Runtime) (b : Block) (isNewBlock : Bool) (s : IPFSStorage) :
    isBlockValid ω b isNewBlock s =
      (match s.allTx b with
        | .panic => .panic
        | .err e => .err (e.wrap "getting block txs")
        | .ok _ =>
          match s.pfTipApply with
          | none => .panic
          | some _ => .err (.wrap (.new "test apply already started") "failed to start test apply"),
        s.metadataSet (typedKey .blockState [b.id.string]) (.state .unvalidated)) := by
  have hmark : Store.markBlock ω b.id .unvalidated s = _ :=
    markBlock_of_not_indexing ω (by simp)
  have hall : Store.allTx (s.metadataSet (typedKey .blockState [b.id.string])
      (.state .unvalidated)) b = s.allTx b := by
    refine congrFun (allTx_congr ?_) b
    unfold metadataSet
    split <;> rfl
  have htest : (s.metadataSet (typedKey .blockState [b.id.string])
      (.state .unvalidated)).pfTipApply.isNone = s.pfTipApply.isNone := by
    unfold metadataSet
    split <;> simp [*]
  unfold isBlockValid
  rw [hmark]
  simp only [hall]
  generalize s.metadataSet _ _ = s₁ at htest
  cases s.allTx b with
  | panic => rfl
  | err e => rfl
  | ok txs =>
    cases hs : s.pfTipApply with
    | none =>
      have hs₁ : s₁.pfTipApply = none := by simpa [hs] using htest
      simp [Store.startTest, startTest, Store.completeTest, completeTest, hs₁]
    | some batch =>
      obtain ⟨batch₁, hs₁⟩ : ∃ batch₁, s₁.pfTipApply = some batch₁ := by
        rw [hs] at htest
        exact Option.isSome_iff_exists.mp (by simpa using htest)
      simp [Store.startTest, startTest, hs₁]

/-- **`IsBlockValid` never returns nil on an `IPFSStorage`.** -/
theorem isBlockValid_ne_ok (ω : Runtime) (b : Block) (isNewBlock : Bool) (s : IPFSStorage) :
    (isBlockValid ω b isNewBlock s).1 ≠ .ok () := by
  rw [isBlockValid_eq]
  simp only
  split
  · simp
  · simp
  · split <;> simp

end IPFSStorage
end Didem.Storage
