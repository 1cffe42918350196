import Didem.Storage.Proof.Tables

/-!
# The order a map is visited in

The transactions of a block come as a Go map, and `IsBlockValid`, `applyTxs` and `indexBlock` range
over it in whatever order the runtime picks. Nodes that pick differently must not come to
different conclusions.

Whether the **verdict** is nil is safe: on a `MemStore` it is a condition on the set of transactions
(`isBlockValid_eq_ok`), on an `IPFSStorage` no verdict is. What is not safe is the other end of it.
A transaction that makes the validation panic, a DID transaction without a document for one, is
visited before or after one that is refused, and the node crashes in one order and returns an error
in the other. All orders agree when no transaction of the block panics, or when none of them can
stop the trial before it comes to one that does (`MemStore.Doomed`).

The **indexes** are safe as long as no two transactions of the block clash, that is, write an
entry of the DID or the node index differently: then the last one visited wins, and which one that
is depends on the order. Both stores are the same argument (`Index`), since indexing a block is a
log of writes in both; what differs is which transactions clash. On a `MemStore` every DID
transaction sets the entry of its DID, on an `IPFSStorage` a revocation deletes it, so there two
revocations of one DID agree.

The DID history of an `IPFSStorage` is not one of the indexes compared.
-/

set_option autoImplicit false

namespace Didem.Storage

open Lib

/-- A runtime that visits the map `l` in the order `l'` and whose services all answer. -/
def Runtime.visiting (l l' : List TxEntry) (h : l'.Perm l) : Runtime where
  order x := if x = l then l' else x
  order_perm x := by
    split
    · rename_i hx; rw [hx]; exact h
    · exact .rfl
  put _ := true
  pin _ := true
  commit := true
  flip _ := false

theorem Runtime.order_visiting (l l' : List TxEntry) (h : l'.Perm l) :
    (Runtime.visiting l l' h).order l = l' := if_pos rfl

/-- Marks a list of blocks validated and accepted, one after the other. -/
def acceptAll {S : Type} [Store S] (ω : Nat → Runtime) :
    Nat → List BlockID → S → Outcome Err Unit × S
  | _, [], s => (.ok (), s)
  | i, b :: bs, s =>
    match Store.markBlock (ω i) b .validated s with
    | (.ok (), s) =>
      match Store.markBlock (ω i) b .accepted s with
      | (.ok (), s) => acceptAll ω (i + 1) bs s
      | r => r
    | r => r

theorem acceptAll_cons_eq_ok {S : Type} [Store S] {ω : Nat → Runtime} {i : Nat} {b : BlockID}
    {bs : List BlockID} {s s' : S} (h : acceptAll ω i (b :: bs) s = (.ok (), s')) :
    ∃ s₁ s₂, Store.markBlock (ω i) b .validated s = (.ok (), s₁) ∧
      Store.markBlock (ω i) b .accepted s₁ = (.ok (), s₂) ∧
      acceptAll ω (i + 1) bs s₂ = (.ok (), s') := by
  rw [acceptAll] at h
  split at h
  · rename_i s₁ hs₁
    split at h
    · rename_i s₂ hs₂
      exact ⟨s₁, s₂, hs₁, hs₂, h⟩
    · rename_i hne
      exact absurd h (hne s')
  · rename_i hne
    exact absurd h (hne s')

/-! ## Indexes -/

/-- **The indexes of a store**: the recorded state of each block, what two stores are compared by,
which transactions can be indexed, and which two of them write an entry differently. -/
structure Index (S : Type) where
  stateOf : S → BlockID → BlockState
  Same : S → S → Prop
  Applies : TxEntry → Prop
  Clash : TxEntry → TxEntry → Prop

namespace Index

section

variable {S : Type} [Store S] (I : Index S)

/-- No two transactions of the block clash. -/
def NoClash (s : S) (b : BlockID) : Prop :=
  ∀ block txs, Store.getBlock s b = .ok block → Store.allTx s block = .ok txs →
    (∀ e ∈ txs.entries, I.Applies e) → txs.entries.Pairwise fun e e' => ¬ I.Clash e e'

variable {I} in
/-- Whether transactions clash is a matter of the content. -/
theorem NoClash.congr {s s' : S} {b : BlockID} (h : I.NoClash s b)
    (hblock : Store.getBlock s' = Store.getBlock s) (hall : Store.allTx s' = Store.allTx s) :
    I.NoClash s' b := by
  unfold NoClash
  rw [hblock, hall]
  exact h

/-- **What indexing a block comes down to.** `Twin` stores have the same content and the same
indexes. They stay twins when the same blocks are marked in them, unless two transactions of a block
clash; and such a block can be visited in two orders that leave different indexes. -/
structure Lawful (Twin : S → S → Prop) : Prop where
  same : ∀ s t, Twin s t → I.Same s t
  getBlock_mark : ∀ (ω : Runtime) (b : BlockID) (st : BlockState) (s : S),
    Store.getBlock (Store.markBlock ω b st s).2 = Store.getBlock s
  allTx_mark : ∀ (ω : Runtime) (b : BlockID) (st : BlockState) (s : S),
    Store.allTx (Store.markBlock ω b st s).2 = Store.allTx s
  validated : ∀ (ω : Runtime) (b : BlockID) (s : S),
    I.stateOf (Store.markBlock ω b .validated s).2 b = .validated
  validate : ∀ (ω₁ ω₂ : Runtime) (b : BlockID) (s t : S), Twin s t →
    Twin (Store.markBlock ω₁ b .validated s).2 (Store.markBlock ω₂ b .validated t).2
  accept : ∀ (ω₁ ω₂ : Runtime) (b : BlockID) (s t s' t' : S), Twin s t → I.NoClash s b →
    I.stateOf s b = .validated → Store.markBlock ω₁ b .accepted s = (.ok (), s') →
    Store.markBlock ω₂ b .accepted t = (.ok (), t') → Twin s' t'
  clash : ∀ (b : BlockID) (s : S), I.stateOf s b = .validated → ¬ I.NoClash s b →
    ∃ ω₁ ω₂ s₁ s₂, Store.markBlock ω₁ b .accepted s = (.ok (), s₁) ∧
      Store.markBlock ω₂ b .accepted s = (.ok (), s₂) ∧ ¬ I.Same s₁ s₂

variable {I} {Twin : S → S → Prop}

/-- **Two nodes that accept the same chain of blocks without clashes stay twins.** -/
theorem Lawful.acceptAll_twin (hI : I.Lawful Twin) {ω₁ ω₂ : Nat → Runtime} {bs : List BlockID}
    {i : Nat} {s t s' t' : S} (htwin : Twin s t) (hclash : ∀ b ∈ bs, I.NoClash s b)
    (h₁ : acceptAll ω₁ i bs s = (.ok (), s')) (h₂ : acceptAll ω₂ i bs t = (.ok (), t')) :
    Twin s' t' := by
  induction bs generalizing i s t with
  | nil =>
    rw [acceptAll, Prod.mk.injEq] at h₁ h₂
    obtain ⟨-, rfl⟩ := h₁
    obtain ⟨-, rfl⟩ := h₂
    exact htwin
  | cons b bs ih =>
    obtain ⟨s₁, s₂, hs₁, hs₂, h₁⟩ := acceptAll_cons_eq_ok h₁
    obtain ⟨t₁, t₂, ht₁, ht₂, h₂⟩ := acceptAll_cons_eq_ok h₂
    obtain rfl : _ = s₁ := congrArg Prod.snd hs₁
    obtain rfl : _ = t₁ := congrArg Prod.snd ht₁
    obtain rfl : _ = s₂ := congrArg Prod.snd hs₂
    rw [List.forall_mem_cons] at hclash
    have htwin₂ := hI.accept (ω₁ i) (ω₂ i) b _ _ _ _ (hI.validate (ω₁ i) (ω₂ i) b s t htwin)
      (hclash.1.congr (hI.getBlock_mark (ω₁ i) b .validated s)
        (hI.allTx_mark (ω₁ i) b .validated s)) (hI.validated (ω₁ i) b s) hs₂ ht₂
    refine ih htwin₂ (fun b' hb' => (hclash.2 b' hb').congr ?_ ?_) h₁ h₂
    · rw [hI.getBlock_mark, hI.getBlock_mark]
    · rw [hI.allTx_mark, hI.allTx_mark]

end

section

variable {S : Type} [Store S] [SigLib] (I : Index S)

/-- **What should not depend on the order**: how the validation of a block ends, and what accepting
it does to the indexes. -/
def OrderFree (s : S) (b : Block) : Prop :=
  ∀ ω₁ ω₂ : Runtime,
    (isBlockValid ω₁ b true s).1.ending = (isBlockValid ω₂ b true s).1.ending ∧
    (I.stateOf s b.id = .validated → ∀ s₁ s₂, Store.markBlock ω₁ b.id .accepted s = (.ok (), s₁) →
      Store.markBlock ω₂ b.id .accepted s = (.ok (), s₂) → I.Same s₁ s₂)

variable {I} {Twin : S → S → Prop}

/-- A block is handled the same in every order exactly when its validation ends the same and, if it
is up for indexing, no two of its transactions clash. -/
theorem Lawful.orderFree_iff (hI : I.Lawful Twin) {s : S} (htwin : Twin s s) {b : Block} :
    I.OrderFree s b ↔
      (∀ ω₁ ω₂, (isBlockValid ω₁ b true s).1.ending = (isBlockValid ω₂ b true s).1.ending) ∧
        (I.stateOf s b.id = .validated → I.NoClash s b.id) := by
  constructor
  · intro hfree
    refine ⟨fun ω₁ ω₂ => (hfree ω₁ ω₂).1, fun hstate => ?_⟩
    by_contra hclash
    obtain ⟨ω₁, ω₂, s₁, s₂, h₁, h₂, hne⟩ := hI.clash b.id s hstate hclash
    exact hne ((hfree ω₁ ω₂).2 hstate s₁ s₂ h₁ h₂)
  · rintro ⟨hverdict, hclash⟩ ω₁ ω₂
    refine ⟨hverdict ω₁ ω₂, fun hstate s₁ s₂ h₁ h₂ => hI.same s₁ s₂ ?_⟩
    exact hI.accept ω₁ ω₂ b.id s s s₁ s₂ htwin (hclash hstate) hstate h₁ h₂

end
end Index

/-! ## `MemStore` -/

namespace MemStore

/-- Two transactions write an entry of the DID index or of the node index differently. -/
def Clash (e e' : TxEntry) : Prop :=
  Write.Clash didWrites (fun _ => True) e e' ∨ Write.Clash nodeWrites (fun _ => True) e e'

/-- The three indexes are the same. -/
def SameIndex (m m' : MemStore) : Prop :=
  m.dids = m'.dids ∧ m.nodes = m'.nodes ∧ m.txbIndex = m'.txbIndex

def index : Index MemStore where
  stateOf := stateOf
  Same := SameIndex
  Applies e := applicable e
  Clash := Clash

/-- A transaction writes at most one entry of an index. -/
theorem not_clash_self (e : TxEntry) : ¬ Write.Clash didWrites (fun _ => True) e e ∧
    ¬ Write.Clash nodeWrites (fun _ => True) e e := by
  constructor
  · rintro ⟨w, hw, w', hw', -, -, hval⟩
    unfold didWrites at hw hw'
    split at hw
    · simp_all
    · exact absurd hw (by simp)
  · rintro ⟨w, hw, w', hw', -, -, hval⟩
    unfold nodeWrites at hw hw'
    split at hw
    · simp_all
    · simp_all
    · exact absurd hw (by simp)

/-- Accepting a validated block succeeds exactly when its transactions can be read and applied,
and then indexes them. -/
theorem markBlock_accepted_eq_ok {ω : Runtime} {b : BlockID} {m m' : MemStore}
    (hstate : m.stateOf b = .validated) :
    m.markBlock ω b .accepted = (.ok (), m') ↔ ∃ block txs, m.getBlock b = .ok block ∧
      m.allTx block = .ok txs ∧ (∀ e ∈ txs.entries, applicable e) ∧
      m' = indexed b (ω.order txs.entries) { m with bState := m.bState.insert b .accepted } := by
  rw [markBlock, hstate]
  simp only [and_self, if_true, indexBlockTx]
  have hblock : getBlock { m with bState := m.bState.insert b .accepted } = m.getBlock :=
    getBlock_congr rfl
  have hall : allTx { m with bState := m.bState.insert b .accepted } = m.allTx := allTx_congr rfl
  rw [hblock, hall]
  cases m.getBlock b with
  | panic => simp
  | err e => simp
  | ok block =>
    cases hallTx : m.allTx block with
    | panic => simp [hallTx]
    | err e => simp [hallTx]
    | ok txs =>
      simp only [hallTx, applyTxs_ok, (ω.order_perm txs.entries).mem_iff]
      constructor
      · rintro ⟨happ, hm'⟩
        exact ⟨block, txs, rfl, hallTx, happ, hm'⟩
      · rintro ⟨block', txs', hblock', hallTx', happ, hm'⟩
        rw [← Outcome.ok.inj hblock', hallTx, Outcome.ok.injEq] at hallTx'
        subst hallTx'
        exact ⟨happ, hm'⟩

/-- Indexing transactions that do not clash, in two orders. -/
theorem indexed_perm {b : BlockID} {es es' : List TxEntry} (hperm : es.Perm es')
    (hclash : es.Pairwise fun e e' => ¬ Clash e e') (m : MemStore) :
    indexed b es m = indexed b es' m := by
  have hdids : Write.applyAll m.dids (es.flatMap didWrites) =
      Write.applyAll m.dids (es'.flatMap didWrites) :=
    Finmap.ext_lookup fun k => Write.lookup_flatMap_perm hperm
      (fun e _ => (not_clash_self e).1) (hclash.imp fun h h' => h (.inl h')) trivial m.dids
  have hnodes : Write.applyAll m.nodes (es.flatMap nodeWrites) =
      Write.applyAll m.nodes (es'.flatMap nodeWrites) :=
    Finmap.ext_lookup fun k => Write.lookup_flatMap_perm hperm
      (fun e _ => (not_clash_self e).2) (hclash.imp fun h h' => h (.inr h')) trivial m.nodes
  -- every entry of the block index is written with the same block
  have htxb : Write.applyAll m.txbIndex (es.map fun e => ⟨e.1, some b⟩) =
      Write.applyAll m.txbIndex (es'.map fun e => ⟨e.1, some b⟩) := by
    refine Finmap.ext_lookup fun k => Write.lookup_applyAll_perm (hperm.map _) ?_ m.txbIndex
    rintro w hw w' hw' - ⟨-, hval⟩
    obtain ⟨e, -, rfl⟩ := List.mem_map.mp hw
    obtain ⟨e', -, rfl⟩ := List.mem_map.mp hw'
    exact hval rfl
  simp only [indexed, hdids, hnodes, htxb]

/-- Clashing transactions can be visited in two orders that leave different indexes. -/
theorem exists_order_not_sameIndex {b : BlockID} {es : List TxEntry}
    (hclash : ¬ es.Pairwise fun e e' => ¬ Clash e e') :
    ∃ es₁ es₂ : List TxEntry, es₁.Perm es ∧ es₂.Perm es ∧
      ∀ m, ¬ SameIndex (indexed b es₁ m) (indexed b es₂ m) := by
  have hsplit : ¬ es.Pairwise (fun e e' => ¬ Write.Clash didWrites (fun _ => True) e e') ∨
      ¬ es.Pairwise (fun e e' => ¬ Write.Clash nodeWrites (fun _ => True) e e') := by
    by_contra h
    push Not at h
    exact hclash (h.1.imp₂ (fun e e' hd hn => not_or.mpr ⟨hd, hn⟩) h.2)
  rcases hsplit with hdid | hnode
  · obtain ⟨es₁, es₂, k, h₁, h₂, -, hne⟩ :=
      Write.exists_perm_lookup_ne (fun e _ => (not_clash_self e).1) hdid
    exact ⟨es₁, es₂, h₁, h₂, fun m hsame => hne m.dids (congrArg (Finmap.lookup k) hsame.1)⟩
  · obtain ⟨es₁, es₂, k, h₁, h₂, -, hne⟩ :=
      Write.exists_perm_lookup_ne (fun e _ => (not_clash_self e).2) hnode
    exact ⟨es₁, es₂, h₁, h₂, fun m hsame => hne m.nodes (congrArg (Finmap.lookup k) hsame.2.1)⟩

variable [Hash]

/-- Marking a block validated only writes its state. -/
theorem markBlock_validated (ω : Runtime) (b : BlockID) (m : MemStore) :
    Store.markBlock ω b .validated m =
      (.ok (), { m with bState := m.bState.insert b .validated }) :=
  markBlock_of_not_indexing ω (by simp)

/-- Two orders of accepting a block without clashes leave the same store. -/
theorem markBlock_order_free {ω₁ ω₂ : Runtime} {b : BlockID} {m m₁ m₂ : MemStore}
    (hclash : index.NoClash m b) (hstate : m.stateOf b = .validated)
    (h₁ : m.markBlock ω₁ b .accepted = (.ok (), m₁))
    (h₂ : m.markBlock ω₂ b .accepted = (.ok (), m₂)) : m₁ = m₂ := by
  obtain ⟨block, txs, hblock, hall, happ, rfl⟩ := (markBlock_accepted_eq_ok hstate).mp h₁
  obtain ⟨block', txs', hblock', hall', -, rfl⟩ := (markBlock_accepted_eq_ok hstate).mp h₂
  rw [hblock, Outcome.ok.injEq] at hblock'
  subst hblock'
  rw [hall, Outcome.ok.injEq] at hall'
  subst hall'
  have hpair : txs.entries.Pairwise fun e e' => ¬ Clash e e' := hclash block txs hblock hall happ
  rw [← indexed_perm (ω₁.order_perm txs.entries).symm hpair,
    ← indexed_perm (ω₂.order_perm txs.entries).symm hpair]

/-- Clashing transactions that can be indexed can be indexed in two orders that differ. -/
theorem exists_markBlock_not_sameIndex {b : BlockID} {m : MemStore}
    (hstate : m.stateOf b = .validated) (hclash : ¬ index.NoClash m b) :
    ∃ ω₁ ω₂ m₁ m₂, m.markBlock ω₁ b .accepted = (.ok (), m₁) ∧
      m.markBlock ω₂ b .accepted = (.ok (), m₂) ∧ ¬ SameIndex m₁ m₂ := by
  unfold Index.NoClash at hclash
  push Not at hclash
  obtain ⟨block, txs, hblock, hall, happ, hpair⟩ := hclash
  obtain ⟨es₁, es₂, h₁, h₂, hne⟩ := exists_order_not_sameIndex (b := b) hpair
  have hmark : ∀ es, (hperm : es.Perm txs.entries) →
      m.markBlock (.visiting txs.entries es hperm) b .accepted =
        (.ok (), indexed b es { m with bState := m.bState.insert b .accepted }) :=
    fun es hperm => (markBlock_accepted_eq_ok hstate).mpr
      ⟨block, txs, hblock, hall, happ, by rw [Runtime.order_visiting]⟩
  exact ⟨_, _, _, _, hmark es₁ h₁, hmark es₂ h₂, hne _⟩

/-- Stores that are the same stay the same. -/
theorem index_lawful : index.Lawful Eq where
  same := by
    rintro m _ rfl
    exact ⟨rfl, rfl, rfl⟩
  getBlock_mark ω b st m := getBlock_congr (objects_markBlock ω b st m)
  allTx_mark ω b st m := allTx_congr (objects_markBlock ω b st m)
  validated ω b m := by
    rw [markBlock_validated]
    simp [index, stateOf]
  validate := by
    rintro ω₁ ω₂ b m _ rfl
    rw [markBlock_validated, markBlock_validated]
  accept := by
    rintro ω₁ ω₂ b m _ m₁ m₂ rfl hclash hstate h₁ h₂
    exact markBlock_order_free hclash hstate h₁ h₂
  clash b m := exists_markBlock_not_sameIndex

/-! ### The verdict -/

variable [SigLib]

/-- The validation of a transaction panics. -/
def Panics (m : MemStore) (e : TxEntry) : Prop := (isTxValid m e.2).1 = .panic

/-- **Whatever comes first, the trial comes to a transaction that panics**: there is one, the others
are acceptable, and those of the DID of another one panic whatever their DID looks like. -/
def Doomed (m : MemStore) (es : List TxEntry) : Prop :=
  (∃ e ∈ es, Panics m e) ∧ ∀ e ∈ es, ¬ Panics m e →
    Acceptable m e ∧ ∀ e' ∈ es, e' ≠ e → SameDid e e' → ∀ m', Panics m' e'

/-- The trial panics at the first transaction that does. -/
theorem tryTxs_cons_of_panics {m : MemStore} {e : TxEntry} (h : Panics m e) (es : List TxEntry) :
    (tryTxs true (e :: es) m).1 = .panic := by
  unfold Panics at h
  rw [tryTxs, tryTx]
  cases hr : isTxValid m e.2 with
  | mk r t =>
    rw [hr] at h
    simp only at h
    rw [h]

/-- It goes on after one that is acceptable. -/
theorem tryTxs_cons_of_acceptable {m : MemStore} {e : TxEntry} (h : Acceptable m e)
    (es : List TxEntry) : tryTxs true (e :: es) m = tryTxs true es (m.tried e) := by
  rw [tryTxs, tryTx_eq_ok.mpr ⟨h, rfl⟩]

/-- At any other one it stops with an error. -/
theorem acceptable_of_tryTxs_panic {m : MemStore} {e : TxEntry} {es : List TxEntry}
    (hpanics : ¬ Panics m e) (h : (tryTxs true (e :: es) m).1 = .panic) : Acceptable m e := by
  by_contra hacc
  rw [tryTxs] at h
  split at h
  · rename_i m' hm'
    exact hacc (tryTx_eq_ok.mp hm').1
  · exact tryTx_ne_panic hpanics h

/-- What the trial wrote matters to a transaction of the same DID only. -/
theorem panics_tried_iff {m : MemStore} {e e' : TxEntry} (hsame : ¬ SameDid e e') :
    Panics (m.tried e) e' ↔ Panics m e' := by
  unfold Panics
  rw [isTxValid_congr fun document htype hdata =>
    lookupDID_tried_of_not_sameDid hsame htype hdata]

/-- **The trial of a doomed list panics**, in the order it stands in. -/
theorem tryTxs_of_doomed {m : MemStore} {es : List TxEntry} (hnodup : es.Nodup)
    (hstored : ∀ e ∈ es, m.HoldsTx e.1) (h : Doomed m es) : (tryTxs true es m).1 = .panic := by
  induction es generalizing m with
  | nil => simp [Doomed] at h
  | cons e es ih =>
    rw [List.nodup_cons] at hnodup
    rw [List.forall_mem_cons] at hstored
    by_cases hpanics : Panics m e
    · exact tryTxs_cons_of_panics hpanics es
    obtain ⟨⟨e₀, he₀, hpanics₀⟩, hrest⟩ := h
    obtain ⟨hacc, hsameDid⟩ := hrest e List.mem_cons_self hpanics
    -- one of the same DID that comes later panics whatever this one wrote
    have hlater : ∀ e' ∈ es, SameDid e e' → ∀ m', Panics m' e' := fun e' he' =>
      hsameDid e' (List.mem_cons_of_mem e he') fun h => hnodup.1 (h ▸ he')
    rw [tryTxs_cons_of_acceptable hacc]
    refine ih hnodup.2 hstored.2 ⟨?_, fun e' he' hpanics' => ?_⟩
    · have hmem : e₀ ∈ es :=
        (List.mem_cons.mp he₀).resolve_left fun h => hpanics (h ▸ hpanics₀)
      refine ⟨e₀, hmem, ?_⟩
      by_cases hsame : SameDid e e₀
      · exact hlater e₀ hmem hsame _
      · exact (panics_tried_iff hsame).mpr hpanics₀
    · have hsame : ¬ SameDid e e' := fun hsame => hpanics' (hlater e' he' hsame _)
      obtain ⟨hacc', hsameDid'⟩ := hrest e' (List.mem_cons_of_mem e he')
        (mt (panics_tried_iff hsame).mpr hpanics')
      exact ⟨(acceptable_tried hstored.1).mpr ⟨hacc', hsame⟩,
        fun e'' he'' => hsameDid' e'' (List.mem_cons_of_mem e he'')⟩

/-- **If the trial panics in every order, the list is doomed.** Each of its transactions may come
first, and any other one second. -/
theorem doomed_of_tryTxs {m : MemStore} {es : List TxEntry} (hstored : ∀ e ∈ es, m.HoldsTx e.1)
    (hsome : ∃ e ∈ es, Panics m e)
    (h : ∀ es', es'.Perm es → (tryTxs true es' m).1 = .panic) : Doomed m es := by
  refine ⟨hsome, fun e he hpanics => ?_⟩
  obtain ⟨es₁, es₂, rfl⟩ := List.append_of_mem he
  have hacc := acceptable_of_tryTxs_panic hpanics (h _ List.perm_middle.symm)
  refine ⟨hacc, fun e' he' hne hsame => ?_⟩
  have hmem : e' ∈ es₁ ++ es₂ := by
    rw [List.mem_append, List.mem_cons] at he'
    rw [List.mem_append]
    exact he'.imp_right fun h => h.resolve_left hne
  obtain ⟨es₃, es₄, hes⟩ := List.append_of_mem hmem
  have hsecond : (tryTxs true (e :: e' :: (es₃ ++ es₄)) m).1 = .panic :=
    h _ ((((List.perm_middle.symm.trans (.of_eq hes.symm)).cons e)).trans List.perm_middle.symm)
  rw [tryTxs_cons_of_acceptable hacc] at hsecond
  -- the second finds an empty document, so it is not acceptable and panics on that
  have hempty : ∀ document, e'.2.data = some (.did (some document)) →
      Store.lookupDID (m.tried e) document.id = .ok (some {}) := fun document hdata =>
    lookupDID_tried_of_sameDid (hstored e he) hsame hdata
  have hpanics' : Panics (m.tried e) e' := by
    by_contra hpanics'
    exact isTxValid_ne_ok_of_empty hsame.2.1 hempty
      (acceptable_of_tryTxs_panic hpanics' hsecond).1
  exact fun m' => isTxValid_panic_of_empty hsame.2.1 hempty hpanics' m'

theorem doomed_trialStore {b : BlockID} {m : MemStore} {es : List TxEntry} :
    Doomed (m.trialStore b) es ↔ Doomed m es := by
  simp only [Doomed, Panics, isTxValid_trialStore, acceptable_trialStore]

/-- Where no transaction panics by itself, no order makes the validation panic. -/
theorem isBlockValid_ne_panic {b : Block} {m : MemStore} {txs : TxMap} (hall : m.allTx b = .ok txs)
    (hnone : ∀ e ∈ txs.entries, ¬ Panics m e) (ω : Runtime) :
    (isBlockValid ω b true m).1 ≠ .panic := by
  rw [fst_isBlockValid hall]
  refine tryTxs_ne_panic (holdsTx_trialStore hall ω) fun e he => ?_
  rw [isTxValid_trialStore]
  exact hnone e ((ω.order_perm _).mem_iff.mp he)

/-- A doomed block makes it panic in every order. -/
theorem isBlockValid_of_doomed {b : Block} {m : MemStore} {txs : TxMap}
    (hall : m.allTx b = .ok txs) (hdoomed : Doomed m txs.entries) (ω : Runtime) :
    (isBlockValid ω b true m).1 = .panic := by
  have hperm := ω.order_perm txs.entries
  have hdoomed' : Doomed (m.trialStore b.id) (ω.order txs.entries) := by
    rw [doomed_trialStore]
    unfold Doomed
    simp only [hperm.mem_iff]
    exact hdoomed
  rw [fst_isBlockValid hall]
  exact tryTxs_of_doomed (hperm.nodup_iff.mpr txs.nodupKeys.nodup) (holdsTx_trialStore hall ω)
    hdoomed'

/-- A transaction that panics makes it panic in some order, the one that visits it first. -/
theorem exists_isBlockValid_panic {b : Block} {m : MemStore} {txs : TxMap}
    (hall : m.allTx b = .ok txs) {e : TxEntry} (he : e ∈ txs.entries) (hpanics : Panics m e) :
    ∃ ω, (isBlockValid ω b true m).1 = .panic := by
  obtain ⟨es₁, es₂, hes⟩ := List.append_of_mem he
  have hfirst : (e :: (es₁ ++ es₂)).Perm txs.entries := hes ▸ List.perm_middle.symm
  refine ⟨.visiting _ _ hfirst, ?_⟩
  rw [fst_isBlockValid hall, Runtime.order_visiting]
  refine tryTxs_cons_of_panics ?_ _
  rw [Panics, isTxValid_trialStore]
  exact hpanics

/-- If the order does not matter, it makes the validation panic in all of them, and the block is
doomed. -/
theorem doomed_of_ending {b : Block} {m : MemStore} {txs : TxMap} (hall : m.allTx b = .ok txs)
    (hfree : ∀ ω₁ ω₂, (isBlockValid ω₁ b true m).1.ending = (isBlockValid ω₂ b true m).1.ending)
    {e : TxEntry} (he : e ∈ txs.entries) (hpanics : Panics m e) : Doomed m txs.entries := by
  obtain ⟨ω, hω⟩ := exists_isBlockValid_panic hall he hpanics
  rw [← doomed_trialStore (b := b.id)]
  refine doomed_of_tryTxs (fun e he => holdsTx_of_allTx hall (AList.mem_lookup_iff.mpr he))
    ⟨e, he, ?_⟩ fun es hperm => ?_
  · rw [Panics, isTxValid_trialStore]
    exact hpanics
  · have hpanic : (isBlockValid (.visiting _ es hperm) b true m).1 = .panic := by
      rw [← Outcome.ending_eq_panic, hfree _ ω, hω]
      rfl
    rw [fst_isBlockValid hall, Runtime.order_visiting] at hpanic
    exact hpanic

/-- **The validation of a block ends the same in every order exactly when none of its transactions
makes it panic, or nothing in it can keep it from one that does.** -/
theorem ending_eq_iff {b : Block} {m : MemStore} :
    (∀ ω₁ ω₂, (isBlockValid ω₁ b true m).1.ending = (isBlockValid ω₂ b true m).1.ending) ↔
      ∀ txs, m.allTx b = .ok txs →
        (∀ e ∈ txs.entries, ¬ Panics m e) ∨ Doomed m txs.entries := by
  constructor
  · intro hfree txs hall
    by_cases hsome : ∃ e ∈ txs.entries, Panics m e
    · obtain ⟨e, he, hpanics⟩ := hsome
      exact .inr (doomed_of_ending hall hfree he hpanics)
    · push Not at hsome
      exact .inl hsome
  · intro h ω₁ ω₂
    cases hall : m.allTx b with
    | panic => simp [isBlockValid_eq, hall]
    | err e => simp [isBlockValid_eq, hall]
    | ok txs =>
      rw [Outcome.ending_eq_iff]
      refine ⟨isBlockValid_eq_ok.trans isBlockValid_eq_ok.symm, ?_⟩
      rcases h txs hall with hnone | hdoomed
      · exact iff_of_false (isBlockValid_ne_panic hall hnone ω₁)
          (isBlockValid_ne_panic hall hnone ω₂)
      · exact iff_of_true (isBlockValid_of_doomed hall hdoomed ω₁)
          (isBlockValid_of_doomed hall hdoomed ω₂)

end MemStore

/-! ## `IPFSStorage` -/

namespace IPFSStorage

variable [CidText]

/-- The keys of all tables but the DID history. -/
def InTables (key : Bytes) : Prop := key.head? ≠ some MetadataKeyType.didHistory.byte

/-- Two transactions write an entry of the DID index or of the node index differently. -/
def Clash (e e' : TxEntry) : Prop :=
  Write.Clash (fun e : TxEntry => (applyTxTo e.1 e.2).2) InTables e e'

/-- The indexes are the same. -/
def SameIndex (s s' : IPFSStorage) : Prop :=
  ∀ key, InTables key → s.view.lookup key = s'.view.lookup key

def index : Index IPFSStorage where
  stateOf := stateOf
  Same := SameIndex
  Applies e := (applyTxTo e.1 e.2).1 = .ok ()
  Clash := Clash

/-! ### The writes of a transaction -/

/-- A transaction writes its table in one place at most, besides the DID history. -/
theorem writes_applyTxTo (e : TxEntry) :
    (∀ w ∈ (applyTxTo e.1 e.2).2, w.key.head? ≠ some MetadataKeyType.txBlock.byte ∧
      w.key.head? ≠ some MetadataKeyType.latestBlock.byte) ∧
    ∀ w ∈ (applyTxTo e.1 e.2).2, ∀ w' ∈ (applyTxTo e.1 e.2).2,
      InTables w.key → InTables w'.key → w = w' := by
  obtain ⟨id, ⟨version, ts, sender, type, action, data, signature⟩⟩ := e
  cases type with
  | did =>
    rcases data with _ | ((_ | document) | n | d) <;> cases action <;>
      simp [applyTxTo, indexTxDID, InTables, MetadataKeyType.byte]
  | vc => simp [applyTxTo]
  | node =>
    rcases data with _ | (d | n | d) <;> cases action <;>
      simp [applyTxTo, indexTxNode, InTables, MetadataKeyType.byte]
  | other n => simp [applyTxTo]

/-- The block entries never clash, so the transactions clash as their own writes do. -/
theorem clash_entryWrites_iff {b : BlockID} {e e' : TxEntry} :
    Write.Clash (entryWrites b) InTables e e' ↔ Clash e e' := by
  constructor
  · rintro ⟨w, hw, w', hw', hK, hkey, hval⟩
    rcases List.mem_cons.mp hw with rfl | hw <;> rcases List.mem_cons.mp hw' with rfl | hw'
    · exact absurd rfl hval
    · exact absurd (hkey ▸ head_typedKey .txBlock _) ((writes_applyTxTo e').1 w' hw').1
    · exact absurd (hkey.symm ▸ head_typedKey .txBlock _) ((writes_applyTxTo e).1 w hw).1
    · exact ⟨w, hw, w', hw', hK, hkey, hval⟩
  · rintro ⟨w, hw, w', hw', hconf⟩
    exact ⟨w, List.mem_cons_of_mem _ hw, w', List.mem_cons_of_mem _ hw', hconf⟩

/-- Indexing transactions does not write the last-block key. -/
theorem lookup_latest_entryWrites (b : BlockID) (es : List TxEntry)
    (m : Finmap (fun _ : Bytes => MetaVal)) :
    (Write.applyAll m (es.flatMap (entryWrites b))).lookup (typedKey .latestBlock []) =
      m.lookup (typedKey .latestBlock []) := by
  refine Write.lookup_applyAll_of_notMem ?_ m
  intro w hw hkey
  obtain ⟨e, -, hwe⟩ := List.mem_flatMap.mp hw
  rcases List.mem_cons.mp hwe with rfl | hwe
  · exact absurd (congrArg List.head? hkey) (by simp [MetadataKeyType.byte])
  · exact ((writes_applyTxTo e).1 w hwe).2 (hkey ▸ head_typedKey .latestBlock _)

theorem not_clash_self (b : BlockID) (e : TxEntry) :
    ¬ Write.Clash (entryWrites b) InTables e e := by
  rw [clash_entryWrites_iff]
  rintro ⟨w, hw, w', hw', hK, hkey, hval⟩
  exact hval (congrArg Write.val ((writes_applyTxTo e).2 w hw w' hw' hK (hkey ▸ hK)))

/-! ### Indexing a block -/

/-- With a coin that never asks for a pin, the loop succeeds on transactions that apply. -/
theorem indexTxs_of_flip {ω : Runtime} (hflip : ∀ c, ω.flip c = false) (inTest : Bool)
    (b : BlockID) {es : List TxEntry} (hall : ∀ e ∈ es, (applyTxTo e.1 e.2).1 = .ok ()) :
    indexTxs ω inTest b es = (.ok (), es.flatMap (entryWrites b)) := by
  induction es with
  | nil => rfl
  | cons e es ih =>
    rw [List.forall_mem_cons] at hall
    rw [indexTxs]
    cases happ : applyTxTo e.1 e.2 with
    | mk r ws =>
      have hr : r = .ok () := by rw [← hall.1, happ]
      subst hr
      simp [hflip, ih hall.2, entryWrites, happ]

/-- With services that answer, indexing transactions that apply succeeds. -/
theorem indexBlock_visiting {b : BlockID} {s : IPFSStorage} {block : Block} {txs : TxMap}
    (hblock : s.getBlock b = .ok block) (hall : s.allTx block = .ok txs)
    (happ : ∀ e ∈ txs.entries, (applyTxTo e.1 e.2).1 = .ok ()) {es : List TxEntry}
    (hperm : es.Perm txs.entries) :
    (s.indexBlock (.visiting txs.entries es hperm) b).1 = .ok () := by
  have hindex : ∀ inTest, indexTxs (.visiting txs.entries es hperm) inTest b es =
      (.ok (), es.flatMap (entryWrites b)) := fun inTest =>
    indexTxs_of_flip (fun _ => rfl) inTest b fun e he => happ e (hperm.mem_iff.mp he)
  have hpin : (Runtime.visiting txs.entries es hperm).pin b = true := rfl
  have hcommit : (Runtime.visiting txs.entries es hperm).commit = true := rfl
  cases htest : s.pfTipApply <;>
    simp [indexBlock, hblock, hall, htest, Runtime.order_visiting, hindex, hpin, hcommit]

theorem SameIndex.stateOf {s t : IPFSStorage} (h : SameIndex s t) (b : BlockID) :
    s.stateOf b = t.stateOf b := by
  unfold IPFSStorage.stateOf metadataGet
  rw [h _ (by simp [InTables, MetadataKeyType.byte])]

/-- A successful acceptance in a given order, for transactions that apply. -/
theorem exists_markBlock_visiting {b : BlockID} {s : IPFSStorage} {block : Block} {txs : TxMap}
    (hstate : s.stateOf b = .validated) (hblock : s.getBlock b = .ok block)
    (hall : s.allTx block = .ok txs)
    (happ : ∀ e ∈ txs.entries, (applyTxTo e.1 e.2).1 = .ok ()) {es : List TxEntry}
    (hperm : es.Perm txs.entries) :
    ∃ s', s.markBlock (.visiting txs.entries es hperm) b .accepted = (.ok (), s') := by
  have hkind := sameKind_metadataSet (typedKey .blockState [b.string]) (.state .accepted) s
  have hindex := indexBlock_visiting (s := s.metadataSet (typedKey .blockState [b.string])
    (.state .accepted)) (b := b) (by rw [getBlock_congr hkind.1]; exact hblock)
    (by rw [allTx_congr hkind.1]; exact hall) happ hperm
  rw [markBlock, hstate]
  simp only [and_self, if_true]
  split
  · exact ⟨_, rfl⟩
  · rename_i hne hr
    rw [hr] at hindex
    exact (hne hindex).elim

/-- The same content, and the same indexes. -/
def Twin (s t : IPFSStorage) : Prop := SameKind s t ∧ SameIndex s t

omit [CidText] in
theorem twin_refl (s : IPFSStorage) : Twin s s := ⟨⟨rfl, rfl⟩, fun _ _ => rfl⟩

/-- Marking a block validated only writes its state. -/
theorem twin_markBlock_validated (ω₁ ω₂ : Runtime) (b : BlockID) {s t : IPFSStorage}
    (h : Twin s t) :
    Twin (s.markBlock ω₁ b .validated).2 (t.markBlock ω₂ b .validated).2 := by
  rw [markBlock_of_not_indexing ω₁ (by simp), markBlock_of_not_indexing ω₂ (by simp)]
  have hs := sameKind_metadataSet (typedKey .blockState [b.string]) (.state .validated) s
  have ht := sameKind_metadataSet (typedKey .blockState [b.string]) (.state .validated) t
  refine ⟨⟨hs.1.trans (h.1.1.trans ht.1.symm), hs.2.trans (h.1.2.trans ht.2.symm)⟩,
    fun key hkey => ?_⟩
  rw [view_metadataSet, view_metadataSet]
  by_cases hk : key = typedKey .blockState [b.string]
  · rw [hk, Finmap.lookup_insert, Finmap.lookup_insert]
  · rw [Finmap.lookup_insert_of_ne _ hk, Finmap.lookup_insert_of_ne _ hk, h.2 key hkey]

variable [Hash] [SigLib]

/-- **Two stores with the same indexes accept a block without clashes, each in its own order, and
still have the same indexes.** -/
theorem markBlock_order_free {ω₁ ω₂ : Runtime} {b : BlockID} {s t s' t' : IPFSStorage}
    (htwin : Twin s t) (hclash : index.NoClash s b)
    (hstate : s.stateOf b = .validated)
    (h₁ : s.markBlock ω₁ b .accepted = (.ok (), s'))
    (h₂ : t.markBlock ω₂ b .accepted = (.ok (), t')) :
    Twin s' t' := by
  obtain ⟨hkind, hsame⟩ := htwin
  obtain ⟨block, txs, hblock, hall, happ, hkind₁, hview₁⟩ := markBlock_accepted_eq_ok hstate h₁
  obtain ⟨block', txs', hblock', hall', -, hkind₂, hview₂⟩ :=
    markBlock_accepted_eq_ok ((hsame.stateOf b).symm.trans hstate) h₂
  rw [← getBlock_congr hkind.1, hblock, Outcome.ok.injEq] at hblock'
  subst hblock'
  rw [← allTx_congr hkind.1, hall, Outcome.ok.injEq] at hall'
  subst hall'
  refine ⟨⟨hkind₁.1.trans (hkind.1.trans hkind₂.1.symm),
    hkind₁.2.trans (hkind.2.trans hkind₂.2.symm)⟩, fun key hkey => ?_⟩
  rw [hview₁, hview₂]
  by_cases hlast : key = typedKey .latestBlock []
  · rw [hlast, Finmap.lookup_insert, Finmap.lookup_insert]
  rw [Finmap.lookup_insert_of_ne _ hlast, Finmap.lookup_insert_of_ne _ hlast]
  -- first change the order of the transactions, then the store below them
  have hperm := (ω₁.order_perm txs.entries).trans (ω₂.order_perm txs.entries).symm
  have hpair : (ω₁.order txs.entries).Pairwise
      fun e e' => ¬ Write.Clash (entryWrites b) InTables e e' := by
    have hpair₀ : txs.entries.Pairwise fun e e' => ¬ Clash e e' :=
      hclash block txs hblock hall happ
    simp only [clash_entryWrites_iff]
    exact ((ω₁.order_perm txs.entries).pairwise_iff fun h h' => h h'.symm).mpr hpair₀
  rw [Write.lookup_flatMap_perm hperm (fun e _ => not_clash_self b e) hpair hkey]
  refine Write.lookup_applyAll_congr ?_ _
  by_cases hst : key = typedKey .blockState [b.string]
  · rw [hst, Finmap.lookup_insert, Finmap.lookup_insert]
  · rw [Finmap.lookup_insert_of_ne _ hst, Finmap.lookup_insert_of_ne _ hst, hsame key hkey]

/-- Clashing transactions that can be indexed can be indexed in two orders that differ. -/
theorem exists_markBlock_not_sameIndex {b : BlockID} {s : IPFSStorage}
    (hstate : s.stateOf b = .validated) (hclash : ¬ index.NoClash s b) :
    ∃ ω₁ ω₂ s₁ s₂, s.markBlock ω₁ b .accepted = (.ok (), s₁) ∧
      s.markBlock ω₂ b .accepted = (.ok (), s₂) ∧ ¬ SameIndex s₁ s₂ := by
  unfold Index.NoClash at hclash
  push Not at hclash
  obtain ⟨block, txs, hblock, hall, happ, hpair⟩ := hclash
  have hpair' : ¬ txs.entries.Pairwise
      fun e e' => ¬ Write.Clash (entryWrites b) InTables e e' := by
    simp only [clash_entryWrites_iff]
    exact hpair
  obtain ⟨es₁, es₂, key, h₁, h₂, hkey, hne⟩ :=
    Write.exists_perm_lookup_ne (fun e _ => not_clash_self b e) hpair'
  have hlast : key ≠ typedKey .latestBlock [] := by
    rintro rfl
    exact hne s.view (by rw [lookup_latest_entryWrites, lookup_latest_entryWrites])
  -- what is seen at the key after accepting the block in a given order
  have hseen : ∀ es, (hperm : es.Perm txs.entries) → ∃ s',
      s.markBlock (.visiting txs.entries es hperm) b .accepted = (.ok (), s') ∧
      s'.view.lookup key = (Write.applyAll
        (s.view.insert (typedKey .blockState [b.string]) (.state .accepted))
        (es.flatMap (entryWrites b))).lookup key := by
    intro es hperm
    obtain ⟨s', hs'⟩ := exists_markBlock_visiting hstate hblock hall happ hperm
    obtain ⟨block', txs', hblock', hall', -, -, hview⟩ := markBlock_accepted_eq_ok hstate hs'
    rw [show s.getBlock b = _ from hblock, Outcome.ok.injEq] at hblock'
    subst hblock'
    rw [show s.allTx block = _ from hall, Outcome.ok.injEq] at hall'
    subst hall'
    refine ⟨s', hs', ?_⟩
    rw [hview, Runtime.order_visiting, Finmap.lookup_insert_of_ne _ hlast]
  obtain ⟨s₁, hs₁, hk₁⟩ := hseen es₁ h₁
  obtain ⟨s₂, hs₂, hk₂⟩ := hseen es₂ h₂
  refine ⟨_, _, s₁, s₂, hs₁, hs₂, fun hsame => ?_⟩
  have hseen_eq := hsame key hkey
  rw [hk₁, hk₂] at hseen_eq
  exact hne _ hseen_eq

theorem index_lawful : index.Lawful Twin where
  same _ _ h := h.2
  getBlock_mark ω b st s := getBlock_congr (sameKind_markBlock ω b st s).1
  allTx_mark ω b st s := allTx_congr (sameKind_markBlock ω b st s).1
  validated ω b s := by
    rw [show Store.markBlock ω b .validated s = _ from markBlock_of_not_indexing ω (by simp)]
    simp [index, stateOf, metadataGet, MetaVal.toState]
  validate ω₁ ω₂ b _ _ := twin_markBlock_validated ω₁ ω₂ b
  accept ω₁ ω₂ b s t s' t' := markBlock_order_free
  clash b s := exists_markBlock_not_sameIndex

/-- The order does not enter the verdict. -/
theorem ending_isBlockValid (ω₁ ω₂ : Runtime) (b : Block) (s : IPFSStorage) :
    (isBlockValid ω₁ b true s).1.ending = (isBlockValid ω₂ b true s).1.ending := by
  rw [isBlockValid_eq, isBlockValid_eq]

end IPFSStorage

/-! ## Both stores -/

/-- **When a block is handled the same in every order.** On a `MemStore`: none of its transactions
makes the validation panic or nothing in it can keep it from one that does, and the block is not up
for indexing or no two of its transactions clash. On an `IPFSStorage` the second half is enough.
And nodes that accept the same chain of blocks without clashes hold the same metadata. -/
theorem orderFree_iff_noClash [CidText] [Hash] [SigLib] :
    (∀ (m : MemStore) (b : Block), MemStore.index.OrderFree m b ↔
      (∀ txs, m.allTx b = .ok txs →
        (∀ e ∈ txs.entries, ¬ m.Panics e) ∨ m.Doomed txs.entries) ∧
      (m.stateOf b.id = .validated → MemStore.index.NoClash m b.id)) ∧
    (∀ (s : IPFSStorage) (b : Block), IPFSStorage.index.OrderFree s b ↔
      (s.stateOf b.id = .validated → IPFSStorage.index.NoClash s b.id)) ∧
    (∀ (ω₁ ω₂ : Nat → Runtime) (bs : List BlockID) (m m₁ m₂ : MemStore),
      (∀ b ∈ bs, MemStore.index.NoClash m b) → acceptAll ω₁ 0 bs m = (.ok (), m₁) →
      acceptAll ω₂ 0 bs m = (.ok (), m₂) → m₁.SameIndex m₂) ∧
    ∀ (ω₁ ω₂ : Nat → Runtime) (bs : List BlockID) (s s₁ s₂ : IPFSStorage),
      (∀ b ∈ bs, IPFSStorage.index.NoClash s b) → acceptAll ω₁ 0 bs s = (.ok (), s₁) →
      acceptAll ω₂ 0 bs s = (.ok (), s₂) → s₁.SameIndex s₂ := by
  refine ⟨fun m b => ?_, fun s b => ?_, ?_, ?_⟩
  · rw [MemStore.index_lawful.orderFree_iff rfl, MemStore.ending_eq_iff]
    rfl
  · rw [IPFSStorage.index_lawful.orderFree_iff (IPFSStorage.twin_refl s)]
    exact and_iff_right fun ω₁ ω₂ => IPFSStorage.ending_isBlockValid ω₁ ω₂ b s
  · intro ω₁ ω₂ bs m m₁ m₂ hclash h₁ h₂
    exact MemStore.index_lawful.same _ _ (MemStore.index_lawful.acceptAll_twin rfl hclash h₁ h₂)
  · intro ω₁ ω₂ bs s s₁ s₂ hclash h₁ h₂
    exact (IPFSStorage.index_lawful.acceptAll_twin (IPFSStorage.twin_refl s) hclash h₁ h₂).2

section

open Storage.Sample

/-- A set, a block and a store with two transactions, the block validated. -/
def pairSet (t t' : Tx) : TxSet :=
  { children := [Sample.sum (marshalSet (leaf t)), Sample.sum (marshalSet (leaf t'))] }

def pairBlock (t t' : Tx) : Block :=
  let b : Block := { txRoot := Sample.sum (marshalSet (pairSet t t')) }
  { b with id := Sample.sum (marshalBlock b) }

def pairStore (t t' : Tx) : MemStore :=
  let s := putBlockOf 2 t' (putBlockOf 1 t {})
  let s := (s.putSet (pairSet t t')).2
  let s := (s.putBlock (pairBlock t t')).2
  (s.markBlock runtime (pairBlock t t').id .validated).2

/-- Two DIDs are added, and the block can be visited in any order. -/
theorem pairStore_orderFree :
    let m := pairStore (didTx 1 .add "did:a:b" []) (didTx 2 .add "did:a:c" [])
    let b := pairBlock (didTx 1 .add "did:a:b" []) (didTx 2 .add "did:a:c" [])
    m.stateOf b.id = .validated ∧ MemStore.index.OrderFree m b := by
  intro m b
  have htxs : (m.allTx b).bind (fun txs => .ok txs.entries) =
      .ok [⟨⟨[1, 2]⟩, didTx 2 .add "did:a:c" []⟩, ⟨⟨[1, 1]⟩, didTx 1 .add "did:a:b" []⟩] := by
    decide
  refine ⟨by decide, (orderFree_iff_noClash.1 m b).mpr
    ⟨fun txs hall => .inl ?_, fun _ block txs hblock hall _ => ?_⟩⟩
  · rw [hall, Outcome.bind, Outcome.ok.injEq] at htxs
    rw [htxs, List.forall_mem_cons, List.forall_mem_singleton]
    exact ⟨(by decide : (isTxValid m _).1 ≠ .panic), (by decide : (isTxValid m _).1 ≠ .panic)⟩
  · have hb : m.getBlock b.id = .ok { b with id := .undef } := by decide
    have htxs' : m.allTx { b with id := .undef } = m.allTx b := rfl
    rw [← Outcome.ok.inj (hb.symm.trans hblock), show Store.allTx m _ = _ from htxs'] at hall
    rw [hall, Outcome.bind, Outcome.ok.injEq] at htxs
    rw [htxs, List.pairwise_pair]
    simp [MemStore.index, MemStore.Clash, Write.Clash, Write.Conflict, MemStore.didWrites,
      MemStore.nodeWrites, didTx, document]

/-- A runtime that visits maps backwards. -/
def backwards : Runtime := { runtime with
  order := List.reverse
  order_perm := List.reverse_perm }

/-- **Accepted in two orders, a block that adds a DID and updates it leaves two different documents
behind**: the DID index points to the update in one and to the addition in the other. **And a block
with an addition that nobody signed and a DID transaction without a document is refused in one order
and crashes the node in the other.** -/
theorem pairStore_not_orderFree :
    (let m := pairStore (didTx 1 .add "did:a:b" []) (didTx 2 .update "did:a:b" [])
      let b := pairBlock (didTx 1 .add "did:a:b" []) (didTx 2 .update "did:a:b" [])
      m.stateOf b.id = .validated ∧ ¬ MemStore.index.OrderFree m b) ∧
    (let t := { didTx 2 .add "" [] with data := some (.did none) }
      let m := pairStore (didTx 1 .add "did:a:b" []) t
      let b := pairBlock (didTx 1 .add "did:a:b" []) t
      (∃ err, (isBlockValid backwards b true m).1 = .err err) ∧
        (isBlockValid runtime b true m).1 = .panic ∧ ¬ MemStore.index.OrderFree m b) := by
  refine ⟨⟨by decide, fun hfree => ?_⟩, ⟨_, by rfl⟩, by decide, fun hfree => ?_⟩
  · have hsame := (hfree runtime backwards).2 (by decide) _ _
      (Prod.ext (by decide) rfl) (Prod.ext (by decide) rfl)
    have hdid := congrArg (Finmap.lookup "did:a:b") hsame.1
    exact absurd hdid (by decide)
  · exact absurd (hfree runtime backwards).1 (by decide)

end
end Didem.Storage
