import Didem.Lib.WorkerPool.Return
import Didem.Storage.Proof.Fold
import Didem.Storage.Proof.Genesis
import Didem.Storage.Proof.MetadataKeys

/-!
# The history of a DID

Every DID transaction that is indexed leaves an entry in the history table, under the DID and the
CID of the transaction, and no entry is ever taken out. `DIDHistory` reads the table **from one end
to the other, whatever DID it is asked for**, and fetches what it finds with a worker pool. A worker
that cannot fetch a transaction tells the wait group first and then blocks on an error channel that
was never made; the call returns what the others have fetched, without an error, unless all workers
are blocked before the end.

So the result is exact when the table happens to be the history of the one DID and all of it can be
fetched; beyond that, only when the call never returns (`didHistory_exact_iff`).
-/

set_option autoImplicit false

namespace Didem.Storage

open Lib Lib.Conf Lib.WorkerPool IPFSStorage

/-! ## The table -/

section

variable [CidText]

/-- The entry a transaction leaves in the history table. -/
def Leaves (e : TxEntry) (key : Bytes) (v : MetaVal) : Prop :=
  ∃ d, didOf e = some d ∧ key = typedKey .didHistory [d, e.1.string] ∧ v = .cid e.1

theorem Leaves.head {e : TxEntry} {key : Bytes} {v : MetaVal} (h : Leaves e key v) :
    key.head? = some MetadataKeyType.didHistory.byte := by
  obtain ⟨d, -, rfl, -⟩ := h
  rfl

theorem Leaves.det (hsep : NoSeparator) {e e' : TxEntry} {key : Bytes} {v v' : MetaVal}
    (h : Leaves e key v) (h' : Leaves e' key v') : v = v' := by
  obtain ⟨d, -, rfl, rfl⟩ := h
  obtain ⟨d', -, hkey, rfl⟩ := h'
  rw [cid_of_historyKey hsep hkey]

/-- What a transaction that applies writes to the history table. -/
theorem mem_applyTxTo_history {e : TxEntry} (happ : (applyTxTo e.1 e.2).1 = .ok ())
    {w : Write Bytes MetaVal} (hhead : w.key.head? = some MetadataKeyType.didHistory.byte) :
    w ∈ (applyTxTo e.1 e.2).2 ↔ ∃ v, w.val = some v ∧ Leaves e w.key v := by
  obtain ⟨id, ⟨version, ts, sender, type, action, data, signature⟩⟩ := e
  obtain ⟨key, val⟩ := w
  have hdid : ∀ d, key ≠ typedKey .did [d] := by
    rintro d rfl
    exact absurd hhead (by simp [MetadataKeyType.byte])
  have hnode : ∀ i, key ≠ typedKey .nodes [i] := by
    rintro i rfl
    exact absurd hhead (by simp [MetadataKeyType.byte])
  cases type with
  | did =>
    rcases data with _ | ((_ | document) | n | d) <;> cases action <;>
      simp_all [applyTxTo, indexTxDID, Outcome.mapErr, Leaves, didOf] <;>
      exact and_comm
  | vc => simp [applyTxTo, Outcome.mapErr] at happ
  | node =>
    rcases data with _ | (d | n | d) <;> cases action <;>
      simp_all [applyTxTo, indexTxNode, Outcome.mapErr, Leaves, didOf]
  | other n => simp [applyTxTo] at happ

/-- A batch that leaves in the history table what these transactions leave. -/
def Chronicles (ws : Batch) (es : List TxEntry) : Prop :=
  ∀ w : Write Bytes MetaVal, w.key.head? = some MetadataKeyType.didHistory.byte →
    (w ∈ ws ↔ ∃ e ∈ es, ∃ v, w.val = some v ∧ Leaves e w.key v)

theorem chronicles_entryWrites (b : BlockID) {es : List TxEntry}
    (happ : ∀ e ∈ es, (applyTxTo e.1 e.2).1 = .ok ()) :
    Chronicles (es.flatMap (entryWrites b)) es := by
  intro w hhead
  rw [List.mem_flatMap]
  refine exists_congr fun e => and_congr_right fun he => ?_
  rw [← mem_applyTxTo_history (happ e he) hhead, entryWrites, List.mem_cons]
  refine or_iff_right ?_
  rintro rfl
  exact absurd hhead (by simp [MetadataKeyType.byte])

theorem chronicles_writesOf {es : List TxEntry} (happ : ∀ e ∈ es, (applyTxTo e.1 e.2).1 = .ok ()) :
    Chronicles (writesOf es) es := by
  intro w hhead
  rw [writesOf, List.mem_flatMap]
  refine exists_congr fun e => and_congr_right fun he => ?_
  exact mem_applyTxTo_history (happ e he) hhead

/-- The history table is what the transactions left. -/
def Tabled (m : Finmap fun _ : Bytes => MetaVal) (es : List TxEntry) : Prop :=
  ∀ key v, key.head? = some MetadataKeyType.didHistory.byte →
    (m.lookup key = some v ↔ ∃ e ∈ es, Leaves e key v)

/-- **The history table only grows.** -/
theorem Tabled.applyAll (hsep : NoSeparator) {m : Finmap fun _ : Bytes => MetaVal}
    {es es' : List TxEntry} {ws : Batch} (hm : Tabled m es) (hws : Chronicles ws es') :
    Tabled (Write.applyAll m ws) (es ++ es') := by
  intro key v hhead
  -- an entry is written again with the value it has
  have hdet : ∀ {e e' v v'}, Leaves e key v → Leaves e' key v' → v = v' := fun h h' => h.det hsep h'
  by_cases hex : ∃ e ∈ es', ∃ v₀, Leaves e key v₀
  · obtain ⟨e, he, v₀, hv₀⟩ := hex
    have hlookup : (Write.applyAll m ws).lookup key = some v₀ := by
      refine Write.lookup_applyAll_of_agree (fun w hw hkey => ?_)
        ⟨⟨key, some v₀⟩, (hws _ hhead).mpr ⟨e, he, v₀, rfl, hv₀⟩, rfl⟩ m
      subst hkey
      obtain ⟨e', -, v', hv', hleaves⟩ := (hws w hhead).mp hw
      rw [hv', hdet hleaves hv₀]
    rw [hlookup]
    constructor
    · intro h
      exact ⟨e, List.mem_append_right _ he, Option.some.inj h ▸ hv₀⟩
    · rintro ⟨e', -, hleaves⟩
      rw [hdet hv₀ hleaves]
  · have hlookup : (Write.applyAll m ws).lookup key = m.lookup key := by
      refine Write.lookup_applyAll_of_notMem (fun w hw hkey => hex ?_) m
      subst hkey
      obtain ⟨e, he, v₀, -, hleaves⟩ := (hws w hhead).mp hw
      exact ⟨e, he, v₀, hleaves⟩
    rw [hlookup, hm key v hhead]
    constructor
    · rintro ⟨e, he, hleaves⟩
      exact ⟨e, List.mem_append_left _ he, hleaves⟩
    · rintro ⟨e, he, hleaves⟩
      rcases List.mem_append.mp he with he | he
      · exact ⟨e, he, hleaves⟩
      · exact absurd ⟨e, he, v, hleaves⟩ hex

/-- Entries of other tables do not matter. -/
theorem Tabled.insert {m : Finmap fun _ : Bytes => MetaVal} {es : List TxEntry} (hm : Tabled m es)
    {kType : MetadataKeyType} (hk : kType ≠ .didHistory) (parts : List String) (v : MetaVal) :
    Tabled (m.insert (typedKey kType parts) v) es := by
  intro key v' hhead
  have hne : key ≠ typedKey kType parts := by
    rintro rfl
    exact hk (MetadataKeyType.byte_injective (Option.some.inj hhead))
  rw [Finmap.lookup_insert_of_ne _ hne]
  exact hm key v' hhead

theorem Tabled.congr {m : Finmap fun _ : Bytes => MetaVal} {es es' : List TxEntry}
    (hm : Tabled m es) (h : ∀ e, e ∈ es' ↔ e ∈ es) : Tabled m es' := by
  intro key v hhead
  rw [hm key v hhead]
  simp only [h]

end

/-! ## A store with what it has indexed -/

/-- A store, and the transactions it has indexed so far. -/
structure Chronicle where
  store : IPFSStorage := {}
  indexed : List TxEntry := []

/-- What happens to the store: as in a `Ledger`, and a genesis is applied. -/
inductive ChronicleEvent where
  | index (i : IndexEvent)
  | genesis (ω : Runtime) (g : GenesisInfo)

namespace Chronicle

variable [CidText] [Hash] [SigLib]

def step (c : Chronicle) : ChronicleEvent → Chronicle
  | .index i =>
    let l := Ledger.step ⟨c.store, []⟩ i
    { store := l.store, indexed := c.indexed ++ applied l.history }
  | .genesis ω g =>
    let (r, s) := c.store.applyGenesis ω g
    { store := s, indexed := c.indexed ++ if r = .ok () then genesisEntries g.txs else [] }

/-- Content comes and goes, but an object is only ever found under its own hash. -/
def Allowed : ChronicleEvent → Prop
  | .index (.arrive objects) => Addressed objects
  | _ => True

structure Inv (c : Chronicle) : Prop where
  outside : c.store.pfTipApply = none
  addressed : Addressed c.store.objects
  table : Tabled c.store.view c.indexed
  sums : ∀ e ∈ c.indexed, e.2.type = .did → Hash.sum (.tx e.2) = e.1

omit [CidText] [SigLib] in
/-- What is fetched is what has this CID. -/
theorem sum_of_getTx {s : IPFSStorage} (hs : Addressed s.objects) {c : TxID} {t : Tx}
    (h : s.getTx c = .ok t) (ht : t.type = .did) : Hash.sum (.tx t) = c := by
  obtain ⟨d, hd, hu⟩ := getTx_eq_ok.mp h
  obtain rfl := eq_tx_of_unmarshalTx hu ht
  exact hs c _ hd

omit [SigLib] in
theorem inv_empty : Inv {} where
  outside := rfl
  addressed := addressed_empty
  table key v _ := by
    simp [IPFSStorage.view]
  sums e he := absurd he List.not_mem_nil

/-- A mark adds the block it indexes, if any. -/
theorem Inv.mark (hsep : NoSeparator) {c : Chronicle} (hc : c.Inv) (ω : Runtime) (id : BlockID)
    (state : BlockState) : (c.step (.index (.mark ω id state))).Inv := by
  have hkind := sameKind_markBlock ω id state c.store
  have haddressed : Addressed (c.store.markBlock ω id state).2.objects := hkind.1 ▸ hc.addressed
  by_cases hindexed : c.store.stateOf id = .validated ∧ state = .accepted ∧
      (c.store.markBlock ω id state).1 = .ok ()
  · obtain ⟨hstate, rfl, hok⟩ := hindexed
    have hmark : c.store.markBlock ω id .accepted =
        (.ok (), (c.store.markBlock ω id .accepted).2) := Prod.ext hok rfl
    obtain ⟨block, txs, hblock, hall, happ, -, hview⟩ := markBlock_accepted_eq_ok hstate hmark
    have hadds := index.indexedBy_eq hstate hok hblock hall
    have hperm := ω.order_perm txs.entries
    have hnew : (c.step (.index (.mark ω id .accepted))).indexed = c.indexed ++ txs.entries := by
      simp [Chronicle.step, Ledger.step, hadds, applied]
    refine ⟨hkind.outside hc.outside, haddressed, ?_, ?_⟩
    · rw [hnew]
      show Tabled (c.store.markBlock ω id .accepted).2.view _
      rw [hview]
      have hchronicles : Chronicles ((ω.order txs.entries).flatMap (entryWrites id))
          (ω.order txs.entries) :=
        chronicles_entryWrites id fun e he => happ e (hperm.mem_iff.mp he)
      refine (((hc.table.insert (by simp) _ _).applyAll hsep hchronicles).insert
        (by simp) _ _).congr ?_
      intro e
      simp only [List.mem_append, hperm.mem_iff]
    · rw [hnew]
      intro e he
      rcases List.mem_append.mp he with hold | hnew
      · exact hc.sums e hold
      · exact sum_of_getTx hc.addressed (getTx_of_allTxFrom hall (AList.mem_lookup_iff.mpr hnew))
  · have hadds : index.indexedBy ω id state c.store = [] := if_neg hindexed
    have hsame : (c.step (.index (.mark ω id state))).indexed = c.indexed := by
      simp [Chronicle.step, Ledger.step, hadds, applied]
    refine ⟨hkind.outside hc.outside, haddressed, ?_, hsame ▸ hc.sums⟩
    rw [hsame]
    show Tabled (c.store.markBlock ω id state).2.view _
    rw [Ledger.view_markBlock_of_not_indexed hc.outside hindexed]
    exact hc.table.insert (by simp) _ _

/-- Only content is added, and it stays under its own hash. -/
def Filled (s s' : IPFSStorage) : Prop :=
  SameMetadata s s' ∧ Grows (fun s : IPFSStorage => Addressed s.objects) s s'

omit [CidText] in
instance reflFilled : Std.Refl Filled := ⟨fun _ => ⟨rfl, .refl _⟩⟩

omit [CidText] in
instance transFilled : IsTrans IPFSStorage Filled :=
  ⟨fun _ _ _ h h' => ⟨h.1.trans h'.1, h.2.trans h'.2⟩⟩

omit [SigLib] in
/-- A genesis that is applied records its transactions. -/
theorem chronicles_genesisBatch {g : GenesisInfo}
    (happ : ∀ e ∈ genesisEntries g.txs, (applyTxTo e.1 e.2).1 = .ok ()) :
    Chronicles (genesisBatch g) (genesisEntries g.txs) := by
  intro w hhead
  rw [← chronicles_writesOf happ w hhead, genesisBatch, List.mem_append]
  refine or_iff_left fun hw => ?_
  simp only [List.mem_cons, List.not_mem_nil, or_false] at hw
  rcases hw with rfl | rfl <;> exact absurd hhead (by simp [MetadataKeyType.byte])

theorem Inv.genesis (hinj : Function.Injective (Hash.sum : Obj → Cid)) (hsep : NoSeparator)
    {c : Chronicle} (hc : c.Inv) (ω : Runtime) (g : GenesisInfo) :
    (c.step (.genesis ω g)).Inv := by
  have hcontent := contentStore hinj
  rcases applyGenesis_within (R := Filled)
      (fun t s => ⟨sameMetadata_putTx ω t s, hcontent.putTx ω t s⟩)
      (fun n s => ⟨sameMetadata_putSet ω n s, hcontent.putSet ω n s⟩)
      (fun b s => ⟨sameMetadata_putRaw ω (marshalBlock b) s, hcontent.putBlock ω b s⟩)
      g c.store with ⟨root, s₁, s₂, s₃, heq, happ, -, -, hsame, hgrows⟩ | ⟨hne, hsame, hgrows⟩
  · have hstep : c.step (.genesis ω g) =
        { store := { s₃ with metadata := Write.applyAll s₃.metadata (genesisBatch g) }
          indexed := c.indexed ++ genesisEntries g.txs } := by
      simp only [Chronicle.step, heq, if_true]
    have houtside : s₃.pfTipApply = none := hsame.pfTipApply.trans hc.outside
    rw [hstep]
    refine ⟨houtside, (hgrows hc.addressed).1, ?_, fun e he => ?_⟩
    · have hview : c.store.view = c.store.metadata := by simp only [view, hc.outside]
      have hview' : ({ s₃ with metadata := Write.applyAll s₃.metadata (genesisBatch g) } :
          IPFSStorage).view = Write.applyAll c.store.metadata (genesisBatch g) := by
        simp only [view, houtside, hsame.metadata]
      simp only [hview', ← hview]
      exact hc.table.applyAll hsep (chronicles_genesisBatch happ)
    · rcases List.mem_append.mp he with hold | hnew
      · exact hc.sums e hold
      · obtain ⟨t, -, rfl⟩ := List.mem_map.mp hnew
        exact fun _ => rfl
  · have hstep : c.step (.genesis ω g) =
        { store := (c.store.applyGenesis ω g).2, indexed := c.indexed } := by
      simp only [Chronicle.step, if_neg hne, List.append_nil]
    rw [hstep]
    refine ⟨hsame.pfTipApply.trans hc.outside, (hgrows hc.addressed).1, ?_, hc.sums⟩
    show Tabled (c.store.applyGenesis ω g).2.view _
    rw [hsame.view]
    exact hc.table

/-- **One step** keeps the history table what was indexed. -/
theorem Inv.step (hinj : Function.Injective (Hash.sum : Obj → Cid)) (hsep : NoSeparator)
    {c : Chronicle} (hc : c.Inv) {i : ChronicleEvent} (hi : Allowed i) : (c.step i).Inv := by
  cases i with
  | genesis ω g => exact hc.genesis hinj hsep ω g
  | index i =>
    cases i with
    | mark ω id state => exact hc.mark hsep ω id state
    | updateLastApplied id =>
      have hstore : (c.step (.index (.updateLastApplied id))).store =
          c.store.metadataSet (typedKey .latestBlock []) (.text id.string) := rfl
      have hindexed : (c.step (.index (.updateLastApplied id))).indexed = c.indexed :=
        List.append_nil _
      refine ⟨?_, ?_, ?_, hindexed ▸ hc.sums⟩
      · simp [hstore, metadataSet, hc.outside]
      · rw [hstore, objects_metadataSet]
        exact hc.addressed
      · rw [hstore, hindexed, view_metadataSet]
        exact hc.table.insert (by simp) _ _
    | arrive objects =>
      have hindexed : (c.step (.index (.arrive objects))).indexed = c.indexed :=
        List.append_nil _
      exact ⟨hc.outside, hi, hindexed ▸ hc.table, hindexed ▸ hc.sums⟩

/-- **In every run from an empty store** the history table is what was indexed. -/
theorem inv_run (hinj : Function.Injective (Hash.sum : Obj → Cid)) (hsep : NoSeparator)
    {is : List ChronicleEvent} (his : ∀ i ∈ is, Allowed i) :
    (is.foldl Chronicle.step {}).Inv := by
  refine Along.invariant (P := Chronicle.Inv) (G := fun _ i => Allowed i)
    (fun _ _ hc hi => hc.step hinj hsep hi) inv_empty (Along.of_forall_split ?_)
  rintro is₁ i is₂ rfl
  exact his i (by simp)

omit [SigLib] in
/-- **The table has the CIDs of all DIDs' transactions.** -/
theorem Inv.mem_historyCids {c : Chronicle} (hc : c.Inv) {x : Cid} :
    x ∈ c.store.historyCids ↔ ∃ e ∈ c.indexed, (∃ d, didOf e = some d) ∧ e.1 = x := by
  simp only [historyCids, Finset.mem_biUnion, Finset.mem_filter, Finmap.mem_keys,
    Option.mem_toFinset, Option.mem_def, Option.bind_eq_some_iff]
  constructor
  · rintro ⟨key, ⟨-, hhead⟩, v, hv, hcast⟩
    obtain ⟨e, he, d, hd, -, rfl⟩ := (hc.table key v hhead).mp hv
    refine ⟨e, he, ⟨d, hd⟩, ?_⟩
    simp only [castCid] at hcast
    split at hcast
    · exact absurd hcast (by simp)
    · exact Option.some.inj hcast
  · rintro ⟨e, he, ⟨d, hd⟩, rfl⟩
    have hleaves : Leaves e (typedKey .didHistory [d, e.1.string]) (.cid e.1) := ⟨d, hd, rfl, rfl⟩
    have hlookup := (hc.table _ _ hleaves.head).mpr ⟨e, he, hleaves⟩
    have hdef : e.1 ≠ .undef := by
      rw [← hc.sums e he (type_of_didOf hd)]
      exact fun h => Hash.sum_ne_undef _ (congrArg Cid.str h)
    refine ⟨_, ⟨Finmap.lookup_isSome.mp (by rw [hlookup]; rfl), hleaves.head⟩, _, hlookup, ?_⟩
    simp [castCid, hdef]

end Chronicle

/-! ## The call -/

section

variable {s : IPFSStorage} {es : List TxEntry} {d : String} {keys : List Cid}

theorem work_historyPlan {x : Cid} {t : Tx} :
    s.historyPlan.work x = some t ↔ s.getTx x = .ok t := by
  simp only [historyPlan]
  cases s.getTx x <;> simp

/-- The transactions ever indexed for a DID. -/
def historyOf (es : List TxEntry) (d : String) : List Tx :=
  (es.filter fun e => didOf e = some d).dedup.map Sigma.snd

theorem mem_historyOf {t : Tx} : t ∈ historyOf es d ↔ ∃ e ∈ es, didOf e = some d ∧ e.2 = t := by
  simp [historyOf, and_assoc]

/-- The CIDs of the table that cannot be fetched. -/
def unfetched (s : IPFSStorage) : Finset Cid :=
  s.historyCids.filter fun x => (s.historyPlan.work x).isNone

/-- The CIDs of the table, in an order the runtime may visit them in. -/
structure Visits (s : IPFSStorage) (keys : List Cid) : Prop where
  nodup : keys.Nodup
  mem : ∀ x, x ∈ keys ↔ x ∈ s.historyCids

/-- **`DIDHistory` is exact**: in every run, a result without an error is the transactions indexed
for the DID, in some order; and if one of those cannot be fetched, every run returns an error. -/
def DidHistoryExact (s : IPFSStorage) (es : List TxEntry) (d : String) : Prop :=
  ∀ keys, Visits s keys →
    (∀ c txs, Reach (next s.historyPlan) (s.didHistory d keys) c →
      c.shared.caller = .returned (some txs) → txs.Perm (historyOf es d)) ∧
    ((∃ e ∈ es, didOf e = some d ∧ ∀ t, s.getTx e.1 ≠ .ok t) →
      Inevitable (next s.historyPlan) (fun c => c.shared.caller = .returned none)
        (s.didHistory d keys))

theorem foldr_record (log : List Tx) : log.foldr s.historyPlan.record [] = log.reverse := by
  induction log with
  | nil => rfl
  | cons t log ih =>
    rw [List.foldr_cons, ih, List.reverse_cons]
    rfl

/-- No fetch from the table panics. -/
def Decodes (s : IPFSStorage) : Prop := ∀ x ∈ s.historyCids, s.getTx x ≠ .panic

theorem Visits.panics_eq_false (h : Visits s keys) (hs : Decodes s) :
    ∀ x ∈ keys, s.historyPlan.panics x = false := by
  intro x hx
  simpa [historyPlan] using hs x ((h.mem x).mp hx)

/-- **What it returns is everything in the table that could be fetched.** -/
theorem perm_of_returned {c : Conf (Shared Cid (List Tx)) (Place Cid Tx)} {r : Option (List Tx)}
    (hs : Decodes s) (hkeys : Visits s keys)
    (hreach : Reach (next s.historyPlan) (s.didHistory d keys) c)
    (hr : c.shared.caller = .returned r) :
    ∃ txs, r = some txs ∧ txs.Perm (keys.filterMap s.historyPlan.work) := by
  obtain ⟨log, rfl, hperm⟩ := exists_log_of_returned rfl (hkeys.panics_eq_false hs) hreach hr
  rw [foldr_record]
  exact ⟨_, rfl, (List.reverse_perm log).trans hperm⟩

theorem Visits.sum_fails (h : Visits s keys) :
    (keys.map (fails s.historyPlan)).sum = (unfetched s).card := by
  have hset : unfetched s = (keys.filter fun x => (s.historyPlan.work x).isNone).toFinset := by
    ext x
    simp [unfetched, h.mem]
  rw [hset, List.toFinset_card_of_nodup (h.nodup.filter _)]
  clear hset h
  induction keys with
  | nil => rfl
  | cons x keys ih =>
    rw [List.map_cons, List.sum_cons, ih, List.filter_cons, fails]
    split
    · rw [List.length_cons, Nat.add_comm]
    · rw [Nat.zero_add]

/-- **With fewer failures than workers every run returns**, and without an error. -/
theorem inevitable_history (d : String) (hs : Decodes s) (hkeys : Visits s keys)
    (hfew : (unfetched s).card < allTxNWorkers) :
    Inevitable (next s.historyPlan) (fun c => ∃ txs, c.shared.caller = .returned (some txs) ∧
      txs.Perm (keys.filterMap s.historyPlan.work)) (s.didHistory d keys) := by
  have hlost : lost s.historyPlan keys = 0 := by
    refine List.sum_eq_zero fun n hn => ?_
    obtain ⟨x, -, rfl⟩ := List.mem_map.mp hn
    cases hx : s.historyPlan.work x <;> simp_all [owes, historyPlan]
  refine (inevitable_returned rfl (hkeys.panics_eq_false hs) hlost
    (hkeys.sum_fails ▸ hfew)).mono ?_
  rintro c ⟨-, log, hret, hperm⟩
  rw [foldr_record] at hret
  exact ⟨_, hret, (List.reverse_perm log).trans hperm⟩

variable [CidText] [Hash] [SigLib] {c : Chronicle}

omit [SigLib] in
/-- What is stored under the CID of an indexed DID transaction is that transaction. -/
theorem Chronicle.Inv.object_eq (hinj : Function.Injective (Hash.sum : Obj → Cid)) (hc : c.Inv)
    {e : TxEntry} (he : e ∈ c.indexed) (hd : didOf e = some d) {o : Obj}
    (h : c.store.objects.lookup e.1 = some o) : o = .tx e.2 :=
  hinj ((hc.addressed _ _ h).trans (hc.sums e he (type_of_didOf hd)).symm)

omit [SigLib] in
/-- The transaction that is fetched is the one that was indexed. -/
theorem Chronicle.Inv.getTx_eq (hinj : Function.Injective (Hash.sum : Obj → Cid)) (hc : c.Inv)
    {e : TxEntry} (he : e ∈ c.indexed) (hd : didOf e = some d) {t : Tx}
    (h : c.store.getTx e.1 = .ok t) : t = e.2 := by
  obtain ⟨o, ho, ht⟩ := getTx_eq_ok.mp h
  rw [hc.object_eq hinj he hd ho, unmarshalTx_of_wellTyped (wellTyped_of_didOf hd)] at ht
  exact (Outcome.ok.inj ht).symm

omit [SigLib] in
/-- **No fetch of a history panics**: what was indexed for a DID has a payload. -/
theorem Chronicle.Inv.decodes (hinj : Function.Injective (Hash.sum : Obj → Cid)) (hc : c.Inv) :
    Decodes c.store := by
  intro x hx hpanic
  obtain ⟨e, he, ⟨d, hd⟩, rfl⟩ := hc.mem_historyCids.mp hx
  obtain ⟨t, ht, hhollow⟩ := getTx_eq_panic.mp hpanic
  obtain rfl := Obj.tx.inj (hc.object_eq hinj he hd ht)
  have hok := unmarshalTx_of_wellTyped (wellTyped_of_didOf hd)
  rw [unmarshalTx_eq_panic.mpr ⟨_, rfl, hhollow⟩] at hok
  exact absurd hok (by simp)

omit [SigLib] in
/-- What a run may return. -/
theorem Chronicle.Inv.mem_fetched (hinj : Function.Injective (Hash.sum : Obj → Cid)) (hc : c.Inv)
    (hkeys : Visits c.store keys) {t : Tx} :
    t ∈ keys.filterMap c.store.historyPlan.work ↔
      ∃ e ∈ c.indexed, (∃ d, didOf e = some d) ∧ e.2 = t ∧ c.store.getTx e.1 = .ok t := by
  simp only [List.mem_filterMap, work_historyPlan, hkeys.mem, hc.mem_historyCids]
  constructor
  · rintro ⟨x, ⟨e, he, ⟨d, hd⟩, rfl⟩, ht⟩
    exact ⟨e, he, ⟨d, hd⟩, (hc.getTx_eq hinj he hd ht).symm, ht⟩
  · rintro ⟨e, he, hd, rfl, ht⟩
    exact ⟨e.1, ⟨e, he, hd, rfl⟩, ht⟩

omit [SigLib] in
theorem Chronicle.Inv.nodup_fetched (hinj : Function.Injective (Hash.sum : Obj → Cid)) (hc : c.Inv)
    (hkeys : Visits c.store keys) : (keys.filterMap c.store.historyPlan.work).Nodup := by
  have hsum : ∀ x ∈ keys, ∀ t, c.store.historyPlan.work x = some t → Hash.sum (.tx t) = x := by
    intro x hx t ht
    obtain ⟨e, he, ⟨d, hd⟩, rfl⟩ := hc.mem_historyCids.mp ((hkeys.mem x).mp hx)
    rw [hc.getTx_eq hinj he hd (work_historyPlan.mp ht)]
    exact hc.sums e he (type_of_didOf hd)
  have hnodup := hkeys.nodup
  clear hkeys
  induction keys with
  | nil => exact List.nodup_nil
  | cons x keys ih =>
    rw [List.nodup_cons] at hnodup
    have hrest := ih (fun y hy => hsum y (List.mem_cons_of_mem x hy)) hnodup.2
    rw [List.filterMap_cons]
    split
    · exact hrest
    · next t ht =>
      refine List.nodup_cons.mpr ⟨fun hmem => hnodup.1 ?_, hrest⟩
      obtain ⟨y, hy, hyt⟩ := List.mem_filterMap.mp hmem
      have hx := hsum x List.mem_cons_self t ht
      rw [hsum y (List.mem_cons_of_mem x hy) t hyt] at hx
      exact hx ▸ hy

omit [SigLib] in
theorem Chronicle.Inv.nodup_historyOf (hc : c.Inv) (d : String) :
    (historyOf c.indexed d).Nodup := by
  refine List.Nodup.map_on ?_ (List.nodup_dedup _)
  intro e he e' he' heq
  rw [List.mem_dedup, List.mem_filter, decide_eq_true_eq] at he he'
  have hfst : e.1 = e'.1 := by
    rw [← hc.sums e he.1 (type_of_didOf he.2), ← hc.sums e' he'.1 (type_of_didOf he'.2), heq]
  exact Sigma.ext hfst (heq_of_eq heq)

omit [CidText] [Hash] [SigLib] in
theorem didOf_congr {e e' : TxEntry} (h : e.2 = e'.2) : didOf e = didOf e' := by
  simp only [didOf, h]

/-- The table is the history of the one DID, or the call does not return. -/
def HistoryReadable (c : Chronicle) (d : String) : Prop :=
  (∀ e ∈ c.indexed, didOf e = some d → ∃ t, c.store.getTx e.1 = .ok t) ∧
    ((∀ e ∈ c.indexed, ∀ d', didOf e = some d' → d' ≠ d → ∀ t, c.store.getTx e.1 ≠ .ok t) ∨
      allTxNWorkers < (unfetched c.store).card)

omit [SigLib] in
theorem Chronicle.Inv.exact_of_readable (hinj : Function.Injective (Hash.sum : Obj → Cid))
    (hc : c.Inv) (h : HistoryReadable c d) : DidHistoryExact c.store c.indexed d := by
  obtain ⟨hfetch, hrest⟩ := h
  refine fun keys hkeys => ⟨fun conf txs hreach hret => ?_, fun hfail => ?_⟩
  · obtain ⟨txs', htxs, hperm⟩ := perm_of_returned (hc.decodes hinj) hkeys hreach hret
    obtain rfl := Option.some.inj htxs
    rcases hrest with hothers | hmany
    · refine hperm.trans ((List.perm_ext_iff_of_nodup (hc.nodup_fetched hinj hkeys)
        (hc.nodup_historyOf d)).mpr fun t => ?_)
      rw [hc.mem_fetched hinj hkeys, mem_historyOf]
      refine exists_congr fun e => and_congr_right fun he => ?_
      constructor
      · rintro ⟨⟨d', hd'⟩, heq, ht⟩
        by_cases hd : d' = d
        · exact ⟨hd ▸ hd', heq⟩
        · exact absurd ht (hothers e he d' hd' hd t)
      · rintro ⟨hd, rfl⟩
        obtain ⟨t, ht⟩ := hfetch e he hd
        exact ⟨⟨d, hd⟩, rfl, hc.getTx_eq hinj he hd ht ▸ ht⟩
    · have hle := sum_fails_le_of_returned rfl (hkeys.panics_eq_false (hc.decodes hinj)) rfl
        hreach hret
      rw [hkeys.sum_fails] at hle
      omega
  · obtain ⟨e, he, hd, hnone⟩ := hfail
    obtain ⟨t, ht⟩ := hfetch e he hd
    exact absurd ht (hnone t)

omit [CidText] [Hash] [SigLib] in
/-- With no more failures than workers there is an order, and a run in it, that returns. -/
theorem exists_visit_returned (d : String) (hs : Decodes s)
    (hfew : (unfetched s).card ≤ allTxNWorkers) :
    ∃ keys conf r, Visits s keys ∧ Reach (next s.historyPlan) (s.didHistory d keys) conf ∧
      conf.shared.caller = .returned r := by
  let all := s.historyCids.toList
  let good := all.filter fun x => (s.historyPlan.work x).isSome
  let bad := all.filter fun x => (s.historyPlan.work x).isNone
  have hvisits : Visits s (good ++ bad) := by
    have hnodup : all.Nodup := s.historyCids.nodup_toList
    refine ⟨List.Nodup.append (hnodup.filter _) (hnodup.filter _) ?_, fun x => ?_⟩
    · intro x hgood hbad
      simp only [good, bad, List.mem_filter] at hgood hbad
      simp [Option.isNone_iff_eq_none.mp hbad.2] at hgood
    · have hcases : (s.historyPlan.work x).isSome ∨ (s.historyPlan.work x).isNone := by
        cases s.historyPlan.work x <;> simp
      simp only [good, bad, all, List.mem_append, List.mem_filter, Finset.mem_toList]
      rw [← and_or_left]
      exact and_iff_left hcases
  have hlen : bad.length ≤ allTxNWorkers := by
    have hset : unfetched s = bad.toFinset := by
      ext x
      simp [unfetched, bad, all]
    have hnodup : bad.Nodup := s.historyCids.nodup_toList.filter _
    rwa [hset, List.toFinset_card_of_nodup hnodup] at hfew
  obtain ⟨conf, r, hreach, hr⟩ := exists_returned s.historyPlan [] good bad
    (allTxNWorkers - bad.length) (hvisits.panics_eq_false hs) rfl rfl
    (fun x hx => (List.mem_filter.mp hx).2)
    (fun x hx => Option.isNone_iff_eq_none.mp (List.mem_filter.mp hx).2)
    (by simp only [allTxNWorkers]; omega)
  rw [Nat.add_sub_cancel' hlen] at hreach
  exact ⟨_, conf, r, hvisits, hreach, hr⟩

omit [SigLib] in
theorem Chronicle.Inv.readable_of_exact (hinj : Function.Injective (Hash.sum : Obj → Cid))
    (hc : c.Inv) (h : DidHistoryExact c.store c.indexed d) : HistoryReadable c d := by
  constructor
  · intro e he hd
    by_contra hfail
    have hvisits : Visits c.store c.store.historyCids.toList :=
      ⟨Finset.nodup_toList _, fun x => Finset.mem_toList⟩
    obtain ⟨conf, hreach, hr⟩ :=
      ((h _ hvisits).2 ⟨e, he, hd, fun t ht => hfail ⟨t, ht⟩⟩).exists_reach
    -- an error is never received
    obtain ⟨txs, hsome, -⟩ := perm_of_returned (hc.decodes hinj) hvisits hreach hr
    exact absurd hsome (by simp)
  · by_contra hnot
    rw [not_or, Nat.not_lt] at hnot
    obtain ⟨hother, hfew⟩ := hnot
    refine hother fun e he d' hd' hne t ht => ?_
    obtain ⟨keys, conf, r, hkeys, hreach, hr⟩ := exists_visit_returned d (hc.decodes hinj) hfew
    obtain ⟨txs, rfl, hperm⟩ := perm_of_returned (hc.decodes hinj) hkeys hreach hr
    have hmem : t ∈ txs := hperm.mem_iff.mpr
      ((hc.mem_fetched hinj hkeys).mpr ⟨e, he, ⟨d', hd'⟩, (hc.getTx_eq hinj he hd' ht).symm, ht⟩)
    obtain ⟨e', -, hd, heq⟩ :=
      mem_historyOf.mp (((h keys hkeys).1 conf txs hreach hr).mem_iff.mp hmem)
    have hsame : didOf e' = didOf e := didOf_congr (heq.trans (hc.getTx_eq hinj he hd' ht))
    exact hne (Option.some.inj (hd'.symm.trans (hsame.symm.trans hd)))

/-- **`DIDHistory` is exact exactly if everything indexed for the DID can be fetched and nothing
indexed for another one can be** — or if so much cannot be fetched that it never returns. -/
theorem didHistory_exact_iff (hinj : Function.Injective (Hash.sum : Obj → Cid))
    (hsep : NoSeparator) (is : List ChronicleEvent) (his : ∀ i ∈ is, Chronicle.Allowed i)
    (d : String) :
    DidHistoryExact (is.foldl Chronicle.step {}).store (is.foldl Chronicle.step {}).indexed d ↔
      HistoryReadable (is.foldl Chronicle.step {}) d :=
  have hc := Chronicle.inv_run hinj hsep his
  ⟨hc.readable_of_exact hinj, hc.exact_of_readable hinj⟩

end

/-! ### Two DIDs -/

section

open Storage.Sample

/-- A transaction that adds a DID with an empty document. -/
def bareDid (ts : Int) (id : String) : Tx :=
  { didTx ts .add id [] with sender := "", data := some (.did (some { id := id })) }

section

open Exact

theorem noSeparator : NoSeparator := by
  intro c hmem
  change ':' ∈ (Storage.Sample.string c).toList at hmem
  rw [Storage.Sample.string, String.toList_ofList, List.mem_cons] at hmem
  rcases hmem with hb | hmem
  · exact absurd hb (by decide)
  · obtain ⟨b, -, hb⟩ := List.mem_map.mp hmem
    have hnat := congrArg Char.toNat hb
    rw [toNat_letter] at hnat
    have hcolon : ':'.toNat = 58 := rfl
    omega

def bareUpdate (ts : Int) (id : String) : Tx := { bareDid ts id with action := .update }

/-- A DID that is added and updated. -/
def onlyDidTxs : List Tx := [bareDid 1 "a:b", bareUpdate 2 "a:b"]

/-- A store with nothing else in it. -/
def onlyDid : Chronicle :=
  [ChronicleEvent.genesis runtime (genesisOf onlyDidTxs)].foldl Chronicle.step {}

/-- The history is exact. -/
theorem onlyDid_exact : historyOf onlyDid.indexed "a:b" = onlyDidTxs ∧
    DidHistoryExact onlyDid.store onlyDid.indexed "a:b" := by
  have hindexed : onlyDid.indexed = onlyDidTxs.map fun t => ⟨Hash.sum (.tx t), t⟩ := by
    decide +kernel
  have hget : ∀ t ∈ onlyDidTxs, onlyDid.store.getTx (Hash.sum (.tx t)) = .ok t := by
    decide +kernel
  have hdid : ∀ e ∈ onlyDid.indexed, didOf e = some "a:b" := by
    decide +kernel
  refine ⟨by rw [hindexed]; decide +kernel, (didHistory_exact_iff sum_injective
    noSeparator [.genesis runtime (genesisOf onlyDidTxs)]
    (by simp [Chronicle.Allowed]) "a:b").mpr ⟨?_, .inl ?_⟩⟩
  · intro e he _
    obtain ⟨t, ht, rfl⟩ := List.mem_map.mp (hindexed ▸ he : e ∈ onlyDidTxs.map _)
    exact ⟨t, hget t ht⟩
  · intro e he d' hd' hne
    exact absurd (Option.some.inj (hd'.symm.trans (hdid e he))) hne

end

/-- Two DIDs, one transaction each. -/
def twoDids : Chronicle :=
  [ChronicleEvent.genesis runtime (genesisOf [bareDid 1 "a:b", bareDid 2 "c:d"])].foldl
    Chronicle.step {}

/-- The same after the content is gone. -/
def twoDidsGone : Chronicle := twoDids.step (.index (.arrive ∅))

def twoKeys : List Cid := [Hash.sum (.tx (bareDid 1 "a:b")), Hash.sum (.tx (bareDid 2 "c:d"))]

/-- Everything is sent, one worker does both jobs, the call returns. -/
def oneWorker : List (Nat × Nat) :=
  [(1, 0), (1, 0), (1, 0)] ++ List.replicate 8 (2, 0) ++ [(1, 0), (1, 0), (1, 0), (0, 0)]

/-- Each job is the last one of its worker. -/
def twoWorkers : List (Nat × Nat) :=
  [(1, 0), (1, 0), (1, 0)] ++ List.replicate 3 (2, 0) ++ List.replicate 3 (3, 0) ++
    [(1, 0), (1, 0), (1, 0), (0, 0)]

/-- **Another DID's transaction is returned, and a failure is not.** Asked for one DID, the call
returns the transactions of both; and when neither can be fetched, it returns none of them, without
an error. -/
theorem didHistory_not_exact :
    historyOf twoDids.indexed "a:b" = [bareDid 1 "a:b"] ∧
      ((follow (next twoDids.store.historyPlan) oneWorker
        (twoDids.store.didHistory "a:b" twoKeys)).map fun c => c.shared.caller) =
          some (.returned (some [bareDid 1 "a:b", bareDid 2 "c:d"])) ∧
      ((follow (next twoDidsGone.store.historyPlan) twoWorkers
        (twoDidsGone.store.didHistory "a:b" twoKeys)).map fun c => c.shared.caller) =
          some (.returned (some [])) ∧
      ¬ DidHistoryExact twoDids.store twoDids.indexed "a:b" ∧
      ¬ DidHistoryExact twoDidsGone.store twoDidsGone.indexed "a:b" := by
  have hhistory : historyOf twoDids.indexed "a:b" = [bareDid 1 "a:b"] := by decide +kernel
  have hboth : ((follow (next twoDids.store.historyPlan) oneWorker
      (twoDids.store.didHistory "a:b" twoKeys)).map fun c => c.shared.caller) =
        some (.returned (some [bareDid 1 "a:b", bareDid 2 "c:d"])) := by decide +kernel
  have hnone : ((follow (next twoDidsGone.store.historyPlan) twoWorkers
      (twoDidsGone.store.didHistory "a:b" twoKeys)).map fun c => c.shared.caller) =
        some (.returned (some [])) := by decide +kernel
  have hcids : twoDids.store.historyCids = twoKeys.toFinset := by decide +kernel
  have hvisits : Visits twoDids.store twoKeys :=
    ⟨by decide, fun x => by rw [hcids, List.mem_toFinset]⟩
  have hvisits' : Visits twoDidsGone.store twoKeys := ⟨hvisits.nodup, hvisits.mem⟩
  have hhistory' : historyOf twoDidsGone.indexed "a:b" = [bareDid 1 "a:b"] := by decide +kernel
  refine ⟨hhistory, hboth, hnone, fun h => ?_, fun h => ?_⟩
  · obtain ⟨c, hfollow, hret⟩ := Option.map_eq_some_iff.mp hboth
    have hperm := (h _ hvisits).1 c _ (reach_of_follow _ hfollow) hret
    rw [hhistory] at hperm
    exact absurd hperm.length_eq (by decide)
  · obtain ⟨c, hfollow, hret⟩ := Option.map_eq_some_iff.mp hnone
    have hperm := (h _ hvisits').1 c _ (reach_of_follow _ hfollow) hret
    rw [hhistory'] at hperm
    exact absurd hperm.length_eq (by decide)

end

end Didem.Storage
