import Didem.Storage.Proof.Novelty

/-!
# A DID is added at most once

A `MemStore` accepts a transaction that adds a DID if `LookupDID` says `ErrNotFound`. The lookup
goes through the DID index to an object, and it says `ErrNotFound` in two cases: there is no entry,
or the entry **points at nothing**. Only the first means that the DID is new. So what stands behind
the rule that a DID is added once is an invariant of the index, that every entry points at a stored
object (`Pointed`).

Every operation keeps it, however it ends, and so does the copy a trial works on: indexing writes
the identifiers of transactions it has just read, genesis those it has just stored. The one
exception is `ApplyTx` called by itself, which writes whatever identifier it is given.
-/

set_option autoImplicit false

namespace Didem.Storage

open Lib

namespace MemStore

/-- **Every entry of the DID index points at a stored object.** -/
def Pointed (m : MemStore) : Prop := ∀ d cid, m.dids.lookup d = some cid → cid ∈ m.objects

/-! ## The operations keep it -/

/-- More objects, and the same index. -/
theorem Pointed.of_objects {m m' : MemStore} (hm : m.Pointed)
    (hobjects : ∀ cid ∈ m.objects, cid ∈ m'.objects) (hdids : m'.dids = m.dids) : m'.Pointed := by
  intro d cid hcid
  rw [hdids] at hcid
  exact hobjects cid (hm d cid hcid)

theorem mem_of_lookup {m : MemStore} {cid : Cid} {o : Obj} (h : m.objects.lookup cid = some o) :
    cid ∈ m.objects :=
  Finmap.lookup_isSome.mp (by rw [h]; rfl)

/-- Applying a stored transaction, however it ends. -/
theorem Pointed.applyTx {m : MemStore} (hm : m.Pointed) {id : TxID} (hid : id ∈ m.objects)
    (t : Tx) : (m.applyTx id t).2.Pointed := by
  rw [show m.applyTx id t = _ from applyTx_eq ⟨id, t⟩ m]
  split
  · intro d cid hcid
    simp only at hcid
    rw [Write.lookup_applyAll_eq_getLast] at hcid
    cases hlast : ((didWrites ⟨id, t⟩).filter fun w => w.key = d).getLast? with
    | none =>
      rw [hlast] at hcid
      exact hm d cid hcid
    | some w =>
      -- the entry it writes is its own identifier
      have hw := (mem_didWrites.mp (List.mem_of_mem_filter (List.mem_of_getLast? hlast))).2
      rw [hlast, Option.elim_some, hw, Option.some.injEq] at hcid
      exact hcid ▸ hid
  · exact hm

/-- Indexing stored transactions, however it ends. -/
theorem Pointed.applyTxs {m : MemStore} (hm : m.Pointed) (b : BlockID) {es : List TxEntry}
    (hes : ∀ e ∈ es, e.1 ∈ m.objects) : (m.applyTxs b es).2.Pointed := by
  induction es generalizing m with
  | nil => exact hm
  | cons e es ih =>
    have hput : Pointed { m with txbIndex := m.txbIndex.insert e.1 b } :=
      hm.of_objects (fun _ h => h) rfl
    have hfirst := hput.applyTx (hes e List.mem_cons_self) e.2
    rw [MemStore.applyTxs]
    split
    · rename_i m' h
      rw [h] at hfirst
      refine ih hfirst fun e' he' => ?_
      have hobjects : m'.objects = m.objects := by
        rw [applyTx_eq] at h
        split at h
        · rw [← (Prod.mk.inj h).2]
        · exact absurd (Prod.mk.inj h).1 (by simp)
      rw [hobjects]
      exact hes e' (List.mem_cons_of_mem e he')
    · rename_i r m' _ h
      rw [h] at hfirst
      exact hfirst

/-- A mark, however it ends: the transactions it indexes were read from the store. -/
theorem Pointed.markBlock {m : MemStore} (hm : m.Pointed) (ω : Runtime) (id : BlockID)
    (state : BlockState) : (m.markBlock ω id state).2.Pointed := by
  have hstate : Pointed { m with bState := m.bState.insert id state } :=
    hm.of_objects (fun _ h => h) rfl
  simp only [MemStore.markBlock]
  split
  · unfold indexBlockTx
    split
    · exact hstate
    · exact hstate
    · split
      · exact hstate
      · exact hstate
      · rename_i txs hall
        refine hstate.applyTxs id fun e he => ?_
        obtain ⟨t, ht⟩ := holdsTx_of_allTx hall
          (AList.mem_lookup_iff.mpr ((ω.order_perm _).mem_iff.mp he))
        exact mem_of_lookup ht
  · exact hstate

section

variable [Hash]

/-- What genesis collects it has stored. -/
theorem mem_putGenesis (ts : List Tx) (txs : TxMap) (m : MemStore)
    (htxs : ∀ c ∈ txs.keys, c ∈ m.objects) :
    (∀ c ∈ m.objects, c ∈ (putGenesis ts txs m).2.objects) ∧
      ∀ c ∈ (putGenesis ts txs m).1.keys, c ∈ (putGenesis ts txs m).2.objects := by
  induction ts generalizing txs m with
  | nil => exact ⟨fun _ h => h, htxs⟩
  | cons t ts ih =>
    have hgrow : ∀ c ∈ m.objects, c ∈ (m.putObj (.tx t)).2.objects :=
      fun c hc => Finmap.mem_insert.mpr (.inr hc)
    have hstored : ∀ c ∈ (txs.insert (Hash.sum (.tx t)) t).keys,
        c ∈ (m.putObj (.tx t)).2.objects := by
      intro c hc
      rcases (AList.mem_insert txs).mp (AList.mem_keys.mp hc) with rfl | hold
      · exact Finmap.mem_insert.mpr (.inl rfl)
      · exact hgrow c (htxs c (AList.mem_keys.mpr hold))
    obtain ⟨hobjects, hkeys⟩ := ih _ _ hstored
    exact ⟨fun c hc => hobjects c (hgrow c hc), hkeys⟩

/-- Genesis, however it ends. -/
theorem Pointed.applyGenesis {m : MemStore} (hm : m.Pointed) (ω : Runtime) (gen : GenesisInfo) :
    (m.applyGenesis ω gen).2.Pointed := by
  have hdids := congrArg dids (snd_putGenesis gen.txs ∅ { m with genesisApplied := true })
  obtain ⟨hobjects, hkeys⟩ :=
    mem_putGenesis gen.txs ∅ { m with genesisApplied := true } (by simp)
  rw [MemStore.applyGenesis]
  refine Pointed.applyTxs (hm.of_objects hobjects hdids) _ fun e he => ?_
  exact hkeys e.1 (List.mem_map_of_mem ((ω.order_perm _).mem_iff.mp he))

end

end MemStore

/-! ## Runs -/

/-- What can be done to a `MemStore`: a call, or going on with the copy a trial works on. -/
inductive MemCall where
  | call (k : StoreCall)
  | startTest

namespace MemCall

variable [Hash] [SigLib]

/-- The store it leaves, however it ends. -/
def run (m : MemStore) : MemCall → MemStore
  | .call k => k.run MemStore.blockIndex.arrive m
  | .startTest =>
    match m.startTest with
    | .ok trial => trial
    | _ => m

omit [Hash] [SigLib] in
/-- Objects are not lost, and `ApplyTx` is called with the identifier of one. -/
def Allowed (m : MemStore) : MemCall → Prop
  | .call (.applyTx id _) => id ∈ m.objects
  | .call (.arrive objects) => ∀ cid ∈ m.objects, cid ∈ objects
  | _ => True

/-- **One operation** keeps the entries pointed. -/
theorem pointed_run {m : MemStore} (hm : m.Pointed) {k : MemCall} (hk : Allowed m k) :
    (run m k).Pointed := by
  have hput : ∀ o : Obj, (m.putObj o).2.Pointed := fun o =>
    hm.of_objects (fun _ h => Finmap.mem_insert.mpr (.inr h)) rfl
  cases k with
  | startTest => exact hm.of_objects (fun _ h => h) rfl
  | call k =>
    cases k with
    | op ω o =>
      cases o with
      | putTx t => exact hput (.tx t)
      | putSet set => exact hput (marshalSet set)
      | putBlock b => exact hput (marshalBlock b)
      | applyGenesis gen => exact hm.applyGenesis ω gen
      | markBlock id state => exact hm.markBlock ω id state
      | updateLastApplied id => exact hm.of_objects (fun _ h => h) rfl
    | applyTx id t => exact hm.applyTx hk t
    | validate ω b isNewBlock =>
      have hrun : run m (.call (.validate ω b isNewBlock)) = m.unmarked b.id :=
        MemStore.snd_isBlockValid ω b isNewBlock m
      rw [hrun]
      exact hm.of_objects (fun _ h => h) rfl
    | arrive objects => exact hm.of_objects hk rfl

end MemCall

/-! ## The result -/

/-- The DID a transaction adds. -/
def addedDid (e : TxEntry) : Option String := if e.2.action = .add then didOf e else none

theorem addedDid_eq_some {e : TxEntry} {d : String} (h : addedDid e = some d) :
    e.2.action = .add ∧ e.2.type = .did ∧
      ∃ document, e.2.data = some (.did (some document)) ∧ document.id = d := by
  unfold addedDid didOf at h
  split at h
  · rename_i hadd
    split at h
    · rename_i document htype hdata
      exact ⟨hadd, htype, document, hdata, Option.some.inj h⟩
    · exact absurd h (by simp)
  · exact absurd h (by simp)

namespace MemStore

variable [Hash] [SigLib]

/-- Where entries point at objects, a DID that can be added has none. -/
theorem Pointed.lookup_of_added {m : MemStore} (hm : m.Pointed) {e : TxEntry} {d : String}
    (hvalid : (isTxValid m e.2).1 = .ok ()) (hd : addedDid e = some d) :
    m.dids.lookup d = none := by
  obtain ⟨hadd, htype, document, hdata, rfl⟩ := addedDid_eq_some hd
  obtain ⟨-, hdid⟩ := (isTxValid_did_eq_ok htype).mp hvalid
  obtain ⟨document', msg, hdata', hmsg, hdoc⟩ := checks_of_isDIDTxValid hdid
  obtain rfl : document = document' := by simpa [hdata] using hdata'
  rcases (isDIDTxValid_eq_ok hdata hmsg hdoc).mp hdid with ⟨-, hnew, -⟩ | ⟨hchanges, -⟩
  · cases hlookup : m.dids.lookup document.id with
    | none => rfl
    | some cid =>
      -- the entry has an object behind it, so the lookup says something else
      obtain ⟨o, ho⟩ := Option.isSome_iff_exists.mp (Finmap.lookup_isSome.mpr (hm _ _ hlookup))
      simp only [Store.lookupDID, lookupDID, hlookup, getObj, ho] at hnew
      cases hu : unmarshalDocument o <;> simp [hu, Outcome.mapErr] at hnew
  · rcases hchanges with h | h <;> exact absurd (hadd.symm.trans h) (by simp)

end MemStore

/-- **A block that is valid adds no DID twice and none that is there**, on every `MemStore` that its
own operations lead to. -/
theorem added_at_most_once [Hash] [SigLib] (ks : List MemCall)
    (hks : Along MemCall.run MemCall.Allowed {} ks) (ω : Runtime) (b : Block)
    (hvalid : (isBlockValid ω b true (ks.foldl MemCall.run {})).1 = .ok ()) :
    ∃ txs, (ks.foldl MemCall.run {}).allTx b = .ok txs ∧
      (∀ e ∈ txs.entries, ∀ e' ∈ txs.entries, e ≠ e' →
        ∀ d, addedDid e = some d → addedDid e' ≠ some d) ∧
      ∀ e ∈ txs.entries, ∀ d, addedDid e = some d →
        (ks.foldl MemCall.run {}).dids.lookup d = none := by
  have hpointed : (ks.foldl MemCall.run {}).Pointed :=
    Along.invariant (P := MemStore.Pointed) (fun m k hm hk => MemCall.pointed_run hm hk)
      (fun d cid hcid => absurd hcid (by simp)) hks
  obtain ⟨txs, hall, hacc, hpair⟩ := MemStore.isBlockValid_eq_ok.mp hvalid
  refine ⟨txs, hall, ?_, ?_⟩
  · intro e he e' he' hne d hd hd'
    have : Std.Symm fun e e' => ¬ SameDid e e' := ⟨fun _ _ h h' => h h'.symm⟩
    obtain ⟨-, htype, document, hdata, hid⟩ := addedDid_eq_some hd
    obtain ⟨-, htype', document', hdata', hid'⟩ := addedDid_eq_some hd'
    exact hpair.forall he he' hne
      ⟨htype, htype', document, document', hdata, hdata', hid.trans hid'.symm⟩
  · intro e he d hd
    exact hpointed.lookup_of_added (hacc e he).1 hd

/-! ### With and without an object behind the entry -/

section

open Storage.Sample

/-- A block that adds a DID is stored. -/
def addingCalls : List MemCall :=
  [.call (.op runtime (.putTx (didTx 1 .add "did:a:b" [107, 1]))),
    .call (.op runtime (.putSet (leaf (didTx 1 .add "did:a:b" [107, 1])))),
    .call (.op runtime (.putBlock (blockOf 1 (didTx 1 .add "did:a:b" [107, 1]))))]

/-- It is accepted, and a block that adds two more DIDs is stored. -/
def acceptingCalls : List MemCall :=
  let t := didTx 2 .add "did:a:c" [107, 2]
  let t' := didTx 3 .add "did:a:d" [107, 3]
  addingCalls ++
    [.call (.op runtime (.markBlock (blockId 1 (didTx 1 .add "did:a:b" [107, 1])) .validated)),
      .call (.op runtime (.markBlock (blockId 1 (didTx 1 .add "did:a:b" [107, 1])) .accepted)),
      .call (.op runtime (.putTx t)), .call (.op runtime (.putTx t')),
      .call (.op runtime (.putSet (leaf t))), .call (.op runtime (.putSet (leaf t'))),
      .call (.op runtime (.putSet (pairSet t t'))), .call (.op runtime (.putBlock (pairBlock t t')))]

/-- The first DID is in the index, and what the block adds is neither that one nor twice the same. -/
theorem first_add_is_new :
    let m := acceptingCalls.foldl MemCall.run {}
    m.dids.lookup "did:a:b" = some ⟨[1, 1]⟩ ∧
      ∃ txs, m.allTx (pairBlock (didTx 2 .add "did:a:c" [107, 2])
          (didTx 3 .add "did:a:d" [107, 3])) = .ok txs ∧
        (∀ e ∈ txs.entries, ∀ e' ∈ txs.entries, e ≠ e' →
          ∀ d, addedDid e = some d → addedDid e' ≠ some d) ∧
        ∀ e ∈ txs.entries, ∀ d, addedDid e = some d → m.dids.lookup d = none :=
  ⟨by decide, added_at_most_once acceptingCalls
    ⟨trivial, trivial, trivial, trivial, trivial, trivial, trivial, trivial, trivial, trivial,
      trivial, trivial⟩ runtime _ (by decide)⟩

/-- **`ApplyTx` with an identifier that nothing is stored under** makes an entry the validator does
not see: the DID is in the index, and a block that adds it is valid. -/
theorem unstored_entry_added_again :
    let m := (.call (.applyTx ⟨[7]⟩ (didTx 7 .add "did:a:b" [107, 7])) :: addingCalls).foldl
      MemCall.run {}
    m.dids.lookup "did:a:b" = some ⟨[7]⟩ ∧
      addedDid ⟨⟨[1, 1]⟩, didTx 1 .add "did:a:b" [107, 1]⟩ = some "did:a:b" ∧
      (m.allTx (blockOf 1 (didTx 1 .add "did:a:b" [107, 1]))).bind (fun txs => .ok txs.entries) =
        .ok [⟨⟨[1, 1]⟩, didTx 1 .add "did:a:b" [107, 1]⟩] ∧
      (isBlockValid runtime (blockOf 1 (didTx 1 .add "did:a:b" [107, 1])) true m).1 = .ok () := by
  decide

end
end Didem.Storage
