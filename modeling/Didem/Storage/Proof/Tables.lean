import Didem.Storage.Proof.Trial

/-!
# The tables of an `IPFSStorage`

All metadata of an `IPFSStorage` is in one map, and the first byte of a key says which table it is
in. Two things are needed of that over and over: keys of the same shape are equal only if they name
the same thing (`typedKey_inj`), and an operation writes only to the tables it is supposed to.

The second is one statement. Whatever becomes of it, `MarkBlock` is a log of writes: the state of
the block, then — if the block goes from validated to accepted — **writes of its own transactions**,
and the latest block (`view_markBlock`). Which table a write of a transaction is in can be read off
its key (`head_of_mem_entryWrites`).
-/

set_option autoImplicit false

namespace Didem.Storage

open Lib

/-! ## Keys -/

theorem stringBytes_injective : Function.Injective stringBytes := by
  intro a b h
  exact String.toByteArray_inj.mp (ByteArray.ext (Array.toList_inj.mp h))

theorem MetadataKeyType.byte_injective : Function.Injective MetadataKeyType.byte := by
  intro a b h
  cases a <;> cases b <;> first | rfl | exact absurd h (by decide)

theorem typedKey_singleton (kType : MetadataKeyType) (part : String) :
    typedKey kType [part] = kType.byte :: stringBytes part := by
  simp [typedKey]

@[simp] theorem typedKey_inj {kType kType' : MetadataKeyType} {a b : String} :
    typedKey kType [a] = typedKey kType' [b] ↔ kType = kType' ∧ a = b := by
  rw [typedKey_singleton, typedKey_singleton, List.cons.injEq,
    MetadataKeyType.byte_injective.eq_iff, stringBytes_injective.eq_iff]

/-- Keys of different tables are different. -/
theorem typedKey_ne (kType kType' : MetadataKeyType) (h : kType ≠ kType')
    (parts parts' : List String) :
    typedKey kType parts ≠ typedKey kType' parts' :=
  fun hkey => h (MetadataKeyType.byte_injective (List.cons.inj hkey).1)

@[simp] theorem nodeOfKey_typedKey (id : String) :
    IPFSStorage.nodeOfKey (typedKey .nodes [id]) = id := by
  have hutf : String.fromUTF8? ⟨id.toByteArray.data⟩ = some id := dif_pos id.isValidUTF8
  rw [IPFSStorage.nodeOfKey, typedKey_singleton, List.drop_succ_cons, List.drop_zero]
  simp [stringBytes, hutf]

@[simp] theorem IPFSStorage.head_typedKey (kType : MetadataKeyType) (parts : List String) :
    (typedKey kType parts).head? = some kType.byte := rfl

namespace IPFSStorage

@[simp] theorem view_metadataSet (key : Bytes) (value : MetaVal) (s : IPFSStorage) :
    (s.metadataSet key value).view = s.view.insert key value := by
  unfold metadataSet view
  cases s.pfTipApply with
  | none => rfl
  | some batch => simp [Write.applyAll_append, Write.apply]

/-- The two stores hold the same objects, and both or neither are in a trial. -/
def SameKind (s s' : IPFSStorage) : Prop :=
  s.objects = s'.objects ∧ s.pfTipApply.isSome = s'.pfTipApply.isSome

theorem sameKind_metadataSet (key : Bytes) (value : MetaVal) (s : IPFSStorage) :
    SameKind (s.metadataSet key value) s := by
  unfold metadataSet SameKind
  cases s.pfTipApply <;> exact ⟨rfl, rfl⟩

theorem SameKind.trans {s s' s'' : IPFSStorage} (h : SameKind s s') (h' : SameKind s' s'') :
    SameKind s s'' := ⟨h.1.trans h'.1, h.2.trans h'.2⟩

theorem SameKind.outside {s s' : IPFSStorage} (h : SameKind s s') (h' : s'.pfTipApply = none) :
    s.pfTipApply = none := by
  have hkind := h.2
  rw [h'] at hkind
  exact Option.isNone_iff_eq_none.mp (Option.isSome_eq_false_iff.mp hkind)

variable [CidText]

/-! ## Indexing -/

/-- However it ends, indexing a block changes neither the objects nor whether this is a trial. -/
theorem sameKind_indexBlock (ω : Runtime) (b : BlockID) (s : IPFSStorage) :
    SameKind (s.indexBlock ω b).2 s := by
  unfold indexBlock
  split
  · exact ⟨rfl, rfl⟩
  · exact ⟨rfl, rfl⟩
  · split
    · exact ⟨rfl, rfl⟩
    · exact ⟨rfl, rfl⟩
    · split
      · exact ⟨rfl, rfl⟩
      · split
        · rename_i htest
          exact ⟨rfl, by rw [htest]; rfl⟩
        · repeat' split
          all_goals exact ⟨rfl, rfl⟩

theorem sameKind_markBlock (ω : Runtime) (b : BlockID) (st : BlockState) (s : IPFSStorage) :
    SameKind (s.markBlock ω b st).2 s := by
  have hset := sameKind_metadataSet (typedKey .blockState [b.string]) (.state st) s
  have hindex := (sameKind_indexBlock ω b _).trans hset
  simp only [markBlock]
  split
  · split
    · rename_i s' hs'
      rw [hs'] at hindex
      exact (sameKind_metadataSet _ _ s').trans hindex
    · rename_i r s' _ hs'
      rw [hs'] at hindex
      exact hindex
  · exact hset

/-- What `indexBlock` writes for a transaction. -/
def entryWrites (b : BlockID) (e : TxEntry) : Batch :=
  ⟨typedKey .txBlock [e.1.string], some (.cid b)⟩ :: (applyTxTo e.1 e.2).2

/-- The loop succeeds only on transactions that apply, and then makes their writes. -/
theorem indexTxs_eq_ok {ω : Runtime} {inTest : Bool} {b : BlockID} {es : List TxEntry} {ws : Batch}
    (h : indexTxs ω inTest b es = (.ok (), ws)) :
    (∀ e ∈ es, (applyTxTo e.1 e.2).1 = .ok ()) ∧ ws = es.flatMap (entryWrites b) := by
  induction es generalizing ws with
  | nil => simpa [indexTxs, eq_comm] using h
  | cons e es ih =>
    rw [indexTxs] at h
    cases happ : applyTxTo e.1 e.2 with
    | mk r ws' =>
      cases r with
      | panic => simp [happ] at h
      | err err => simp [happ] at h
      | ok u =>
        simp only [happ] at h
        split at h
        · exact absurd h (by simp)
        · cases hrest : indexTxs ω inTest b es with
          | mk r rest =>
            simp only [hrest, Prod.mk.injEq] at h
            obtain ⟨rfl, rfl⟩ := h
            obtain ⟨hall, hws⟩ := ih hrest
            refine ⟨?_, ?_⟩
            · rw [List.forall_mem_cons]
              exact ⟨by rw [happ], hall⟩
            · rw [List.flatMap_cons, ← hws, entryWrites, happ]

/-- Indexing a block succeeds only on transactions that apply, and then makes their writes. -/
theorem indexBlock_eq_ok {ω : Runtime} {b : BlockID} {s s' : IPFSStorage}
    (h : s.indexBlock ω b = (.ok (), s')) : ∃ block txs, s.getBlock b = .ok block ∧
      s.allTx block = .ok txs ∧ (∀ e ∈ txs.entries, (applyTxTo e.1 e.2).1 = .ok ()) ∧
      SameKind s' s ∧
      s'.view = Write.applyAll s.view ((ω.order txs.entries).flatMap (entryWrites b)) := by
  unfold indexBlock at h
  cases hblock : s.getBlock b with
  | panic => simp [hblock] at h
  | err e => simp [hblock] at h
  | ok block =>
    cases hall : s.allTx block with
    | panic => simp [hblock, hall] at h
    | err e => simp [hblock, hall] at h
    | ok txs =>
      simp only [hblock, hall] at h
      have hmem : ∀ e, e ∈ ω.order txs.entries ↔ e ∈ txs.entries :=
        fun e => (ω.order_perm txs.entries).mem_iff
      split at h
      · exact absurd h (by simp)
      · cases htest : s.pfTipApply with
        | some batch =>
          cases hindex : indexTxs ω true b (ω.order txs.entries) with
          | mk r ws =>
            simp only [htest, hindex, Prod.mk.injEq] at h
            obtain ⟨rfl, rfl⟩ := h
            obtain ⟨happ, rfl⟩ := indexTxs_eq_ok hindex
            refine ⟨block, txs, rfl, hall, fun e he => happ e ((hmem e).mpr he), ?_, ?_⟩
            · exact ⟨rfl, by rw [htest]; rfl⟩
            · simp [view, htest, Write.applyAll_append]
        | none =>
          simp only [htest] at h
          split at h
          · rename_i ws hindex
            split at h
            · rw [Prod.mk.injEq] at h
              obtain ⟨-, rfl⟩ := h
              obtain ⟨happ, rfl⟩ := indexTxs_eq_ok hindex
              refine ⟨block, txs, rfl, hall, fun e he => happ e ((hmem e).mpr he),
                ⟨rfl, htest ▸ rfl⟩, ?_⟩
              simp [view, htest]
            · exact absurd h (by simp)
          · rename_i hne _
            rw [Prod.mk.injEq] at h
            exact (hne h.1).elim

/-- **Accepting a validated block**: what it takes to succeed, and what it leaves to be seen. -/
theorem markBlock_accepted_eq_ok {ω : Runtime} {b : BlockID} {s s' : IPFSStorage}
    (hstate : s.stateOf b = .validated) (h : s.markBlock ω b .accepted = (.ok (), s')) :
    ∃ block txs, s.getBlock b = .ok block ∧ s.allTx block = .ok txs ∧
      (∀ e ∈ txs.entries, (applyTxTo e.1 e.2).1 = .ok ()) ∧ SameKind s' s ∧
      s'.view = (Write.applyAll (s.view.insert (typedKey .blockState [b.string]) (.state .accepted))
        ((ω.order txs.entries).flatMap (entryWrites b))).insert (typedKey .latestBlock [])
          (.cid b) := by
  rw [markBlock, hstate] at h
  simp only [and_self, if_true] at h
  have hkind := sameKind_metadataSet (typedKey .blockState [b.string]) (.state .accepted) s
  split at h
  · rename_i s₁ hindex
    rw [Prod.mk.injEq] at h
    obtain ⟨-, rfl⟩ := h
    obtain ⟨block, txs, hblock, hall, happ, hkind₁, hview⟩ := indexBlock_eq_ok hindex
    have hkind₂ := sameKind_metadataSet (typedKey .latestBlock []) (.cid b) s₁
    refine ⟨block, txs, ?_, ?_, happ, ?_, ?_⟩
    · rw [← hblock, getBlock_congr hkind.1]
    · rw [← hall, allTx_congr hkind.1]
    · exact ⟨hkind₂.1.trans (hkind₁.1.trans hkind.1), hkind₂.2.trans (hkind₁.2.trans hkind.2)⟩
    · rw [view_metadataSet, hview, view_metadataSet]
  · rename_i hne _
    rw [Prod.mk.injEq] at h
    exact (hne (Outcome.mapErr_eq_ok.mp h.1)).elim

/-- Outside a trial a block is indexed as a whole or not at all. -/
theorem indexBlock_of_ne_ok {ω : Runtime} {b : BlockID} {s : IPFSStorage}
    (htest : s.pfTipApply = none) (h : (s.indexBlock ω b).1 ≠ .ok ()) :
    (s.indexBlock ω b).2 = s := by
  unfold indexBlock at h ⊢
  split
  · rfl
  · rfl
  · split
    · rfl
    · rfl
    · split
      · rfl
      · simp_all only
        split
        · split
          · simp_all
          · rfl
        · rfl

/-- So a mark that fails there has recorded the state of its block and nothing else. -/
theorem markBlock_of_ne_ok {ω : Runtime} {b : BlockID} {st : BlockState} {s : IPFSStorage}
    (htest : s.pfTipApply = none) (h : (s.markBlock ω b st).1 ≠ .ok ()) :
    (s.markBlock ω b st).2 = s.metadataSet (typedKey .blockState [b.string]) (.state st) := by
  have htest' : (s.metadataSet (typedKey .blockState [b.string]) (.state st)).pfTipApply =
      none := by
    simp [metadataSet, htest]
  simp only [markBlock] at h ⊢
  split
  · rename_i hindexed
    rw [if_pos hindexed] at h
    split
    · rename_i hs'
      rw [hs'] at h
      exact absurd rfl h
    · rename_i hne hs'
      rw [← indexBlock_of_ne_ok htest' (by rw [hs']; exact hne), hs']
  · rfl

/-! ## The log of a mark -/

/-- The table a write of a transaction is in. -/
theorem head_of_mem_entryWrites {b : BlockID} {e : TxEntry} {w : Write Bytes MetaVal}
    (h : w ∈ entryWrites b e) :
    w.key.head? = some MetadataKeyType.txBlock.byte ∨
      (e.2.type = .did ∧ (w.key.head? = some MetadataKeyType.did.byte ∨
        w.key.head? = some MetadataKeyType.didHistory.byte)) ∨
      (e.2.type = .node ∧ w.key.head? = some MetadataKeyType.nodes.byte) := by
  rcases List.mem_cons.mp h with rfl | h
  · exact .inl (head_typedKey .txBlock _)
  obtain ⟨id, ⟨version, ts, sender, type, action, data, signature⟩⟩ := e
  cases type with
  | did =>
    rcases data with _ | ((_ | document) | n | d) <;> cases action <;>
      simp [applyTxTo, indexTxDID] at h <;> rcases h with rfl | rfl <;> simp
  | vc => simp [applyTxTo] at h
  | node =>
    rcases data with _ | (d | n | d) <;> cases action <;>
      simp [applyTxTo, indexTxNode] at h <;> simp [h]
  | other n => simp [applyTxTo] at h

/-- However it ends, the loop makes writes of its transactions only. -/
theorem mem_indexTxs {ω : Runtime} {inTest : Bool} {b : BlockID} {es : List TxEntry}
    {w : Write Bytes MetaVal} (h : w ∈ (indexTxs ω inTest b es).2) :
    ∃ e ∈ es, w ∈ entryWrites b e := by
  induction es with
  | nil => simp [indexTxs] at h
  | cons e es ih =>
    have hfirst : w ∈ entryWrites b e → ∃ e' ∈ e :: es, w ∈ entryWrites b e' :=
      fun hw => ⟨e, List.mem_cons_self, hw⟩
    rw [indexTxs] at h
    unfold entryWrites at hfirst
    cases happ : applyTxTo e.1 e.2 with
    | mk r ws =>
      rw [happ] at h hfirst
      cases r with
      | panic => exact hfirst h
      | err err => exact hfirst h
      | ok u =>
        simp only at h
        split at h
        · exact hfirst h
        · rcases List.mem_append.mp h with h | h
          · exact hfirst h
          · obtain ⟨e', he', hw⟩ := ih h
            exact ⟨e', List.mem_cons_of_mem e he', hw⟩

/-- `w` is a write of a transaction of the block stored under `b`. -/
def Indexing (s : IPFSStorage) (b : BlockID) (w : Write Bytes MetaVal) : Prop :=
  ∃ block txs e, s.getBlock b = .ok block ∧ s.allTx block = .ok txs ∧ e ∈ txs.entries ∧
    w ∈ entryWrites b e

/-- However it ends, indexing a block makes writes of its transactions only. -/
theorem view_indexBlock (ω : Runtime) (b : BlockID) (s : IPFSStorage) :
    ∃ ws, (∀ w ∈ ws, s.Indexing b w) ∧ (s.indexBlock ω b).2.view = Write.applyAll s.view ws := by
  unfold indexBlock
  cases hblock : s.getBlock b with
  | panic => exact ⟨[], by simp, rfl⟩
  | err e => exact ⟨[], by simp, rfl⟩
  | ok block =>
    cases hall : s.allTx block with
    | panic => exact ⟨[], by simp, by simp [hall]⟩
    | err e => exact ⟨[], by simp, by simp [hall]⟩
    | ok txs =>
      have hindexing : ∀ inTest, ∀ w ∈ (indexTxs ω inTest b (ω.order txs.entries)).2,
          s.Indexing b w := by
        intro inTest w hw
        obtain ⟨e, he, hwe⟩ := mem_indexTxs hw
        exact ⟨block, txs, e, hblock, hall, (ω.order_perm txs.entries).mem_iff.mp he, hwe⟩
      simp only [hall]
      split
      · exact ⟨[], by simp, rfl⟩
      · cases htest : s.pfTipApply with
        | some batch =>
          refine ⟨_, hindexing true, ?_⟩
          simp [view, htest, Write.applyAll_append]
        | none =>
          simp only
          split
          · rename_i ws hws
            split
            · refine ⟨ws, fun w hw => hindexing false w (by rw [hws]; exact hw), ?_⟩
              simp [view, htest]
            · exact ⟨[], by simp, rfl⟩
          · exact ⟨[], by simp, rfl⟩

/-- **A mark is a log**: the state of the block, and on the way from validated to accepted the
writes of its transactions and the latest block. -/
theorem view_markBlock (ω : Runtime) (b : BlockID) (st : BlockState) (s : IPFSStorage) :
    ∃ ws, (∀ w ∈ ws, (s.stateOf b = .validated ∧ st = .accepted) ∧
        (s.Indexing b w ∨ w = ⟨typedKey .latestBlock [], some (.cid b)⟩)) ∧
      (s.markBlock ω b st).2.view = Write.applyAll
        (s.view.insert (typedKey .blockState [b.string]) (.state st)) ws := by
  have hview := view_metadataSet (typedKey .blockState [b.string]) (.state st) s
  have hkind := sameKind_metadataSet (typedKey .blockState [b.string]) (.state st) s
  simp only [markBlock]
  generalize s.metadataSet (typedKey .blockState [b.string]) (.state st) = s₁ at hview hkind
  split
  · rename_i hindexed
    obtain ⟨ws, hws, hindex⟩ := view_indexBlock ω b s₁
    rw [hview] at hindex
    have hmine : ∀ w ∈ ws, s.Indexing b w := by
      intro w hw
      obtain ⟨block, txs, e, hblock, hall, he, hwe⟩ := hws w hw
      rw [getBlock_congr hkind.1] at hblock
      rw [allTx_congr hkind.1] at hall
      exact ⟨block, txs, e, hblock, hall, he, hwe⟩
    split
    · rename_i s₂ hs₂
      rw [hs₂] at hindex
      refine ⟨ws ++ [⟨typedKey .latestBlock [], some (.cid b)⟩], ?_, ?_⟩
      · intro w hw
        rcases List.mem_append.mp hw with hw | hw
        · exact ⟨hindexed, .inl (hmine w hw)⟩
        · exact ⟨hindexed, .inr (List.mem_singleton.mp hw)⟩
      · rw [view_metadataSet, hindex, Write.applyAll_append]
        rfl
    · rename_i r s₂ _ hs₂
      rw [hs₂] at hindex
      exact ⟨ws, fun w hw => ⟨hindexed, .inl (hmine w hw)⟩, hindex⟩
  · exact ⟨[], by simp, hview⟩

/-- What a mark leaves alone: the tables it does not write, and the states of other blocks. -/
theorem lookup_markBlock (ω : Runtime) (b : BlockID) (st : BlockState) (s : IPFSStorage)
    {key : Bytes} (hkey : key.head? ∉ [MetadataKeyType.txBlock, .did, .didHistory, .nodes,
      .latestBlock].map fun kType => some kType.byte) :
    (s.markBlock ω b st).2.view.lookup key =
      (s.view.insert (typedKey .blockState [b.string]) (.state st)).lookup key := by
  obtain ⟨ws, hws, hview⟩ := view_markBlock ω b st s
  rw [hview]
  refine Write.lookup_applyAll_of_notMem ?_ _
  rintro w hw rfl
  rcases (hws w hw).2 with ⟨block, txs, e, -, -, -, hwe⟩ | rfl
  · rcases head_of_mem_entryWrites hwe with h | ⟨-, h | h⟩ | ⟨-, h⟩ <;> simp [h] at hkey
  · simp at hkey

/-- A mark records the state of its block and of no other. -/
theorem stateOf_markBlock (ω : Runtime) (b : BlockID) (st : BlockState) (s : IPFSStorage) :
    (s.markBlock ω b st).2.stateOf = Function.update s.stateOf b st := by
  funext id
  rw [stateOf, metadataGet, lookup_markBlock ω b st s (by simp [MetadataKeyType.byte])]
  by_cases hid : id = b
  · rw [hid, Finmap.lookup_insert, Function.update_self]
    rfl
  · rw [Finmap.lookup_insert_of_ne _ (by simpa [Cid.string_inj] using hid),
      Function.update_of_ne hid]
    rfl

end IPFSStorage
end Didem.Storage
