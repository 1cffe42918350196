import Didem.Storage.Proof.BlockStates

/-!
# The node index is fixed by genesis

Who may propose and how many votes make a quorum is read off the node index, and the chain is not
supposed to change it: `isNodeTxValid` supports no action, so a block with a node transaction does
not pass validation.

Validation and indexing are far apart, though. A block is validated on a copy of the store, the
verdict reaches the store as a mark, and the transactions are read again when the block goes from
validated to accepted. What ties the ends together is that everything in between is about
**content**: the block that is accepted has the transaction root of one that passed, and what stands
under a root does not change. `Vetted` is the invariant — a block recorded as validated has no node
transaction — and it is enough for any run of validations and marks, whatever the blocks and the
order in which their transactions are visited. It cannot be left out: a mark is not checked, and a
block that was recorded as validated by hand is accepted with its nodes.
-/

set_option autoImplicit false

namespace Didem.Storage

open Lib

section

variable {S : Type} [Store S]

/-- None of the transactions of a block is a node transaction. -/
def NoNodeTx (s : S) (b : Block) : Prop :=
  ∀ txs, Store.allTx s b = .ok txs → ∀ e ∈ txs.entries, e.2.type ≠ .node

/-- Every block recorded as validated is free of node transactions. -/
def Vetted (stateOf : S → BlockID → BlockState) (s : S) : Prop :=
  ∀ id b, stateOf s id = .validated → Store.getBlock s id = .ok b → NoNodeTx s b

/-- The node index reads the same in both stores. -/
def SameNodes (s s' : S) : Prop :=
  Store.nodes s' = Store.nodes s ∧ ∀ id, Store.node s' id = Store.node s id

theorem SameNodes.refl (s : S) : SameNodes s s := ⟨rfl, fun _ => rfl⟩

theorem SameNodes.trans {s s' s'' : S} (h : SameNodes s s') (h' : SameNodes s' s'') :
    SameNodes s s'' := ⟨h'.1.trans h.1, fun id => (h'.2 id).trans (h.2 id)⟩

variable [SigLib]

/-! ## What passes validation -/

theorem type_ne_node_of_isTxValid {s : S} {t : Tx} (h : (isTxValid s t).1 = .ok ()) :
    t.type ≠ .node := by
  intro htype
  simp only [isTxValid, htype, isNodeTxValid] at h
  split_ifs at h

/-- A turn of the loop that goes on has validated its transaction. -/
theorem isTxValid_of_tryTx {isNewBlock : Bool} {s s' : S} {id : TxID} {t : Tx}
    (h : tryTx isNewBlock s id t = (.ok (), s')) : (isTxValid s t).1 = .ok () := by
  unfold tryTx at h
  cases hvalid : isTxValid s t with
  | mk r t' =>
    cases r with
    | ok u => rfl
    | err e => simp [hvalid] at h
    | panic => simp [hvalid] at h

/-- A trial that accepts a list has no node transaction in it. -/
theorem type_ne_node_of_tryTxs {isNewBlock : Bool} {es : List TxEntry} {s : S}
    (h : (tryTxs isNewBlock es s).1 = .ok ()) : ∀ e ∈ es, e.2.type ≠ .node := by
  induction es generalizing s with
  | nil => simp
  | cons e es ih =>
    rw [tryTxs] at h
    split at h
    · rename_i s' hs'
      rw [List.forall_mem_cons]
      exact ⟨type_ne_node_of_isTxValid (isTxValid_of_tryTx hs'), ih h⟩
    · rename_i hne
      exact (hne (tryTx isNewBlock s e.1 e.2).2 (Prod.ext h rfl)).elim

/-! ## Sessions -/

/-- A store in use, and the blocks its validations have accepted so far. -/
structure Session (S : Type) where
  store : S
  passed : List Block

namespace Session

def step (σ : Session S) (c : BlockCall) : Session S where
  store := c.run σ.store
  passed :=
    match c with
    | .validate ω b isNewBlock =>
      if (isBlockValid ω b isNewBlock σ.store).1 = .ok () then b :: σ.passed else σ.passed
    | _ => σ.passed

/-- A block is marked validated only if it passed: what the store has under the identifier are the
transactions of a block that was accepted. The other calls are free. -/
def Allowed (σ : Session S) : BlockCall → Prop
  | .markValidated _ id =>
    ∃ b ∈ σ.passed, ∀ b', Store.getBlock σ.store id = .ok b' → b'.txRoot = b.txRoot
  | _ => True

end Session

/-- What the argument needs of a store: blocks and their transactions are a matter of content, a
validation lets no node transaction pass, and only the acceptance of a validated block that has one
changes the node index. -/
structure NodeKeeper (stateOf : S → BlockID → BlockState) : Prop where
  stateOf_run : ∀ (s : S) (c : BlockCall), stateOf (c.run s) = c.record (stateOf s)
  getBlock_run : ∀ (s : S) (c : BlockCall), Store.getBlock (c.run s) = Store.getBlock s
  allTx_run : ∀ (s : S) (c : BlockCall), Store.allTx (c.run s) = Store.allTx s
  allTx_root : ∀ (s : S) (b b' : Block), b.txRoot = b'.txRoot → Store.allTx s b = Store.allTx s b'
  noNodeTx_of_isBlockValid : ∀ (ω : Runtime) (b : Block) (isNewBlock : Bool) (s : S),
    (isBlockValid ω b isNewBlock s).1 = .ok () → NoNodeTx s b
  sameNodes_run : ∀ (s : S) (c : BlockCall), (∀ ω id, c = .accept ω id → stateOf s id = .validated →
    ∀ b, Store.getBlock s id = .ok b → NoNodeTx s b) → SameNodes s (c.run s)

namespace NodeKeeper

variable {stateOf : S → BlockID → BlockState}

theorem noNodeTx_run (hkeep : NodeKeeper stateOf) {s : S} {c : BlockCall} {b : Block}
    (h : NoNodeTx s b) : NoNodeTx (c.run s) b := by
  unfold NoNodeTx
  rw [hkeep.allTx_run]
  exact h

/-- **One call**: what is recorded as validated stays free of node transactions. -/
theorem vetted_run (hkeep : NodeKeeper stateOf) {s : S} {c : BlockCall} (hs : Vetted stateOf s)
    (hc : ∀ ω id b, c = .markValidated ω id → Store.getBlock s id = .ok b → NoNodeTx s b) :
    Vetted stateOf (c.run s) := by
  intro id b hstate hblock
  rw [hkeep.getBlock_run] at hblock
  refine hkeep.noNodeTx_run ?_
  rw [hkeep.stateOf_run] at hstate
  -- the state is an old one, or the one this call has written
  have hold : ∀ id' new, Function.update (stateOf s) id' new id = .validated →
      (id = id' → new ≠ .validated) → NoNodeTx s b := by
    intro id' new hupdate hnew
    by_cases hid : id = id'
    · rw [hid, Function.update_self] at hupdate
      exact absurd hupdate (hnew hid)
    · rw [Function.update_of_ne hid] at hupdate
      exact hs id b hupdate hblock
  cases c with
  | validate ω b' isNewBlock => exact hold b'.id .unvalidated hstate (by simp)
  | accept ω id' => exact hold id' .accepted hstate (by simp)
  | markValidated ω id' =>
    by_cases hid : id = id'
    · subst hid
      exact hc ω id b rfl hblock
    · exact hold id' .validated hstate fun h => absurd h hid

/-- **A whole run**: the node index reads as it did at the start. -/
theorem sameNodes_foldl (hkeep : NodeKeeper stateOf) {s : S} {cs : List BlockCall}
    (hs : Vetted stateOf s) (hcs : Along Session.step Session.Allowed ⟨s, []⟩ cs) :
    SameNodes s (cs.foldl Session.step ⟨s, []⟩).store := by
  refine (Along.invariant (P := fun σ => (∀ b ∈ σ.passed, NoNodeTx σ.store b) ∧
    Vetted stateOf σ.store ∧ SameNodes s σ.store) ?_ ⟨by simp, hs, .refl s⟩ hcs).2.2
  rintro ⟨s', passed⟩ c ⟨hpassed, hvetted, hsame⟩ hallowed
  refine ⟨?_, hkeep.vetted_run hvetted ?_, hsame.trans (hkeep.sameNodes_run s' c ?_)⟩
  · intro b hb
    refine hkeep.noNodeTx_run ?_
    cases c with
    | validate ω b' isNewBlock =>
      by_cases hvalid : (isBlockValid ω b' isNewBlock s').1 = .ok ()
      · simp only [Session.step, if_pos hvalid] at hb
        rcases List.mem_cons.mp hb with rfl | hb
        · exact hkeep.noNodeTx_of_isBlockValid ω b isNewBlock s' hvalid
        · exact hpassed b hb
      · simp only [Session.step, if_neg hvalid] at hb
        exact hpassed b hb
    | markValidated ω id => exact hpassed b hb
    | accept ω id => exact hpassed b hb
  · rintro ω id b rfl hblock
    obtain ⟨b', hb', hroot⟩ := hallowed
    intro txs hall
    rw [hkeep.allTx_root s' b b' (hroot b hblock)] at hall
    exact hpassed b' hb' txs hall
  · rintro ω id - hstate b hblock
    exact hvetted id b hstate hblock

end NodeKeeper
end

/-! ## `MemStore` -/

namespace MemStore

theorem nodes_applyTxs (b : BlockID) {es : List TxEntry} (h : ∀ e ∈ es, e.2.type ≠ .node)
    (m : MemStore) : (applyTxs b es m).2.nodes = m.nodes := by
  induction es generalizing m with
  | nil => rfl
  | cons e es ih =>
    rw [List.forall_mem_cons] at h
    have hnone : nodeWrites e = [] := by
      unfold nodeWrites
      split <;> simp_all
    rw [applyTxs, applyTx_eq]
    by_cases he : applicable e
    · rw [if_pos he]
      simp only [hnone, Write.applyAll_nil]
      exact ih h.2 _
    · rw [if_neg he]

/-- Accepting a block without node transactions leaves the node index alone. -/
theorem nodes_markBlock [Hash] {ω : Runtime} {id : BlockID} {st : BlockState} {m : MemStore}
    (h : st = .accepted → m.stateOf id = .validated → ∀ b, m.getBlock id = .ok b → NoNodeTx m b) :
    (m.markBlock ω id st).2.nodes = m.nodes := by
  simp only [markBlock]
  split
  · rename_i hindexed
    unfold indexBlockTx
    split
    · rfl
    · rfl
    · rename_i b hblock
      split
      · rfl
      · rfl
      · rename_i txs hall
        refine nodes_applyTxs id ?_ _
        intro e he
        exact h hindexed.2 hindexed.1 b hblock txs hall e ((ω.order_perm _).mem_iff.mp he)
  · rfl

variable [Hash] [SigLib]

theorem objects_run (m : MemStore) (c : BlockCall) : (c.run m).objects = m.objects := by
  cases c with
  | validate ω b isNewBlock =>
    rw [BlockCall.run, snd_isBlockValid]
    rfl
  | markValidated ω id => exact objects_markBlock ω id .validated m
  | accept ω id => exact objects_markBlock ω id .accepted m

theorem noNodeTx_of_isBlockValid (ω : Runtime) (b : Block) (isNewBlock : Bool) (m : MemStore)
    (h : (isBlockValid ω b isNewBlock m).1 = .ok ()) : NoNodeTx m b := by
  intro txs hall e he
  have hall' : m.allTx b = .ok txs := hall
  rw [isBlockValid_eq, hall'] at h
  exact type_ne_node_of_tryTxs h e ((ω.order_perm _).mem_iff.mpr he)

theorem nodeKeeper : NodeKeeper MemStore.stateOf where
  stateOf_run := records.stateOf_run
  getBlock_run m c := getBlock_congr (objects_run m c)
  allTx_run m c := allTx_congr (objects_run m c)
  allTx_root m b b' h := by simp only [Store.allTx, allTx, h]
  noNodeTx_of_isBlockValid := noNodeTx_of_isBlockValid
  sameNodes_run m c h := by
    have hnodes : (c.run m).nodes = m.nodes := by
      cases c with
      | validate ω b isNewBlock =>
        rw [BlockCall.run, snd_isBlockValid]
        rfl
      | markValidated ω id => exact nodes_markBlock (by simp)
      | accept ω id => exact nodes_markBlock fun _ => h ω id rfl
    constructor
    · simp only [Store.nodes, nodesList, hnodes]
    · intro id
      simp only [Store.node, node, hnodes, objects_run]

end MemStore

/-! ## `IPFSStorage` -/

namespace IPFSStorage

/-- The node index is what is seen of its table, and the objects. -/
theorem sameNodes_of_lookup [CidText] [Hash] [SigLib] {s s' : IPFSStorage}
    (hobjects : s'.objects = s.objects)
    (h : ∀ key : Bytes, key.head? = some MetadataKeyType.nodes.byte →
      s'.view.lookup key = s.view.lookup key) : SameNodes s s' := by
  constructor
  · have hkeys : (s'.view.keys.filter fun key => key.head? = some MetadataKeyType.nodes.byte) =
        s.view.keys.filter fun key => key.head? = some MetadataKeyType.nodes.byte := by
      ext key
      simp only [Finset.mem_filter, Finmap.mem_keys, ← Finmap.lookup_isSome]
      refine and_congr_left fun hkey => ?_
      rw [h key hkey]
    simp only [Store.nodes, nodes, hkeys]
  · intro id
    have hget : s'.metadataGet (typedKey .nodes [id]) = s.metadataGet (typedKey .nodes [id]) :=
      h _ (head_typedKey .nodes _)
    have htx : s'.getTx = s.getTx := by
      funext c
      simp only [getTx, getRaw, hobjects]
    simp only [Store.node, node, hget, htx]

variable [CidText] [Hash] [SigLib]

theorem objects_run (s : IPFSStorage) (c : BlockCall) : (c.run s).objects = s.objects := by
  cases c with
  | validate ω b isNewBlock =>
    rw [BlockCall.run, snd_isBlockValid]
    exact (sameKind_markBlock ω b.id .unvalidated s).1
  | markValidated ω id => exact (sameKind_markBlock ω id .validated s).1
  | accept ω id => exact (sameKind_markBlock ω id .accepted s).1

/-- Accepting a block without node transactions leaves the node index alone. -/
theorem sameNodes_markBlock {ω : Runtime} {id : BlockID} {st : BlockState} {s : IPFSStorage}
    (h : st = .accepted → s.stateOf id = .validated → ∀ b, s.getBlock id = .ok b → NoNodeTx s b) :
    SameNodes s (s.markBlock ω id st).2 := by
  refine sameNodes_of_lookup (sameKind_markBlock ω id st s).1 ?_
  intro key hkey
  obtain ⟨ws, hws, hview⟩ := view_markBlock ω id st s
  rw [hview, Write.lookup_applyAll_of_notMem, Finmap.lookup_insert_of_ne]
  · rintro rfl
    exact absurd hkey (by simp [MetadataKeyType.byte])
  · rintro w hw rfl
    obtain ⟨⟨hstate, hst⟩, ⟨block, txs, e, hblock, hall, he, hwe⟩ | rfl⟩ := hws w hw
    · -- only a node transaction writes there
      have hnode := h hst hstate block hblock txs hall e he
      rcases head_of_mem_entryWrites hwe with hw' | ⟨-, hw' | hw'⟩ | ⟨htype, -⟩
      · exact absurd (hw'.symm.trans hkey) (by decide)
      · exact absurd (hw'.symm.trans hkey) (by decide)
      · exact absurd (hw'.symm.trans hkey) (by decide)
      · exact hnode htype
    · exact absurd hkey (by simp [MetadataKeyType.byte])

theorem nodeKeeper : NodeKeeper IPFSStorage.stateOf where
  stateOf_run := records.stateOf_run
  getBlock_run s c := getBlock_congr (objects_run s c)
  allTx_run s c := allTx_congr (objects_run s c)
  allTx_root s b b' h := by simp only [Store.allTx, allTx, h]
  noNodeTx_of_isBlockValid ω b isNewBlock s h := absurd h (isBlockValid_ne_ok ω b isNewBlock s)
  sameNodes_run s c h := by
    cases c with
    | validate ω b isNewBlock =>
      rw [BlockCall.run, snd_isBlockValid]
      exact sameNodes_markBlock (by simp)
    | markValidated ω id => exact sameNodes_markBlock (by simp)
    | accept ω id => exact sameNodes_markBlock fun _ => h ω id rfl

end IPFSStorage

/-! ## Both stores -/

/-- **The chain does not change the node index**: no block with a node transaction passes
validation, and in any run of validations and marks, in which only blocks that passed are marked
validated, the node index reads as it did at the start. -/
theorem nodes_fixed_by_genesis [CidText] [Hash] [SigLib] :
    (∀ (ω : Runtime) (b : Block) (isNewBlock : Bool) (m : MemStore),
      (isBlockValid ω b isNewBlock m).1 = .ok () → NoNodeTx m b) ∧
    (∀ (ω : Runtime) (b : Block) (isNewBlock : Bool) (s : IPFSStorage),
      (isBlockValid ω b isNewBlock s).1 = .ok () → NoNodeTx s b) ∧
    (∀ (m : MemStore) (cs : List BlockCall), Vetted MemStore.stateOf m →
      Along Session.step Session.Allowed ⟨m, []⟩ cs →
      SameNodes m (cs.foldl Session.step ⟨m, []⟩).store) ∧
    ∀ (s : IPFSStorage) (cs : List BlockCall), Vetted IPFSStorage.stateOf s →
      Along Session.step Session.Allowed ⟨s, []⟩ cs →
      SameNodes s (cs.foldl Session.step ⟨s, []⟩).store :=
  ⟨MemStore.nodeKeeper.noNodeTx_of_isBlockValid, IPFSStorage.nodeKeeper.noNodeTx_of_isBlockValid,
    fun _ _ => MemStore.nodeKeeper.sameNodes_foldl,
    fun _ _ => IPFSStorage.nodeKeeper.sameNodes_foldl⟩

section

open Storage.Sample

/-- A block that passes, is marked validated and accepted. -/
def vettedRun : List BlockCall :=
  [.validate runtime (blockOf 1 (vcTx 1)) true, .markValidated runtime (blockId 1 (vcTx 1)),
    .accept runtime (blockId 1 (vcTx 1))]

/-- Its transaction is indexed, and the node index reads as before. -/
theorem vettedRun_sameNodes :
    let m := putBlockOf 1 (vcTx 1) {}
    let m' := (vettedRun.foldl Session.step ⟨m, []⟩).store
    Store.getTxBlock m' ⟨[1, 1]⟩ = .ok (blockOf 1 (vcTx 1)) ∧ SameNodes m m' := by
  refine ⟨by decide, nodes_fixed_by_genesis.2.2.1 _ _ ?_ ⟨trivial, ?_, trivial, trivial⟩⟩
  · intro id b hstate
    exact absurd hstate (by simp [MemStore.stateOf, putBlockOf, MemStore.putTx, MemStore.putSet,
      MemStore.putBlock, MemStore.putObj])
  · have hpassed : (Session.step ⟨putBlockOf 1 (vcTx 1) {}, []⟩
        (.validate runtime (blockOf 1 (vcTx 1)) true)).passed = [blockOf 1 (vcTx 1)] := by decide
    have hblock : Store.getBlock (Session.step ⟨putBlockOf 1 (vcTx 1) {}, []⟩
        (.validate runtime (blockOf 1 (vcTx 1)) true)).store (blockId 1 (vcTx 1)) =
          .ok (blockOf 1 (vcTx 1)) := by decide
    refine ⟨blockOf 1 (vcTx 1), by rw [hpassed]; exact List.mem_cons_self, fun b' hb' => ?_⟩
    rw [← Outcome.ok.inj (hblock.symm.trans hb')]

/-- A transaction that adds a node, and a store in which its block was recorded as validated without
a validation. -/
def addNodeTx : Tx :=
  { vcTx 1 with type := .node, data := some (.node { id := "n", did := "", key := [] }) }

def unvettedStore : MemStore :=
  ((putBlockOf 1 addNodeTx {}).markBlock runtime (blockId 1 addNodeTx) .validated).2

/-- **Accepting the block adds the node.** The run is allowed: nothing is marked validated in it. -/
theorem unvettedStore_adds_node :
    let m := unvettedStore
    let m' := ([BlockCall.accept runtime (blockId 1 addNodeTx)].foldl Session.step ⟨m, []⟩).store
    Along Session.step Session.Allowed ⟨m, []⟩ [.accept runtime (blockId 1 addNodeTx)] ∧
      Store.nodes m = .ok [] ∧ Store.nodes m' = .ok ["n"] ∧ ¬ SameNodes m m' := by
  refine ⟨⟨trivial, trivial⟩, by decide, by decide, fun h => ?_⟩
  exact absurd h.1 (by decide)

end
end Didem.Storage
