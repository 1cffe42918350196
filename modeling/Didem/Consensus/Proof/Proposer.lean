import Didem.Consensus.Handlers
import Didem.Consensus.Sample
import Didem.Storage.Proof.Fold
import Didem.Storage.Proof.MetadataKeys

/-!
# Every node picks the same proposer

The proposer of a beacon value is an entry of the list of nodes, by its place in that list, so the
nodes agree about it only if they agree about the list. A `MemStore` reads its map in an order that
is no order and sorts the names; an `IPFSStorage` goes through a range of keys in the order of their
bytes and takes off the byte of the table. **Both are the increasing list of the registered names**,
however they came to be registered: the order of strings is that of their bytes, and to put one byte
in front of all of them does not change it.
-/

set_option autoImplicit false

namespace Didem

open Lib Lib.ByteOrder Storage

/-! ## Node transactions -/

namespace Storage

/-- The transaction adds a node or revokes one. -/
def Tx.IsNodeTx (t : Tx) : Prop :=
  t.type = .node ∧ (∃ n, t.data = some (.node n)) ∧ (t.action = .add ∨ t.action = .revoke)

/-- What it does to the set of registered nodes. -/
def registerTx (reg : Finset String) (t : Tx) : Finset String :=
  match t.data, t.action with
  | some (.node n), .add => insert n.id reg
  | some (.node n), .revoke => reg.erase n.id
  | _, _ => reg

/-- The names whose last transaction is an addition. -/
def registeredBy (h : List TxEntry) : Finset String := h.foldl (fun reg e => registerTx reg e.2) ∅

namespace MemStore

theorem keys_applyTx {id : TxID} {t : Tx} (ht : t.IsNodeTx) (m : MemStore) :
    (m.applyTx id t).2.nodes.keys = registerTx m.nodes.keys t := by
  obtain ⟨htype, ⟨n, hdata⟩, hadd | hrevoke⟩ := ht
  · ext i
    simp [applyTx, registerTx, htype, hdata, hadd, Finmap.mem_keys]
  · ext i
    simp [applyTx, registerTx, htype, hdata, hrevoke, Finmap.mem_keys]

end MemStore

namespace IPFSStorage

/-- A transaction reaches the metadata: `ApplyTx` writes to the batch of a trial, or to one that
`indexBlock` then commits. -/
def indexTx [CidText] (id : TxID) (t : Tx) (s : IPFSStorage) : IPFSStorage :=
  match s.pfTipApply with
  | some batch => { s with pfTipApply := some (batch ++ (applyTxTo id t).2) }
  | none => { s with metadata := Write.applyAll s.metadata (applyTxTo id t).2 }

/-- The loop of `Nodes`: from the lower bound up to the upper one, in the order the database keeps
its keys in, which is that of their bytes. -/
def scanNodes (s : IPFSStorage) : List String :=
  ((sortedList s.view.keys).filter fun key =>
    [MetadataKeyType.nodes.byte] ≤ key ∧ key < [MetadataKeyType.nodes.byte + 1]).map nodeOfKey

/-- The node table has an entry for each of these names, and no other. -/
def Tabulates (reg : Finset String) (s : IPFSStorage) : Prop :=
  ∀ key, key.head? = some MetadataKeyType.nodes.byte →
    ((s.view.lookup key).isSome ↔ ∃ i ∈ reg, key = typedKey .nodes [i])

theorem view_indexTx [CidText] (id : TxID) (t : Tx) (s : IPFSStorage) :
    (s.indexTx id t).view = Write.applyAll s.view (applyTxTo id t).2 := by
  unfold indexTx view
  cases s.pfTipApply with
  | none => rfl
  | some batch => exact Write.applyAll_append _ _ _

/-- One write, under the key of the node. -/
theorem applyTxTo_nodeTx [CidText] (id : TxID) {t : Tx} {n : Node} (htype : t.type = .node)
    (hdata : t.data = some (.node n)) (haction : t.action = .add ∨ t.action = .revoke) :
    (applyTxTo id t).2 =
      [⟨typedKey .nodes [n.id], if t.action = .add then some (.cid id) else none⟩] := by
  rcases haction with h | h <;> simp [applyTxTo, indexTxNode, htype, hdata, h]

theorem Tabulates.indexTx [CidText] {reg : Finset String} {s : IPFSStorage} (hs : Tabulates reg s)
    (id : TxID) {t : Tx} (ht : t.IsNodeTx) : Tabulates (registerTx reg t) (s.indexTx id t) := by
  obtain ⟨htype, ⟨n, hdata⟩, haction⟩ := ht
  intro key hkey
  rw [view_indexTx, applyTxTo_nodeTx id htype hdata haction, Write.applyAll_cons,
    Write.applyAll_nil]
  by_cases hown : key = typedKey .nodes [n.id]
  · subst hown
    rcases haction with h | h <;> simp [Write.apply, registerTx, hdata, h]
  · rw [Write.lookup_apply_of_ne _ hown, hs key hkey]
    have hne {i : String} (hi : key = typedKey .nodes [i]) : i ≠ n.id := fun h => hown (h ▸ hi)
    rcases haction with h | h
    · simp only [registerTx, hdata, h, Finset.mem_insert]
      refine exists_congr fun i => and_congr_left fun hk => ?_
      exact (or_iff_right (hne hk)).symm
    · simp only [registerTx, hdata, h, Finset.mem_erase]
      refine exists_congr fun i => and_congr_left fun hk => ?_
      exact (and_iff_right (hne hk)).symm

theorem Tabulates.scanNodes_eq {reg : Finset String} {s : IPFSStorage} (hs : Tabulates reg s) :
    s.scanNodes = sortedList reg := by
  have hmem (key : Bytes) : key ∈ (sortedList s.view.keys).filter (fun key =>
      [MetadataKeyType.nodes.byte] ≤ key ∧ key < [MetadataKeyType.nodes.byte + 1]) ↔
      ∃ i ∈ reg, key = typedKey .nodes [i] := by
    rw [List.mem_filter, decide_eq_true_iff, mem_range_iff (by decide), mem_sortedList,
      Finmap.mem_keys, ← Finmap.lookup_isSome]
    constructor
    · intro h
      exact (hs key h.2).mp h.1
    · rintro ⟨i, hi, rfl⟩
      exact ⟨(hs _ (head_typedKey _ _)).mpr ⟨i, hi, rfl⟩, head_typedKey _ _⟩
  refine eq_sortedList ?_ fun i => ?_
  · rw [scanNodes, List.pairwise_map]
    refine ((pairwise_sortedList s.view.keys).filter _).imp_of_mem ?_
    intro key key' hkey hkey' hlt
    obtain ⟨i, -, rfl⟩ := (hmem key).mp hkey
    obtain ⟨j, -, rfl⟩ := (hmem key').mp hkey'
    rw [nodeOfKey_typedKey, nodeOfKey_typedKey]
    rw [typedKey_singleton, typedKey_singleton] at hlt
    exact toUTF8_lt_iff.mp (List.cons_lt_cons_self.mp hlt)
  · rw [scanNodes, List.mem_map]
    constructor
    · rintro ⟨key, hkey, rfl⟩
      obtain ⟨i, hi, rfl⟩ := (hmem key).mp hkey
      rwa [nodeOfKey_typedKey]
    · intro hi
      exact ⟨typedKey .nodes [i], (hmem _).mpr ⟨i, hi, rfl⟩, nodeOfKey_typedKey i⟩

theorem Tabulates.nodes_eq {reg : Finset String} {s : IPFSStorage} (hs : Tabulates reg s) :
    s.nodes = .ok (sortedList reg) := by
  refine congrArg (fun reg => Outcome.ok (sortedList reg)) (Finset.ext fun i => ?_)
  simp only [Finset.mem_image, Finset.mem_filter, Finmap.mem_keys, ← Finmap.lookup_isSome]
  constructor
  · rintro ⟨key, ⟨hsome, hhead⟩, rfl⟩
    obtain ⟨i, hi, rfl⟩ := (hs key hhead).mp hsome
    rwa [nodeOfKey_typedKey]
  · intro hi
    exact ⟨typedKey .nodes [i], ⟨(hs _ (head_typedKey _ _)).mpr ⟨i, hi, rfl⟩, head_typedKey _ _⟩,
      nodeOfKey_typedKey i⟩

end IPFSStorage
end Storage

/-! ## Two stores -/

namespace Consensus

/-- Either of the two stores a node can have. -/
inductive NodeStore where
  | mem (m : MemStore)
  | ipfs (s : IPFSStorage)

namespace NodeStore

variable [CidText]

/-- A transaction is applied. -/
def apply : NodeStore → TxEntry → NodeStore
  | .mem m, e => .mem (m.applyTx e.1 e.2).2
  | .ipfs s, e => .ipfs (s.indexTx e.1 e.2)

/-- The registered nodes, as the store has them. -/
def Registers (reg : Finset String) : NodeStore → Prop
  | .mem m => m.nodes.keys = reg
  | .ipfs s => s.Tabulates reg

/-- No node is registered yet. -/
def IsNew (s : NodeStore) : Prop := s.Registers ∅

/-- What `Nodes` returns. -/
def nodes : NodeStore → Outcome Err (List String)
  | .mem m => m.nodesList
  | .ipfs s => .ok s.scanNodes

/-- The proposer of a beacon value. -/
def elect [Hash] [SigLib] (b : UInt64) : NodeStore → Outcome Err String
  | .mem m => Consensus.elect b m
  | .ipfs s => Consensus.elect b s

/-- **Transactions bring about the set they say.** -/
theorem Registers.foldl {reg : Finset String} {s : NodeStore} (hs : s.Registers reg)
    (h : List TxEntry) (hh : ∀ e ∈ h, e.2.IsNodeTx) :
    (h.foldl apply s).Registers (h.foldl (fun reg e => registerTx reg e.2) reg) := by
  induction h generalizing s reg with
  | nil => exact hs
  | cons e h ih =>
    refine ih ?_ fun e' he' => hh e' (List.mem_cons_of_mem e he')
    have he : e.2.IsNodeTx := hh e List.mem_cons_self
    cases s with
    | mem m => exact (MemStore.keys_applyTx he m).trans (congrArg (registerTx · e.2) hs)
    | ipfs s => exact IPFSStorage.Tabulates.indexTx hs e.1 he

omit [CidText] in
/-- Both stores list the registered nodes in increasing order. -/
theorem Registers.nodes_eq {reg : Finset String} {s : NodeStore} (hs : s.Registers reg) :
    s.nodes = .ok (sortedList reg) := by
  cases s with
  | mem m => exact congrArg (fun reg => Outcome.ok (sortedList reg)) hs
  | ipfs s => exact congrArg Outcome.ok (IPFSStorage.Tabulates.scanNodes_eq hs)

/-- The proposer is the entry at the beacon value, modulo their number. -/
theorem Registers.elect_eq [Hash] [SigLib] {reg : Finset String} {s : NodeStore}
    (hs : s.Registers reg) (hne : reg.Nonempty) (b : UInt64) :
    s.elect b = .ok ((sortedList reg).getD (b.toNat % (sortedList reg).length) "") := by
  have helect {S : Type} [Store S] {s : S} (hnodes : Store.nodes s = .ok (sortedList reg)) :
      Consensus.elect b s =
        .ok ((sortedList reg).getD (b.toNat % (sortedList reg).length) "") := by
    unfold Consensus.elect
    rw [hnodes]
    cases hlist : sortedList reg with
    | nil =>
      obtain ⟨i, hi⟩ := hne
      exact absurd (mem_sortedList.mpr hi) (by simp [hlist])
    | cons i l => rfl
  cases s with
  | mem m => exact helect (Registers.nodes_eq hs)
  | ipfs s => exact helect (IPFSStorage.Tabulates.nodes_eq hs)

end NodeStore

/-- **Every node picks the same proposer.** Two new stores, of either kind, go through any node
transactions that leave the same nodes registered, and at least one. Then both list these nodes
alike, every beacon value elects the same one of them on both, and each of them is elected by some
value. The number of nodes is that of a Go slice. -/
theorem proposer_agrees [CidText] [Hash] [SigLib] (s s' : NodeStore) (hs : s.IsNew)
    (hs' : s'.IsNew) (h h' : List TxEntry) (hh : ∀ e ∈ h, e.2.IsNodeTx)
    (hh' : ∀ e ∈ h', e.2.IsNodeTx) (hsame : registeredBy h' = registeredBy h)
    (hne : (registeredBy h).Nonempty) (hlen : (registeredBy h).card < 2 ^ 63) :
    (h.foldl NodeStore.apply s).Registers (registeredBy h) ∧
      (h'.foldl NodeStore.apply s').Registers (registeredBy h) ∧
      (h'.foldl NodeStore.apply s').nodes = (h.foldl NodeStore.apply s).nodes ∧
      (∀ b, ∃ id ∈ registeredBy h, (h.foldl NodeStore.apply s).elect b = .ok id ∧
        (h'.foldl NodeStore.apply s').elect b = .ok id) ∧
      ∀ id ∈ registeredBy h, ∃ b, (h.foldl NodeStore.apply s).elect b = .ok id ∧
        (h'.foldl NodeStore.apply s').elect b = .ok id := by
  have hreg : (h.foldl NodeStore.apply s).Registers (registeredBy h) := hs.foldl h hh
  have hreg' : (h'.foldl NodeStore.apply s').Registers (registeredBy h) := hsame ▸ hs'.foldl h' hh'
  have hcard : (sortedList (registeredBy h)).length = (registeredBy h).card := by
    rw [← Multiset.coe_card, coe_sortedList]
    rfl
  have hpos : 0 < (sortedList (registeredBy h)).length := hcard ▸ hne.card_pos
  refine ⟨hreg, hreg', hreg'.nodes_eq.trans hreg.nodes_eq.symm, fun b => ?_, fun id hid => ?_⟩
  · refine ⟨_, ?_, hreg.elect_eq hne b, hreg'.elect_eq hne b⟩
    have hlt := Nat.mod_lt b.toNat hpos
    rw [List.getD_eq_getElem _ _ hlt]
    exact mem_sortedList.mp (List.getElem_mem hlt)
  · obtain ⟨i, hi, rfl⟩ := List.mem_iff_getElem.mp (mem_sortedList.mpr hid)
    have htoNat : (UInt64.ofNat i).toNat = i := by
      rw [UInt64.toNat_ofNat']
      exact Nat.mod_eq_of_lt (by omega)
    refine ⟨UInt64.ofNat i, ?_, ?_⟩
    · rw [hreg.elect_eq hne, htoNat, Nat.mod_eq_of_lt hi, List.getD_eq_getElem _ _ hi]
    · rw [hreg'.elect_eq hne, htoNat, Nat.mod_eq_of_lt hi, List.getD_eq_getElem _ _ hi]

section

open Storage.Sample Sample

/-- Two nodes are added. -/
def twoAdded : List TxEntry := [⟨⟨[1]⟩, nodeTx 1 "a"⟩, ⟨⟨[2]⟩, nodeTx 2 "b"⟩]

/-- The same two the other way round, and a third that is gone again. -/
def thirdRevoked : List TxEntry :=
  [⟨⟨[3]⟩, nodeTx 3 "p"⟩, ⟨⟨[2]⟩, nodeTx 2 "b"⟩,
    ⟨⟨[4]⟩, { nodeTx 4 "p" with action := .revoke }⟩, ⟨⟨[1]⟩, nodeTx 1 "a"⟩]

theorem nodeTxs_of_samples :
    (∀ e ∈ twoAdded, e.2.IsNodeTx) ∧ ∀ e ∈ thirdRevoked, e.2.IsNodeTx := by
  simp [twoAdded, thirdRevoked, nodeTx, Tx.IsNodeTx]

/-- A `MemStore` and an `IPFSStorage` agree after these, about every value, and either node is
elected by one. -/
theorem samples_agree :
    (∀ b, ∃ id ∈ registeredBy twoAdded,
      (twoAdded.foldl NodeStore.apply (.mem {})).elect b = .ok id ∧
        (thirdRevoked.foldl NodeStore.apply (.ipfs {})).elect b = .ok id) ∧
      ∃ b, (thirdRevoked.foldl NodeStore.apply (.ipfs {})).elect b = .ok "b" := by
  have hnew : (NodeStore.ipfs {}).IsNew := fun key _ => by simp [IPFSStorage.view]
  obtain ⟨-, -, -, hagree, hevery⟩ := proposer_agrees (.mem {}) (.ipfs {}) rfl hnew twoAdded
    thirdRevoked nodeTxs_of_samples.1 nodeTxs_of_samples.2 (by decide) (by decide) (by decide)
  refine ⟨hagree, ?_⟩
  obtain ⟨b, -, hb⟩ := hevery "b" (by decide)
  exact ⟨b, hb⟩

end
end Consensus
end Didem
