import Didem.Storage.Proof.Tables
import Didem.Storage.Sample

/-!
# What goes in and what comes out

Both stores keep objects by the hash of their content. With a hash that has no collisions, an object
that is stored again changes nothing, so whatever could be read before a write can be read after it.
`ContentStore` is that contract, stated through the operations of a `Store` alone; `MemStore` and
`IPFSStorage` meet it as long as every object is stored under its own hash, which their operations
keep.

The contract is silent about one thing on purpose: a block that comes out need only have the
transaction root of the one that went in. **The parent does not come out of either store, and the
identifier only out of one** (`getBlock_putBlock_iff`). `Parent` is a `BlockID`, a type msgpack
writes as an empty map, so it takes no part in the hash either.
-/

set_option autoImplicit false

namespace Didem.Storage

open Lib

/-! ## Collections of objects -/

abbrev Objects := Finmap (fun _ : Cid => Obj)

/-- Every object is stored under the hash of its content. -/
def Addressed [Hash] (objects : Objects) : Prop :=
  ∀ c o, objects.lookup c = some o → Hash.sum o = c

/-- Nothing is lost or changed from the one collection to the other. -/
def Extends (objects objects' : Objects) : Prop :=
  ∀ c o, objects.lookup c = some o → objects'.lookup c = some o

theorem Extends.refl (objects : Objects) : Extends objects objects := fun _ _ h => h

theorem addressed_empty [Hash] : Addressed ∅ := by
  intro c o h
  exact absurd h (by simp)

section

variable [Hash] {objects : Objects}

theorem Addressed.insert (h : Addressed objects) (o : Obj) :
    Addressed (objects.insert (Hash.sum o) o) := by
  intro c o' hl
  by_cases hc : c = Hash.sum o
  · rw [hc, Finmap.lookup_insert, Option.some.injEq] at hl
    rw [hc, hl]
  · rw [Finmap.lookup_insert_of_ne _ hc] at hl
    exact h c o' hl

/-- **Without collisions, storing an object overwrites nothing.** -/
theorem Addressed.extends_insert (hinj : Function.Injective (Hash.sum : Obj → Cid))
    (h : Addressed objects) (o : Obj) : Extends objects (objects.insert (Hash.sum o) o) := by
  intro c o' hl
  by_cases hc : c = Hash.sum o
  · have ho : o' = o := hinj ((h c o' hl).trans hc)
    rw [hc, ho, Finmap.lookup_insert]
  · rw [Finmap.lookup_insert_of_ne _ hc]
    exact hl

theorem Addressed.lookup_undef (h : Addressed objects) : objects.lookup .undef = none := by
  cases hl : objects.lookup .undef with
  | none => rfl
  | some o => exact absurd (congrArg Cid.str (h _ o hl)) (Hash.sum_ne_undef o)

end

/-! ## The contract -/

section

variable {S : Type} [Store S]

/-- What can be read from the one store can be read from the other. -/
structure Keeps (s s' : S) : Prop where
  getTx : ∀ {c : TxID} {t : Tx}, Store.getTx s c = .ok t → Store.getTx s' c = .ok t
  getSet : ∀ {c : Cid} {set : TxSet}, Store.getSet s c = .ok set → Store.getSet s' c = .ok set
  getBlock : ∀ {c : BlockID} {b : Block}, Store.getBlock s c = .ok b → Store.getBlock s' c = .ok b

theorem Keeps.refl (s : S) : Keeps s s := ⟨fun h => h, fun h => h, fun h => h⟩

theorem Keeps.trans {s s' s'' : S} (h : Keeps s s') (h' : Keeps s' s'') : Keeps s s'' :=
  ⟨fun hr => h'.getTx (h.getTx hr), fun hr => h'.getSet (h.getSet hr),
    fun hr => h'.getBlock (h.getBlock hr)⟩

/-- From a store in order to another, without losing anything. -/
def Grows (Inv : S → Prop) (s s' : S) : Prop := Inv s → Inv s' ∧ Keeps s s'

theorem Grows.refl {Inv : S → Prop} (s : S) : Grows Inv s s := fun h => ⟨h, .refl s⟩

theorem Grows.trans {Inv : S → Prop} {s s' s'' : S} (h : Grows Inv s s') (h' : Grows Inv s' s'') :
    Grows Inv s s'' := by
  intro hs
  obtain ⟨hs', hk⟩ := h hs
  obtain ⟨hs'', hk'⟩ := h' hs'
  exact ⟨hs'', hk.trans hk'⟩

variable (S) in
/-- **Get after put**: what is stored can be read back under the CID it was given, and no operation
changes what a CID stands for. `Inv` is what a store in order satisfies. -/
structure ContentStore (Inv : S → Prop) : Prop where
  putTx : ∀ (ω : Runtime) (t : Tx) (s : S), Grows Inv s (Store.putTx ω t s).2
  putSet : ∀ (ω : Runtime) (n : TxSet) (s : S), Grows Inv s (Store.putSet ω n s).2
  putBlock : ∀ (ω : Runtime) (b : Block) (s : S), Grows Inv s (Store.putBlock ω b s).2
  markBlock : ∀ (ω : Runtime) (b : BlockID) (st : BlockState) (s : S),
    Grows Inv s (Store.markBlock ω b st s).2
  updateLastApplied : ∀ (b : BlockID) (s : S), Grows Inv s (Store.updateLastApplied b s).2
  completeTest : ∀ s : S, Grows Inv s (Store.completeTest s).2
  getTx_putTx : ∀ {ω : Runtime} {t : Tx} {s s' : S} {c : Cid}, Inv s →
    Store.putTx ω t s = (.ok c, s') → t.wellTyped → Store.getTx s' c = .ok t
  getSet_putSet : ∀ {ω : Runtime} {n : TxSet} {s s' : S} {c : Cid}, Inv s →
    Store.putSet ω n s = (.ok c, s') → .undef ∉ n.children → n.tx ≠ some .undef →
    Store.getSet s' c = .ok { n with cid := .undef }
  getBlock_putBlock : ∀ {ω : Runtime} {b : Block} {s s' : S} {c : Cid}, Inv s →
    Store.putBlock ω b s = (.ok c, s') → b.txRoot ≠ .undef →
    ∃ b', Store.getBlock s' c = .ok b' ∧ b'.txRoot = b.txRoot
  /-- `AllTx` is the search of `allTxLoop`, with fuel for every set that is stored. -/
  allTx_eq : ∀ (s : S) (b : Block), ∃ stored : Finset Cid,
    (∀ c set, Store.getSet s c = .ok set → c ∈ stored) ∧
      Store.allTx s b = allTxFrom (Store.getSet s) (Store.getTx s) stored b.txRoot
  putTx_ne_undef : ∀ {ω : Runtime} {t : Tx} {s s' : S} {c : Cid},
    Store.putTx ω t s = (.ok c, s') → c ≠ .undef
  putSet_ne_undef : ∀ {ω : Runtime} {n : TxSet} {s s' : S} {c : Cid},
    Store.putSet ω n s = (.ok c, s') → c ≠ .undef
  getTx_ne_undef : ∀ {s : S} {c : Cid} {t : Tx}, Inv s → Store.getTx s c = .ok t → c ≠ .undef

end

/-! ## `MemStore` -/

namespace MemStore

theorem getObj_of_extends {α : Type} {unmarshal : Obj → Outcome Err α} {m m' : MemStore} {c : Cid}
    {a : α} (h : Extends m.objects m'.objects) (hr : m.getObj unmarshal c = .ok a) :
    m'.getObj unmarshal c = .ok a := by
  obtain ⟨d, hd, hu⟩ := getObj_eq_ok hr
  simp [getObj, h c d hd, hu]

theorem getObj_putObj [Hash] {α : Type} {unmarshal : Obj → Outcome Err α} {o : Obj} {a : α}
    (h : unmarshal o = .ok a) (m : MemStore) :
    (m.putObj o).2.getObj unmarshal (Hash.sum o) = .ok a := by
  simp [getObj, putObj, h]

theorem getBlock_putBlock [Hash] {b : Block} (hroot : b.txRoot ≠ .undef) (m : MemStore) :
    (m.putBlock b).2.getBlock (Hash.sum (marshalBlock b)) = .ok b.bare :=
  getObj_putObj (unmarshalBlock_marshalBlock hroot) m

variable [Hash]

theorem keeps_of_extends {m m' : MemStore} (h : Extends m.objects m'.objects) : Keeps m m' :=
  ⟨fun hr => getObj_of_extends h hr, fun hr => getObj_of_extends h hr,
    fun hr => getObj_of_extends h hr⟩

/-- **A `MemStore` keeps its contract.** -/
theorem contentStore (hinj : Function.Injective (Hash.sum : Obj → Cid)) :
    ContentStore MemStore fun m => Addressed m.objects := by
  have hput : ∀ (o : Obj) (m : MemStore),
      Grows (fun m : MemStore => Addressed m.objects) m (m.putObj o).2 := fun o m hm =>
    ⟨hm.insert o, keeps_of_extends (hm.extends_insert hinj o)⟩
  have hsame : ∀ {m m' : MemStore}, m'.objects = m.objects →
      Grows (fun m : MemStore => Addressed m.objects) m m' := by
    intro m m' ho hm
    exact ⟨show Addressed m'.objects from ho.symm ▸ hm, keeps_of_extends (ho.symm ▸ .refl _)⟩
  have hne : ∀ o : Obj, Hash.sum o ≠ .undef := fun o h => Hash.sum_ne_undef o (congrArg Cid.str h)
  refine
    { putTx := fun _ t m => hput (.tx t) m
      putSet := fun _ n m => hput (marshalSet n) m
      putBlock := fun _ b m => hput (marshalBlock b) m
      markBlock := fun ω b st m => hsame (objects_markBlock ω b st m)
      updateLastApplied := fun _ _ => hsame rfl
      completeTest := fun _ => hsame rfl
      getTx_putTx := ?_, getSet_putSet := ?_, getBlock_putBlock := ?_
      putTx_ne_undef := ?_, putSet_ne_undef := ?_, getTx_ne_undef := ?_
      allTx_eq := fun m _ => ⟨m.objects.keys, fun _ _ => mem_keys_of_getSet, rfl⟩ }
  · rintro ω t m m' c - h ht
    obtain ⟨rfl, rfl⟩ := Prod.mk.inj h |>.imp Outcome.ok.inj id
    exact getObj_putObj (unmarshalTx_of_wellTyped ht) m
  · rintro ω n m m' c - h hchildren htx
    obtain ⟨rfl, rfl⟩ := Prod.mk.inj h |>.imp Outcome.ok.inj id
    exact getObj_putObj (unmarshalSet_marshalSet hchildren htx) m
  · rintro ω b m m' c - h hroot
    obtain ⟨rfl, rfl⟩ := Prod.mk.inj h |>.imp Outcome.ok.inj id
    exact ⟨b.bare, getBlock_putBlock hroot m, rfl⟩
  · rintro ω t m m' c h
    obtain ⟨rfl, -⟩ := Prod.mk.inj h |>.imp Outcome.ok.inj id
    exact hne _
  · rintro ω n m m' c h
    obtain ⟨rfl, -⟩ := Prod.mk.inj h |>.imp Outcome.ok.inj id
    exact hne _
  · rintro m c t hm h rfl
    obtain ⟨d, hd, -⟩ := getObj_eq_ok h
    rw [hm.lookup_undef] at hd
    exact absurd hd (by simp)

end MemStore

/-! ## `IPFSStorage` -/

namespace IPFSStorage

theorem getRaw_eq_ok {s : IPFSStorage} {c : Cid} {d : Obj} :
    s.getRaw c = .ok d ↔ s.objects.lookup c = some d := by
  unfold getRaw
  cases s.objects.lookup c <;> simp

theorem getTx_eq_ok {s : IPFSStorage} {c : TxID} {t : Tx} :
    s.getTx c = .ok t ↔ ∃ d, s.objects.lookup c = some d ∧ unmarshalTx d = .ok t := by
  rw [getTx, Outcome.bind_eq_ok]
  simp only [getRaw_eq_ok]

theorem getSet_eq_ok {s : IPFSStorage} {c : Cid} {set : TxSet} :
    s.getSet c = .ok set ↔ ∃ d, s.objects.lookup c = some d ∧ unmarshalSet d = .ok set := by
  rw [getSet, Outcome.bind_eq_ok]
  simp only [getRaw_eq_ok, Outcome.mapErr_eq_ok]

theorem getBlock_eq_ok {s : IPFSStorage} {c : BlockID} {b : Block} :
    s.getBlock c = .ok b ↔ ∃ d b', s.objects.lookup c = some d ∧ unmarshalBlock d = .ok b' ∧
      b = { b' with id := c } := by
  rw [getBlock, Outcome.bind_eq_ok]
  simp only [getRaw_eq_ok, Outcome.bind_eq_ok, Outcome.mapErr_eq_ok, Outcome.pure_eq,
    Outcome.ok.injEq]
  constructor
  · rintro ⟨d, hd, b', hb', rfl⟩
    exact ⟨d, b', hd, hb', rfl⟩
  · rintro ⟨d, b', hd, hb', rfl⟩
    exact ⟨d, hd, b', hb', rfl⟩

theorem getRaw_ne_panic (s : IPFSStorage) (c : Cid) : s.getRaw c ≠ .panic := by
  unfold getRaw
  split <;> simp

theorem getTx_eq_panic {s : IPFSStorage} {id : TxID} :
    s.getTx id = .panic ↔ ∃ t, s.objects.lookup id = some (.tx t) ∧ t.hollow = true := by
  simp only [getTx, Outcome.bind_eq_panic, getRaw_ne_panic, false_or, getRaw_eq_ok,
    unmarshalTx_eq_panic]
  constructor
  · rintro ⟨d, hd, t, rfl, ht⟩
    exact ⟨t, hd, ht⟩
  · rintro ⟨t, hd, ht⟩
    exact ⟨.tx t, hd, t, rfl, ht⟩

theorem getSet_ne_panic (s : IPFSStorage) (id : Cid) : s.getSet id ≠ .panic := by
  simp [getSet, Outcome.bind_eq_panic, getRaw_ne_panic, unmarshalSet_ne_panic]

theorem getBlock_ne_panic (s : IPFSStorage) (id : BlockID) : s.getBlock id ≠ .panic := by
  simp [getBlock, Outcome.bind_eq_panic, getRaw_ne_panic, unmarshalBlock_ne_panic]

theorem mem_keys_of_getSet {s : IPFSStorage} {c : Cid} {set : TxSet} (h : s.getSet c = .ok set) :
    c ∈ s.objects.keys := by
  obtain ⟨d, hd, -⟩ := getSet_eq_ok.mp h
  exact Finmap.mem_keys.mpr (Finmap.lookup_isSome.mp (by simp [hd]))

@[simp] theorem objects_metadataSet (key : Bytes) (value : MetaVal) (s : IPFSStorage) :
    (s.metadataSet key value).objects = s.objects := by
  unfold metadataSet
  split <;> rfl

/-- The one store differs from the other in nothing but the objects. -/
def SameMetadata (s s' : IPFSStorage) : Prop := s' = { s with objects := s'.objects }

theorem SameMetadata.trans {s s' s'' : IPFSStorage} (h : SameMetadata s s')
    (h' : SameMetadata s' s'') : SameMetadata s s'' := by
  rw [SameMetadata] at h h' ⊢
  rw [h', h]

theorem SameMetadata.metadata {s s' : IPFSStorage} (h : SameMetadata s s') :
    s'.metadata = s.metadata := by rw [h]

theorem SameMetadata.pfTipApply {s s' : IPFSStorage} (h : SameMetadata s s') :
    s'.pfTipApply = s.pfTipApply := by rw [h]

theorem SameMetadata.view {s s' : IPFSStorage} (h : SameMetadata s s') : s'.view = s.view := by
  rw [h]
  rfl

instance reflSameMetadata : Std.Refl SameMetadata := ⟨fun _ => rfl⟩

instance transSameMetadata : IsTrans IPFSStorage SameMetadata := ⟨fun _ _ _ => SameMetadata.trans⟩

section

variable [Hash]

/-- A `putRaw` that succeeds stores the object under its hash. -/
theorem putRaw_eq_ok {ω : Runtime} {d : Obj} {s s' : IPFSStorage} {c : Cid} :
    s.putRaw ω d = (.ok c, s') ↔ ω.put (Hash.sum d) = true ∧ c = Hash.sum d ∧
      s' = { s with objects := s.objects.insert (Hash.sum d) d } := by
  unfold putRaw
  split
  · rename_i hput
    simp [hput, eq_comm]
  · rename_i hput
    simp [hput]

theorem getBlock_putBlock {ω : Runtime} {b : Block} {s s' : IPFSStorage} {c : Cid}
    (hroot : b.txRoot ≠ .undef) (h : s.putBlock ω b = (.ok c, s')) :
    s'.getBlock c = .ok { b.bare with id := c } := by
  obtain ⟨-, rfl, rfl⟩ := putRaw_eq_ok.mp h
  exact getBlock_eq_ok.mpr ⟨marshalBlock b, b.bare, Finmap.lookup_insert _,
    unmarshalBlock_marshalBlock hroot, rfl⟩

/-- The one store has the objects of the other, or this one more. -/
def Stores (d : Obj) (s s' : IPFSStorage) : Prop :=
  s'.objects = s.objects ∨ s'.objects = s.objects.insert (Hash.sum d) d

theorem stores_putRaw (ω : Runtime) (d : Obj) (s : IPFSStorage) : Stores d s (s.putRaw ω d).2 := by
  unfold putRaw
  split
  · exact .inr rfl
  · exact .inl rfl

theorem putSet_eq_ok {ω : Runtime} {n : TxSet} {s s' : IPFSStorage} {c : Cid}
    (h : s.putSet ω n = (.ok c, s')) : s.putRaw ω (marshalSet n) = (.ok c, s') := by
  unfold putSet at h
  split at h
  · exact absurd h (by simp)
  · exact absurd h (by simp)
  · rename_i hput
    split at h
    · exact absurd h (by simp)
    · rw [hput, h]

/-- A set may have been stored although `PutSet` failed: it is pinned afterwards. -/
theorem snd_putSet (ω : Runtime) (n : TxSet) (s : IPFSStorage) :
    (s.putSet ω n).2 = (s.putRaw ω (marshalSet n)).2 := by
  unfold putSet
  split
  · next h => rw [h]
  · next h => rw [h]
  · next h => rw [h]; split <;> rfl

theorem stores_putSet (ω : Runtime) (n : TxSet) (s : IPFSStorage) :
    Stores (marshalSet n) s (s.putSet ω n).2 := by
  rw [snd_putSet]
  exact stores_putRaw ω (marshalSet n) s

theorem putTx_eq_ok [SigLib] {ω : Runtime} {t : Tx} {s s' : IPFSStorage} {c : Cid}
    (h : s.putTx ω t = (.ok c, s')) : s.putRaw ω (.tx t) = (.ok c, s') := by
  unfold putTx at h
  split at h
  · exact absurd h (by simp)
  · exact absurd h (by simp)
  · exact h

theorem stores_putTx [SigLib] (ω : Runtime) (t : Tx) (s : IPFSStorage) :
    Stores (.tx t) s (s.putTx ω t).2 := by
  unfold putTx
  split
  · exact .inl rfl
  · exact .inl rfl
  · exact stores_putRaw ω (.tx t) s

theorem sameMetadata_putRaw (ω : Runtime) (d : Obj) (s : IPFSStorage) :
    SameMetadata s (s.putRaw ω d).2 := by
  unfold putRaw
  split <;> rfl

theorem sameMetadata_putSet (ω : Runtime) (n : TxSet) (s : IPFSStorage) :
    SameMetadata s (s.putSet ω n).2 := by
  rw [snd_putSet]
  exact sameMetadata_putRaw ω (marshalSet n) s

theorem sameMetadata_putTx [SigLib] (ω : Runtime) (t : Tx) (s : IPFSStorage) :
    SameMetadata s (s.putTx ω t).2 := by
  unfold putTx
  split
  · rfl
  · rfl
  · exact sameMetadata_putRaw ω (.tx t) s

end

variable [CidText]

variable [Hash] [SigLib]

theorem keeps_of_extends {s s' : IPFSStorage} (h : Extends s.objects s'.objects) : Keeps s s' := by
  constructor
  · intro c t hr
    obtain ⟨d, hd, hu⟩ := getTx_eq_ok.mp hr
    exact getTx_eq_ok.mpr ⟨d, h c d hd, hu⟩
  · intro c set hr
    obtain ⟨d, hd, hu⟩ := getSet_eq_ok.mp hr
    exact getSet_eq_ok.mpr ⟨d, h c d hd, hu⟩
  · intro c b hr
    obtain ⟨d, b', hd, hu⟩ := getBlock_eq_ok.mp hr
    exact getBlock_eq_ok.mpr ⟨d, b', h c d hd, hu⟩

/-- **An `IPFSStorage` keeps its contract.** -/
theorem contentStore (hinj : Function.Injective (Hash.sum : Obj → Cid)) :
    ContentStore IPFSStorage fun s => Addressed s.objects := by
  have hput : ∀ {d : Obj} {s s' : IPFSStorage}, Stores d s s' →
      Grows (fun s : IPFSStorage => Addressed s.objects) s s' := by
    rintro d s s' (ho | ho) hs
    · exact ⟨show Addressed s'.objects from ho.symm ▸ hs, keeps_of_extends (ho.symm ▸ .refl _)⟩
    · exact ⟨show Addressed s'.objects from ho.symm ▸ hs.insert d,
        keeps_of_extends (ho.symm ▸ hs.extends_insert hinj d)⟩
  have hsame : ∀ {s s' : IPFSStorage}, s'.objects = s.objects →
      Grows (fun s : IPFSStorage => Addressed s.objects) s s' :=
      fun ho => hput (d := .raw []) (.inl ho)
  have hne : ∀ o : Obj, Hash.sum o ≠ .undef := fun o h => Hash.sum_ne_undef o (congrArg Cid.str h)
  refine
    { putTx := fun ω t s => hput (stores_putTx ω t s)
      putSet := fun ω n s => hput (stores_putSet ω n s)
      putBlock := fun ω b s => hput (stores_putRaw ω (marshalBlock b) s)
      markBlock := fun ω b st s => hsame ((sameKind_markBlock ω b st s).1)
      updateLastApplied := fun b s => hsame (objects_metadataSet _ _ s)
      completeTest := ?_, getTx_putTx := ?_, getSet_putSet := ?_, getBlock_putBlock := ?_
      putTx_ne_undef := ?_, putSet_ne_undef := ?_, getTx_ne_undef := ?_
      allTx_eq := fun s _ => ⟨s.objects.keys, fun _ _ => mem_keys_of_getSet, rfl⟩ }
  · intro s
    refine hsame ?_
    show (completeTest s).2.objects = s.objects
    unfold completeTest
    split <;> rfl
  · rintro ω t s s' c - h ht
    obtain ⟨-, rfl, rfl⟩ := putRaw_eq_ok.mp (putTx_eq_ok h)
    exact getTx_eq_ok.mpr ⟨.tx t, Finmap.lookup_insert _, unmarshalTx_of_wellTyped ht⟩
  · rintro ω n s s' c - h hchildren htx
    obtain ⟨-, rfl, rfl⟩ := putRaw_eq_ok.mp (putSet_eq_ok h)
    exact getSet_eq_ok.mpr
      ⟨marshalSet n, Finmap.lookup_insert _, unmarshalSet_marshalSet hchildren htx⟩
  · rintro ω b s s' c - h hroot
    exact ⟨_, getBlock_putBlock hroot h, rfl⟩
  · rintro ω t s s' c h
    obtain ⟨-, rfl, -⟩ := putRaw_eq_ok.mp (putTx_eq_ok h)
    exact hne _
  · rintro ω n s s' c h
    obtain ⟨-, rfl, -⟩ := putRaw_eq_ok.mp (putSet_eq_ok h)
    exact hne _
  · rintro s c t hs h rfl
    obtain ⟨d, hd, -⟩ := getTx_eq_ok.mp h
    rw [hs.lookup_undef] at hd
    exact absurd hd (by simp)

end IPFSStorage

/-! ## Blocks -/

/-- **Which blocks come out as they went in.** Out of an `IPFSStorage` those without a parent; out
of a `MemStore` none, since the identifier is missing. And two blocks get the same CID when they
agree in everything but the identifier and the parent. -/
theorem getBlock_putBlock_iff [CidText] [Hash] [SigLib] :
    (∀ (ω : Runtime) (b : Block) (s s' : IPFSStorage) (c : Cid), b.txRoot ≠ .undef →
      Store.putBlock ω b s = (.ok c, s') →
      (Store.getBlock s' c = .ok { b with id := c } ↔ b.parent = .undef)) ∧
    (∀ (ω : Runtime) (b : Block) (m m' : MemStore) (c : Cid), b.txRoot ≠ .undef →
      Store.putBlock ω b m = (.ok c, m') → Store.getBlock m' c ≠ .ok { b with id := c }) ∧
    (Function.Injective (Hash.sum : Obj → Cid) → ∀ (ω ω' : Runtime) (b b' : Block),
      (∀ (s s' s₁ s₁' : IPFSStorage) (c c' : Cid), Store.putBlock ω b s = (.ok c, s₁) →
        Store.putBlock ω' b' s' = (.ok c', s₁') → (c = c' ↔ b.bare = b'.bare)) ∧
      ∀ (m m' m₁ m₁' : MemStore) (c c' : Cid), Store.putBlock ω b m = (.ok c, m₁) →
        Store.putBlock ω' b' m' = (.ok c', m₁') → (c = c' ↔ b.bare = b'.bare)) := by
  have hcid : Function.Injective (Hash.sum : Obj → Cid) → ∀ b b' : Block,
      Hash.sum (marshalBlock b) = Hash.sum (marshalBlock b') ↔ b.bare = b'.bare := by
    intro hinj b b'
    rw [hinj.eq_iff]
    exact (Obj.block.injEq b.bare b'.bare).to_iff
  refine ⟨?_, ?_, ?_⟩
  · intro ω b s s' c hroot hput
    have hget : Store.getBlock s' c = .ok { b.bare with id := c } :=
      IPFSStorage.getBlock_putBlock hroot hput
    rw [hget, Outcome.ok.injEq]
    constructor
    · intro h
      exact (congrArg Block.parent h).symm
    · intro h
      rw [Block.bare, ← h]
  · intro ω b m m' c hroot hput h
    obtain ⟨rfl, rfl⟩ := Prod.mk.inj hput |>.imp Outcome.ok.inj id
    have hget : Store.getBlock (m.putBlock b).2 (Hash.sum (marshalBlock b)) = .ok b.bare :=
      MemStore.getBlock_putBlock hroot m
    have hid : Cid.undef = Hash.sum (marshalBlock b) :=
      congrArg Block.id (Outcome.ok.inj (hget.symm.trans h))
    exact Hash.sum_ne_undef _ (congrArg Cid.str hid.symm)
  · intro hinj ω ω' b b'
    refine ⟨?_, ?_⟩
    · intro s s' s₁ s₁' c c' hput hput'
      obtain ⟨-, rfl, -⟩ := IPFSStorage.putRaw_eq_ok.mp hput
      obtain ⟨-, rfl, -⟩ := IPFSStorage.putRaw_eq_ok.mp hput'
      exact hcid hinj b b'
    · intro m m' m₁ m₁' c c' hput hput'
      obtain ⟨rfl, -⟩ := Prod.mk.inj hput |>.imp Outcome.ok.inj id
      obtain ⟨rfl, -⟩ := Prod.mk.inj hput' |>.imp Outcome.ok.inj id
      exact hcid hinj b b'

/-! ### A block and its child -/

section

open Storage.Sample.Exact

/-- A block of no transactions on top of `parent`. -/
def emptyChild (parent : BlockID) : Block :=
  { version := blockVersion, parent := parent, height := 2, txRoot := Hash.sum (.set [] none) }

/-- Without a parent it comes out of an `IPFSStorage` whole, though not out of a `MemStore`, and its
CID is that of no block that differs in more than the parent. -/
theorem emptyChild_undef_roundTrips :
    let b := emptyChild .undef
    let c := Hash.sum (marshalBlock b)
    Store.getBlock (Store.putBlock Sample.runtime b ({} : IPFSStorage)).2 c =
        .ok { b with id := c } ∧
      Store.getBlock (Store.putBlock Sample.runtime b ({} : MemStore)).2 c ≠
        .ok { b with id := c } ∧
      c ≠ Hash.sum (marshalBlock { b with height := 3 }) := by
  have hroot : (emptyChild .undef).txRoot ≠ .undef := by decide
  refine ⟨?_, ?_, ?_⟩
  · exact (getBlock_putBlock_iff.1 Sample.runtime _ {} _ _ hroot rfl).mpr rfl
  · exact getBlock_putBlock_iff.2.1 Sample.runtime _ {} _ _ hroot rfl
  · intro h
    have hbare := (((getBlock_putBlock_iff.2.2 sum_injective) Sample.runtime Sample.runtime _ _).1
      {} {} _ _ _ _ rfl rfl).mp h
    exact absurd (congrArg Block.height hbare) (by decide)

/-- **On top of a block the parent is lost in both stores**, and the child gets the CID of its
parent, from which it differs in nothing else. -/
theorem emptyChild_loses_parent :
    let parent := Hash.sum (marshalBlock (emptyChild .undef))
    let b := emptyChild parent
    let c := Hash.sum (marshalBlock b)
    b.parent ≠ (emptyChild .undef).parent ∧ c = parent ∧
      Store.getBlock (Store.putBlock Sample.runtime b ({} : IPFSStorage)).2 c ≠
        .ok { b with id := c } ∧
      Store.getBlock (Store.putBlock Sample.runtime b ({} : MemStore)).2 c ≠
        .ok { b with id := c } := by
  intro parent b c
  have hroot : b.txRoot ≠ .undef := by decide
  have hparent : b.parent ≠ .undef := by decide
  have hipfs : Store.getBlock (Store.putBlock Sample.runtime b ({} : IPFSStorage)).2 c =
      .ok { b.bare with id := c } :=
    IPFSStorage.getBlock_putBlock hroot (show IPFSStorage.putBlock Sample.runtime b {} = _ from rfl)
  have hmem : Store.getBlock (Store.putBlock Sample.runtime b ({} : MemStore)).2 c = .ok b.bare :=
    MemStore.getBlock_putBlock hroot {}
  refine ⟨hparent, rfl, ?_, ?_⟩
  · rw [hipfs]
    intro h
    exact hparent (congrArg Block.parent (Outcome.ok.inj h)).symm
  · rw [hmem]
    intro h
    exact hparent (congrArg Block.parent (Outcome.ok.inj h)).symm

end
end Didem.Storage
