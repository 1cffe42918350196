import Didem.Consensus.Proof.Priority
import Didem.Consensus.Sample
import Didem.Storage.Proof.TxSets

/-!
# From the mempool into a block

`makeBlock` does four things that can fail, and takes the transactions out of the mempool before the
first of them. **If none fails, what left the mempool is in the block** (`makeBlock_cases`): the
CIDs of the transactions are the leaves of the tree under its root, and the tree can be read from
the store. **If one fails, what left the mempool is nowhere** (`makeBlock_err`).

The second half of the first statement is about the store. It must give a set the CID the tree was
built with, which `HashStore` asks for on top of the contract of a `ContentStore`.
-/

set_option autoImplicit false

namespace Didem

open Lib Storage

/-! ## Transactions in blocks -/

namespace Storage

section

variable {S : Type} [Store S]

theorem Keeps.readTree {s s' : S} (h : Keeps s s') {root : Cid} {ts : List Cid}
    (htree : ReadTree (Store.getSet s) root ts) : ReadTree (Store.getSet s') root ts :=
  htree.mono (fun _ _ hleaf => h.getSet hleaf) fun _ _ _ hnode => h.getSet hnode

variable [Hash]

/-- The transaction is in the block: its CID is a leaf of the tree under the root of the block. -/
def InBlock (s : S) (b : BlockID) (t : Tx) : Prop :=
  b ≠ .undef ∧ ∃ block ts, Store.getBlock s b = .ok block ∧
    ReadTree (Store.getSet s) block.txRoot ts ∧ Hash.sum (.tx t) ∈ ts

theorem Keeps.inBlock {s s' : S} (h : Keeps s s') {b : BlockID} {t : Tx} (hin : InBlock s b t) :
    InBlock s' b t := by
  obtain ⟨hdef, block, ts, hblock, htree, ht⟩ := hin
  exact ⟨hdef, block, ts, h.getBlock hblock, h.readTree htree, ht⟩

variable (S) in
/-- A store that keeps its contract, and whose CIDs are hashes. -/
structure HashStore (Inv : S → Prop) : Prop extends ContentStore S Inv where
  putTx_cid : ∀ {ω : Runtime} {t : Tx} {s s' : S} {c : Cid}, Store.putTx ω t s = (.ok c, s') →
    c = Hash.sum (.tx t)
  putSet_cid : ∀ ω : Runtime, ContentAddressed (Store.putSet ω : TxSet → S → Outcome Err Cid × S)
  exists_putBlock : ∀ {ω : Runtime} {b : Block} {s s' : S} {c : Cid}, Inv s →
    Store.putBlock ω b s = (.ok c, s') → b.txRoot ≠ .undef →
    ∃ b', Store.getBlock s' c = .ok b' ∧ b'.txRoot = b.txRoot ∧ b'.proposer = b.proposer
  putBlock_ne_undef : ∀ {ω : Runtime} {b : Block} {s s' : S} {c : Cid},
    Store.putBlock ω b s = (.ok c, s') → c ≠ .undef
  updateLastApplied_ne_panic : ∀ (b : BlockID) (s : S), (Store.updateLastApplied b s).1 ≠ .panic

omit [Store S] in
/-- The root `NewTxSet` returns is a set together with its own CID. -/
theorem newTxSet_cid_eq {putSet : TxSet → S → Outcome Err Cid × S} (hput : ContentAddressed putSet)
    {l : List Cid} {root : TxSet} {s s' : S} (h : newTxSet putSet l s = (.ok root, s')) :
    root.cid = Hash.sum (marshalSet root) := by
  have hlevel {ns ns' : List TxSet} {s s' : S} (h : putSets putSet ns s = (.ok ns', s')) :
      ∀ n ∈ ns', n.cid = Hash.sum (marshalSet n) := by
    intro n hn
    rw [putSets_eq_map hput h] at hn
    obtain ⟨n', -, rfl⟩ := List.mem_map.mp hn
    rfl
  have hreduce {fuel : Nat} {nodes : List TxSet} {s : S}
      (hnodes : ∀ n ∈ nodes, n.cid = Hash.sum (marshalSet n))
      (h : reduceSets putSet fuel nodes s = (.ok root, s')) :
      root.cid = Hash.sum (marshalSet root) := by
    induction fuel generalizing nodes s with
    | zero =>
      rcases reduceSets_eq_ok h with ⟨rfl, -⟩ | ⟨fuel', parents, s₁, hfuel, -⟩
      · exact hnodes root List.mem_cons_self
      · exact absurd hfuel (Nat.succ_ne_zero fuel').symm
    | succ fuel ih =>
      rcases reduceSets_eq_ok h with ⟨rfl, -⟩ | ⟨fuel', parents, s₁, hfuel, hparents, hroot⟩
      · exact hnodes root List.mem_cons_self
      · obtain rfl := Nat.succ.inj hfuel
        exact ih (hlevel hparents) hroot
  obtain ⟨nodes, s₁, hnodes, hroot⟩ := newTxSet_eq_ok h
  exact hreduce (hlevel hnodes) hroot

/-- The set of a block: built, stored once more under the same CID, and there to be read. -/
theorem HashStore.exists_root {Inv : S → Prop} (hstore : HashStore S Inv) {ω : Runtime}
    (hput : ∀ (n : TxSet) (s : S), ∃ c s', Store.putSet ω n s = (.ok c, s')) {l : List Cid}
    (hne : l ≠ []) (hlen : l.length ≤ maxBlockTxCount) (hdef : ∀ c ∈ l, c ≠ .undef) {s : S}
    (hs : Inv s) : ∃ root s₁ s' ts, newTxSet (Store.putSet ω) l s = (.ok root, s₁) ∧
      Store.putSet ω root s₁ = (.ok root.cid, s') ∧ Inv s' ∧ Keeps s s' ∧ root.cid ≠ .undef ∧
      ReadTree (Store.getSet s') root.cid ts ∧ ∀ c, c ∈ ts ↔ c ∈ l := by
  obtain ⟨root, s₁, hroot⟩ := exists_newTxSet hput hne hlen s
  obtain ⟨ts, htree, hts⟩ := newTxSet_readTree hstore.toContentStore hs hdef hroot
  obtain ⟨hs₁, hkeeps₁⟩ : Inv s₁ ∧ Keeps s s₁ := by
    have hgrows := newTxSet_within (R := Grows Inv) (hstore.putSet ω) l s
    rw [hroot] at hgrows
    exact hgrows hs
  obtain ⟨cid, s', hset⟩ := hput root s₁
  obtain ⟨hs', hkeeps⟩ : Inv s' ∧ Keeps s₁ s' := by
    have hgrows := hstore.putSet ω root s₁
    rw [hset] at hgrows
    exact hgrows hs₁
  have hcid : cid = root.cid :=
    (hstore.putSet_cid ω root s₁ cid s' hset).trans
      (newTxSet_cid_eq (hstore.putSet_cid ω) hroot).symm
  subst hcid
  exact ⟨root, s₁, s', ts, hroot, hset, hs', hkeeps₁.trans hkeeps, hstore.putSet_ne_undef hset,
    hkeeps.readTree htree, hts⟩

end

/-! ### Both stores -/

section

variable [Hash]

theorem MemStore.hashStore (hinj : Function.Injective (Hash.sum : Obj → Cid)) :
    HashStore MemStore fun m => Addressed m.objects where
  toContentStore := contentStore hinj
  putTx_cid h := (Outcome.ok.inj (congrArg Prod.fst h)).symm
  putSet_cid := contentAddressed
  exists_putBlock := by
    rintro ω b m m' c - h hroot
    obtain ⟨rfl, rfl⟩ := Prod.mk.inj h |>.imp Outcome.ok.inj id
    exact ⟨b.bare, getBlock_putBlock hroot m, rfl, rfl⟩
  putBlock_ne_undef := by
    rintro ω b m m' c h rfl
    exact Hash.sum_ne_undef _ (congrArg Cid.str (Outcome.ok.inj (congrArg Prod.fst h)))
  updateLastApplied_ne_panic _ _ := by simp [Store.updateLastApplied, updateLastApplied]

theorem IPFSStorage.hashStore [CidText] [SigLib]
    (hinj : Function.Injective (Hash.sum : Obj → Cid)) :
    HashStore IPFSStorage fun s => Addressed s.objects where
  toContentStore := contentStore hinj
  putTx_cid h := (putRaw_eq_ok.mp (putTx_eq_ok h)).2.1
  putSet_cid := contentAddressed
  exists_putBlock := by
    rintro ω b s s' c - h hroot
    exact ⟨_, getBlock_putBlock hroot h, rfl, rfl⟩
  putBlock_ne_undef := by
    rintro ω b s s' c h rfl
    exact Hash.sum_ne_undef _ (congrArg Cid.str (putRaw_eq_ok.mp h).2.1.symm)
  updateLastApplied_ne_panic _ _ := by simp [Store.updateLastApplied, updateLastApplied]

end
end Storage

/-! ## Making a block -/

namespace Consensus

section Build

variable {S : Type} [Store S] [Hash] [CryptoLib] {Inv : S → Prop}

/-- A block can be made of the mempool: no transaction in it is nil or cannot be stored, and storing
sets and blocks and computing the bloom filter succeed. -/
structure CanBuild (ω : Env) (c : Consensus S TxMemPool) : Prop where
  txs : ∀ x ∈ c.memPool.plist, ∃ t, x = some t ∧
    ∀ s : S, ∃ cid s', Store.putTx ω.toRuntime t s = (.ok cid, s')
  sets : ∀ (n : TxSet) (s : S), ∃ cid s', Store.putSet ω.toRuntime n s = (.ok cid, s')
  blocks : ∀ (b : Block) (s : S), ∃ cid s', Store.putBlock ω.toRuntime b s = (.ok cid, s')
  blooms : ∀ cids : List Cid, ∃ bloom, CryptoLib.makeBloom cids = .ok bloom

omit [Hash] in
/-- Making a block does not fail once transactions have been taken out for it. -/
def MakesBlock (ω : Env) (c : Consensus S TxMemPool) : Prop :=
  ω.nonce ≠ none → c.memPool.plist ≠ [] → CanBuild ω c

omit [Store S] [Hash] [CryptoLib] in
/-- What is taken out of a mempool without nil transactions, with the rest, is what was in it; and
if the mempool is a heap, nothing of the rest precedes it. -/
theorem run_takeTxs {n : Nat} {c : Consensus S TxMemPool} (hnil : none ∉ c.memPool.plist)
    (hn : n ≤ c.memPool.plist.length) :
    ∃ txs pool, (takeTxs n).run c = (.ok txs, { c with memPool := pool }) ∧ txs.length = n ∧
      c.memPool.plist.Perm (txs.map some ++ pool.plist) ∧
      (c.memPool.Heap → ∀ t ∈ txs, ∀ u, some u ∈ pool.plist → t.ts ≤ u.ts) := by
  induction n generalizing c with
  | zero => exact ⟨[], c.memPool, rfl, rfl, .rfl, fun _ t ht => absurd ht (by simp)⟩
  | succ n ih =>
    have hne : c.memPool.plist ≠ [] := by
      intro h
      rw [h] at hn
      exact absurd hn (by simp)
    obtain ⟨t, pool₁, hget⟩ := TxMemPool.exists_getTx hnil hne
    have hperm := TxMemPool.getTx_perm hne hget
    have hnil₁ : none ∉ pool₁.plist :=
      fun h => hnil (hperm.mem_iff.mpr (List.mem_cons_of_mem _ h))
    have hn₁ : n ≤ pool₁.plist.length := by
      have := hperm.length_eq
      rw [List.length_cons] at this
      omega
    obtain ⟨txs, pool, hrun, hlen, hperm', hfirst⟩ :=
      ih (c := { c with memPool := pool₁ }) hnil₁ hn₁
    refine ⟨t :: txs, pool, ?_, by rw [List.length_cons, hlen], ?_, fun hheap t' ht' u hu => ?_⟩
    · have hfirst : (onPool MemPool.getTx : Engine S TxMemPool (Option Tx)).run c =
          (.ok (some t), { c with memPool := pool₁ }) := by
        show ((TxMemPool.getTx c.memPool).1,
          { c with memPool := (TxMemPool.getTx c.memPool).2 }) = _
        rw [hget]
      rw [takeTxs, Proc.run_bind, hfirst]
      simp only [Proc.run_bind, hrun, Proc.run_pure]
    · rw [List.map_cons, List.cons_append]
      exact hperm.trans (hperm'.cons _)
    · obtain ⟨t₁, m₁, hget', hheap₁, -, hmin⟩ := hheap.getTx hne
      obtain ⟨htx, rfl⟩ := Prod.mk.inj (hget.symm.trans hget')
      obtain rfl := Option.some.inj (Outcome.ok.inj htx)
      rcases List.mem_cons.mp ht' with rfl | htail
      · have hrest : some u ∈ pool₁.plist :=
          hperm'.mem_iff.mpr (List.mem_append_right _ hu)
        exact hmin u (hperm.mem_iff.mpr (List.mem_cons_of_mem _ hrest))
      · exact hfirst hheap₁ t' htail u hu

omit [Store S] [Hash] [CryptoLib] in
/-- A call on the store that succeeds. -/
theorem run_onStore {M α : Type} {p : Proc Err S α} {c : Consensus S M} {a : α} {s' : S}
    (h : p.run c.store = (.ok a, s')) (g : Err → Err) :
    ((onStore p).wrap g : Engine S M α).run c = (.ok a, { c with store := s' }) := by
  show ((p.run c.store).1.mapErr g, { c with store := (p.run c.store).2 }) = _
  rw [h]
  rfl

omit [CryptoLib] in
theorem run_putTxs {M : Type} (hstore : HashStore S Inv) {ω : Env} {txs : List Tx}
    (hput : ∀ t ∈ txs, ∀ s : S, ∃ cid s', Store.putTx ω.toRuntime t s = (.ok cid, s'))
    {c : Consensus S M} (hs : Inv c.store) :
    ∃ s', (putTxs ω txs).run c = (.ok (txs.map fun t => Hash.sum (.tx t)), { c with store := s' }) ∧
      Inv s' ∧ Keeps c.store s' := by
  induction txs generalizing c with
  | nil => exact ⟨c.store, rfl, hs, .refl _⟩
  | cons t txs ih =>
    obtain ⟨cid, s₁, h₁⟩ := hput t List.mem_cons_self c.store
    obtain ⟨hs₁, hkeeps₁⟩ : Inv s₁ ∧ Keeps c.store s₁ := by
      have := hstore.putTx ω.toRuntime t c.store hs
      rwa [h₁] at this
    obtain ⟨s', hrun, hs', hkeeps⟩ := ih (fun t' ht' => hput t' (List.mem_cons_of_mem t ht'))
      (c := { c with store := s₁ }) hs₁
    refine ⟨s', ?_, hs', hkeeps₁.trans hkeeps⟩
    obtain rfl := hstore.putTx_cid h₁
    rw [putTxs, Proc.run_bind, run_onStore h₁]
    simp only [Proc.run_bind, hrun, Proc.run_pure, List.map_cons]

omit [CryptoLib] in
/-- Stored one after the other and gathered in a tree, the transactions can be found there. -/
theorem exists_stored {M : Type} (hstore : HashStore S Inv) {ω : Env} {txs : List Tx}
    (hne : txs ≠ []) (hlen : txs.length ≤ maxBlockTxCount)
    (hput : ∀ t ∈ txs, ∀ s : S, ∃ cid s', Store.putTx ω.toRuntime t s = (.ok cid, s'))
    (hsets : ∀ (n : TxSet) (s : S), ∃ cid s', Store.putSet ω.toRuntime n s = (.ok cid, s'))
    {c : Consensus S M} (hs : Inv c.store) :
    ∃ s₁ root s₂ s' ts,
      (putTxs ω txs).run c = (.ok (txs.map fun t => Hash.sum (.tx t)), { c with store := s₁ }) ∧
      newTxSet (Store.putSet ω.toRuntime) (txs.map fun t => Hash.sum (.tx t)) s₁ =
        (.ok root, s₂) ∧
      Store.putSet ω.toRuntime root s₂ = (.ok root.cid, s') ∧ Inv s' ∧ Keeps c.store s' ∧
      root.cid ≠ .undef ∧ ReadTree (Store.getSet s') root.cid ts ∧
      ∀ cid, cid ∈ ts ↔ cid ∈ txs.map fun t => Hash.sum (.tx t) := by
  obtain ⟨s₁, hputs, hs₁, hkeeps₁⟩ := run_putTxs hstore hput hs
  have hcids : ∀ cid ∈ txs.map fun t => Hash.sum (.tx t), cid ≠ .undef := by
    intro cid hcid
    obtain ⟨t, -, rfl⟩ := List.mem_map.mp hcid
    exact fun h => Hash.sum_ne_undef _ (congrArg Cid.str h)
  obtain ⟨root, s₂, s', ts, hroot, hset, hs', hkeeps, hdef, htree, hts⟩ :=
    hstore.exists_root hsets (fun h => hne (List.map_eq_nil_iff.mp h)) (by rwa [List.length_map])
      hcids hs₁
  exact ⟨s₁, root, s₂, s', ts, hputs, hroot, hset, hs', hkeeps₁.trans hkeeps, hdef, htree, hts⟩

/-- **A block of the mempool**, where nothing fails: what was taken out is stored, the tree over
its CIDs is stored, and the block has the tree's root. -/
theorem run_makeBlock (hstore : HashStore S Inv) {ω : Env} {c : Consensus S TxMemPool}
    (hs : Inv c.store) (hnonce : ω.nonce ≠ none) (hne : c.memPool.plist ≠ [])
    (htxs : ∀ x ∈ c.memPool.plist, ∃ t, x = some t ∧
      ∀ s : S, ∃ cid s', Store.putTx ω.toRuntime t s = (.ok cid, s'))
    (hsets : ∀ (n : TxSet) (s : S), ∃ cid s', Store.putSet ω.toRuntime n s = (.ok cid, s'))
    (hblooms : ∀ cids : List Cid, ∃ bloom, CryptoLib.makeBloom cids = .ok bloom) :
    ∃ (b : Block) (txs : List Tx) (pool : TxMemPool) (s₁ s' : S) (ts : List Cid),
      (makeBlock ω).run c = (.ok (some b), { c with memPool := pool, store := s' }) ∧
      txs.length = min maxBlockTxCount c.memPool.plist.length ∧
      c.memPool.plist.Perm (txs.map some ++ pool.plist) ∧
      (c.memPool.Heap → ∀ t ∈ txs, ∀ u, some u ∈ pool.plist → t.ts ≤ u.ts) ∧
      (putTxs ω txs).run { c with memPool := pool } =
        (.ok (txs.map fun t => Hash.sum (.tx t)), { c with memPool := pool, store := s₁ }) ∧
      Inv s' ∧ Keeps c.store s' ∧ b.proposer = c.id ∧ b.height = c.propsalState.height ∧
      b.parent = c.state.block ∧ b.txRoot ≠ .undef ∧ ReadTree (Store.getSet s') b.txRoot ts ∧
      ∀ cid, cid ∈ ts ↔ cid ∈ txs.map fun t => Hash.sum (.tx t) := by
  have hnil : none ∉ c.memPool.plist := by
    intro h
    obtain ⟨t, ht, -⟩ := htxs none h
    exact absurd ht (by simp)
  obtain ⟨txs, pool, htake, hlen, hperm, hfirst⟩ := run_takeTxs
    (n := min maxBlockTxCount c.memPool.plist.length) hnil (Nat.min_le_right _ _)
  have hput : ∀ t ∈ txs, ∀ s : S, ∃ cid s', Store.putTx ω.toRuntime t s = (.ok cid, s') := by
    intro t ht
    obtain ⟨t', ht', hput⟩ := htxs (some t)
      (hperm.mem_iff.mpr (List.mem_append_left _ (List.mem_map_of_mem ht)))
    rw [Option.some.inj ht']
    exact hput
  have hsome : min maxBlockTxCount c.memPool.plist.length ≠ 0 := by
    have := List.length_pos_of_ne_nil hne
    simp only [maxBlockTxCount]
    omega
  have htaken : txs ≠ [] := by
    rintro rfl
    exact hsome hlen.symm
  obtain ⟨s₁, root, s₂, s', ts, hputs, hroot, hset, hs', hkeeps, hdef, htree, hts⟩ :=
    exists_stored (c := { c with memPool := pool }) hstore htaken
      (hlen ▸ Nat.min_le_left _ _) hput hsets hs
  obtain ⟨bloom, hbloom⟩ := hblooms (txs.map fun t => Hash.sum (.tx t))
  obtain ⟨nonce, hnonce⟩ := Option.ne_none_iff_exists'.mp hnonce
  refine ⟨{ version := blockVersion, parent := c.state.block, height := c.propsalState.height
            createdAt := ω.now, proposer := c.id, nonce := nonce, bloom := bloom
            txRoot := root.cid },
    txs, pool, s₁, s', ts, ?_, hlen, hperm, hfirst, hputs, hs', hkeeps, rfl, rfl, rfl, hdef, htree,
    hts⟩
  -- every call succeeds, so the run is the calls one after the other
  simp only [makeBlock, Proc.run_bind, Proc.run_get, hnonce, MemPool.len, hsome, if_false,
    htake, hputs, Proc.run_lift, hbloom, Outcome.mapErr]
  rw [run_onStore (p := newTxSet (Store.putSet ω.toRuntime) _)
    (c := { c with memPool := pool, store := s₁ }) hroot]
  simp only
  rw [run_onStore (c := { c with memPool := pool, store := s₂ }) hset]
  rfl

/-- **Where a block can be made**, one is made of transactions of the mempool, unless there are none
or there is no nonce; and it holds them. -/
theorem makeBlock_cases (hstore : HashStore S Inv) {ω : Env} {c : Consensus S TxMemPool}
    (hs : Inv c.store) (hbuild : MakesBlock ω c) :
    (((makeBlock ω).run c).2 = c ∧ ∀ b, ((makeBlock ω).run c).1 ≠ .ok (some b)) ∨
      ∃ (b : Block) (txs : List Tx) (pool : TxMemPool) (s' : S) (ts : List Cid),
        (makeBlock ω).run c = (.ok (some b), { c with memPool := pool, store := s' }) ∧
        c.memPool.plist.Perm (txs.map some ++ pool.plist) ∧
        (∃ id s'', Store.putBlock ω.toRuntime b s' = (.ok id, s'')) ∧ Inv s' ∧ Keeps c.store s' ∧
        b.proposer = c.id ∧ b.txRoot ≠ .undef ∧ ReadTree (Store.getSet s') b.txRoot ts ∧
        ∀ t ∈ txs, Hash.sum (.tx t) ∈ ts := by
  by_cases hnonce : ω.nonce = none
  · left
    simp [makeBlock, Proc.run_bind, Proc.run_get, hnonce]
  · by_cases hne : c.memPool.plist = []
    · left
      obtain ⟨nonce, hnonce⟩ := Option.ne_none_iff_exists'.mp hnonce
      simp [makeBlock, Proc.run_bind, Proc.run_get, hnonce, MemPool.len, hne]
    · right
      replace hbuild := hbuild hnonce hne
      obtain ⟨b, txs, pool, s₁, s', ts, hrun, -, hperm, -, -, hs', hkeeps, hproposer, -, -, hdef,
        htree, hts⟩ := run_makeBlock hstore hs hnonce hne hbuild.txs hbuild.sets hbuild.blooms
      exact ⟨b, txs, pool, s', ts, hrun, hperm, hbuild.blocks b s', hs', hkeeps, hproposer, hdef,
        htree, fun t ht => (hts _).mpr (List.mem_map_of_mem ht)⟩

/-- **A block is made of the transactions that come first.** Whatever calls the mempool has seen,
the block takes the largest number of transactions a block may have, or all of them, and none that
is left precedes one of them. What its sets name is what storing the transactions returned; its
height and parent are those of the node's round and state. -/
theorem makeBlock_takes_first (hstore : HashStore S Inv) (ω : Env) (c : Consensus S TxMemPool)
    (calls : List TxMemPool.Call) (hpool : c.memPool = (TxMemPool.Books.run calls).pool)
    (hne : c.memPool.plist ≠ []) (hs : Inv c.store) (hnonce : ω.nonce ≠ none)
    (hputTx : ∀ t, some t ∈ c.memPool.plist →
      ∀ s : S, ∃ cid s', Store.putTx ω.toRuntime t s = (.ok cid, s'))
    (hputSet : ∀ (n : TxSet) (s : S), ∃ cid s', Store.putSet ω.toRuntime n s = (.ok cid, s'))
    (hbloom : ∀ cids : List Cid, ∃ bloom, CryptoLib.makeBloom cids = .ok bloom) :
    ∃ (b : Block) (txs : List Tx) (cids : List Cid) (pool : TxMemPool) (s₁ s' : S),
      (makeBlock ω).run c = (.ok (some b), { c with memPool := pool, store := s' }) ∧
      txs.length = min c.memPool.plist.length maxBlockTxCount ∧
      c.memPool.plist.Perm (txs.map some ++ pool.plist) ∧
      (∀ t ∈ txs, ∀ u, some u ∈ pool.plist → t.ts ≤ u.ts) ∧
      (putTxs ω txs).run { c with memPool := pool } =
        (.ok cids, { c with memPool := pool, store := s₁ }) ∧
      (∀ id, Found (Store.getSet s') b.txRoot id ↔ id ∈ cids) ∧
      b.height = c.propsalState.height ∧ b.parent = c.state.block := by
  have hheap : c.memPool.Heap := hpool ▸ (TxMemPool.Books.balanced_run calls).heap
  have htxs : ∀ x ∈ c.memPool.plist, ∃ t, x = some t ∧
      ∀ s : S, ∃ cid s', Store.putTx ω.toRuntime t s = (.ok cid, s') := by
    intro x hx
    obtain ⟨t, rfl⟩ := Option.ne_none_iff_exists'.mp fun hnone => hheap.nil (hnone ▸ hx)
    exact ⟨t, rfl, hputTx t hx⟩
  obtain ⟨b, txs, pool, s₁, s', ts, hrun, hlen, hperm, hfirst, hputs, -, -, -, hheight, hparent, -,
    htree, hts⟩ := run_makeBlock hstore hs hnonce hne htxs hputSet hbloom
  refine ⟨b, txs, _, pool, s₁, s', hrun, hlen.trans (Nat.min_comm _ _), hperm, hfirst hheap, hputs,
    fun id => ?_, hheight, hparent⟩
  rw [found_iff_of_tree htree, hts]

end Build

section

open Didem.Sample Storage.Sample.Exact

/-- Two transactions that arrived in the wrong order. -/
def waitingCalls : List TxMemPool.Call :=
  [.addTx (Storage.Sample.vcTx 5), .addTx (Storage.Sample.vcTx 3)]

def waitingNode : Consensus MemStore TxMemPool :=
  .boot [9] "p" none (TxMemPool.Books.run waitingCalls).pool {} none

/-- Both go into the block. -/
theorem makeBlock_takes_both :
    ∃ (b : Block) (txs : List Tx) (cids : List Cid) (s' : MemStore),
      ((makeBlock env).run waitingNode).1 = .ok (some b) ∧ txs.length = 2 ∧
        (∀ id, Found (Store.getSet s') b.txRoot id ↔ id ∈ cids) ∧ b.height = 0 := by
  obtain ⟨b, txs, cids, pool, s₁, s', hrun, hlen, -, -, -, hfound, hheight, -⟩ :=
    makeBlock_takes_first (MemStore.hashStore sum_injective) env waitingNode waitingCalls rfl
      (by decide +kernel) addressed_empty (by decide) (fun _ _ _ => ⟨_, _, rfl⟩)
      (fun _ _ => ⟨_, _, rfl⟩) fun _ => ⟨_, rfl⟩
  exact ⟨b, txs, cids, s', congrArg Prod.fst hrun, hlen, hfound, hheight⟩

end

/-! ## A block that cannot be made -/

section Fail

variable {S : Type}

/-- The mempool has not grown. -/
def Shrinks (c c' : Consensus S TxMemPool) : Prop :=
  c'.memPool.plist.length ≤ c.memPool.plist.length

instance : Std.Refl (Shrinks (S := S)) := ⟨fun _ => Nat.le_refl _⟩

instance : IsTrans (Consensus S TxMemPool) Shrinks := ⟨fun _ _ _ h h' => Nat.le_trans h' h⟩

theorem takeTxs_shrinks (n : Nat) :
    Proc.Within Shrinks (takeTxs n : Engine S TxMemPool (List Tx)) :=
  takeTxs_within (fun c => TxMemPool.length_getTx_le c.memPool) n

/-- At least one transaction is taken out of a mempool that has some. -/
theorem takeTxs_lt {n : Nat} (hn : n ≠ 0) {c : Consensus S TxMemPool} (hne : c.memPool.plist ≠ [])
    (h : ((takeTxs n).run c).1 ≠ .panic) :
    ((takeTxs n).run c).2.memPool.plist.length < c.memPool.plist.length := by
  cases n with
  | zero => exact absurd rfl hn
  | succ n =>
    have hlt := TxMemPool.length_getTx hne
    rw [takeTxs, Proc.run_bind] at h ⊢
    cases hget : (onPool MemPool.getTx : Engine S TxMemPool (Option Tx)).run c with
    | mk outcome c₁ =>
      have hpool : c.memPool.getTx.2 = c₁.memPool := congrArg (fun r => r.2.memPool) hget
      have hout : c.memPool.getTx.1 = outcome := congrArg Prod.fst hget
      rw [hget] at h
      rw [hout, hpool] at hlt
      cases outcome with
      | panic => exact absurd rfl h
      | err e => exact hlt (by simp)
      | ok x =>
        refine Nat.lt_of_le_of_lt ?_ (hlt (by simp))
        cases x with
        | none => exact Nat.le_refl _
        | some t => exact (Proc.Within.bind (takeTxs_shrinks n) fun _ => .pure _) c₁

variable [Store S]

/-- **An error costs transactions**, unless it is the one that comes before everything else. -/
theorem makeBlock_err [CryptoLib] {ω : Env} {c c' : Consensus S TxMemPool} {e : Err}
    (h : (makeBlock ω).run c = (.err e, c')) :
    c'.memPool.plist.Perm c.memPool.plist ↔ ω.nonce = none := by
  simp only [makeBlock, Proc.run_bind, Proc.run_get] at h
  cases hnonce : ω.nonce with
  | none =>
    simp only [hnonce, Proc.run_lift, Prod.mk.injEq] at h
    rw [← h.2]
    simp
  | some nonce =>
    simp only [hnonce] at h
    split at h
    · exact absurd h (by simp)
    · next hn =>
      have hne : c.memPool.plist ≠ [] := fun hnil => hn (by simp [MemPool.len, hnil])
      have hlt := takeTxs_lt hn hne
      suffices c'.memPool.plist.length < c.memPool.plist.length by
        refine iff_of_false (fun hperm => ?_) (by simp)
        exact absurd hperm.length_eq (Nat.ne_of_lt this)
      rw [Proc.run_bind] at h
      cases htake : (takeTxs (min maxBlockTxCount (MemPool.len c.memPool))).run c with
      | mk outcome c₁ =>
        rw [htake] at h hlt
        cases outcome with
        | panic => exact absurd h (by simp)
        | err e' =>
          obtain rfl := congrArg Prod.snd h
          exact hlt (by simp)
        | ok txs =>
          refine Nat.lt_of_le_of_lt ?_ (hlt (by simp))
          replace h := congrArg Prod.snd h
          subst h
          refine (show Proc.Within Shrinks _ from ?_) c₁
          refine .bind (putTxs_within (fun _ _ => Nat.le_refl _) txs)
            fun _ => .bind (.lift _) fun _ => ?_
          refine .bind (.wrap fun _ => Nat.le_refl _) fun _ => ?_
          exact .bind (.wrap fun _ => Nat.le_refl _) fun _ => .pure _

end Fail
end Consensus
end Didem
