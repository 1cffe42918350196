import Didem.Consensus.Proof.Authentic
import Didem.Consensus.Proof.Restart
import Didem.Genesis.Generate
import Didem.Storage.Proof.Authorised
import Didem.Storage.Proof.DidHistory
import Didem.Storage.Proof.Genesis
import Didem.Storage.Proof.NodeSet

/-!
# A generated network starts

From the generator to the first message: a genesis made by `gengen` survives the configuration, is
accepted by `ApplyGenesis` of an empty store, and leaves every node at height zero with the same
list of nodes; and a message that one of them signs with the key printed for it is let through by
all the others.

The parts are one statement for each of the programs involved: what a run of the generator returns
(`generate_run`), that the configuration reads it back (`MadeFor.buildChainConfig`), that
`ApplyGenesis` succeeds on a genesis whose root fits (`applyGenesis_run`), what the tables of a store
that `Holds` the genesis have in them, and what a peer signs (`onMsg_of_sent`).

The validator is another matter. It would accept nothing of what the generator writes, and the DIDs
that are written can never change (`generated_dids_frozen`).
-/

set_option autoImplicit false

namespace Didem

open Lib Storage

/-! ## The generator -/

/-- The services of a store all answer. -/
structure Answers (ω : Runtime) : Prop where
  put : ∀ c, ω.put c = true
  pin : ∀ c, ω.pin c = true
  commit : ω.commit = true

/-- The libraries work on these keys: what is encoded decodes, and what is signed verifies. -/
structure LibsWork [SigLib] [CryptoLib] [KeyLib] (key : Nat → Bytes) : Prop where
  marshals : ∀ t : Tx, ∃ b, SigLib.marshalTx t = .ok b
  blooms : ∀ l, ∃ b, CryptoLib.makeBloom l = .ok b
  signs : ∀ n msg, ∃ sig, CryptoLib.sign (key n) msg = .ok sig
  text : ∀ n, KeyLib.encodeMultibase (key n) ≠ ""
  decodes : ∀ n, SigLib.multibaseDecode (stringBytes (KeyLib.encodeMultibase (key n))) =
    some (key n)
  scalar : ∀ n, KeyLib.privateKey (key n) = some (key n)
  decodesPublic : ∀ n,
    SigLib.multibaseDecode (stringBytes (KeyLib.encodeMultibase (KeyLib.publicKey (key n)))) =
      some (KeyLib.publicKey (key n))
  point : ∀ n, SigLib.blsPublicKey (KeyLib.publicKey (key n)) = some (KeyLib.publicKey (key n))
  verifies : ∀ n msg sig, CryptoLib.sign (key n) msg = .ok sig →
    SigLib.blsVerify (KeyLib.publicKey (key n)) sig msg = true

/-- A transaction with its signature. -/
def signedWith (sign : Tx → Bytes) (t : Tx) : Tx := { t with signature := sign t }

theorem run_mustRun_of_ok {σ α : Type} {p : Proc Err σ α} {s s' : σ} {a : α}
    (h : p.run s = (.ok a, s')) : (mustRun p).run s = (.ok a, s') := by
  simp only [mustRun, Proc.run] at h ⊢
  rw [h]
  rfl

namespace Gengen

section

variable [Hash] [SigLib]

theorem exists_putTx {ω : Runtime} (hω : Answers ω) {t : Tx} (ht : ∃ b, SigLib.marshalTx t = .ok b)
    (s : IPFSStorage) : ∃ s', s.putTx ω t = (.ok (Hash.sum (.tx t)), s') := by
  obtain ⟨b, hb⟩ := ht
  refine ⟨{ s with objects := s.objects.insert (Hash.sum (.tx t)) (.tx t) }, ?_⟩
  simp [IPFSStorage.putTx, Tx.marshal, hb, Outcome.mapErr, IPFSStorage.putRaw, hω.put]

omit [SigLib] in
theorem exists_putSet {ω : Runtime} (hω : Answers ω) (n : TxSet) (s : IPFSStorage) :
    ∃ c s', s.putSet ω n = (.ok c, s') := by
  refine ⟨Hash.sum (marshalSet n),
    { s with objects := s.objects.insert (Hash.sum (marshalSet n)) (marshalSet n) }, ?_⟩
  simp [IPFSStorage.putSet, IPFSStorage.putRaw, hω.put, hω.pin]

variable [CryptoLib] [KeyLib] {γ : GenEnv}

/-- All transactions are signed and stored, in their order. -/
theorem signTxs_run (hω : Answers γ.toRuntime) (hlib : LibsWork γ.key) (n : Nat) :
    ∃ sign : Tx → Bytes, ∀ (ts : List Tx) (s : IPFSStorage), ∃ s',
      (signTxs γ.toRuntime (γ.key n) ts).run s =
        (.ok (ts.map (signedWith sign), (ts.map (signedWith sign)).map fun t => Hash.sum (.tx t)),
          s') := by
  choose msg hmsg using hlib.marshals
  choose sig hsig using hlib.signs n
  refine ⟨fun t => sig (msg t), fun ts => ?_⟩
  induction ts with
  | nil => exact fun s => ⟨s, rfl⟩
  | cons t ts ih =>
    intro s
    obtain ⟨s₁, hput⟩ := exists_putTx hω (hlib.marshals { t with signature := sig (msg t) }) s
    obtain ⟨s', hrun⟩ := ih s₁
    refine ⟨s', ?_⟩
    have hmarshal : t.marshal = .ok (msg t) := by rw [Tx.marshal, hmsg]; rfl
    rw [signTxs]
    simp only [Proc.run_bind, Proc.run_lift, hmarshal, must, hsig]
    rw [run_mustRun_of_ok (p := IPFSStorage.putTx γ.toRuntime _) hput]
    simp only [hrun]
    rfl

/-- A block without a parent, over CIDs that are not too many. -/
theorem newBlock_run [CidText] (hω : Answers γ.toRuntime) (hlib : LibsWork γ.key)
    (hnonce : γ.nonce.isSome = true) {txs : List Cid} (hne : txs ≠ [])
    (hlen : txs.length ≤ maxBlockTxCount) (s : IPFSStorage) :
    ∃ b root s', (newBlock γ.toEnv .undef txs).run s = (.ok b, s') ∧
      newTxSet (IPFSStorage.putSet γ.toRuntime) txs s = (.ok root, s') ∧
      b.txRoot = root.cid ∧ b.height = 0 ∧ b.id = .undef ∧ b.parent = .undef := by
  obtain ⟨nonce, hnonce⟩ := Option.isSome_iff_exists.mp hnonce
  obtain ⟨bloom, hbloom⟩ := hlib.blooms txs
  obtain ⟨root, s', hroot⟩ := exists_newTxSet (exists_putSet hω) hne hlen s
  refine ⟨{ version := blockVersion, height := 0, createdAt := γ.now, nonce, bloom
            txRoot := root.cid }, root, s', ?_, hroot, rfl, rfl, rfl, rfl⟩
  have hset : (Proc.wrap (·.wrap "making tx set") (newTxSet (Store.putSet γ.toRuntime) txs) :
      Proc Err IPFSStorage TxSet).run s = (.ok root, s') := by
    show (Outcome.mapErr _ (newTxSet (IPFSStorage.putSet γ.toRuntime) txs s).1,
      (newTxSet (IPFSStorage.putSet γ.toRuntime) txs s).2) = _
    rw [hroot]
    rfl
  simp only [newBlock, heightAfter, if_true, hnonce, Proc.run_bind, Proc.run_pure, Proc.run_lift,
    hbloom, Outcome.mapErr, hset]

/-- The peers, with their keys. -/
def peers (γ : GenEnv) (text : String) : List Identity :=
  identitiesFrom γ.key 0 (splitComma text)

/-- A genesis made for these peers. -/
structure MadeFor (is : List Identity) (clock : Nat → Int) (g : GenesisInfo) : Prop where
  chain : g.chainID = chainID
  txs : ∃ sign, g.txs = (txsFrom clock 0 is).map (signedWith sign)
  /-- The root is the one of its transactions. -/
  root : ∃ (ω : Runtime) (s₁ s₂ : IPFSStorage) (root : TxSet),
    newTxSet (IPFSStorage.putSet ω) (g.txs.map fun t => Hash.sum (.tx t)) s₁ = (.ok root, s₂) ∧
      root.cid = g.block.txRoot
  height : g.block.height = 0
  id : g.block.id = .undef
  parent : g.block.parent = .undef

end

section

theorem length_txsFrom (clock : Nat → Int) (n : Nat) (is : List Identity) :
    (txsFrom clock n is).length = 2 * is.length := by
  induction is generalizing n with
  | nil => rfl
  | cons i is ih => simp only [txsFrom, List.length_cons, ih]; omega

theorem mem_txsFrom {clock : Nat → Int} {n : Nat} {is : List Identity} {t : Tx}
    (h : t ∈ txsFrom clock n is) : ∃ i ∈ is, ∃ ts, t = didTx ts i ∨ t = nodeTx ts i := by
  induction is generalizing n with
  | nil => exact absurd h List.not_mem_nil
  | cons i is ih =>
    rw [txsFrom, List.mem_cons, List.mem_cons] at h
    rcases h with rfl | rfl | h
    · exact ⟨i, List.mem_cons_self, _, .inl rfl⟩
    · exact ⟨i, List.mem_cons_self, _, .inr rfl⟩
    · obtain ⟨j, hj, hts⟩ := ih h
      exact ⟨j, List.mem_cons_of_mem i hj, hts⟩

theorem txs_mem_txsFrom (clock : Nat → Int) (n : Nat) {is : List Identity} {i : Identity}
    (h : i ∈ is) : ∃ ts ts', didTx ts i ∈ txsFrom clock n is ∧ nodeTx ts' i ∈ txsFrom clock n is := by
  induction is generalizing n with
  | nil => exact absurd h List.not_mem_nil
  | cons j is ih =>
    rcases List.mem_cons.mp h with rfl | h
    · exact ⟨clock n, clock (n + 1), by simp [txsFrom], by simp [txsFrom]⟩
    · obtain ⟨ts, ts', hdid, hnode⟩ := ih (n + 2) h
      exact ⟨ts, ts', by simp [txsFrom, hdid], by simp [txsFrom, hnode]⟩

theorem pID_of_didOf {i j : Identity} (h : didOf i = didOf j) : i.pID = j.pID := by
  have hlist := congrArg String.toList h
  simp only [didOf, String.toList_append] at hlist
  exact String.toList_inj.mp (List.append_cancel_left hlist)

theorem splitComma_ne_nil (text : String) : splitComma text ≠ [] := by
  simp [splitComma, List.splitOn_ne_nil]

variable [KeyLib]

theorem map_pID_identitiesFrom (key : Nat → Bytes) (n : Nat) (idents : List String) :
    (identitiesFrom key n idents).map Identity.pID = idents := by
  induction idents generalizing n with
  | nil => rfl
  | cons ident idents ih => simp only [identitiesFrom, List.map_cons, ih]

/-- Every peer has one of the keys. -/
theorem key_of_mem_identitiesFrom {key : Nat → Bytes} {n : Nat} {idents : List String}
    {i : Identity} (h : i ∈ identitiesFrom key n idents) :
    ∃ k, i.blsSk = key k ∧ i.blsPKMB = KeyLib.encodeMultibase (KeyLib.publicKey (key k)) := by
  induction idents generalizing n with
  | nil => exact absurd h List.not_mem_nil
  | cons ident idents ih =>
    rcases List.mem_cons.mp h with rfl | h
    · exact ⟨n, rfl, rfl⟩
    · exact ih h

variable [CidText] [Hash] [SigLib] [CryptoLib] {γ : GenEnv}

/-- **A run of the generator**, for peers whose transactions fit into one block. -/
theorem generate_run (hω : Answers γ.toRuntime) (hlib : LibsWork γ.key)
    (hnonce : γ.nonce.isSome = true) {text : String}
    (hlen : 2 * (splitComma text).length ≤ maxBlockTxCount) (s : IPFSStorage) :
    ∃ g s', (generate γ text).run s = (.ok (g, peers γ text), s') ∧
      MadeFor (peers γ text) γ.clock g := by
  have hpeers : (peers γ text).length = (splitComma text).length := by
    rw [← List.length_map Identity.pID, peers, map_pID_identitiesFrom]
  obtain ⟨sign, hsign⟩ := signTxs_run hω hlib 0
  obtain ⟨s₁, htxs⟩ := hsign (txsFrom γ.clock 0 (peers γ text)) s
  set txs := (txsFrom γ.clock 0 (peers γ text)).map (signedWith sign) with htxs_eq
  have hcount : txs.length = 2 * (splitComma text).length := by
    rw [htxs_eq, List.length_map, length_txsFrom, hpeers]
  obtain ⟨ident, idents, hsplit⟩ := List.exists_cons_of_ne_nil (splitComma_ne_nil text)
  have hsome : (txs.map fun t => Hash.sum (.tx t)) ≠ [] := by
    rw [← List.length_pos_iff, List.length_map, hcount, hsplit, List.length_cons]
    omega
  obtain ⟨b, root, s₂, hblock, hroot, hcid, hheight, hid, hparent⟩ :=
    newBlock_run hω hlib hnonce hsome (by rw [List.length_map, hcount]; exact hlen) s₁
  obtain ⟨sig, hsig⟩ := hlib.signs 0 (KeyLib.encodeBlock b)
  refine ⟨{ chainID, block := { b with signature := sig }, txs }, s₂, ?_, rfl, ⟨sign, htxs_eq⟩,
    ⟨γ.toRuntime, s₁, s₂, root, hroot, hcid.symm⟩, hheight, hid, hparent⟩
  have hfirst : peers γ text = { blsSk := γ.key 0
                                 blsPKMB := KeyLib.encodeMultibase (KeyLib.publicKey (γ.key 0))
                                 pID := ident } :: identitiesFrom γ.key 1 idents := by
    rw [peers, hsplit, identitiesFrom]
  rw [generate, ← peers]
  rw [hfirst] at htxs ⊢
  simp only [Proc.run_bind, htxs, run_mustRun_of_ok hblock, Proc.run_lift, hsig, must, Proc.run_pure]

end
end Gengen

/-! ## `ApplyGenesis` -/

namespace Storage.IPFSStorage

section

variable [CidText] [Hash] [SigLib]

/-- The loop of `ApplyGenesis` gets through, and its transactions can then be read. -/
theorem applyGenesisTxs_run (hinj : Function.Injective (Hash.sum : Obj → Cid)) {ω : Runtime}
    (hω : Answers ω) {ts : List Tx} (hmarshals : ∀ t ∈ ts, ∃ b, SigLib.marshalTx t = .ok b)
    (htyped : ∀ t ∈ ts, t.wellTyped = true)
    (happly : ∀ t ∈ ts, (applyTxTo (Hash.sum (.tx t)) t).1 = .ok ()) {s : IPFSStorage}
    (hs : Addressed s.objects) :
    ∃ cids batch s', applyGenesisTxs ω ts s = (.ok (cids, batch), s') ∧ Addressed s'.objects ∧
      Keeps s s' ∧ ∀ t ∈ ts, s'.getTx (Hash.sum (.tx t)) = .ok t := by
  induction ts generalizing s with
  | nil => exact ⟨[], [], s, rfl, hs, .refl s, fun t ht => absurd ht List.not_mem_nil⟩
  | cons t ts ih =>
    obtain ⟨s₁, hput⟩ := Gengen.exists_putTx hω (hmarshals t List.mem_cons_self) s
    have hcontent := contentStore hinj
    obtain ⟨hs₁, hkeep₁⟩ := hcontent.putTx ω t s hs
    have hstored : Store.getTx s₁ (Hash.sum (.tx t)) = .ok t :=
      hcontent.getTx_putTx hs hput (htyped t List.mem_cons_self)
    rw [show (Store.putTx ω t s).2 = s₁ from congrArg Prod.snd hput] at hs₁ hkeep₁
    obtain ⟨cids, batch, s', hrun, hs', hkeep, hall⟩ :=
      ih (fun t ht => hmarshals t (List.mem_cons_of_mem _ ht))
        (fun t ht => htyped t (List.mem_cons_of_mem _ ht))
        (fun t ht => happly t (List.mem_cons_of_mem _ ht)) hs₁
    refine ⟨Hash.sum (.tx t) :: cids, (applyTxTo (Hash.sum (.tx t)) t).2 ++ batch, s', ?_, hs',
      hkeep₁.trans hkeep, ?_⟩
    · have hone : applyTxTo (Hash.sum (.tx t)) t = (.ok (), (applyTxTo (Hash.sum (.tx t)) t).2) :=
        Prod.ext (happly t List.mem_cons_self) rfl
      rw [applyGenesisTxs, hput]
      simp only
      rw [hone, hrun]
      rfl
    · intro t' ht'
      rcases List.mem_cons.mp ht' with rfl | ht'
      · exact hkeep.getTx hstored
      · exact hall t' ht'

omit [CidText] [Hash] [SigLib] in
/-- A set is built of a list that has something in it and is not too long. -/
theorem bounds_of_newTxSet {S : Type} {put : TxSet → S → Outcome Err Cid × S} {l : List Cid}
    {root : TxSet} {s s' : S} (h : newTxSet put l s = (.ok root, s')) :
    l ≠ [] ∧ l.length ≤ maxBlockTxCount := by
  constructor
  · rintro rfl
    simp [newTxSet, putSets, reduceSets] at h
  · by_contra hlong
    simp [newTxSet, List.length_insertionSort, not_le.mp hlong] at h

/-- Its root has a CID. -/
theorem newTxSet_ne_undef (hinj : Function.Injective (Hash.sum : Obj → Cid)) {ω : Runtime}
    {l : List Cid} {root : TxSet} {s s' : IPFSStorage}
    (h : newTxSet (putSet ω) l s = (.ok root, s')) : root.cid ≠ .undef := by
  have hne : ∀ n : TxSet, Hash.sum (marshalSet n) ≠ .undef := fun n hn =>
    Hash.sum_ne_undef _ (congrArg Cid.str hn)
  obtain ⟨-, -, ts, htree, -⟩ := newTxSet_tree (contentAddressed ω).puts
    (by
      intro s n m c hn hm
      simpa [marshalSet] using hinj (hn.symm.trans hm)) trivial (fun _ _ => trivial) h
  cases htree with
  | leaf hleaf => exact fun hundef => hne _ (hleaf.symm.trans hundef)
  | node hnode _ _ => exact fun hundef => hne _ (hnode.symm.trans hundef)

/-- **`ApplyGenesis` succeeds** on transactions it can index, if the block has their root. The
genesis can then be read, and is the last block. -/
theorem applyGenesis_run (hinj : Function.Injective (Hash.sum : Obj → Cid)) {ω : Runtime}
    (hω : Answers ω) {g : GenesisInfo} (hmarshals : ∀ t ∈ g.txs, ∃ b, SigLib.marshalTx t = .ok b)
    (htyped : ∀ t ∈ g.txs, t.wellTyped = true)
    (happly : ∀ t ∈ g.txs, (applyTxTo (Hash.sum (.tx t)) t).1 = .ok ())
    {ω₀ : Runtime} {s₁ s₂ : IPFSStorage} {root : TxSet}
    (hroot : newTxSet (putSet ω₀) (g.txs.map fun t => Hash.sum (.tx t)) s₁ = (.ok root, s₂))
    (hcid : root.cid = g.block.txRoot) {s : IPFSStorage} (hs : Addressed s.objects) :
    ∃ s', s.applyGenesis ω g = (.ok (), s') ∧
      s'.metadata = Write.applyAll s.metadata (genesisBatch g) ∧
      s'.pfTipApply = s.pfTipApply ∧
      (∀ t ∈ g.txs, s'.getTx (Hash.sum (.tx t)) = .ok t) ∧
      s'.getBlock (Hash.sum (marshalBlock g.block)) =
        .ok { g.block.bare with id := Hash.sum (marshalBlock g.block) } := by
  have hcontent := contentStore hinj
  obtain ⟨cids, batch, s₃, htxs, hs₃, -, hread⟩ :=
    applyGenesisTxs_run hinj hω hmarshals htyped happly hs
  obtain ⟨rfl, rfl, -⟩ := applyGenesisTxs_eq_ok htxs
  have hentries : (genesisEntries g.txs).map Sigma.fst = g.txs.map fun t => Hash.sum (.tx t) := by
    simp [genesisEntries]
  have hmeta : SameMetadata s s₃ := by
    have := applyGenesisTxs_within (R := SameMetadata) (sameMetadata_putTx ω) g.txs s
    rwa [htxs] at this
  -- the set is built again, over the same CIDs
  obtain ⟨hne, hlen⟩ := bounds_of_newTxSet hroot
  obtain ⟨root', s₄, hroot'⟩ := exists_newTxSet (Gengen.exists_putSet hω) hne hlen s₃
  have hcid' : root'.cid = g.block.txRoot := (newTxSet_cid_eq hroot' hroot).trans hcid
  have hfilled : Chronicle.Filled s₃ s₄ := by
    have := newTxSet_within (R := Chronicle.Filled)
      (fun n s => ⟨sameMetadata_putSet ω n s, hcontent.putSet ω n s⟩)
      (g.txs.map fun t => Hash.sum (.tx t)) s₃
    rwa [hroot'] at this
  obtain ⟨hs₄, hkeep₄⟩ := hfilled.2 hs₃
  set c := Hash.sum (marshalBlock g.block)
  have hblock : s₄.putBlock ω g.block =
      (.ok c, { s₄ with objects := s₄.objects.insert c (marshalBlock g.block) }) :=
    putRaw_eq_ok.mpr ⟨hω.put _, rfl, rfl⟩
  have hkeep₅ := (hcontent.putBlock ω g.block s₄ hs₄).2
  rw [show Store.putBlock ω g.block s₄ = _ from hblock] at hkeep₅
  refine ⟨{ s₄ with
    objects := s₄.objects.insert c (marshalBlock g.block)
    metadata := Write.applyAll s.metadata (genesisBatch g) }, ?_, rfl, ?_, ?_, ?_⟩
  · rw [applyGenesis, htxs]
    simp only [hentries, hroot', hcid', ne_eq, not_true, if_false, hblock, hω.commit, if_true,
      genesisBatch]
    rw [hfilled.1.metadata, hmeta.metadata]
  · exact hfilled.1.pfTipApply.trans hmeta.pfTipApply
  · intro t ht
    exact hkeep₅.getTx (hkeep₄.getTx (hread t ht))
  · have hread := getBlock_putBlock (hcid' ▸ newTxSet_ne_undef hinj hroot') hblock
    exact (congrFun (getBlock_congr rfl) c).trans hread

/-! ## The tables -/

section Fold

variable {named : TxEntry → Option String} {val : TxEntry → Option MetaVal}
  {f : Pointers → TxEntry → Pointers} (hf : ∀ index e, f index e =
    match named e with
    | some name => Function.update index name (val e)
    | none => index)

include hf

omit [CidText] [Hash] [SigLib] in
/-- The entry of a name is what the last transaction about it left. -/
theorem foldl_apply_of_named {es : List TxEntry} {name : String} (index : Pointers)
    (h : ∃ e ∈ es, named e = some name) :
    ∃ e ∈ es, named e = some name ∧ es.foldl f index name = val e := by
  induction es using List.reverseRecOn with
  | nil => obtain ⟨e, he, -⟩ := h; exact absurd he List.not_mem_nil
  | append_singleton es last ih =>
    rw [List.foldl_append, List.foldl_cons, List.foldl_nil, hf]
    by_cases hlast : named last = some name
    · refine ⟨last, by simp, hlast, ?_⟩
      simp [hlast]
    · obtain ⟨e, he, hname⟩ := h
      have hold : e ∈ es := by
        rcases List.mem_append.mp he with hold | hnew
        · exact hold
        · exact absurd hname (by rwa [List.mem_singleton.mp hnew])
      obtain ⟨e', he', hname', hval⟩ := ih ⟨e, hold, hname⟩
      refine ⟨e', List.mem_append_left _ he', hname', ?_⟩
      rw [← hval]
      cases hn : named last with
      | none => rfl
      | some i => exact Function.update_of_ne (fun hi => hlast (hn.trans (congrArg some hi.symm))) ..

omit [CidText] [Hash] [SigLib] in
/-- Or what it was, if none is. -/
theorem foldl_apply_of_not_named {es : List TxEntry} {name : String} (index : Pointers)
    (h : ∀ e ∈ es, named e ≠ some name) : es.foldl f index name = index name := by
  induction es generalizing index with
  | nil => rfl
  | cons e es ih =>
    rw [List.foldl_cons, ih _ fun e' he' => h e' (List.mem_cons_of_mem _ he'), hf]
    cases hn : named e with
    | none => rfl
    | some i =>
      refine Function.update_of_ne (fun hi => h e List.mem_cons_self ?_) ..
      rw [hn, hi]

end Fold

omit [SigLib] in
/-- The keys of the node table are keys of nodes. -/
theorem key_of_genesisBatch {g : GenesisInfo} {key : Bytes} {v : MetaVal}
    (hhead : key.head? = some MetadataKeyType.nodes.byte)
    (hv : (Write.applyAll ∅ (genesisBatch g)).lookup key = some v) :
    ∃ name, key = typedKey .nodes [name] := by
  by_contra hne
  have hnone : ∀ w ∈ genesisBatch g, w.key ≠ key := by
    rintro w hw rfl
    rcases List.mem_append.mp hw with hw | hw
    · obtain ⟨e, -, hw⟩ := List.mem_flatMap.mp hw
      have hK : InTables w.key := by rw [InTables, hhead]; decide
      rcases key_of_mem_applyTxTo hw hK with ⟨d, -, hk⟩ | ⟨i, -, hk⟩
      · rw [hk] at hhead
        exact absurd hhead (by simp [MetadataKeyType.byte])
      · exact hne ⟨i, hk⟩
    · simp only [List.mem_cons, List.not_mem_nil, or_false] at hw
      rcases hw with rfl | rfl <;> exact absurd hhead (by simp [MetadataKeyType.byte])
  rw [Write.lookup_applyAll_of_notMem hnone] at hv
  exact absurd hv (by simp)

end
end Storage.IPFSStorage

namespace Gengen

section

variable [CidText] [Hash] [SigLib] {is : List Identity} {clock : Nat → Int} {g : GenesisInfo}

omit [CidText] [SigLib] in
/-- A transaction of the genesis is one of the two of a peer. -/
theorem MadeFor.mem_txs (h : MadeFor is clock g) {t : Tx} (ht : t ∈ g.txs) :
    ∃ i ∈ is, ∃ ts sig, t = { didTx ts i with signature := sig } ∨
      t = { nodeTx ts i with signature := sig } := by
  obtain ⟨sign, htxs⟩ := h.txs
  rw [htxs] at ht
  obtain ⟨t₀, ht₀, rfl⟩ := List.mem_map.mp ht
  obtain ⟨i, hi, ts, rfl | rfl⟩ := mem_txsFrom ht₀
  · exact ⟨i, hi, ts, _, .inl rfl⟩
  · exact ⟨i, hi, ts, _, .inr rfl⟩

omit [CidText] [SigLib] in
theorem MadeFor.wellTyped (h : MadeFor is clock g) {t : Tx} (ht : t ∈ g.txs) :
    t.wellTyped = true := by
  obtain ⟨i, -, ts, sig, rfl | rfl⟩ := h.mem_txs ht <;> rfl

omit [SigLib] in
theorem MadeFor.applies (h : MadeFor is clock g) {t : Tx} (ht : t ∈ g.txs) :
    (IPFSStorage.applyTxTo (Hash.sum (.tx t)) t).1 = .ok () := by
  obtain ⟨i, -, ts, sig, rfl | rfl⟩ := h.mem_txs ht <;> rfl

omit [CidText] [SigLib] in
/-- The entries of the genesis that are about a node are about a peer, and register it. -/
theorem MadeFor.node_entry (h : MadeFor is clock g) {e : TxEntry}
    (he : e ∈ IPFSStorage.genesisEntries g.txs) {name : String} (hname : nodeOf e = some name) :
    ∃ i ∈ is, i.pID = name ∧ e.2.type = .node ∧ e.2.action = .add ∧
      e.2.data = some (.node (node i)) := by
  obtain ⟨t, ht, rfl⟩ := List.mem_map.mp he
  obtain ⟨i, hi, ts, sig, rfl | rfl⟩ := h.mem_txs ht
  · exact absurd hname (by simp [nodeOf, didTx])
  · exact ⟨i, hi, Option.some.inj hname, rfl, rfl, rfl⟩

omit [CidText] [SigLib] in
/-- Those about a DID add the document of a peer. -/
theorem MadeFor.did_entry (h : MadeFor is clock g) {e : TxEntry}
    (he : e ∈ IPFSStorage.genesisEntries g.txs) {d : String} (hd : Storage.didOf e = some d) :
    ∃ i ∈ is, didOf i = d ∧ e.2.type = .did ∧ e.2.action = .add ∧
      e.2.data = some (.did (some (document i))) := by
  obtain ⟨t, ht, rfl⟩ := List.mem_map.mp he
  obtain ⟨i, hi, ts, sig, rfl | rfl⟩ := h.mem_txs ht
  · exact ⟨i, hi, Option.some.inj hd, rfl, rfl, rfl⟩
  · exact absurd hd (by simp [Storage.didOf, nodeTx])

omit [CidText] [SigLib] in
/-- Every peer has one of each. -/
theorem MadeFor.exists_entry (h : MadeFor is clock g) {i : Identity} (hi : i ∈ is) :
    ∃ e ∈ IPFSStorage.genesisEntries g.txs, nodeOf e = some i.pID := by
  obtain ⟨sign, htxs⟩ := h.txs
  obtain ⟨-, ts, -, hts⟩ := txs_mem_txsFrom clock 0 hi
  refine ⟨⟨_, signedWith sign (nodeTx ts i)⟩, List.mem_map_of_mem ?_, rfl⟩
  rw [htxs]
  exact List.mem_map_of_mem hts

omit [CidText] [SigLib] in
theorem MadeFor.exists_didEntry (h : MadeFor is clock g) {i : Identity} (hi : i ∈ is) :
    ∃ e ∈ IPFSStorage.genesisEntries g.txs, Storage.didOf e = some (didOf i) := by
  obtain ⟨sign, htxs⟩ := h.txs
  obtain ⟨ts, -, hts, -⟩ := txs_mem_txsFrom clock 0 hi
  refine ⟨⟨_, signedWith sign (didTx ts i)⟩, List.mem_map_of_mem ?_, rfl⟩
  rw [htxs]
  exact List.mem_map_of_mem hts

/-- The store of a node that has the genesis. -/
structure Holds (g : GenesisInfo) (s : IPFSStorage) : Prop where
  metadata : s.metadata = Write.applyAll ∅ (IPFSStorage.genesisBatch g)
  outside : s.pfTipApply = none
  txs : ∀ t ∈ g.txs, s.getTx (Hash.sum (.tx t)) = .ok t
  block : s.getBlock (Hash.sum (marshalBlock g.block)) =
    .ok { g.block.bare with id := Hash.sum (marshalBlock g.block) }

omit [SigLib] in
theorem MadeFor.entry_applies (h : MadeFor is clock g) {e : TxEntry}
    (he : e ∈ IPFSStorage.genesisEntries g.txs) : (IPFSStorage.applyTxTo e.1 e.2).1 = .ok () := by
  obtain ⟨t, ht, rfl⟩ := List.mem_map.mp he
  exact h.applies ht

omit [SigLib] in
/-- Where the node table points to. -/
theorem Holds.nodeIndex {s : IPFSStorage} (hs : Holds g s) (h : MadeFor is clock g) :
    s.nodeIndex = (IPFSStorage.genesisEntries g.txs).foldl Pointers.applyNode fun _ => none :=
  IPFSStorage.index_of_batch (s := {}) (by simp) (by simp)
    (fun _ he => IPFSStorage.lookup_applyTxTo_node (h.entry_applies he)) rfl hs.outside hs.metadata

omit [SigLib] in
/-- Where the DID table points to. -/
theorem Holds.didIndex {s : IPFSStorage} (hs : Holds g s) (h : MadeFor is clock g) :
    s.didIndex = (IPFSStorage.genesisEntries g.txs).foldl Pointers.applyDid fun _ => none :=
  IPFSStorage.index_of_batch (s := {}) (by simp) (by simp)
    (fun _ he => IPFSStorage.lookup_applyTxTo_did (h.entry_applies he)) rfl hs.outside hs.metadata

omit [SigLib] in
/-- What the tables point to can be read. -/
theorem Holds.getTx {s : IPFSStorage} (hs : Holds g s) {e : TxEntry}
    (he : e ∈ IPFSStorage.genesisEntries g.txs) :
    s.getTx e.1 = .ok e.2 ∧ castCid (.cid e.1) = some e.1 := by
  obtain ⟨t, ht, rfl⟩ := List.mem_map.mp he
  exact ⟨hs.txs t ht, if_neg fun hundef => Hash.sum_ne_undef _ (congrArg Cid.str hundef)⟩

/-- **`Node` returns what the generator registered**, if no two peers have the same name. -/
theorem Holds.node {s : IPFSStorage} (hs : Holds g s) (h : MadeFor is clock g)
    (hnodup : (is.map Identity.pID).Nodup) {i : Identity} (hi : i ∈ is) :
    Store.node s i.pID = .ok (node i) := by
  obtain ⟨e, he, hname, hval⟩ := IPFSStorage.foldl_apply_of_named (f := Pointers.applyNode)
    (fun _ _ => rfl) (fun _ => none) (h.exists_entry hi)
  obtain ⟨j, hj, hpid, htype, haction, hdata⟩ := h.node_entry he hname
  obtain rfl : j = i := List.inj_on_of_nodup_map hnodup hj hi hpid
  have hget : s.metadataGet (typedKey .nodes [j.pID]) = some (.cid e.1) := by
    refine (congrFun (hs.nodeIndex h) j.pID).trans (hval.trans ?_)
    rw [IPFSStorage.nodeVal, if_pos haction]
  obtain ⟨htx, hcast⟩ := hs.getTx he
  simp [Store.node, IPFSStorage.node, hget, hcast, htx, Outcome.mapErr, htype, haction, hdata]

/-- **`LookupDID` returns the generated document**, likewise. -/
theorem Holds.lookupDID {s : IPFSStorage} (hs : Holds g s) (h : MadeFor is clock g)
    (hnodup : (is.map Identity.pID).Nodup) {i : Identity} (hi : i ∈ is) :
    Store.lookupDID s (didOf i) = .ok (some (document i)) := by
  obtain ⟨e, he, hname, hval⟩ := IPFSStorage.foldl_apply_of_named (f := Pointers.applyDid)
    (fun _ _ => rfl) (fun _ => none) (h.exists_didEntry hi)
  obtain ⟨j, hj, hdid, htype, haction, hdata⟩ := h.did_entry he hname
  obtain rfl : j = i := List.inj_on_of_nodup_map hnodup hj hi (pID_of_didOf hdid)
  have hget : s.metadataGet (typedKey .did [didOf j]) = some (.cid e.1) := by
    refine (congrFun (hs.didIndex h) (didOf j)).trans (hval.trans ?_)
    rw [IPFSStorage.didVal, if_neg (by simp [haction])]
  obtain ⟨htx, hcast⟩ := hs.getTx he
  simp [Store.lookupDID, IPFSStorage.lookupDID, hget, hcast, htx, Outcome.mapErr, htype, hdata]

/-- **`Nodes` lists the peers.** -/
theorem Holds.nodes {s : IPFSStorage} (hs : Holds g s) (h : MadeFor is clock g) :
    Store.nodes s = .ok (sortedList (is.map Identity.pID).toFinset) := by
  show IPFSStorage.nodes s = _
  rw [IPFSStorage.nodes]
  congr 2
  have hview : s.view = Write.applyAll ∅ (IPFSStorage.genesisBatch g) := by
    simp only [IPFSStorage.view, hs.outside, hs.metadata]
  ext name
  simp only [Finset.mem_image, Finset.mem_filter, Finmap.mem_keys, ← Finmap.lookup_isSome,
    List.mem_toFinset, List.mem_map]
  constructor
  · rintro ⟨key, ⟨hsome, hhead⟩, rfl⟩
    obtain ⟨v, hv⟩ := Option.isSome_iff_exists.mp hsome
    rw [hview] at hv
    obtain ⟨name, rfl⟩ := IPFSStorage.key_of_genesisBatch hhead hv
    rw [nodeOfKey_typedKey]
    by_contra hno
    have hnone : s.metadataGet (typedKey .nodes [name]) = none :=
      (congrFun (hs.nodeIndex h) name).trans <|
        IPFSStorage.foldl_apply_of_not_named (f := Pointers.applyNode) (fun _ _ => rfl) _
          fun e he hname => by
            obtain ⟨i, hi, hpid, -⟩ := h.node_entry he hname
            exact hno ⟨i, hi, hpid⟩
    rw [IPFSStorage.metadataGet, hview, hv] at hnone
    cases hnone
  · rintro ⟨i, hi, rfl⟩
    obtain ⟨e, he, hname, hval⟩ := IPFSStorage.foldl_apply_of_named (f := Pointers.applyNode)
      (fun _ _ => rfl) (fun _ => none) (h.exists_entry hi)
    obtain ⟨-, -, -, -, haction, -⟩ := h.node_entry he hname
    refine ⟨typedKey .nodes [i.pID], ⟨?_, IPFSStorage.head_typedKey .nodes _⟩,
      nodeOfKey_typedKey i.pID⟩
    have hget : s.metadataGet (typedKey .nodes [i.pID]) = _ :=
      (congrFun (hs.nodeIndex h) i.pID).trans hval
    rw [IPFSStorage.nodeVal, if_pos haction, IPFSStorage.metadataGet] at hget
    rw [hget]
    rfl

/-- **The last block is the genesis.** -/
theorem Holds.getLastApplied {s : IPFSStorage} (hs : Holds g s) :
    Store.getLastApplied s =
      .ok (some { g.block.bare with id := Hash.sum (marshalBlock g.block) }) := by
  have hlatest : s.metadataGet (typedKey .latestBlock []) =
      some (.cid (Hash.sum (marshalBlock g.block))) := by
    rw [IPFSStorage.metadataGet_of_not_testing hs.outside, hs.metadata,
      (IPFSStorage.lookup_genesisBatch_last g ∅).1]
  have hcast : castCid (.cid (Hash.sum (marshalBlock g.block))) =
      some (Hash.sum (marshalBlock g.block)) :=
    if_neg fun hundef => Hash.sum_ne_undef _ (congrArg Cid.str hundef)
  show IPFSStorage.getLastApplied s = _
  simp [IPFSStorage.getLastApplied, hlatest, hcast, hs.block]

end
end Gengen

/-! ## The start of a node -/

section

variable [SigLib]

theorem remarshalAll_eq_self {ts : List Tx} (hmarshals : ∀ t ∈ ts, ∃ b, SigLib.marshalTx t = .ok b)
    (htyped : ∀ t ∈ ts, t.wellTyped = true) : remarshalAll ts = .ok ts := by
  induction ts with
  | nil => rfl
  | cons t ts ih =>
    obtain ⟨b, hb⟩ := hmarshals t List.mem_cons_self
    have hone : remarshal t = .ok t := by
      simp [remarshal, Tx.marshal, hb, Outcome.mapErr,
        unmarshalTx_of_wellTyped (htyped t List.mem_cons_self)]
    rw [remarshalAll, hone, ih (fun t ht => hmarshals t (List.mem_cons_of_mem _ ht))
      fun t ht => htyped t (List.mem_cons_of_mem _ ht)]
    rfl

end

namespace Gengen

section

variable [CidText] [Hash] [SigLib] [CryptoLib] [KeyLib] {key : Nat → Bytes} {is : List Identity}
  {clock : Nat → Int} {g : GenesisInfo}

/-- **The configuration reads what the generator printed.** -/
theorem MadeFor.buildChainConfig (hinj : Function.Injective (Hash.sum : Obj → Cid))
    (hlib : LibsWork key) (h : MadeFor is clock g) (sk : String) :
    buildChainConfig (some g) sk = .ok { genesis := g, key := sk } := by
  obtain ⟨ω, s₁, s₂, root, hroot, hcid⟩ := h.root
  have hblock : unmarshalBlock (marshalBlock g.block) = .ok g.block := by
    rw [unmarshalBlock_marshalBlock (hcid ▸ IPFSStorage.newTxSet_ne_undef hinj hroot), Block.bare,
      ← h.id]
    nth_rewrite 2 [h.id]
    rw [← h.parent]
  simp [Didem.buildChainConfig, hblock, Outcome.mapErr,
    remarshalAll_eq_self (fun t _ => hlib.marshals t) fun t => h.wellTyped]

/-- **A node starts** with the key printed for it, on an empty store. -/
theorem MadeFor.newHandler_run {M : Type} (hinj : Function.Injective (Hash.sum : Obj → Cid))
    (hlib : LibsWork key) (h : MadeFor is clock g) {ω : Runtime} (hω : Answers ω) (id : String)
    (n : Nat) (memPool : M) :
    ∃ s, Holds g s ∧
      (newHandler ω id { genesis := g, key := KeyLib.encodeMultibase (key n) } memPool).run {} =
        (.ok (some (.boot (stringBytes chainID) id (some (key n)) memPool s
          (some { g.block.bare with id := Hash.sum (marshalBlock g.block) }))), s) := by
  obtain ⟨ω₀, s₁, s₂, root, hroot, hcid⟩ := h.root
  obtain ⟨s, happly, hmeta, htest, htxs, hblock⟩ := IPFSStorage.applyGenesis_run hinj hω
    (fun t _ => hlib.marshals t) (fun t => h.wellTyped) (fun t => h.applies) hroot hcid
    (s := {}) addressed_empty
  have hs : Holds g s := ⟨hmeta, htest, htxs, hblock⟩
  refine ⟨s, hs, ?_⟩
  have hens : (Consensus.ensureGenesis ω (some g)).run ({} : IPFSStorage) = (.ok (), s) := by
    have hnew : Store.hasGenesisApplied ({} : IPFSStorage) = false := rfl
    simp only [Consensus.ensureGenesis, Proc.run_bind, Proc.run_get, hnew, Bool.false_eq_true,
      if_false]
    show (Outcome.mapErr _ (IPFSStorage.applyGenesis ω g {}).1,
      (IPFSStorage.applyGenesis ω g {}).2) = _
    rw [happly]
    rfl
  have hstart : (Consensus.newConsensus ω id { signingKey := some (key n), genesis := some g }
      memPool).run ({} : IPFSStorage) = _ :=
    Consensus.newConsensus_eq_ok.mpr ⟨hens, _, hs.getLastApplied, rfl⟩
  have hchain : g.chainID ≠ "" := by rw [h.chain]; decide
  have hkey : signingKeyOf (KeyLib.encodeMultibase (key n)) = .ok (some (key n)) := by
    simp [signingKeyOf, hlib.text, hlib.decodes, hlib.scalar]
  rw [newHandler, if_neg hchain, hkey]
  simp only [Proc.run_bind, Proc.run_lift, run_mustRun_of_ok hstart, Proc.run_pure, Option.map_some,
    Option.getD_some, h.chain]

/-! ## The first messages -/

omit [CidText] [Hash] [SigLib] [KeyLib] in
/-- A message that was sent is a consensus message on the chain of its sender. -/
theorem sent_on_chain {S M : Type} {ω : Env} {wrapper : ConsensusMsg} {c : Consensus S M} {m : Msg}
    (hsent : ((Consensus.sendMsg ω wrapper).run c).2 = c.record (.sent m)) :
    m.chain = c.chain ∧ m.type = .consensus := by
  have hsilent : ¬ c = c.record (.sent m) := by
    intro h
    have hlen := congrArg (fun c => c.trace.length) h
    simp [Consensus.record] at hlen
  simp only [Consensus.sendMsg, Proc.run_bind, Proc.run_get] at hsent
  cases hkey : c.signingKey with
  | none =>
    rw [hkey] at hsent
    exact absurd hsent hsilent
  | some sk =>
    simp only [hkey, Proc.run_bind, Proc.run_lift] at hsent
    -- only the last branch touches the state
    split at hsent <;> (rename_i heq; obtain ⟨-, rfl⟩ := Prod.mk.inj heq)
    · split at hsent <;> (rename_i heq; obtain ⟨-, rfl⟩ := Prod.mk.inj heq)
      · split at hsent
        · obtain rfl := Effect.sent.inj (List.cons.inj (congrArg Consensus.trace hsent)).1
          exact ⟨rfl, rfl⟩
        · exact absurd hsent hsilent
      all_goals exact absurd hsent hsilent
    all_goals exact absurd hsent hsilent

omit [CidText] [Hash] in
/-- **What a peer signs the others let through**, wherever it is registered. -/
theorem onMsg_of_sent {S S' M M' : Type} [Store S'] (hlib : LibsWork key) {i : Identity} {n : Nat}
    (hkey : i.blsPKMB = KeyLib.encodeMultibase (KeyLib.publicKey (key n))) {ω : Env}
    {wrapper : ConsensusMsg} {c : Consensus S M} {r : Consensus S' M'} {m : Msg}
    (hid : c.id = i.pID) (hsk : c.signingKey = some (key n)) (hchain : r.chain = c.chain)
    (hnode : Store.node r.store i.pID = .ok (node i))
    (hsent : ((Consensus.sendMsg ω wrapper).run c).2 = c.record (.sent m)) :
    r.onMsg m = Consensus.onConsensusMsg m i.pID := by
  obtain ⟨hsender, -, sk, signed, hsk', hsigned, hsig⟩ := Consensus.sendMsg_signs hsent
  obtain ⟨hmchain, htype⟩ := sent_on_chain hsent
  obtain rfl : key n = sk := Option.some.inj (hsk.symm.trans hsk')
  obtain ⟨data, hdata, hbytes⟩ := Outcome.bind_eq_ok.mp hsigned
  obtain rfl := Outcome.ok.inj hbytes
  have hraw : SigLib.multibaseDecode (node i).key = some (KeyLib.publicKey (key n)) := by
    rw [node, hkey, hlib.decodesPublic]
  have hverifies := hlib.verifies n _ _ hsig
  rw [hid] at hsender
  rw [hsender] at hverifies
  simp [Consensus.onMsg, hmchain, hchain, hsender, hnode, hdata, hraw, hlib.point, hverifies, htype]

/-! ## The network -/

/-- **A generated network starts.** Let `gengen` run for peers with different names that fit into one
block. Each of them, given the genesis and the key that were printed, reads the same genesis back,
starts on an empty store at the genesis block, under its name and with its key, and knows all of
them as nodes. From then on a message that one of them sends and signs is let through by another, in
whatever state the two are, as long as the other's node table still is the one it started with and
the transport adds no key to the message. -/
theorem network_starts {M : Type} (hinj : Function.Injective (Hash.sum : Obj → Cid)) (γ : GenEnv)
    (hγ : Answers γ.toRuntime) (hlib : LibsWork γ.key) (hnonce : γ.nonce.isSome = true)
    (text : String) (hnodup : (splitComma text).Nodup)
    (hlen : 2 * (splitComma text).length ≤ maxBlockTxCount) :
    ∃ g is s₀, (generate γ text).run {} = (.ok (g, is), s₀) ∧
      is.map Identity.pID = splitComma text ∧
      ∀ i ∈ is, ∀ ω : Runtime, Answers ω → ∀ memPool : M, ∃ cfg c s,
        Didem.buildChainConfig (some g) (KeyLib.encodeMultibase i.blsSk) = .ok cfg ∧
        cfg.genesis = g ∧
        (newHandler ω i.pID cfg memPool).run ({} : IPFSStorage) = (.ok (some c), s) ∧
        c.id = i.pID ∧ c.signingKey = some i.blsSk ∧ c.chain = stringBytes chainID ∧
        c.state.height = 0 ∧ c.state.block = Hash.sum (marshalBlock g.block) ∧
        Store.nodes c.store = .ok (sortedList (splitComma text).toFinset) ∧
        ∀ j ∈ is, ∀ (ω' : Env) (wrapper : ConsensusMsg) (sender receiver : Consensus IPFSStorage M)
          (m : Msg), sender.id = j.pID → sender.signingKey = some j.blsSk →
          sender.chain = c.chain → receiver.chain = c.chain → SameNodes c.store receiver.store →
          ((Consensus.sendMsg ω' wrapper).run sender).2 = sender.record (.sent m) →
          receiver.onMsg m = Consensus.onConsensusMsg m j.pID := by
  obtain ⟨g, s₀, hgen, hmade⟩ := generate_run hγ hlib hnonce hlen {}
  have hnames : (peers γ text).map Identity.pID = splitComma text := map_pID_identitiesFrom ..
  refine ⟨g, peers γ text, s₀, hgen, hnames, fun i hi ω hω memPool => ?_⟩
  obtain ⟨n, hsk, -⟩ := key_of_mem_identitiesFrom hi
  obtain ⟨s, hs, hstart⟩ := hmade.newHandler_run hinj hlib hω i.pID n memPool
  refine ⟨_, _, s, hmade.buildChainConfig hinj hlib _, rfl, hsk ▸ hstart, rfl, by rw [hsk]; rfl, rfl,
    hmade.height, rfl, ?_, ?_⟩
  · rw [← hnames]
    exact hs.nodes hmade
  · intro j hj ω' wrapper sender receiver m hid hkey hchain hchain' hnodes hsent
    obtain ⟨k, hsk', hpk⟩ := key_of_mem_identitiesFrom hj
    have hnode : Store.node receiver.store j.pID = .ok (node j) :=
      (hnodes.2 j.pID).trans (hs.node hmade (hnames ▸ hnodup) hj)
    exact onMsg_of_sent hlib hpk hid (hsk' ▸ hkey) (hchain'.trans hchain.symm) hnode hsent

/-! ## The validator -/

omit [CidText] [Hash] [CryptoLib] [KeyLib] in
/-- The document of a peer is not valid: its key has no controller. -/
theorem isValid_document (hurl : SigLib.urlOpaque "" = some "") (i : Identity) :
    (document i).isValid ≠ .ok () := by
  intro h
  have hbad : VerificationMethod.isValid { id := didOf i, type := .bls12381G2Key2020
                                           controller := "", publicKeyMultibase := i.blsPKMB } ≠
      .ok () := by
    have hcontroller : urlIncomplete "" = .ok true := by
      simp [urlIncomplete, urlId, hurl, splitColon]
    intro hvm
    simp only [VerificationMethod.isValid, hcontroller] at hvm
    cases hid : urlIncomplete (didOf i) with
    | ok b => cases b <;> simp [hid] at hvm
    | err e => simp [hid] at hvm
    | panic => simp [hid] at hvm
  simp only [Document.isValid] at h
  split at h
  · exact absurd h (by simp)
  · obtain ⟨b, -, h⟩ := Outcome.bind_eq_ok.mp h
    cases b with
    | true => exact absurd h (by simp)
    | false =>
      obtain ⟨_, hmethods, -⟩ := Outcome.bind_eq_ok.mp h
      exact hbad (Outcome.forM_eq_ok.mp hmethods _ (by simp [Document.methods, document]))

omit [CidText] [Hash] [CryptoLib] [KeyLib] in
/-- No transaction is valid that is about a DID with such a document. -/
theorem isTxValid_of_lookup {S : Type} [Store S] {s : S} {i : Identity} {t : Tx} {d : Document}
    (hlookup : Store.lookupDID s (didOf i) = .ok (some (document i))) (htype : t.type = .did)
    (hdata : t.data = some (.did (some d))) (hid : d.id = didOf i) : (isTxValid s t).1 ≠ .ok () := by
  intro h
  obtain ⟨-, hdid⟩ := (isTxValid_did_eq_ok htype).mp h
  obtain ⟨d', msg, hdata', hmsg, hdoc⟩ := checks_of_isDIDTxValid hdid
  rw [hdata, Option.some.injEq, TxData.did.injEq, Option.some.injEq] at hdata'
  subst hdata'
  rw [isDIDTxValid_eq_ok hdata hmsg hdoc, hid, hlookup] at hdid
  rcases hdid with ⟨-, hnew, -⟩ | ⟨-, ⟨e, hfailed⟩ | ⟨existing, hfound, hsigned⟩⟩
  · exact absurd hnew (by simp)
  · exact absurd hfailed (by simp)
  · obtain rfl := Option.some.inj (Outcome.ok.inj hfound)
    rw [Document.signed_of_no_method rfl] at hsigned
    exact absurd hsigned (by simp)

/-! ### Runs of a store -/

/-- What happens to the store of a node: a block is validated or marked, the last applied block is
recorded, content arrives. -/
inductive StoreEvent where
  | call (c : BlockCall)
  | updateLastApplied (id : BlockID)
  | arrive (objects : Objects)

omit [CryptoLib] [KeyLib] in
def runEvent (σ : Session IPFSStorage) : StoreEvent → Session IPFSStorage
  | .call c => σ.step c
  | .updateLastApplied id => { σ with store := (σ.store.updateLastApplied id).2 }
  | .arrive objects => { σ with store := { σ.store with objects := objects } }

omit [CryptoLib] [KeyLib] in
/-- A block is marked validated only if it passed, and content is not replaced. -/
def AllowedEvent (σ : Session IPFSStorage) : StoreEvent → Prop
  | .call c => σ.Allowed c
  | .updateLastApplied _ => True
  | .arrive objects => Storage.Extends σ.store.objects objects

omit [CryptoLib] [KeyLib] in
/-- A DID is looked up as before, as long as its entry is the same and content is kept. -/
theorem lookupDID_kept {s s' : IPFSStorage} {d : String}
    (hextends : Storage.Extends s.objects s'.objects)
    (hentry : s'.metadataGet (typedKey .did [d]) = s.metadataGet (typedKey .did [d]))
    {document : Option Document} (h : Store.lookupDID s d = .ok document) :
    Store.lookupDID s' d = .ok document := by
  have hkeeps : Keeps s s' := IPFSStorage.keeps_of_extends hextends
  simp only [Store.lookupDID, IPFSStorage.lookupDID, hentry] at h ⊢
  cases hget : s.metadataGet (typedKey .did [d]) with
  | none => simp [hget] at h
  | some txB =>
    cases hcast : castCid txB with
    | none => simp [hget, hcast] at h
    | some cid =>
      simp only [hget, hcast] at h ⊢
      obtain ⟨t, ht, hdoc⟩ := Outcome.bind_eq_ok.mp h
      rw [Outcome.mapErr_eq_ok] at ht
      exact Outcome.bind_eq_ok.mpr ⟨t, Outcome.mapErr_eq_ok.mpr (hkeeps.getTx ht), hdoc⟩

/-- **The DIDs of the peers stand as they were generated**, and no block waits to be indexed. -/
structure Frozen (is : List Identity) (σ : Session IPFSStorage) : Prop where
  passed : σ.passed = []
  waiting : ∀ id, σ.store.stateOf id ≠ .validated
  dids : ∀ i ∈ is, Store.lookupDID σ.store (didOf i) = .ok (some (document i))

omit [CryptoLib] [KeyLib] in
/-- A call that writes the state of a block. -/
theorem Frozen.of_mark {σ : Session IPFSStorage} (h : Frozen is σ) {ω : Runtime} {id : BlockID}
    {state : BlockState} (hstate : state ≠ .validated) :
    Frozen is { σ with store := (σ.store.markBlock ω id state).2 } where
  passed := h.passed
  waiting id' := by
    rw [IPFSStorage.stateOf_markBlock]
    by_cases hid : id' = id
    · rw [hid, Function.update_self]
      exact hstate
    · rw [Function.update_of_ne hid]
      exact h.waiting id'
  dids i hi := by
    have hsame : IPFSStorage.SameEntries σ.store (σ.store.markBlock ω id state).2 :=
      IPFSStorage.sameEntries_markBlock fun _ => h.waiting id
    refine lookupDID_kept ?_ (hsame _ (by simp [MetadataKeyType.byte])).symm (h.dids i hi)
    rw [(IPFSStorage.sameKind_markBlock ω id state σ.store).1]
    exact .refl _

omit [CryptoLib] [KeyLib] in
/-- **One event** leaves them so: nothing passes the validation of this store, so nothing is ever
indexed. -/
theorem Frozen.step {σ : Session IPFSStorage} (h : Frozen is σ) {e : StoreEvent}
    (he : AllowedEvent σ e) : Frozen is (runEvent σ e) := by
  cases e with
  | call c =>
    cases c with
    | validate ω b isNewBlock =>
      have hstep : runEvent σ (.call (.validate ω b isNewBlock)) =
          { σ with store := (σ.store.markBlock ω b.id .unvalidated).2 } := by
        simp only [runEvent, Session.step, BlockCall.run, IPFSStorage.snd_isBlockValid,
          if_neg (IPFSStorage.isBlockValid_ne_ok ω b isNewBlock σ.store)]
      rw [hstep]
      exact h.of_mark (by simp)
    | markValidated ω id =>
      obtain ⟨b, hb, -⟩ := he
      rw [h.passed] at hb
      exact absurd hb List.not_mem_nil
    | accept ω id => exact h.of_mark (by simp)
  | updateLastApplied id =>
    have hne : ∀ kType parts, kType ≠ MetadataKeyType.latestBlock →
        IPFSStorage.metadataGet (σ.store.updateLastApplied id).2 (typedKey kType parts) =
          σ.store.metadataGet (typedKey kType parts) := by
      intro kType parts hk
      show (σ.store.metadataSet _ _).view.lookup _ = _
      rw [IPFSStorage.view_metadataSet, Finmap.lookup_insert_of_ne _ (typedKey_ne _ _ hk _ _)]
      rfl
    refine ⟨h.passed, fun id' => ?_, fun i hi => lookupDID_kept ?_ (hne _ _ (by simp)) (h.dids i hi)⟩
    · have hstate : IPFSStorage.stateOf (σ.store.updateLastApplied id).2 id' =
          σ.store.stateOf id' := by
        rw [IPFSStorage.stateOf, hne _ _ (by simp)]
        rfl
      exact hstate ▸ h.waiting id'
    · show Storage.Extends _ (σ.store.metadataSet _ _).objects
      rw [IPFSStorage.objects_metadataSet]
      exact .refl _
  | arrive objects =>
    have hextends : Storage.Extends σ.store.objects (runEvent σ (.arrive objects)).store.objects := he
    exact ⟨h.passed, h.waiting, fun i hi => lookupDID_kept hextends rfl (h.dids i hi)⟩

omit [SigLib] [CryptoLib] [KeyLib] in
/-- A genesis records no state of a block. -/
theorem Holds.stateOf {s : IPFSStorage} (hs : Holds g s) (id : BlockID) :
    s.stateOf id = .unvalidated := by
  have hnone : s.metadataGet (typedKey .blockState [id.string]) = none := by
    rw [IPFSStorage.metadataGet_of_not_testing hs.outside, hs.metadata,
      IPFSStorage.lookup_genesisBatch (by simp) (by simp), Write.lookup_applyAll_of_notMem]
    · rfl
    · intro w hw hkey
      obtain ⟨e, -, hwe⟩ := List.mem_flatMap.mp hw
      have hhead := IPFSStorage.head_typedKey .blockState [id.string]
      rw [← hkey] at hhead
      rcases IPFSStorage.head_of_mem_entryWrites (b := .undef) (List.mem_cons_of_mem _ hwe) with
        hw' | ⟨-, hw' | hw'⟩ | ⟨-, hw'⟩ <;> exact absurd (hw'.symm.trans hhead) (by decide)
  rw [IPFSStorage.stateOf, hnone]
  rfl

/-- **The validator knows nothing of a generated genesis.** None of its transactions would be
accepted in a block, by any store; and on a store that started with it, after any run of validations
and marks in which only blocks that passed are marked validated and content is not replaced, no
transaction about one of its DIDs is valid, whoever signed it: the DID exists, and its document has
no verification method to verify an update or a revocation with. -/
theorem generated_dids_frozen {M : Type} (hinj : Function.Injective (Hash.sum : Obj → Cid))
    (hurl : SigLib.urlOpaque "" = some "") (γ : GenEnv) (hγ : Answers γ.toRuntime)
    (hlib : LibsWork γ.key) (hnonce : γ.nonce.isSome = true) (text : String)
    (hnodup : (splitComma text).Nodup) (hlen : 2 * (splitComma text).length ≤ maxBlockTxCount) :
    ∃ g is s₀, (generate γ text).run {} = (.ok (g, is), s₀) ∧
      is.map Identity.pID = splitComma text ∧
      (∀ {S : Type} [Store S] (s : S), ∀ t ∈ g.txs, (isTxValid s t).1 ≠ .ok ()) ∧
      ∀ i ∈ is, ∀ ω : Runtime, Answers ω → ∀ memPool : M, ∃ c s,
        (newHandler ω i.pID { genesis := g, key := KeyLib.encodeMultibase i.blsSk } memPool).run
          ({} : IPFSStorage) = (.ok (some c), s) ∧
        ∀ es : List StoreEvent, Along runEvent AllowedEvent ⟨s, []⟩ es →
          ∀ j ∈ is, ∀ (t : Tx) (d : Document), t.type = .did → t.data = some (.did (some d)) →
            d.id = didOf j → (isTxValid (es.foldl runEvent ⟨s, []⟩).store t).1 ≠ .ok () := by
  obtain ⟨g, s₀, hgen, hmade⟩ := generate_run hγ hlib hnonce hlen {}
  have hnames : (peers γ text).map Identity.pID = splitComma text := map_pID_identitiesFrom ..
  refine ⟨g, peers γ text, s₀, hgen, hnames, fun s t ht hvalid => ?_, fun i hi ω hω memPool => ?_⟩
  · obtain ⟨i, -, ts, sig, rfl | rfl⟩ := hmade.mem_txs ht
    · obtain ⟨-, hdid⟩ := (isTxValid_did_eq_ok rfl).mp hvalid
      obtain ⟨d, msg, hdata, -, hdoc⟩ := checks_of_isDIDTxValid hdid
      obtain rfl : document i = d := Option.some.inj (TxData.did.inj (Option.some.inj hdata))
      exact isValid_document hurl i hdoc
    · exact type_ne_node_of_isTxValid hvalid rfl
  · obtain ⟨n, hsk, -⟩ := key_of_mem_identitiesFrom hi
    obtain ⟨s, hs, hstart⟩ := hmade.newHandler_run hinj hlib hω i.pID n memPool
    refine ⟨_, s, hsk ▸ hstart, fun es hes j hj t d htype hdata hid => ?_⟩
    have hfrozen : Frozen (peers γ text) ⟨s, []⟩ :=
      ⟨rfl, fun id => by simp [hs.stateOf id],
        fun i hi => hs.lookupDID hmade (hnames ▸ hnodup) hi⟩
    have hend := Along.invariant (P := Frozen (peers γ text)) (fun σ e hσ he => hσ.step he) hfrozen
      hes
    exact isTxValid_of_lookup (hend.dids j hj) htype hdata hid

end

/-! ## Two peers -/

section

open Storage.Sample Storage.Sample.Exact Didem.Sample

/-- Keys of two bytes that are the UTF-8 encoding of a character, as the multibase texts of the
samples are in the identity encoding. -/
local instance pairKeys : KeyLib where
  publicKey sk := sk
  privateKey := some
  encodeMultibase raw :=
    match raw with
    | [a, b] => String.ofList ['\x00', Char.ofNat ((a.toNat - 192) * 64 + (b.toNat - 128))]
    | _ => ""
  encodeBlock _ := []

/-- The key of a peer, one of 64. -/
def pairKey (n : Nat) : Bytes := [196, 128 + UInt8.ofNat (n % 64)]

def pairEnv : GenEnv := { env with key := pairKey, clock := fun n => n + 1 }

theorem pairKey_works : LibsWork pairKey := by
  have hfew : ∀ k < 64,
      SigLib.multibaseDecode (stringBytes (KeyLib.encodeMultibase (pairKey k))) =
        some (pairKey k) ∧ SigLib.blsPublicKey (pairKey k) = some (pairKey k) := by decide +kernel
  have hall : ∀ n,
      SigLib.multibaseDecode (stringBytes (KeyLib.encodeMultibase (pairKey n))) =
        some (pairKey n) ∧ SigLib.blsPublicKey (pairKey n) = some (pairKey n) := by
    intro n
    have hmod : pairKey n = pairKey (n % 64) := by simp [pairKey]
    rw [hmod]
    exact hfew (n % 64) (Nat.mod_lt n (by decide))
  have hpublic : ∀ n, KeyLib.publicKey (pairKey n) = pairKey n := fun _ => rfl
  exact
    { marshals := fun _ => ⟨_, rfl⟩
      blooms := fun _ => ⟨_, rfl⟩
      signs := fun _ _ => ⟨_, rfl⟩
      text := fun n h => absurd (congrArg String.length h) (by simp [KeyLib.encodeMultibase, pairKey])
      decodes := fun n => (hall n).1
      scalar := fun _ => rfl
      decodesPublic := fun n => by rw [hpublic]; exact (hall n).1
      point := fun n => by rw [hpublic]; exact (hall n).2
      verifies := fun n msg sig h => by
        obtain rfl := Outcome.ok.inj h
        exact decide_eq_true rfl }

theorem env_answers : Answers env.toRuntime := ⟨fun _ => rfl, fun _ => rfl, rfl⟩

/-- A message that announces a round. -/
def roundMsg : ConsensusMsg where
  type := .newRound
  newRound := some { height := 1, round := 1, lastCommitRound := 0, timestamp := 0 }

/-- Two peers start, and know each other; what the first one sends, the second one lets through. -/
theorem twoPeers_start :
    ∃ g is s₀, (generate pairEnv "a,b").run {} = (.ok (g, is), s₀) ∧
      is.map Identity.pID = ["a", "b"] ∧
      ∃ a ∈ is, ∃ b ∈ is, ∃ cfg cfg', ∃ c c' : Consensus IPFSStorage TxMemPool, ∃ s s' m,
        buildChainConfig (some g) (KeyLib.encodeMultibase a.blsSk) = .ok cfg ∧ cfg.genesis = g ∧
        buildChainConfig (some g) (KeyLib.encodeMultibase b.blsSk) = .ok cfg' ∧ cfg'.genesis = g ∧
        (newHandler runtime "a" cfg {}).run ({} : IPFSStorage) = (.ok (some c), s) ∧
        (newHandler runtime "b" cfg' {}).run ({} : IPFSStorage) = (.ok (some c'), s') ∧
        Store.nodes c.store = .ok ["a", "b"] ∧
        ((Consensus.sendMsg env roundMsg).run c).2 = c.record (.sent m) ∧
        c'.onMsg m = Consensus.onConsensusMsg m "a" := by
  obtain ⟨g, is, s₀, hgen, hnames, hstart⟩ := network_starts (M := TxMemPool) sum_injective pairEnv
    env_answers pairKey_works rfl "a,b" (by decide) (by decide)
  obtain ⟨a, b, rfl⟩ : ∃ a b, is = [a, b] := by
    rw [← List.length_eq_two, ← List.length_map Identity.pID, hnames]
    decide
  have hids : a.pID = "a" ∧ b.pID = "b" := by
    simpa [show splitComma "a,b" = ["a", "b"] by decide] using hnames
  obtain ⟨cfg, c, s, hcfg, hg, hrun, hid, hkey, hchain, -, -, hnodes, -⟩ :=
    hstart a (by simp) runtime env_answers {}
  obtain ⟨cfg', c', s', hcfg', hg', hrun', -, -, hchain', -, -, -, hmsg⟩ :=
    hstart b (by simp) runtime env_answers {}
  rw [hids.1] at hrun
  rw [hids.2] at hrun'
  obtain ⟨m, hsent⟩ : ∃ m, ((Consensus.sendMsg env roundMsg).run c).2 = c.record (.sent m) := by
    simp only [Consensus.sendMsg, Proc.run_bind, Proc.run_get, hkey]
    exact ⟨_, rfl⟩
  refine ⟨g, [a, b], s₀, hgen, hnames, a, by simp, b, by simp, cfg, cfg', c, c', s, s', m, hcfg, hg,
    hcfg', hg', hrun, hrun', hnodes.trans (by decide +kernel), hsent, ?_⟩
  rw [← hids.1]
  exact hmsg a (by simp) env roundMsg c c' m hid hkey (hchain.trans hchain'.symm) rfl (.refl _) hsent

/-- A block is validated, accepted and recorded. -/
def usualEvents (b : Block) : List StoreEvent :=
  [.call (.validate runtime b true), .call (.accept runtime b.id), .updateLastApplied b.id]

/-- Neither can ever change its DID: after a validation and an acceptance on its store, an update
signed with anything is not valid. -/
theorem twoPeers_frozen :
    ∃ g is s₀, (generate pairEnv "a,b").run {} = (.ok (g, is), s₀) ∧
      (∀ t ∈ g.txs, (isTxValid ({} : IPFSStorage) t).1 ≠ .ok ()) ∧
      ∃ i ∈ is, ∃ c : Consensus IPFSStorage TxMemPool, ∃ s,
        (newHandler runtime i.pID { genesis := g, key := KeyLib.encodeMultibase i.blsSk } {}).run
          ({} : IPFSStorage) = (.ok (some c), s) ∧
        ∀ sig, (isTxValid ((usualEvents g.block).foldl runEvent ⟨s, []⟩).store
          (Storage.Sample.didTx 9 .update (didOf i) sig)).1 ≠ .ok () := by
  obtain ⟨g, is, s₀, hgen, hnames, hinvalid, hfrozen⟩ := generated_dids_frozen (M := TxMemPool)
    sum_injective (by decide) pairEnv env_answers pairKey_works rfl "a,b" (by decide) (by decide)
  obtain ⟨i, hi⟩ : ∃ i, i ∈ is := by
    refine List.exists_mem_of_ne_nil is fun hnil => ?_
    rw [hnil] at hnames
    exact absurd hnames (by decide)
  obtain ⟨c, s, hrun, hnever⟩ := hfrozen i hi runtime env_answers {}
  exact ⟨g, is, s₀, hgen, hinvalid _, i, hi, c, s, hrun, fun sig =>
    hnever (usualEvents g.block) ⟨trivial, trivial, trivial, trivial⟩ i hi _ _ rfl rfl rfl⟩

end

end Gengen
end Didem
