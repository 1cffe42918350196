import Didem.Consensus.Proof.Frame
import Didem.Storage.Proof.BlockStates
import Didem.Storage.Proof.Genesis
import Didem.Storage.Proof.TxSets

/-!
# Starting again

`NewConsensus` takes the tip from the last block its store remembers. What a store remembers is
written in three places, and **what a commit writes is not what a start reads**:

* an `IPFSStorage` is told the last block by `ApplyGenesis` and by an accepting `MarkBlock`, both of
  which write the bytes of its CID, and by `UpdateLastApplied`, which writes the text.
  `GetLastApplied` casts bytes. `UpdateLastApplied` comes last in every commit, so after one no node
  starts;
* a `MemStore` remembers the CID, but the block it returns for it has neither an identifier nor a
  parent, and without a block there is no height.

`Anchored` is what the two have in common, and `Started` the invariant it gives every node: before
the first commit the store still answers as it did at the start, and after one its last block is
what `UpdateLastApplied` wrote for the tip. The two stores differ only in what they then make of
that.
-/

set_option autoImplicit false

namespace Didem

open Lib Storage NodeValidator

/-- The tip a node starts with that finds this block. -/
def startTip : Option Block → Tip
  | none => ⟨0, .undef, .undef⟩
  | some b => ⟨b.height, b.id, b.parent⟩

namespace Consensus

variable {S M : Type}

theorem tip_boot (chain : Bytes) (id : String) (signingKey : Option Bytes) (memPool : M) (store : S)
    (lastApplied : Option Block) :
    (boot chain id signingKey memPool store lastApplied).state.tip = startTip lastApplied := by
  cases lastApplied <;> rfl

section

variable [Store S]

/-- A fresh `NewConsensus` over the node's store succeeds and starts where the node is. -/
def Recovers (ω : Runtime) (opts : Options) (memPool : M) (c : Consensus S M) : Prop :=
  ∃ c' s', (newConsensus ω c.id opts memPool).run c.store = (.ok c', s') ∧
    c'.state.tip = c.state.tip

/-- A start in full: genesis, and then whatever the last block is. -/
theorem newConsensus_eq_ok {ω : Runtime} {id : String} {opts : Options} {memPool : M} {s s' : S}
    {c : Consensus S M} : (newConsensus ω id opts memPool).run s = (.ok c, s') ↔
      (ensureGenesis ω opts.genesis).run s = (.ok (), s') ∧
      ∃ b, Store.getLastApplied s' = .ok b ∧
        c = boot ((opts.genesis.map fun g => stringBytes g.chainID).getD []) id opts.signingKey
          memPool s' b := by
  simp only [newConsensus, Proc.bind_eq_ok, Proc.run_get, Proc.run_lift, Proc.run_pure,
    Prod.mk.injEq, Outcome.ok.injEq, Outcome.mapErr_eq_ok]
  constructor
  · rintro ⟨⟨⟩, s₁, hens, _, _, ⟨rfl, rfl⟩, b, _, ⟨hb, rfl⟩, rfl, rfl⟩
    exact ⟨hens, b, hb, rfl⟩
  · rintro ⟨hens, b, hb, rfl⟩
    exact ⟨(), s', hens, s', s', ⟨rfl, rfl⟩, b, s', ⟨hb, rfl⟩, rfl, rfl⟩

/-- Genesis is not applied again. -/
theorem run_ensureGenesis {ω : Runtime} {genesis : Option GenesisInfo} {s : S}
    (h : genesis.isSome → Store.hasGenesisApplied s = true) :
    (ensureGenesis ω genesis).run s = (.ok (), s) := by
  cases genesis with
  | none => rfl
  | some g => simp [ensureGenesis, h rfl]

/-- Where genesis is applied, or none is given, a start reads the last block and nothing else. -/
theorem recovers_iff_of_applied {ω : Runtime} {opts : Options} {memPool : M} {c : Consensus S M}
    (hgenesis : opts.genesis.isSome → Store.hasGenesisApplied c.store = true) :
    Recovers ω opts memPool c ↔
      ∃ b, Store.getLastApplied c.store = .ok b ∧ startTip b = c.state.tip := by
  unfold Recovers
  constructor
  · rintro ⟨c', s', h, htip⟩
    obtain ⟨hens, b, hb, rfl⟩ := newConsensus_eq_ok.mp h
    rw [run_ensureGenesis hgenesis] at hens
    obtain rfl := (Prod.mk.inj hens).2
    exact ⟨b, hb, by rw [← htip, tip_boot]⟩
  · rintro ⟨b, hb, htip⟩
    exact ⟨_, _, newConsensus_eq_ok.mpr ⟨run_ensureGenesis hgenesis, b, hb, rfl⟩,
      by rw [tip_boot, htip]⟩

end

/-! ## What a store remembers -/

section Anchor

variable [Store S] {α : Type}

/-- The store may be another one, but it holds what it held and remembers what it did. -/
def Stays (Inv : S → Prop) (ref : S → α) (s s' : S) : Prop :=
  Inv s → Inv s' ∧ Keeps s s' ∧ ref s' = ref s ∧
    Store.hasGenesisApplied s' = Store.hasGenesisApplied s

variable {Inv : S → Prop} {ref : S → α}

instance : Std.Refl (Stays Inv ref) := ⟨fun s hs => ⟨hs, .refl s, rfl, rfl⟩⟩

theorem Stays.trans {s s' s'' : S} (h : Stays Inv ref s s') (h' : Stays Inv ref s' s'') :
    Stays Inv ref s s'' := by
  intro hs
  obtain ⟨hs', hkeeps, href, hflag⟩ := h hs
  obtain ⟨hs'', hkeeps', href', hflag'⟩ := h' hs'
  exact ⟨hs'', hkeeps.trans hkeeps', href'.trans href, hflag'.trans hflag⟩

instance : IsTrans S (Stays Inv ref) := ⟨fun _ _ _ => Stays.trans⟩

theorem Stays.of_grows {s s' : S} (h : Grows Inv s s') (href : ref s' = ref s)
    (hflag : Store.hasGenesisApplied s' = Store.hasGenesisApplied s) : Stays Inv ref s s' :=
  fun hs => ⟨(h hs).1, (h hs).2, href, hflag⟩

variable (S) in
/-- **What a store remembers of the last block is `ref`**: storing and validating leave it alone,
and with the objects it decides what `GetLastApplied` returns. -/
structure Anchored [SigLib] (Inv : S → Prop) (ref : S → α) : Prop where
  putTx : ∀ (ω : Runtime) (t : Tx) (s : S), Stays Inv ref s (Store.putTx ω t s).2
  putSet : ∀ (ω : Runtime) (n : TxSet) (s : S), Stays Inv ref s (Store.putSet ω n s).2
  putBlock : ∀ (ω : Runtime) (b : Block) (s : S), Stays Inv ref s (Store.putBlock ω b s).2
  isBlockValid : ∀ (ω : Runtime) (b : Block) (isNewBlock : Bool) (s : S),
    Stays Inv ref s (isBlockValid ω b isNewBlock s).2
  markBlock : ∀ (ω : Runtime) (id : BlockID) {s : S}, Inv s →
    Inv (Store.markBlock ω id .accepted s).2 ∧
      Store.hasGenesisApplied (Store.markBlock ω id .accepted s).2 = Store.hasGenesisApplied s
  markBlock_panic : ∀ {ω : Runtime} {id : BlockID} {s : S},
    (Store.markBlock ω id .accepted s).1 = .panic →
      Stays Inv ref s (Store.markBlock ω id .accepted s).2
  updateLastApplied : ∀ (id : BlockID) {s : S}, Inv s → Inv (Store.updateLastApplied id s).2 ∧
    Store.hasGenesisApplied (Store.updateLastApplied id s).2 = Store.hasGenesisApplied s
  updateLastApplied_ne_panic : ∀ (id : BlockID) (s : S), (Store.updateLastApplied id s).1 ≠ .panic
  applyGenesis : ∀ {ω : Runtime} {g : GenesisInfo} {s s' : S}, Inv s →
    Store.applyGenesis ω g s = (.ok (), s') → Inv s' ∧ Store.hasGenesisApplied s' = true
  getLastApplied : ∀ {s s' : S} {b : Option Block}, Keeps s s' → ref s' = ref s →
    Store.getLastApplied s = .ok b → Store.getLastApplied s' = .ok b

/-! ### Handlers that do not commit -/

/-- The node may have stored and validated, but it did not commit. -/
structure Uncommitted (Inv : S → Prop) (ref : S → α) (c c' : Consensus S M) : Prop where
  store : Stays Inv ref c.store c'.store
  tip : c'.state.tip = c.state.tip
  commits : commits c'.trace = commits c.trace

instance : Std.Refl (Uncommitted (M := M) Inv ref) := ⟨fun c => ⟨Std.Refl.refl c.store, rfl, rfl⟩⟩

theorem Uncommitted.trans {a b c : Consensus S M} (hab : Uncommitted Inv ref a b)
    (hbc : Uncommitted Inv ref b c) : Uncommitted Inv ref a c :=
  ⟨hab.1.trans hbc.1, hbc.2.trans hab.2, hbc.3.trans hab.3⟩

instance : IsTrans (Consensus S M) (Uncommitted Inv ref) := ⟨fun _ _ _ => Uncommitted.trans⟩

theorem Uncommitted.of_aside (c c' : Consensus S M) (h : Aside c c') : Uncommitted Inv ref c c' :=
  ⟨by rw [h.store]; exact Std.Refl.refl c.store, h.tip, h.commits⟩

theorem onStore_uncommitted {β : Type} {p : Proc Err S β} (h : ∀ s, Stays Inv ref s (p.run s).2) :
    Proc.Within (Uncommitted Inv ref) (onStore p : Engine S M β) := fun c => ⟨h c.store, rfl, rfl⟩

theorem onPool_uncommitted {β : Type} (p : Proc Err M β) :
    Proc.Within (Uncommitted Inv ref) (onPool p : Engine S M β) :=
  fun c => ⟨Std.Refl.refl c.store, rfl, rfl⟩

variable [SigLib] [MemPool M] [CryptoLib]

theorem startRound_uncommitted [CidText] (hstore : Anchored S Inv ref) (ω : Env) (inc : Bool) :
    Proc.Within (Uncommitted Inv ref) (startRound ω inc : Engine S M Unit) := by
  have hmake : Proc.Within (Uncommitted Inv ref) (makeBlock ω : Engine S M (Option Block)) :=
    makeBlock_within (onPool_uncommitted _) (fun t => onStore_uncommitted (hstore.putTx _ t))
      (fun cids => onStore_uncommitted (newTxSet_within (hstore.putSet _) cids))
      fun set => onStore_uncommitted (hstore.putSet _ set)
  refine .bind (.modify fun c => ⟨Std.Refl.refl c.store, rfl, rfl⟩) fun _ => .bind .get fun c => ?_
  split
  · refine lead_within .of_aside (buildBlock_within hmake ?_ ?_)
    · exact fun block => onStore_uncommitted (hstore.putBlock _ block)
    · exact fun _ c => ⟨Std.Refl.refl c.store, rfl, rfl⟩
  · exact .pure _

variable [CidText]

/-- Every call either does not commit or does nothing else of note. -/
theorem exec_cases (hstore : Anchored S Inv ref) (ω : Env) (call : Call) (c : Consensus S M) :
    Uncommitted Inv ref c ((exec ω call).run c).2 ∨ MayCommit ω c ((exec ω call).run c).2 := by
  have haside {p : Engine S M Unit} (h : Proc.Within Aside p) :
      Uncommitted Inv ref c (p.run c).2 ∨ MayCommit ω c (p.run c).2 := .inl (.of_aside _ _ (h c))
  cases call with
  | beacon b =>
    refine .inl (Proc.Within.bind .get (fun c => .bind (.lift _) fun p => .bind (.modify ?_) ?_) c)
    · exact fun c => ⟨Std.Refl.refl c.store, rfl, rfl⟩
    · exact fun _ => startRound_uncommitted hstore ω false
  | newRound msg sender => exact haside (onNewRound_aside msg sender)
  | proposal msg sender =>
    refine .inl (onProposal_within .of_aside (fun b => ?_) (fun bc c => ?_) msg sender c)
    · exact onStore_uncommitted (hstore.isBlockValid ω.toRuntime b true)
    · exact ⟨Std.Refl.refl c.store, rfl, rfl⟩
  | vote msg sender => exact haside (onVote_aside ω msg sender)
  | block msg sender => exact .inr (onBlock_mayCommit ω msg sender c)
  | evidence msg sender => exact haside (onEvidence_aside msg sender)
  | tx msg =>
    cases msg with
    | none => exact .inl (Std.Refl.refl c)
    | some msg => exact .inl (Proc.Within.logged (onPool_uncommitted _) c)
  | gracePeriod => exact .inr (onGracePeriod_mayCommit ω c)
  | timeoutProposal => exact haside (onTimeoutProposal_aside ω)
  | timeoutPrevote => exact haside (onTimeoutPrevote_aside ω)
  | timeoutPrecommit => exact .inl (startRound_uncommitted hstore ω true c)
  | timeoutBlock => exact .inl (Std.Refl.refl c)

/-! ### Nodes that were started -/

/-- What is true of a node from its start on. -/
structure Started (Inv : S → Prop) (ref : S → α) (opts : Options) (c : Consensus S M) : Prop where
  inv : Inv c.store
  genesis : opts.genesis.isSome → Store.hasGenesisApplied c.store = true
  /-- Before the first commit the store answers as it did at the start. -/
  before : commits c.trace = [] →
    ∃ b, Store.getLastApplied c.store = .ok b ∧ startTip b = c.state.tip
  /-- After one it remembers what `UpdateLastApplied` made of the tip. -/
  after : commits c.trace ≠ [] → ∃ s, ref c.store = ref (Store.updateLastApplied c.state.block s).2

variable {opts : Options}

omit [MemPool M] [CryptoLib] [CidText] in
theorem Started.of_newConsensus (hstore : Anchored S Inv ref) {ω : Runtime} {id : String}
    {memPool : M} {s s' : S} {c : Consensus S M} (hs : Inv s)
    (h : (newConsensus ω id opts memPool).run s = (.ok c, s')) : Started Inv ref opts c := by
  obtain ⟨hens, b, hb, rfl⟩ := newConsensus_eq_ok.mp h
  obtain ⟨hs', hflag⟩ : Inv s' ∧ (opts.genesis.isSome → Store.hasGenesisApplied s' = true) := by
    cases hg : opts.genesis with
    | none =>
      rw [hg] at hens
      obtain rfl := (Prod.mk.inj hens).2
      exact ⟨hs, by simp⟩
    | some g =>
      simp only [hg, ensureGenesis, Proc.run_bind, Proc.run_get] at hens
      split at hens
      · next hflag =>
        obtain rfl := (Prod.mk.inj hens).2
        exact ⟨hs, fun _ => hflag⟩
      · obtain ⟨hok, hs₁⟩ := Prod.mk.inj hens
        obtain ⟨hs', hflag⟩ := hstore.applyGenesis hs (Prod.ext (Outcome.mapErr_eq_ok.mp hok) hs₁)
        exact ⟨hs', fun _ => hflag⟩
  exact ⟨hs', hflag, fun _ => ⟨b, hb, (tip_boot ..).symm⟩, fun h => absurd rfl h⟩

omit [MemPool M] [CryptoLib] [CidText] in
theorem Started.uncommitted (hstore : Anchored S Inv ref) {c c' : Consensus S M}
    (h : Started Inv ref opts c) (hc : Uncommitted Inv ref c c') : Started Inv ref opts c' := by
  obtain ⟨hinv, hkeeps, href, hflag⟩ := hc.store h.inv
  refine ⟨hinv, fun hg => hflag.trans (h.genesis hg), ?_, ?_⟩
  · intro hnil
    obtain ⟨b, hb, htip⟩ := h.before (by rw [← hc.commits, hnil])
    exact ⟨b, hstore.getLastApplied hkeeps href hb, htip.trans hc.tip.symm⟩
  · intro hne
    obtain ⟨s, hs⟩ := h.after (by rwa [← hc.commits])
    have hblock : c'.state.block = c.state.block := congrArg Tip.block hc.tip
    exact ⟨s, by rw [href, hs, hblock]⟩

omit [MemPool M] [CryptoLib] [CidText] in
theorem Started.commit (hstore : Anchored S Inv ref) {ω : Env} {c c' : Consensus S M}
    (h : Started Inv ref opts c) (hc' : c' = ((commit ω).run c).2) : Started Inv ref opts c' := by
  obtain ⟨-, -, -, ⟨⟨hlocked, hpanic⟩, hs, htip, hcommits⟩ | ⟨hs, htip, hcommits⟩⟩ :=
    commit_cases hstore.updateLastApplied_ne_panic hc'
  · -- marking panicked, and the store still remembers what it did
    refine h.uncommitted hstore ⟨?_, htip, hcommits⟩
    rw [hs, markedStore, if_neg hlocked]
    exact hstore.markBlock_panic hpanic
  · obtain ⟨hinv, hflag⟩ : Inv (c.markedStore ω) ∧
        Store.hasGenesisApplied (c.markedStore ω) = Store.hasGenesisApplied c.store := by
      unfold markedStore
      split
      · exact ⟨h.inv, rfl⟩
      · exact hstore.markBlock _ _ h.inv
    obtain ⟨hinv', hflag'⟩ := hstore.updateLastApplied c.propsalState.lockedValue hinv
    have hblock : c'.state.block = c.propsalState.lockedValue := congrArg Tip.block htip
    refine ⟨hs ▸ hinv', fun hg => ?_, fun hnil => ?_,
      fun _ => ⟨c.markedStore ω, by rw [hs, hblock]⟩⟩
    · rw [hs, hflag', hflag]
      exact h.genesis hg
    · rw [hcommits] at hnil
      exact absurd hnil (by simp)

/-- Content may arrive at any time, as `F` says. -/
def Fetches (F : S → S → Prop) (c : Consensus S M) (i : Env × Input S) : Prop :=
  ∀ s, i.2 = .store s → F c.store s

/-- **What holds from the start on.** -/
theorem Started.step (hstore : Anchored S Inv ref) {F : S → S → Prop}
    (hF : ∀ s s', F s s' → Stays Inv ref s s') (c : Consensus S M) (i : Env × Input S)
    (h : Started Inv ref opts c) (hi : Fetches F c i) : Started Inv ref opts (c.step i) := by
  refine step_keeps (fun c h => ⟨h.inv, h.genesis, h.before, h.after⟩) h ?_ ?_
  · intro _ k _
    rcases exec_cases hstore i.1 k c with hun | ⟨c₁, haside, rfl | hcommit⟩
    · exact h.uncommitted hstore hun
    · exact h.uncommitted hstore (.of_aside _ _ haside)
    · exact (h.uncommitted hstore (.of_aside _ _ haside)).commit hstore hcommit
  · intro s hs
    exact h.uncommitted hstore ⟨hF _ _ (hi s hs), rfl, rfl⟩

end Anchor
end Consensus

/-! ## `MemStore` -/

namespace Storage.MemStore

open Consensus

variable [Hash]

theorem addressed_putGenesis (ts : List Tx) (txs : TxMap) (m : MemStore) (h : Addressed m.objects) :
    Addressed (putGenesis ts txs m).2.objects := by
  induction ts generalizing txs m with
  | nil => exact h
  | cons t ts ih => exact ih _ _ (h.insert (.tx t))

/-- Content has arrived. -/
def Fetched (m m' : MemStore) : Prop :=
  m' = { m with objects := m'.objects } ∧ Extends m.objects m'.objects ∧ Addressed m'.objects

theorem Fetched.stays {m m' : MemStore} (h : Fetched m m') :
    Stays (fun m : MemStore => Addressed m.objects) lastBlock m m' := by
  intro _
  obtain ⟨hm', hext, haddr⟩ := h
  have hlast : m'.lastBlock = m.lastBlock := by rw [hm']
  have hflag : m'.genesisApplied = m.genesisApplied := by rw [hm']
  exact ⟨haddr, keeps_of_extends hext, hlast, hflag⟩

/-- Nothing else is read for the last block. -/
theorem getLastApplied_of_keeps [SigLib] {m m' : MemStore} {b : Option Block} (hkeeps : Keeps m m')
    (hlast : m'.lastBlock = m.lastBlock) (h : Store.getLastApplied m = .ok b) :
    Store.getLastApplied m' = .ok b := by
  show m'.getLastApplied = .ok b
  replace h : m.getLastApplied = .ok b := h
  unfold getLastApplied at h ⊢
  rw [hlast]
  split at h
  · next hundef => rw [if_pos hundef, h]
  · next hdef =>
    obtain ⟨block, hblock, hb⟩ := Outcome.bind_eq_ok.mp h
    rw [if_neg hdef]
    exact Outcome.bind_eq_ok.mpr ⟨block, hkeeps.getBlock hblock, hb⟩

/-- A `MemStore` remembers a CID. -/
theorem anchored [SigLib] (hinj : Function.Injective (Hash.sum : Obj → Cid)) :
    Anchored MemStore (fun m => Addressed m.objects) lastBlock := by
  have hcontent := contentStore hinj
  have hsame {m m' : MemStore} (ho : m'.objects = m.objects) (hl : m'.lastBlock = m.lastBlock)
      (hg : m'.genesisApplied = m.genesisApplied) :
      Stays (fun m : MemStore => Addressed m.objects) lastBlock m m' := by
    intro hm
    exact ⟨show Addressed m'.objects from ho.symm ▸ hm,
      keeps_of_extends (ho.symm ▸ .refl _), hl, hg⟩
  have hmark (ω : Runtime) (id : BlockID) (m : MemStore) :
      Stays (fun m : MemStore => Addressed m.objects) lastBlock m
        (Store.markBlock ω id .accepted m).2 := by
    obtain ⟨txbIndex, dids, nodes, h⟩ := markBlock_writes ω id .accepted m
    rw [show Store.markBlock ω id .accepted m = m.markBlock ω id .accepted from rfl, h]
    exact hsame rfl rfl rfl
  refine
    { putTx := fun ω t m => .of_grows (hcontent.putTx ω t m) rfl rfl
      putSet := fun ω n m => .of_grows (hcontent.putSet ω n m) rfl rfl
      putBlock := fun ω b m => .of_grows (hcontent.putBlock ω b m) rfl rfl
      isBlockValid := fun ω b isNewBlock m => by
        rw [snd_isBlockValid]
        exact hsame rfl rfl rfl
      markBlock := fun ω id m hm => ⟨(hmark ω id m hm).1, (hmark ω id m hm).2.2.2⟩
      markBlock_panic := fun _ => hmark _ _ _
      updateLastApplied := fun _ _ hm => ⟨hm, rfl⟩
      updateLastApplied_ne_panic := fun _ _ => by simp [Store.updateLastApplied, updateLastApplied]
      getLastApplied := getLastApplied_of_keeps
      applyGenesis := ?_ }
  · intro ω g m m' hm h
    have haddr := addressed_putGenesis g.txs ∅ { m with genesisApplied := true } hm
    have hflag := congrArg genesisApplied
      (snd_putGenesis g.txs ∅ { m with genesisApplied := true })
    obtain ⟨txbIndex, dids, nodes, hwrites⟩ := applyTxs_writes .undef
      (ω.order (putGenesis g.txs ∅ { m with genesisApplied := true }).1.entries)
      (putGenesis g.txs ∅ { m with genesisApplied := true }).2
    have hm' : m' = _ := (congrArg Prod.snd h).symm.trans hwrites
    subst hm'
    exact ⟨haddr, hflag⟩

omit [Hash] in
/-- The block a `MemStore` returns has no identifier. -/
theorem id_of_getBlock {m : MemStore} {c : BlockID} {b : Block} (h : m.getBlock c = .ok b) :
    b.id = .undef := by
  obtain ⟨d, -, hu⟩ := getObj_eq_ok h
  exact (links_of_unmarshalBlock hu).1

/-- **After a commit** a `MemStore` leads back to the tip of a node that committed nothing. -/
theorem getLastApplied_startTip {m : MemStore} {tip : Tip} (hlast : m.lastBlock = tip.block) :
    (∃ b, Store.getLastApplied m = .ok b ∧ startTip b = tip) ↔ tip = ⟨0, .undef, .undef⟩ := by
  constructor
  · rintro ⟨b, hb, rfl⟩
    replace hb : m.getLastApplied = .ok b := hb
    unfold getLastApplied at hb
    split at hb
    · rw [← Outcome.ok.inj hb]
      rfl
    · next hdef =>
      obtain ⟨block, hblock, hsome⟩ := Outcome.bind_eq_ok.mp hb
      rw [← Outcome.ok.inj hsome] at hlast
      exact absurd (hlast.trans (id_of_getBlock hblock)) hdef
  · rintro rfl
    exact ⟨none, if_pos hlast, rfl⟩

end Storage.MemStore

/-! ## `IPFSStorage` -/

namespace Storage.IPFSStorage

open Consensus

/-- What is under the latest-block key. -/
def latest (s : IPFSStorage) : Option MetaVal := s.metadataGet (typedKey .latestBlock [])

variable [CidText] [Hash] [SigLib]

/-- Content has arrived. -/
def Fetched (s s' : IPFSStorage) : Prop :=
  SameMetadata s s' ∧ Extends s.objects s'.objects ∧ Addressed s'.objects

/-- Outside a trial, every object under its hash. -/
def InOrder (s : IPFSStorage) : Prop := Addressed s.objects ∧ s.pfTipApply = none

/-- Objects that are stored or arrive are no matter of the metadata. -/
theorem stays_of_sameMetadata {s s' : IPFSStorage}
    (hgrows : Grows (fun s : IPFSStorage => Addressed s.objects) s s') (h : SameMetadata s s') :
    Stays InOrder latest s s' := by
  rintro ⟨haddr, htest⟩
  obtain ⟨haddr', hkeeps⟩ := hgrows haddr
  refine ⟨⟨haddr', ?_⟩, hkeeps, ?_, ?_⟩
  · rw [h]
    exact htest
  · rw [latest, latest, metadataGet, h.view]
    rfl
  · show s'.hasGenesisApplied = s.hasGenesisApplied
    rw [hasGenesisApplied, metadataGet, h.view]
    rfl

theorem Fetched.stays {s s' : IPFSStorage} (h : Fetched s s') : Stays InOrder latest s s' :=
  stays_of_sameMetadata (fun _ => ⟨h.2.2, keeps_of_extends h.2.1⟩) h.1

omit [CidText] [Hash] [SigLib] in
theorem metadataGet_metadataSet {kType other : MetadataKeyType} (hne : other ≠ kType)
    (parts : List String) {parts' : List String} (value : MetaVal) (s : IPFSStorage) :
    (s.metadataSet (typedKey kType parts) value).metadataGet (typedKey other parts') =
      s.metadataGet (typedKey other parts') := by
  rw [metadataGet, view_metadataSet, Finmap.lookup_insert_of_ne _ (typedKey_ne _ _ hne _ _)]
  rfl

omit [CidText] [SigLib] in
theorem InOrder.of_sameKind {s s' : IPFSStorage} (hkind : SameKind s' s) (h : InOrder s) :
    InOrder s' := ⟨by rw [hkind.1]; exact h.1, hkind.outside h.2⟩

/-- An entry in another table is no matter of the last block or of genesis. -/
theorem stays_metadataSet {kType : MetadataKeyType} (hlatest : .latestBlock ≠ kType)
    (hgenesis : .genesis ≠ kType) (parts : List String) (value : MetaVal) (s : IPFSStorage) :
    Stays InOrder latest s (s.metadataSet (typedKey kType parts) value) := by
  intro hs
  have hkind := sameKind_metadataSet (typedKey kType parts) value s
  refine ⟨hs.of_sameKind hkind, keeps_of_extends ?_,
    metadataGet_metadataSet hlatest parts value s, ?_⟩
  · rw [hkind.1]
    exact .refl _
  · exact congrArg Option.isSome (metadataGet_metadataSet hgenesis parts value s)

/-- Applying genesis stores content, and its batch ends with the two entries a start looks for. -/
theorem applyGenesis_eq_ok (hinj : Function.Injective (Hash.sum : Obj → Cid)) {ω : Runtime}
    {g : GenesisInfo} {s s' : IPFSStorage} (hs : InOrder s)
    (h : s.applyGenesis ω g = (.ok (), s')) :
    InOrder s' ∧ s'.latest = some (.cid (Hash.sum (marshalBlock g.block))) ∧
      s'.hasGenesisApplied = true := by
  have hcontent := contentStore hinj
  rcases applyGenesis_within (R := Stays InOrder latest)
    (fun t s => stays_of_sameMetadata (hcontent.putTx ω t s) (sameMetadata_putTx ω t s))
    (fun n s => stays_of_sameMetadata (hcontent.putSet ω n s) (sameMetadata_putSet ω n s))
    (fun b s => stays_of_sameMetadata (hcontent.putBlock ω b s)
      (sameMetadata_putRaw ω (marshalBlock b) s)) g s
    with ⟨root, s₁, s₂, s₃, heq, -, -, -, hstays⟩ | ⟨hne, -⟩
  · obtain rfl := (Prod.mk.inj (heq.symm.trans h)).2
    obtain ⟨⟨haddr, htest⟩, -⟩ := hstays hs
    obtain ⟨hlatest, hgenesis⟩ := lookup_genesisBatch_last g s₃.metadata
    refine ⟨⟨haddr, htest⟩, ?_, ?_⟩
    · refine (metadataGet_of_not_testing ?_ _).trans hlatest
      exact htest
    · refine Option.isSome_iff_exists.mpr ⟨_, (metadataGet_of_not_testing ?_ _).trans hgenesis⟩
      exact htest
  · exact absurd (congrArg Prod.fst h) hne

theorem getLastApplied_of_keeps {s s' : IPFSStorage} {b : Option Block} (hkeeps : Keeps s s')
    (hlatest : s'.latest = s.latest) (h : Store.getLastApplied s = .ok b) :
    Store.getLastApplied s' = .ok b := by
  show s'.getLastApplied = .ok b
  replace h : s.getLastApplied = .ok b := h
  unfold getLastApplied at h ⊢
  rw [show s'.metadataGet (typedKey .latestBlock []) = _ from hlatest]
  unfold latest
  split at h
  · exact h
  · split at h
    · cases h
    · next bid hbid =>
      obtain ⟨block, hblock, hb⟩ := Outcome.bind_eq_ok.mp h
      exact Outcome.bind_eq_ok.mpr ⟨block, hkeeps.getBlock hblock, hb⟩

/-- An `IPFSStorage` remembers what is under its latest-block key. -/
theorem anchored (hinj : Function.Injective (Hash.sum : Obj → Cid)) :
    Anchored IPFSStorage InOrder latest := by
  have hcontent := contentStore hinj
  refine
    { putTx := fun ω t s => stays_of_sameMetadata (hcontent.putTx ω t s) (sameMetadata_putTx ω t s)
      putSet := fun ω n s =>
        stays_of_sameMetadata (hcontent.putSet ω n s) (sameMetadata_putSet ω n s)
      putBlock := fun ω b s =>
        stays_of_sameMetadata (hcontent.putBlock ω b s) (sameMetadata_putRaw ω (marshalBlock b) s)
      isBlockValid := fun ω b isNewBlock s => by
        rw [isBlockValid_eq]
        exact stays_metadataSet (by simp) (by simp) _ _ s
      markBlock := ?_
      markBlock_panic := ?_
      updateLastApplied := ?_
      updateLastApplied_ne_panic := fun _ _ => by simp [Store.updateLastApplied, updateLastApplied]
      applyGenesis := fun hs h =>
        ⟨(applyGenesis_eq_ok hinj hs h).1, (applyGenesis_eq_ok hinj hs h).2.2⟩
      getLastApplied := getLastApplied_of_keeps }
  · intro ω id s hs
    refine ⟨hs.of_sameKind (sameKind_markBlock ω id .accepted s), ?_⟩
    have hlookup : (s.markBlock ω id .accepted).2.view.lookup (typedKey .genesis []) =
        (s.view.insert (typedKey .blockState [id.string]) (.state .accepted)).lookup
          (typedKey .genesis []) :=
      lookup_markBlock ω id .accepted s (by simp [MetadataKeyType.byte])
    rw [Finmap.lookup_insert_of_ne _ (typedKey_ne _ _ (by simp) _ _)] at hlookup
    exact congrArg Option.isSome hlookup
  · intro ω id s hpanic hs
    have hmark := markBlock_of_ne_ok hs.2
      (by rw [show (s.markBlock ω id .accepted).1 = _ from hpanic]; simp)
    rw [show Store.markBlock ω id .accepted s = s.markBlock ω id .accepted from rfl, hmark]
    exact stays_metadataSet (by simp) (by simp) _ _ s hs
  · intro id s hs
    exact ⟨hs.of_sameKind (sameKind_metadataSet _ _ s),
      congrArg Option.isSome (metadataGet_metadataSet (by simp) [] _ s)⟩

/-- The block `GetLastApplied` looks for. -/
def lastApplied (s : IPFSStorage) : Option Cid := s.latest.bind castCid

omit [Hash] [SigLib] in
theorem latest_updateLastApplied (b : BlockID) (s : IPFSStorage) :
    (s.updateLastApplied b).2.latest = some (.text b.string) := by
  rw [latest, metadataGet, updateLastApplied, view_metadataSet, Finmap.lookup_insert]

omit [CidText] [Hash] [SigLib] in
/-- **After a commit** an `IPFSStorage` leads nowhere. -/
theorem getLastApplied_ne_ok {s : IPFSStorage} {text : String} (h : s.latest = some (.text text))
    (b : Option Block) : s.getLastApplied ≠ .ok b := by
  rw [getLastApplied, show s.metadataGet (typedKey .latestBlock []) = _ from h]
  simp [castCid]

omit [CidText] [Hash] [SigLib] in
theorem lastApplied_of_cid {s : IPFSStorage} {b : BlockID} (h : s.latest = some (.cid b))
    (hb : b ≠ .undef) : s.lastApplied = some b := by
  simp [lastApplied, h, castCid, hb]

end Storage.IPFSStorage

/-! ## Both stores -/

open Consensus

/-- **A node that is started again is where it was exactly until its first commit.** On a `MemStore`
it is also when what it committed looks like nothing. The reason on an `IPFSStorage`: of the three
writers of the last block, what the last one writes cannot be read. -/
theorem restart_recovers_iff [CidText] [Hash] [SigLib] [CryptoLib] {M : Type} [MemPool M]
    (hinj : Function.Injective (Hash.sum : Obj → Cid)) (ω₀ ω : Runtime) (id : String)
    (opts : Options) (memPool memPool' : M) :
    (∀ (m₀ m₁ : MemStore) (c₀ : Consensus MemStore M) (is : List (Env × Input MemStore)),
      Addressed m₀.objects → (newConsensus ω₀ id opts memPool).run m₀ = (.ok c₀, m₁) →
      Along step (Fetches MemStore.Fetched) c₀ is →
      (Recovers ω opts memPool' (is.foldl step c₀) ↔ commits (is.foldl step c₀).trace = [] ∨
        (is.foldl step c₀).state.tip = ⟨0, .undef, .undef⟩)) ∧
    (∀ (s₀ s₁ : IPFSStorage) (c₀ : Consensus IPFSStorage M) (is : List (Env × Input IPFSStorage)),
      s₀.InOrder → (newConsensus ω₀ id opts memPool).run s₀ = (.ok c₀, s₁) →
      Along step (Fetches IPFSStorage.Fetched) c₀ is →
      (Recovers ω opts memPool' (is.foldl step c₀) ↔ commits (is.foldl step c₀).trace = [])) ∧
    ∀ (s s' : IPFSStorage) (b : BlockID) (g : GenesisInfo),
      (Store.updateLastApplied b s = (.ok (), s') → s'.lastApplied = none) ∧
      (b ≠ .undef → s.stateOf b = .validated → Store.markBlock ω b .accepted s = (.ok (), s') →
        s'.lastApplied = some b) ∧
      (s.InOrder → Store.applyGenesis ω g s = (.ok (), s') →
        s'.lastApplied = some (Hash.sum (marshalBlock g.block))) := by
  refine ⟨?_, ?_, ?_⟩
  · intro m₀ m₁ c₀ is hm₀ hstart hrun
    have hstore := MemStore.anchored hinj
    have h := Along.invariant (fun c i => Started.step hstore (fun _ _ hF => hF.stays) c i)
      (Started.of_newConsensus hstore hm₀ hstart) hrun
    rw [recovers_iff_of_applied h.genesis]
    by_cases hnil : commits (is.foldl step c₀).trace = []
    · exact iff_of_true (h.before hnil) (.inl hnil)
    · obtain ⟨s, hs⟩ := h.after hnil
      rw [MemStore.getLastApplied_startTip hs, or_iff_right hnil]
  · intro s₀ s₁ c₀ is hs₀ hstart hrun
    have hstore := IPFSStorage.anchored hinj
    have h := Along.invariant (fun c i => Started.step hstore (fun _ _ hF => hF.stays) c i)
      (Started.of_newConsensus hstore hs₀ hstart) hrun
    rw [recovers_iff_of_applied h.genesis]
    refine ⟨?_, h.before⟩
    rintro ⟨b, hb, -⟩
    by_contra hne
    obtain ⟨s, hs⟩ := h.after hne
    exact IPFSStorage.getLastApplied_ne_ok
      (hs.trans (IPFSStorage.latest_updateLastApplied _ s)) b hb
  · intro s s' b g
    refine ⟨fun h => ?_, fun hdef hstate h => ?_, fun hs h => ?_⟩
    · have hlatest := IPFSStorage.latest_updateLastApplied b s
      rw [show s.updateLastApplied b = _ from h] at hlatest
      rw [IPFSStorage.lastApplied, hlatest]
      rfl
    · obtain ⟨_, _, -, -, -, -, hview⟩ := IPFSStorage.markBlock_accepted_eq_ok hstate h
      refine IPFSStorage.lastApplied_of_cid ?_ hdef
      rw [IPFSStorage.latest, IPFSStorage.metadataGet, hview, Finmap.lookup_insert]
    · exact IPFSStorage.lastApplied_of_cid (IPFSStorage.applyGenesis_eq_ok hinj hs h).2.1
        fun hundef => Hash.sum_ne_undef _ (congrArg Cid.str hundef)

/-! ### Nodes that start -/

section

open Didem.Sample

/-- A beacon tick. -/
def tick {S : Type} : List (Env × Input S) := [(env, .call (.beacon 0))]

theorem tick_fetches {S : Type} [Store S] [SigLib] [CidText] (c : Consensus S TxMemPool)
    (F : S → S → Prop) : Along step (Fetches F) c tick := ⟨fun _ hs => (nomatch hs), trivial⟩

/-- Two messages of `b` and two of `p` by which the node commits that there is no block. -/
def nilRun [CidText] {S : Type} : List (Env × Input S) :=
  [(env, .call beacon), (env, .recv (proposal "p" 1 1 Cid.undef.string)),
   (env, .recv (vote "b" .preVote 1 1 Cid.undef.string)),
   (env, .recv (vote "b" .preCommit 1 1 Cid.undef.string)),
   (env, .recv (announcement "p" 1 1 Cid.undef.string))]

section

open Storage.Sample.Exact

def soleOptions : Options := startOptions [nodeTx 1 "a"]

/-- A node with a genesis block, after a beacon tick, on either store; and the block genesis leaves
on an `IPFSStorage`. -/
theorem ticked_recovers :
    (startedNode soleOptions ({} : IPFSStorage)).state.block ≠ .undef ∧
      Recovers Storage.Sample.runtime soleOptions {}
        (tick.foldl step (startedNode soleOptions ({} : IPFSStorage))) ∧
      Recovers Storage.Sample.runtime soleOptions {}
        (tick.foldl step (startedNode soleOptions ({} : MemStore))) ∧
      (startedNode soleOptions ({} : IPFSStorage)).store.lastApplied =
        some (startedNode soleOptions ({} : IPFSStorage)).state.block := by
  have hiff := restart_recovers_iff sum_injective Storage.Sample.runtime Storage.Sample.runtime "a"
    soleOptions ({} : TxMemPool) {}
  refine ⟨by decide +kernel, ?_, ?_, ?_⟩
  · exact (hiff.2.1 {} (startedNode soleOptions ({} : IPFSStorage)).store _ tick
      ⟨addressed_empty, rfl⟩ (by decide +kernel) (tick_fetches _ _)).mpr (by decide +kernel)
  · exact (hiff.1 {} (startedNode soleOptions ({} : MemStore)).store _ tick addressed_empty
      (by decide +kernel) (tick_fetches _ _)).mpr (.inl (by decide +kernel))
  · refine ((hiff.2.2 {} (startedNode soleOptions ({} : IPFSStorage)).store .undef
      (rootedGenesis [nodeTx 1 "a"])).2.2 ⟨addressed_empty, rfl⟩ (by decide +kernel)).trans ?_
    decide +kernel

end

section

open Storage.Sample

def threeOptions : Options := startOptions [nodeTx 1 "a", nodeTx 2 "b", nodeTx 3 "p"]

/-- **After one commit neither store leads back.** On an `IPFSStorage` the node committed that there
is no block, and cannot be started; on a `MemStore` it committed a block, and starts without it. -/
theorem committed_not_recovered :
    let ipfs := nilRun.foldl step (startedNode threeOptions ({} : IPFSStorage))
    let mem := acceptingRun.foldl step (startedNode threeOptions ({} : MemStore))
    ipfs.state.tip = ⟨1, .undef, (startedNode threeOptions ({} : IPFSStorage)).state.block⟩ ∧
      ((newConsensus runtime "a" threeOptions ({} : TxMemPool)).run ipfs.store).1.bind
          (fun c => .ok c.state.tip) =
        .err (.wrap (.wrap (.new "cid") "casting block ref") "fetching last applied block") ∧
      mem.state.tip = ⟨1, block, .undef⟩ ∧ block ≠ .undef ∧
      ((newConsensus runtime "a" threeOptions ({} : TxMemPool)).run mem.store).1.bind
          (fun c => .ok c.state.tip) = .ok ⟨1, .undef, .undef⟩ := by
  decide +kernel

end
end
end Didem
