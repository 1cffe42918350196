import Didem.Consensus.Proof.MakeBlock
import Didem.Consensus.Proof.Restart

/-!
# Transactions between the mempool and the chain

A proposer takes transactions out of its mempool before the first thing that can fail, and nothing
puts one back. From then on the block of the round is the only place they are in, until a commit. So
**a transaction is lost in two ways**: when making the block fails after they were taken out, and
when the block of the round is replaced before it was committed. The first happens on any error of
the store; the second at every beacon tick that comes before the round is over, and when another
node's proposal is taken up.

`Accounted` is what should hold of every transaction ever added. It is kept by every step that does
neither of the two.
-/

set_option autoImplicit false

namespace Didem

open Lib Storage NodeValidator

/-- A validation marks its block, tries it elsewhere and closes the trial. -/
theorem Storage.ContentStore.isBlockValid {S : Type} [Store S] [SigLib] {Inv : S → Prop}
    (hstore : ContentStore S Inv) (ω : Runtime) (b : Block) (isNewBlock : Bool) (s : S) :
    Grows Inv s (isBlockValid ω b isNewBlock s).2 := by
  have hmark := hstore.markBlock ω b.id .unvalidated s
  unfold Storage.isBlockValid
  split
  · rename_i s₁ h; rw [h] at hmark; exact hmark
  · rename_i e s₁ h; rw [h] at hmark; exact hmark
  · rename_i s₁ h
    rw [h] at hmark
    split
    · exact hmark
    · exact hmark
    · split
      · exact hmark
      · exact hmark
      · have hdone := hstore.completeTest s₁
        simp only
        split
        · rename_i s₂ h; rw [h] at hdone; exact hmark.trans hdone
        · rename_i r s₂ h; rw [h] at hdone; exact hmark.trans hdone

namespace Consensus

/-! ## Where a transaction is -/

section Places

variable {S : Type} [Store S] [Hash] {Inv : S → Prop}

/-- The transaction is in the mempool, in the block of the round or in a committed block. -/
def Accounted (c : Consensus S TxMemPool) (t : Tx) : Prop :=
  some t ∈ c.memPool.plist ∨ InBlock c.store c.propsalState.block t ∨
    ∃ p ∈ commits c.trace, InBlock c.store p.2.block t

omit [Hash] in
/-- The block of the round names the node as its proposer. -/
def OwnBlock (c : Consensus S TxMemPool) : Prop :=
  ∃ block, Store.getBlock c.store c.propsalState.block = .ok block ∧ block.proposer = c.id

omit [Hash] in
/-- There is no block of its own in the round that the node has not committed. -/
def NothingPending (c : Consensus S TxMemPool) : Prop :=
  c.propsalState.block ≠ .undef → c.OwnBlock →
    ∃ p ∈ commits c.trace, p.2.block = c.propsalState.block

/-- `Accounted`, where the block of the round only counts if it is the node's own. This is where the
transactions of a node are: it puts none into a block of another. -/
def Kept (c : Consensus S TxMemPool) (t : Tx) : Prop :=
  some t ∈ c.memPool.plist ∨ (c.OwnBlock ∧ InBlock c.store c.propsalState.block t) ∨
    ∃ p ∈ commits c.trace, InBlock c.store p.2.block t

theorem Kept.accounted {c : Consensus S TxMemPool} {t : Tx} (h : Kept c t) : Accounted c t := by
  rcases h with hpool | ⟨-, hround⟩ | hcommitted
  · exact .inl hpool
  · exact .inr (.inl hround)
  · exact .inr (.inr hcommitted)

/-- The store stays in order and no transaction is lost. -/
def Conserves (Inv : S → Prop) (c c' : Consensus S TxMemPool) : Prop :=
  Inv c.store → Inv c'.store ∧ ∀ t, Kept c t → Kept c' t

theorem Conserves.trans {a b c : Consensus S TxMemPool} (hab : Conserves Inv a b)
    (hbc : Conserves Inv b c) : Conserves Inv a c := by
  intro hs
  obtain ⟨hb, hab⟩ := hab hs
  obtain ⟨hc, hbc⟩ := hbc hb
  exact ⟨hc, fun t ht => hbc t (hab t ht)⟩

/-- Nothing leaves the store, the mempool or the list of commits; the block of the round may. -/
structure Gathers (Inv : S → Prop) (c c' : Consensus S TxMemPool) : Prop where
  id : c'.id = c.id
  store : Grows Inv c.store c'.store
  memPool : c.memPool.plist ⊆ c'.memPool.plist
  commits : commits c.trace ⊆ commits c'.trace

omit [Hash] in
theorem Aside.gathers {c c' : Consensus S TxMemPool} (h : Aside c c') : Gathers Inv c c' :=
  ⟨h.id, h.store ▸ .refl _, h.memPool ▸ List.Subset.refl _, h.commits ▸ List.Subset.refl _⟩

instance : Std.Refl (Gathers Inv) := ⟨fun c => Aside.gathers (Std.Refl.refl c)⟩

instance : IsTrans (Consensus S TxMemPool) (Gathers Inv) :=
  ⟨fun _ _ _ h h' => ⟨h'.id.trans h.id, h.store.trans h'.store,
    List.Subset.trans h.memPool h'.memPool, List.Subset.trans h.commits h'.commits⟩⟩

/-- **A block that stays, or that was committed, takes no transaction away.** -/
theorem Gathers.conserves {c c' : Consensus S TxMemPool} (h : Gathers Inv c c')
    (hblock : c'.propsalState.block = c.propsalState.block ∨ c.NothingPending) :
    Conserves Inv c c' := by
  intro hs
  obtain ⟨hs', hkeeps⟩ := h.store hs
  refine ⟨hs', fun t ht => ?_⟩
  rcases ht with hpool | ⟨hown, hround⟩ | ⟨p, hp, hin⟩
  · exact .inl (h.memPool hpool)
  · rcases hblock with hsame | hpending
    · obtain ⟨block, hget, hproposer⟩ := hown
      refine .inr (.inl ⟨⟨block, ?_, hproposer.trans h.id.symm⟩, ?_⟩)
      · rw [hsame]
        exact hkeeps.getBlock hget
      · rw [hsame]
        exact hkeeps.inBlock hround
    · obtain ⟨p, hp, hp'⟩ := hpending hround.1 hown
      exact .inr (.inr ⟨p, h.commits hp, hp' ▸ hkeeps.inBlock hround⟩)
  · exact .inr (.inr ⟨p, h.commits hp, hkeeps.inBlock hin⟩)

theorem Aside.conserves {c c' : Consensus S TxMemPool} (h : Aside c c') : Conserves Inv c c' :=
  h.gathers.conserves (.inl h.block)

end Places

/-! ## Leading a round -/

section Lead

variable {S : Type} [Store S] [Hash] [CryptoLib] {Inv : S → Prop}

/-- The store is in order, and a block can be made if the round has none. -/
structure Ready (Inv : S → Prop) (ω : Env) (c : Consensus S TxMemPool) : Prop where
  store : Inv c.store
  build : c.propsalState.block = .undef → MakesBlock ω c

/-- A node that is ready stays so and loses no transaction. -/
def Leads (Inv : S → Prop) (ω : Env) (c c' : Consensus S TxMemPool) : Prop :=
  Ready Inv ω c → Ready Inv ω c' ∧ ∀ t, Kept c t → Kept c' t

variable {ω : Env}

instance : Std.Refl (Leads Inv ω) := ⟨fun _ h => ⟨h, fun _ ht => ht⟩⟩

instance : IsTrans (Consensus S TxMemPool) (Leads Inv ω) where
  trans a b c hab hbc := by
    intro ha
    obtain ⟨hb, hab⟩ := hab ha
    obtain ⟨hc, hbc⟩ := hbc hb
    exact ⟨hc, fun t ht => hbc t (hab t ht)⟩

omit [Hash] in
/-- Whether a block can be made is a matter of the mempool. -/
theorem MakesBlock.of_memPool {c c' : Consensus S TxMemPool} (h : MakesBlock ω c)
    (hpool : c'.memPool = c.memPool) : MakesBlock ω c' := by
  intro hnonce hne
  rw [hpool] at hne
  obtain ⟨htxs, hsets, hblocks, hblooms⟩ := h hnonce hne
  exact ⟨hpool ▸ htxs, hsets, hblocks, hblooms⟩

theorem Aside.leads {c c' : Consensus S TxMemPool} (h : Aside c c') : Leads Inv ω c c' := by
  intro hc
  obtain ⟨hs', hkept⟩ := h.conserves hc.store
  exact ⟨⟨hs', fun hundef => (hc.build (h.block ▸ hundef)).of_memPool h.memPool⟩, hkept⟩

/-- **A block that is made holds what left the mempool for it.** -/
theorem buildBlock_leads (hstore : HashStore S Inv) :
    Proc.Within (Leads Inv ω) (buildBlock ω : Engine S TxMemPool Unit) := by
  intro c hc
  simp only [buildBlock, Proc.run_bind, Proc.run_get]
  split
  · exact ⟨hc, fun _ ht => ht⟩
  · next hundef =>
    replace hundef := not_not.mp hundef
    have hwrap : ((makeBlock ω).wrap (·.wrap "making new block") : Engine S TxMemPool _).run c =
        (((makeBlock ω).run c).1.mapErr (·.wrap "making new block"), ((makeBlock ω).run c).2) := rfl
    rcases makeBlock_cases hstore hc.store (hc.build hundef) with ⟨hsame, hnone⟩ | hmade
    · -- nothing was taken out, and nothing follows
      simp only [Proc.run_bind, hwrap, hsame]
      cases hres : ((makeBlock ω).run c).1 with
      | panic => exact ⟨hc, fun _ ht => ht⟩
      | err e => exact ⟨hc, fun _ ht => ht⟩
      | ok b =>
        cases b with
        | none => exact ⟨hc, fun _ ht => ht⟩
        | some b => exact absurd hres (hnone b)
    · obtain ⟨b, txs, pool, s₁, ts, hmake, hperm, hput, hs₁, hkeeps₁, hproposer, hroot, htree,
        hts⟩ := hmade
      obtain ⟨id, s', hput⟩ := hput
      obtain ⟨hs', hkeeps⟩ : Inv s' ∧ Keeps s₁ s' := by
        have := hstore.putBlock ω.toRuntime b s₁ hs₁
        rwa [hput] at this
      obtain ⟨b', hget, hroot', hproposer'⟩ := hstore.exists_putBlock hs₁ hput hroot
      have hid : id ≠ .undef := hstore.putBlock_ne_undef hput
      simp only [Proc.run_bind, hwrap, hmake, Outcome.mapErr]
      rw [run_onStore (c := { c with memPool := pool, store := s₁ }) hput]
      refine ⟨⟨hs', fun h => absurd h hid⟩, fun t ht => ?_⟩
      rcases ht with hpool | ⟨-, hround⟩ | ⟨p, hp, hin⟩
      · rcases List.mem_append.mp (hperm.mem_iff.mp hpool) with htaken | hleft
        · obtain ⟨t', ht', hsome⟩ := List.mem_map.mp htaken
          obtain rfl := Option.some.inj hsome
          exact .inr (.inl ⟨⟨b', hget, hproposer'.trans hproposer⟩, hid, b', ts, hget,
            hroot' ▸ hkeeps.readTree htree, hts t' ht'⟩)
        · exact .inl hleft
      · exact absurd hundef hround.1
      · exact .inr (.inr ⟨p, hp, (hkeeps₁.trans hkeeps).inBlock hin⟩)

variable [CidText]

/-- **A round that is opened loses nothing**, unless it drops a block that was not committed or its
proposer cannot make one. -/
theorem startRound_conserves (hstore : HashStore S Inv) {inc : Bool} {c : Consensus S TxMemPool}
    (hpending : inc = false → c.NothingPending)
    (hbuild : c.state.proposer = c.id → (inc = true → c.propsalState.block = .undef) →
      MakesBlock ω c) :
    Conserves Inv c ((startRound ω inc).run c).2 := by
  have hopen : Conserves Inv c (c.openRound inc) := by
    have hgathers : Gathers Inv c (c.openRound inc) :=
      ⟨rfl, .refl _, List.Subset.refl _, List.Subset.refl _⟩
    cases inc with
    | true => exact hgathers.conserves (.inl rfl)
    | false => exact hgathers.conserves (.inr (hpending rfl))
  rw [run_startRound_snd]
  split
  · next ham =>
    intro hs
    obtain ⟨hs', hkept⟩ := hopen hs
    have hready : Ready Inv ω (c.openRound inc) := by
      refine ⟨hs', fun hundef => ?_⟩
      refine MakesBlock.of_memPool (hbuild (beq_iff_eq.mp ham) ?_) rfl
      rintro rfl
      exact hundef
    obtain ⟨hready', hkept'⟩ :=
      lead_within (fun _ _ h => h.leads) (buildBlock_leads hstore) (c.openRound inc) hready
    exact ⟨hready'.store, fun t ht => hkept' t (hkept t ht)⟩
  · exact hopen

end Lead

/-! ## A whole run -/

section Run

variable {S : Type} [Store S] [Hash] [CryptoLib] [CidText] [SigLib] {Inv : S → Prop}

omit [Hash] [CidText] [SigLib] in
/-- The call neither drops a block of the node's own that was not committed, nor fails to make one
of transactions it has taken out. -/
def Careful (ω : Env) (c : Consensus S TxMemPool) : Call → Prop
  | .beacon b => ∀ p, elect b c.store = .ok p → c.NothingPending ∧ (p = c.id → MakesBlock ω c)
  | .proposal _ sender =>
    sender = c.state.proposer → c.propsalState.step = .propose → c.NothingPending
  | .timeoutPrecommit =>
    c.state.proposer = c.id → c.propsalState.block = .undef → MakesBlock ω c
  | _ => True

omit [Hash] in
/-- A step of careful calls, during which the store loses nothing. -/
structure Conserving (Inv : S → Prop) (c : Consensus S TxMemPool) (i : Env × Input S) : Prop where
  fetches : ∀ s, i.2 = .store s → Grows Inv c.store s
  careful : c.crashed = false → ∀ k, c.calls i.2 = some k → c.Careful i.1 k

omit [Hash] in
/-- The transactions `AddTx` is called with in a step. -/
def adds (c : Consensus S TxMemPool) (i : Env × Input S) : List Tx :=
  if c.crashed then []
  else
    match c.calls i.2 with
    | some (.tx (some msg)) => msg.tx.toList
    | _ => []

omit [CryptoLib] [CidText] [SigLib] in
theorem onTx_conserves (msg : Option TxMsg) (c : Consensus S TxMemPool) :
    Conserves Inv c ((onTx msg).run c).2 := by
  cases msg with
  | none => exact Aside.conserves (Std.Refl.refl c)
  | some msg =>
    rw [onTx, Proc.run_logged_snd]
    refine Gathers.conserves ⟨rfl, .refl _, fun x hx => ?_, List.Subset.refl _⟩ (.inl rfl)
    exact (TxMemPool.addTx_perm msg.tx c.memPool).mem_iff.mpr (List.mem_append_left _ hx)

omit [CryptoLib] [CidText] [SigLib] in
theorem mayCommit_conserves (hstore : HashStore S Inv) {ω : Env} {c c' : Consensus S TxMemPool}
    (h : MayCommit ω c c') : Conserves Inv c c' := by
  obtain ⟨c₁, haside, rfl | hc'⟩ := h
  · exact haside.conserves
  · refine haside.conserves.trans ?_
    have hmarked : Grows Inv c₁.store (c₁.markedStore ω) := by
      unfold markedStore
      split
      · exact .refl _
      · exact hstore.markBlock _ _ _ _
    obtain ⟨hid, hpool, hprop, ⟨-, hs, -, hcommits⟩ | ⟨hs, -, hcommits⟩⟩ :=
      commit_cases hstore.updateLastApplied_ne_panic hc'
    · exact Gathers.conserves ⟨hid, hs ▸ hmarked, hpool ▸ List.Subset.refl _,
        hcommits ▸ List.Subset.refl _⟩ (.inl (by rw [hprop]))
    · refine Gathers.conserves ⟨hid, ?_, hpool ▸ List.Subset.refl _, ?_⟩ (.inl (by rw [hprop]))
      · rw [hs]
        exact hmarked.trans (hstore.updateLastApplied _ _)
      · rw [hcommits]
        exact List.subset_cons_self _ _

omit [SigLib] in
theorem onBeacon_conserves (hstore : HashStore S Inv) {ω : Env} {b : UInt64}
    {c : Consensus S TxMemPool} (hc : c.Careful ω (.beacon b)) :
    Conserves Inv c ((onBeacon ω b).run c).2 := by
  simp only [onBeacon, Proc.run_bind, Proc.run_get, Proc.run_lift]
  cases helect : elect b c.store with
  | err e => exact Aside.conserves (Std.Refl.refl c)
  | panic => exact Aside.conserves (Std.Refl.refl c)
  | ok p =>
    obtain ⟨hpending, hbuild⟩ := hc p helect
    simp only [Proc.run_modify]
    have haside : Aside c { c.setStep .propose with state := { c.state with proposer := p } } :=
      ⟨rfl, rfl, rfl, rfl, rfl, rfl⟩
    refine haside.conserves.trans (startRound_conserves hstore (fun _ => hpending) ?_)
    intro hp _
    exact (hbuild hp).of_memPool rfl

omit [SigLib] in
theorem onProposal_conserves [Validator S]
    (hvalid : ∀ (ω : Runtime) (b : Block) (s : S),
      Grows Inv s (Validator.isBlockValid ω b true s).2)
    {ω : Env} {msg : Option ConsensusMsgProposal} {sender : String} {c : Consensus S TxMemPool}
    (hc : c.Careful ω (.proposal msg sender)) :
    Conserves Inv c ((onProposal ω msg sender).run c).2 := by
  have hgathers : Gathers Inv c ((onProposal ω msg sender).run c).2 :=
    onProposal_within (fun _ _ h => h.gathers)
      (fun b c => ⟨rfl, hvalid _ b c.store, List.Subset.refl _, List.Subset.refl _⟩)
      (fun _ _ => ⟨rfl, .refl _, List.Subset.refl _, List.Subset.refl _⟩) msg sender c
  by_cases h : sender ≠ c.state.proposer ∨ c.propsalState.step ≠ .propose
  · refine hgathers.conserves (.inl ?_)
    simp only [onProposal, Proc.run_bind, Proc.run_get, if_pos h, Proc.run_pure]
  · rw [not_or, not_not, not_not] at h
    exact hgathers.conserves (.inr (hc h.1 h.2))

variable [Validator S]

/-- **A careful call loses no transaction.** -/
theorem exec_conserves (hstore : HashStore S Inv)
    (hvalid : ∀ (ω : Runtime) (b : Block) (s : S),
      Grows Inv s (Validator.isBlockValid ω b true s).2)
    {ω : Env} {k : Call} {c : Consensus S TxMemPool} (hc : c.Careful ω k) :
    Conserves Inv c ((exec ω k).run c).2 := by
  have haside {p : Engine S TxMemPool Unit} (h : Proc.Within Aside p) :
      Conserves Inv c (p.run c).2 := (h c).conserves
  cases k with
  | beacon b => exact onBeacon_conserves hstore hc
  | newRound msg sender => exact haside (onNewRound_aside msg sender)
  | proposal msg sender => exact onProposal_conserves hvalid hc
  | vote msg sender => exact haside (onVote_aside ω msg sender)
  | block msg sender => exact mayCommit_conserves hstore (onBlock_mayCommit ω msg sender c)
  | evidence msg sender => exact haside (onEvidence_aside msg sender)
  | tx msg => exact onTx_conserves msg c
  | gracePeriod => exact mayCommit_conserves hstore (onGracePeriod_mayCommit ω c)
  | timeoutProposal => exact haside (onTimeoutProposal_aside ω)
  | timeoutPrevote => exact haside (onTimeoutPrevote_aside ω)
  | timeoutPrecommit => exact startRound_conserves hstore (nomatch ·) fun hp hb => hc hp (hb rfl)
  | timeoutBlock => exact haside (.pure _)

theorem step_conserves (hstore : HashStore S Inv)
    (hvalid : ∀ (ω : Runtime) (b : Block) (s : S),
      Grows Inv s (Validator.isBlockValid ω b true s).2)
    {c : Consensus S TxMemPool} {i : Env × Input S} (hi : Conserving Inv c i) :
    Conserves Inv c (c.step i) := by
  refine step_keeps (P := Conserves Inv c) ?_ (Aside.conserves (Std.Refl.refl c)) ?_ ?_
  · intro c' h
    exact h.trans (Aside.conserves ⟨rfl, rfl, rfl, rfl, rfl, rfl⟩)
  · intro hup k hk
    exact exec_conserves hstore hvalid (hi.careful hup k hk)
  · intro s hs
    exact Gathers.conserves ⟨rfl, hi.fetches s hs, List.Subset.refl _, List.Subset.refl _⟩
      (.inl rfl)

omit [Hash] in
/-- What is added is there after the step. -/
theorem mem_memPool_of_adds {c : Consensus S TxMemPool} {i : Env × Input S} {t : Tx}
    (h : t ∈ c.adds i) : some t ∈ (c.step i).memPool.plist := by
  unfold adds at h
  rcases step_cases c i with ⟨hdown, -⟩ | ⟨hup, ⟨k, hk, hstep⟩ | ⟨hk, -⟩⟩
  · exact absurd h (by simp [hdown])
  · simp only [hup, hk] at h
    cases k with
    | tx msg =>
      cases msg with
      | none => exact absurd h (by simp)
      | some msg =>
        obtain ht : msg.tx = some t := Option.mem_toList.mp h
        have hadd : some t ∈ ((onTx (some msg)).run c).2.memPool.plist := by
          rw [onTx, Proc.run_logged_snd]
          refine (TxMemPool.addTx_perm msg.tx c.memPool).mem_iff.mpr (List.mem_append_right _ ?_)
          rw [ht]
          exact List.mem_singleton_self _
        rw [hstep, run, exec]
        split
        · next hrun => rw [hrun] at hadd; exact hadd
        · next hrun => rw [hrun] at hadd; exact hadd
    | _ => exact absurd h (by simp)
  · exact absurd h (by simp [hup, hk])

/-- The transactions that are added in a run. -/
def addedTxs : Consensus S TxMemPool → List (Env × Input S) → List Tx
  | _, [] => []
  | c, i :: is => c.adds i ++ addedTxs (c.step i) is

/-- **A transaction the node keeps, or that is added in the course of a run, is kept at its
end.** -/
theorem kept_of_conserving (hstore : HashStore S Inv)
    (hvalid : ∀ (ω : Runtime) (b : Block) (s : S),
      Grows Inv s (Validator.isBlockValid ω b true s).2)
    {c : Consensus S TxMemPool} {is : List (Env × Input S)} (hs : Inv c.store)
    (hrun : Along step (Conserving Inv) c is) {t : Tx} (ht : Kept c t ∨ t ∈ addedTxs c is) :
    Kept (is.foldl step c) t := by
  induction is generalizing c with
  | nil => exact ht.resolve_right (by simp [addedTxs])
  | cons i is ih =>
    obtain ⟨hi, his⟩ := hrun
    obtain ⟨hs', hkept⟩ := step_conserves hstore hvalid hi hs
    refine ih hs' his ?_
    rcases ht with ht | ht
    · exact .inl (hkept t ht)
    · rcases List.mem_append.mp ht with hadd | hlater
      · exact .inl (.inl (mem_memPool_of_adds hadd))
      · exact .inr hlater

end Run
end Consensus

/-! ## Both stores -/

open Consensus

/-- **No transaction is lost in a run of careful calls.** And when making a block returns an error,
the mempool is what it was exactly if there was no nonce: with one, the error comes after
transactions were taken out. -/
theorem no_tx_lost [CidText] [Hash] [SigLib] [CryptoLib]
    (hinj : Function.Injective (Hash.sum : Obj → Cid)) :
    (∀ (c : Consensus MemStore TxMemPool) (is : List (Env × Input MemStore)) (t : Tx),
      Addressed c.store.objects → Along step (Conserving fun m => Addressed m.objects) c is →
      some t ∈ c.memPool.plist ∨ t ∈ c.addedTxs is → Accounted (is.foldl step c) t) ∧
    (∀ (c : Consensus IPFSStorage TxMemPool) (is : List (Env × Input IPFSStorage)) (t : Tx),
      Addressed c.store.objects → Along step (Conserving fun s => Addressed s.objects) c is →
      some t ∈ c.memPool.plist ∨ t ∈ c.addedTxs is → Accounted (is.foldl step c) t) ∧
    ∀ (S : Type) [Store S] (ω : Env) (c c' : Consensus S TxMemPool) (e : Err),
      (makeBlock ω).run c = (.err e, c') →
      (c'.memPool.plist.Perm c.memPool.plist ↔ ω.nonce = none) := by
  refine ⟨?_, ?_, ?_⟩
  · intro c is t hs hrun ht
    have hstore := MemStore.hashStore hinj
    exact (kept_of_conserving hstore (fun ω b s => hstore.isBlockValid ω b true s) hs hrun
      (ht.imp_left .inl)).accounted
  · intro c is t hs hrun ht
    have hstore := IPFSStorage.hashStore hinj
    exact (kept_of_conserving hstore (fun ω b s => hstore.isBlockValid ω b true s) hs hrun
      (ht.imp_left .inl)).accounted
  · intro S _ ω c c' e h
    exact makeBlock_err h

/-! ### A node with one transaction -/

section

open Didem.Sample

section

open Storage.Sample.Exact

/-- The node is given a transaction. -/
def giveTx {S : Type} : Env × Input S :=
  (env, .call (.tx (some ⟨some (Storage.Sample.vcTx 5), 0⟩)))

/-- Nothing is wrong with a node that is elected after that, if its store takes everything. -/
theorem conserving_giveTx {S : Type} [Store S] {Inv : S → Prop} {c : Consensus S TxMemPool}
    (hblock : (c.step giveTx).propsalState.block = .undef)
    (hpool : (c.step giveTx).memPool.plist = [some (Storage.Sample.vcTx 5)])
    (htx : ∀ s : S, ∃ cid s', Store.putTx env.toRuntime (Storage.Sample.vcTx 5) s = (.ok cid, s'))
    (hset : ∀ (n : TxSet) (s : S), ∃ cid s', Store.putSet env.toRuntime n s = (.ok cid, s'))
    (hput : ∀ (b : Block) (s : S), ∃ cid s', Store.putBlock env.toRuntime b s = (.ok cid, s')) :
    Along step (Conserving Inv) c [giveTx, (env, .call (.beacon 0))] := by
  refine ⟨⟨fun _ hs => (nomatch hs), ?_⟩, ⟨fun _ hs => (nomatch hs), ?_⟩, trivial⟩
  · intro _ k hk
    obtain rfl := Option.some.inj hk
    trivial
  · intro _ k hk
    obtain rfl := Option.some.inj hk
    intro p _
    refine ⟨fun h => absurd hblock h, fun _ _ _ => ⟨fun x hx => ?_, hset, hput, fun _ => ⟨_, rfl⟩⟩⟩
    rw [hpool, List.mem_singleton] at hx
    exact ⟨_, hx, htx⟩

/-- A block is made of the transaction on either store; and without a nonce nothing is taken out. -/
theorem proposed_accounted :
    Accounted ([giveTx, (env, .call (.beacon 0))].foldl step
        (startedNode soleOptions ({} : MemStore))) (Storage.Sample.vcTx 5) ∧
      Accounted ([giveTx, (env, .call (.beacon 0))].foldl step
        (startedNode soleOptions ({} : IPFSStorage))) (Storage.Sample.vcTx 5) ∧
      ((makeBlock { env with nonce := none }).run
        ((startedNode soleOptions ({} : MemStore)).step giveTx)).2.memPool.plist.Perm
        [some (Storage.Sample.vcTx 5)] := by
  obtain ⟨hmem, hipfs, herr⟩ := no_tx_lost sum_injective
  refine ⟨?_, ?_, ?_⟩
  · have hstart : (newConsensus Storage.Sample.runtime "a" soleOptions ({} : TxMemPool)).run
        ({} : MemStore) =
          (.ok (startedNode soleOptions {}), (startedNode soleOptions {}).store) := by
      decide +kernel
    refine hmem _ _ _ (Started.of_newConsensus (MemStore.anchored sum_injective) addressed_empty
      hstart).inv (conserving_giveTx ?_ ?_ ?_ ?_ ?_) (.inr ?_)
    · decide +kernel
    · decide +kernel
    · exact fun _ => ⟨_, _, rfl⟩
    · exact fun _ _ => ⟨_, _, rfl⟩
    · exact fun _ _ => ⟨_, _, rfl⟩
    · decide +kernel
  · have hstart : (newConsensus Storage.Sample.runtime "a" soleOptions ({} : TxMemPool)).run
        ({} : IPFSStorage) =
          (.ok (startedNode soleOptions {}), (startedNode soleOptions {}).store) := by
      decide +kernel
    refine hipfs _ _ _ (Started.of_newConsensus (IPFSStorage.anchored sum_injective)
      ⟨addressed_empty, rfl⟩ hstart).inv.1 (conserving_giveTx ?_ ?_ ?_ ?_ ?_) (.inr ?_)
    · decide +kernel
    · decide +kernel
    · exact fun _ => ⟨_, _, rfl⟩
    · exact fun _ _ => ⟨_, _, rfl⟩
    · exact fun _ _ => ⟨_, _, rfl⟩
    · decide +kernel
  · exact (herr MemStore { env with nonce := none } _ _ (.new "rand") rfl).mpr rfl

end

section

open Storage.Sample

/-- A store that takes nothing. -/
def refusingEnv : Env := { env with put := fun _ => false }

/-- The node is elected a second time before its block is committed. -/
def abandonedRun : List (Env × Input MemStore) :=
  [call (.tx (some ⟨some (vcTx 5), 0⟩)), call beacon, call beacon]

/-- **Two ways to lose a transaction.** A beacon tick comes before the block of the last one is
committed; and the store fails while the block is made. -/
theorem tx_lost :
    let failed := (makeBlock refusingEnv).run
      (.boot [9] "p" none ⟨[some (vcTx 5)]⟩ ({} : IPFSStorage) none : Consensus _ TxMemPool)
    vcTx 5 ∈ (node "p").addedTxs abandonedRun ∧
      ¬ Accounted (abandonedRun.foldl step (node "p")) (vcTx 5) ∧
      failed.1 = .err (.wrap (.new "block put") "storing tx") ∧ failed.2.memPool.plist = [] := by
  obtain ⟨hpool, hblock, hcommits⟩ :
      (abandonedRun.foldl step (node "p")).memPool.plist = [] ∧
        (abandonedRun.foldl step (node "p")).propsalState.block = .undef ∧
        commits (abandonedRun.foldl step (node "p")).trace = [] := by decide +kernel
  refine ⟨by decide +kernel, ?_, by decide +kernel, by decide +kernel⟩
  rintro (h | h | ⟨p, hp, -⟩)
  · rw [hpool] at h
    exact absurd h (by simp)
  · exact h.1 hblock
  · rw [hcommits] at hp
    exact absurd hp (by simp)

end
end
end Didem
