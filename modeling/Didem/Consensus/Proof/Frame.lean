import Didem.Consensus.Proof.History

/-!
# What a handler leaves alone

The machine of `Simulation` has no store and no mempool, so results about these need to know which
handler may touch which. Most handlers touch neither, nor the block of the round, nor what was
committed: they are `Aside`. The exceptions are few and each is named where it stands:

* `onTx` and `makeBlock` use the mempool;
* `validate`, `makeBlock`, `buildBlock` and `commit` use the store;
* `startRound`, `buildBlock` and `onProposal` write the block of the round;
* `commit` alone commits, and it is only reached behind the guard of `onBlock`.
-/

set_option autoImplicit false

namespace Didem.Consensus

open Lib Storage

variable {S M : Type}

/-- Nothing happened to the store, the mempool, the block of the round or the committed state. -/
structure Aside (c c' : Consensus S M) : Prop where
  id : c'.id = c.id
  store : c'.store = c.store
  memPool : c'.memPool = c.memPool
  block : c'.propsalState.block = c.propsalState.block
  tip : c'.state.tip = c.state.tip
  commits : commits c'.trace = commits c.trace

instance : Std.Refl (Aside (S := S) (M := M)) := ⟨fun _ => ⟨rfl, rfl, rfl, rfl, rfl, rfl⟩⟩

theorem Aside.trans {a b c : Consensus S M} (hab : Aside a b) (hbc : Aside b c) : Aside a c :=
  ⟨hbc.1.trans hab.1, hbc.2.trans hab.2, hbc.3.trans hab.3, hbc.4.trans hab.4, hbc.5.trans hab.5,
    hbc.6.trans hab.6⟩

instance : IsTrans (Consensus S M) Aside := ⟨fun _ _ _ => Aside.trans⟩

/-! ## Sending -/

theorem putEvidence_aside (t : VoteType) (key : String) (msg : ConsensusMsgEvidence) :
    Proc.Within Aside (putEvidence t key msg : Engine S M Unit) := by
  refine .bind .get ?_
  intro c
  cases t with
  | preVote =>
    cases c.propsalState.preVotesEvidence with
    | none => exact .lift _
    | some book => exact .modify fun _ => ⟨rfl, rfl, rfl, rfl, rfl, rfl⟩
  | preCommit =>
    cases c.propsalState.preCommitsEvidence with
    | none => exact .lift _
    | some book => exact .modify fun _ => ⟨rfl, rfl, rfl, rfl, rfl, rfl⟩
  | other n => exact .pure _

section Send

variable [CryptoLib]

theorem sendMsg_aside (ω : Env) (wrapper : ConsensusMsg) :
    Proc.Within Aside (sendMsg ω wrapper : Engine S M Unit) := by
  intro c
  obtain ⟨sent, hsent, -⟩ := sendMsg_told ω wrapper c
  rw [hsent]
  refine ⟨rfl, rfl, rfl, rfl, rfl, ?_⟩
  show Didem.commits (sent.toList.map .sent ++ c.trace) = _
  rw [commits_append, commits_sent, List.nil_append]

theorem sendVote_aside (ω : Env) (t : VoteType) (value : String) :
    Proc.Within Aside (sendVote ω t value : Engine S M Unit) :=
  .bind .get fun _ => sendMsg_aside ω _

theorem sendBlock_aside [Store S] [SigLib] [CidText] (ω : Env) :
    Proc.Within Aside (sendBlock ω : Engine S M ConsensusMsgBlock) := by
  refine .bind .get ?_
  intro c
  refine .bind (.lift _) ?_
  rintro ⟨pks, sigs⟩
  refine .bind (.lift _) ?_
  intro validators
  refine .bind (.lift _) ?_
  intro signature
  exact .bind (sendMsg_aside ω _) fun _ => .pure _

end Send

/-! ## Handlers that are aside -/

section

variable [CryptoLib] [CidText]

omit [CryptoLib] [CidText] in
theorem onNewRound_aside (msg : Option ConsensusMsgNewRound) (sender : String) :
    Proc.Within Aside (onNewRound msg sender : Engine S M Unit) := by
  refine .bind .get ?_
  intro c
  split
  · exact .pure _
  · cases msg with
    | none => exact .lift _
    | some msg => exact .modify fun _ => ⟨rfl, rfl, rfl, rfl, rfl, rfl⟩

theorem onPreVote_aside (ω : Env) (msg : Msg) :
    Proc.Within Aside (onPreVote ω msg : Engine S M Unit) := by
  refine .bind .get ?_
  intro c
  split
  · exact .pure _
  · cases c.propsalState.preVotes with
    | none => exact .lift _
    | some book =>
      refine .bind (.modify fun _ => ⟨rfl, rfl, rfl, rfl, rfl, rfl⟩) ?_
      intro _
      split
      · refine .bind (.modify fun _ => ⟨rfl, rfl, rfl, rfl, rfl, rfl⟩) ?_
        intro _
        exact .logged (sendVote_aside ω _ _)
      · exact .pure _

omit [CryptoLib] [CidText] in
theorem onPreCommit_aside (msg : Msg) :
    Proc.Within Aside (onPreCommit msg : Engine S M Unit) := by
  refine .bind .get ?_
  intro c
  split
  · exact .pure _
  · cases c.propsalState.preCommits with
    | none => exact .lift _
    | some book =>
      refine .bind (.modify fun _ => ⟨rfl, rfl, rfl, rfl, rfl, rfl⟩) ?_
      intro _
      split
      · exact .modify fun _ => ⟨rfl, rfl, rfl, rfl, rfl, rfl⟩
      · exact .pure _

theorem onVote_aside (ω : Env) (msg : Msg) (sender : String) :
    Proc.Within Aside (onVote ω msg sender : Engine S M Unit) := by
  refine .bind .get ?_
  intro c
  cases msg.consensus with
  | none => exact .lift _
  | some consensus =>
    simp only
    split
    · exact .pure _
    · cases consensus.vote with
      | none => exact .lift _
      | some vote =>
        simp only
        split
        · exact .pure _
        · refine .bind ?_ ?_
          · cases vote.type with
            | preVote => exact onPreVote_aside ω msg
            | preCommit => exact onPreCommit_aside msg
            | other n => exact .pure _
          · intro _
            split
            · exact .logged (.bind (putEvidence_aside _ _ _) fun _ => sendMsg_aside ω _)
            · exact .pure _

omit [CryptoLib] [CidText] in
theorem onEvidence_aside (msg : Option ConsensusMsgEvidence) (sender : String) :
    Proc.Within Aside (onEvidence msg sender : Engine S M Unit) := by
  refine .bind .get ?_
  intro c
  split
  · exact .pure _
  · cases msg with
    | none => exact .lift _
    | some msg => exact putEvidence_aside msg.type sender msg

omit [CidText] in
/-- A Once that sends a vote. -/
theorem once_aside (ω : Env) (t : VoteType) (done : Bool) {g : State → State}
    (hg : ∀ p, (g p).block = p.block) :
    Proc.Within Aside (if done then pure () else do
      Proc.modify (update g)
      Proc.logged (sendVote ω t "") : Engine S M Unit) := by
  cases done with
  | true => exact .pure _
  | false =>
    refine .bind (.modify fun c => ?_) fun _ => .logged (sendVote_aside ω t "")
    exact ⟨rfl, rfl, rfl, hg c.propsalState, rfl, rfl⟩

omit [CidText] in
theorem onTimeoutProposal_aside (ω : Env) :
    Proc.Within Aside (onTimeoutProposal ω : Engine S M Unit) := by
  refine .bind .get ?_
  intro c
  split
  · exact .pure _
  · exact .bind (.modify fun _ => ⟨rfl, rfl, rfl, rfl, rfl, rfl⟩) fun _ =>
      once_aside ω _ _ fun _ => rfl

omit [CidText] in
theorem onTimeoutPrevote_aside (ω : Env) :
    Proc.Within Aside (onTimeoutPrevote ω : Engine S M Unit) := by
  refine .bind .get ?_
  intro c
  split
  · exact .pure _
  · exact .bind (.modify fun _ => ⟨rfl, rfl, rfl, rfl, rfl, rfl⟩) fun _ =>
      once_aside ω _ _ fun _ => rfl

end

/-! ## Handlers that are not

Each is `Within` any preorder that has what is aside and the few things it does besides. -/

section

variable {R : Consensus S M → Consensus S M → Prop} [Std.Refl R] [IsTrans (Consensus S M) R]
  [Store S] [CryptoLib] [CidText]

theorem onProposal_within [Validator S] (haside : ∀ c c', Aside c c' → R c c') {ω : Env}
    (hcheck : ∀ b, Proc.Within R (onStore (Validator.isBlockValid ω.toRuntime b true) :
      Engine S M Unit))
    (hblock : ∀ bc c, R c (c.update fun p => { p with block := bc, pvOnce := true }))
    (msg : Option ConsensusMsgProposal) (sender : String) :
    Proc.Within R (onProposal ω msg sender : Engine S M Unit) := by
  refine .bind .get ?_
  intro c
  split
  · exact .pure _
  · cases msg with
    | none => exact .lift _
    | some msg =>
      refine .bind (.orElse ?_ _) ?_
      · unfold validate
        split
        · exact .pure _
        · split
          · exact .lift _
          · refine .bind .get fun _ => .bind (.lift _) fun block => ?_
            refine .bind (.wrap (hcheck block)) fun _ => ?_
            exact .bind (.modify fun _ => haside _ _ ⟨rfl, rfl, rfl, rfl, rfl, rfl⟩)
              fun _ => .pure _
      · intro bc
        split
        · exact .pure _
        · refine .logged (.bind (.modify (hblock bc)) fun _ => ?_)
          refine .bind ((sendVote_aside ω _ _).mono haside) fun _ => ?_
          exact .modify fun _ => haside _ _ ⟨rfl, rfl, rfl, rfl, rfl, rfl⟩

variable [MemPool M]

theorem lead_within (haside : ∀ c c', Aside c c' → R c c') {ω : Env}
    (hbuild : Proc.Within R (buildBlock ω : Engine S M Unit)) :
    Proc.Within R (lead ω : Engine S M Unit) := by
  have hsend (wrapper : Consensus S M → ConsensusMsg) :
      Proc.Within R (do let c ← Proc.get; sendMsg ω (wrapper c) : Engine S M Unit) :=
    .bind .get fun c => (sendMsg_aside ω (wrapper c)).mono haside
  refine .bind (.wrap (hsend _)) fun _ => .bind .get fun c => ?_
  refine .bind (.lift _) fun nodes => .bind (.lift _) fun n => ?_
  refine .bind (.modify fun _ => haside _ _ ⟨rfl, rfl, rfl, rfl, rfl, rfl⟩) fun _ => ?_
  refine .bind hbuild fun _ => .bind (.wrap (hsend _)) fun _ => ?_
  exact .modify fun _ => haside _ _ ⟨rfl, rfl, rfl, rfl, rfl, rfl⟩

omit [Std.Refl R] [IsTrans (Consensus S M) R] in
/-- A round is opened, and led by its proposer. -/
theorem run_startRound_snd (ω : Env) (inc : Bool) (c : Consensus S M) :
    ((startRound ω inc).run c).2 =
      if (c.openRound inc).propsalState.amProposer then ((lead ω).run (c.openRound inc)).2
      else c.openRound inc := by
  simp only [startRound, Proc.run_bind, Proc.run_modify, Proc.run_get]
  split <;> rfl

end

/-! ## The commit -/

section

variable [Store S]

/-- The node did nothing but what is aside, and then perhaps a commit. -/
def MayCommit (ω : Env) (c c' : Consensus S M) : Prop :=
  ∃ c₁, Aside c c₁ ∧ (c' = c₁ ∨ c' = ((commit ω).run c₁).2)

variable [CidText]

theorem onBlock_mayCommit (ω : Env) (msg : Option ConsensusMsgBlock) (sender : String)
    (c : Consensus S M) : MayCommit ω c ((onBlock ω msg sender).run c).2 := by
  refine ⟨c, Std.Refl.refl c, ?_⟩
  cases msg with
  | none =>
    simp only [onBlock, Proc.run_bind, Proc.run_get]
    split
    · exact .inl rfl
    · exact .inl rfl
  | some msg =>
    rw [onBlock_run]
    split
    · exact .inr rfl
    · exact .inl rfl

theorem onGracePeriod_mayCommit [CryptoLib] [SigLib] (ω : Env) (c : Consensus S M) :
    MayCommit ω c ((onGracePeriod ω).run c).2 := by
  simp only [onGracePeriod, Proc.run_bind, Proc.run_get]
  split
  · exact ⟨c, Std.Refl.refl c, .inl rfl⟩
  · simp only [Proc.run_bind, Proc.run_modify, Proc.run_logged_snd]
    have hsend := sendBlock_aside ω { c with pending := c.pending - 1 }
    revert hsend
    generalize (sendBlock ω : Engine S M ConsensusMsgBlock).run _ = r
    obtain ⟨outcome, c₁⟩ := r
    intro hsend
    have haside : Aside c c₁ := (show Aside c { c with pending := c.pending - 1 } from
      ⟨rfl, rfl, rfl, rfl, rfl, rfl⟩).trans hsend
    cases outcome with
    | err e => exact ⟨c₁, haside, .inl rfl⟩
    | panic => exact ⟨c₁, haside, .inl rfl⟩
    | ok msg =>
      obtain ⟨c₂, haside', h⟩ := onBlock_mayCommit ω (some msg) c.id c₁
      exact ⟨c₂, haside.trans haside', h⟩

omit [CidText] in
/-- The store when the locked block has been marked, if there is one. -/
def markedStore (ω : Env) (c : Consensus S M) : S :=
  if c.propsalState.lockedValue = .undef then c.store
  else (Store.markBlock ω.toRuntime c.propsalState.lockedValue .accepted c.store).2

omit [CidText] in
/-- Marking the locked block panics. -/
def MarkPanics (ω : Env) (c : Consensus S M) : Prop :=
  c.propsalState.lockedValue ≠ .undef ∧
    (Store.markBlock ω.toRuntime c.propsalState.lockedValue .accepted c.store).1 = .panic

omit [CidText] in
/-- The node when the locked block has been marked. -/
def marked (ω : Env) (c : Consensus S M) : Consensus S M :=
  { c with
    store := c.markedStore ω
    trace := (if c.propsalState.lockedValue = .undef then []
      else [.accepted c.propsalState.lockedValue c.propsalState.amProposer]) ++ c.trace }

omit [CidText] in
/-- The node after a commit that went through. -/
def afterCommit (ω : Env) (c : Consensus S M) : Consensus S M :=
  let state :=
    { c.state with
      height := c.propsalState.height, parentBlock := c.state.block
      block := c.propsalState.lockedValue }
  { c.marked ω with
    store := (Store.updateLastApplied c.propsalState.lockedValue (c.markedStore ω)).2
    state := state, trace := .committed c.state.tip state.tip :: (c.marked ω).trace }

omit [CidText] in
theorem snd_markAccepted (ω : Env) (c : Consensus S M) :
    ((markAccepted ω).run c).2 = c.marked ω := by
  simp only [markAccepted, Proc.run_bind, Proc.run_get, marked, markedStore]
  split
  · rfl
  · simp only [Proc.run_bind, Proc.run_modify, Proc.run_logged_snd]
    rfl

omit [CidText] in
/-- An error of `MarkBlock` is logged, so that only a panic is seen of it. -/
theorem fst_markAccepted (ω : Env) (c : Consensus S M) :
    (c.MarkPanics ω → ((markAccepted ω).run c).1 = .panic) ∧
      (¬ c.MarkPanics ω → ((markAccepted ω).run c).1 = .ok ()) := by
  simp only [markAccepted, Proc.run_bind, Proc.run_get, MarkPanics]
  split
  · next hnil => exact ⟨fun h => absurd hnil h.1, fun _ => rfl⟩
  · next hlocked =>
    simp only [Proc.run_bind, Proc.run_modify]
    refine ⟨fun h => Proc.panics_logged.mpr h.2, fun h => ?_⟩
    have hmark : ¬ (onStore (Store.markBlock ω.toRuntime c.propsalState.lockedValue .accepted) :
        Engine S M Unit).Panics
          (record (.accepted c.propsalState.lockedValue c.propsalState.amProposer) c) :=
      fun hpanic => h ⟨hlocked, hpanic⟩
    rw [Proc.run_logged_of_not_panics hmark]

omit [CidText] in
theorem commit_run_of_panics {ω : Env} {c : Consensus S M} (h : c.MarkPanics ω) :
    (commit ω).run c = (.panic, c.marked ω) := by
  have hrun : (markAccepted ω).run c = (.panic, c.marked ω) :=
    Prod.ext ((fst_markAccepted ω c).1 h) (snd_markAccepted ω c)
  simp only [commit, Proc.run_bind, Proc.run_get, hrun]

omit [CidText] in
/-- **A commit**, over a store that does not panic when it is told the last block: it goes through
unless marking the block panics. -/
theorem commit_run (hupdate : ∀ (id : BlockID) (s : S), (Store.updateLastApplied id s).1 ≠ .panic)
    {ω : Env} {c : Consensus S M} (h : ¬ c.MarkPanics ω) :
    (commit ω).run c = (.ok (), c.afterCommit ω) := by
  have hrun : (markAccepted ω).run c = (.ok (), c.marked ω) :=
    Prod.ext ((fst_markAccepted ω c).2 h) (snd_markAccepted ω c)
  have hupd : ¬ (onStore (Store.updateLastApplied c.propsalState.lockedValue) :
      Engine S M Unit).Panics (c.marked ω) := hupdate _ _
  simp only [commit, Proc.run_bind, Proc.run_get, hrun, Proc.run_logged_of_not_panics hupd,
    Proc.run_modify]
  rfl

omit [CidText] in
/-- So it ends with the locked block as the tip and in the store, or where marking it panicked. -/
theorem commit_cases (hupdate : ∀ (id : BlockID) (s : S), (Store.updateLastApplied id s).1 ≠ .panic)
    {ω : Env} {c c' : Consensus S M} (hc' : c' = ((commit ω).run c).2) :
    c'.id = c.id ∧ c'.memPool = c.memPool ∧ c'.propsalState = c.propsalState ∧
      ((c.MarkPanics ω ∧ c'.store = c.markedStore ω ∧ c'.state.tip = c.state.tip ∧
          commits c'.trace = commits c.trace) ∨
        (c'.store = (Store.updateLastApplied c.propsalState.lockedValue (c.markedStore ω)).2 ∧
          c'.state.tip =
            ⟨c.propsalState.height, c.propsalState.lockedValue, c.state.block⟩ ∧
          commits c'.trace = (c.state.tip, c'.state.tip) :: commits c.trace)) := by
  have hcommits : commits (c.marked ω).trace = commits c.trace := by
    simp only [marked]
    split <;> rfl
  by_cases hpanic : c.MarkPanics ω
  · rw [hc', commit_run_of_panics hpanic]
    exact ⟨rfl, rfl, rfl, .inl ⟨hpanic, rfl, rfl, hcommits⟩⟩
  · rw [hc', commit_run hupdate hpanic]
    exact ⟨rfl, rfl, rfl, .inr ⟨rfl, rfl, congrArg _ hcommits⟩⟩

end

/-! ## One step -/

/-- A property that crashing does not touch is kept by a step when it is by the call the input leads
to and by the content that arrives. -/
theorem step_keeps [Store S] [Validator S] [MemPool M] [CryptoLib] [CidText] [SigLib]
    {P : Consensus S M → Prop} (hcrash : ∀ c, P c → P c.crash) {c : Consensus S M}
    {i : Env × Input S} (hc : P c)
    (hcall : c.crashed = false → ∀ k, c.calls i.2 = some k → P ((exec i.1 k).run c).2)
    (hstore : ∀ s, i.2 = .store s → P { c with store := s }) : P (c.step i) := by
  rcases step_cases c i with ⟨-, h⟩ | ⟨hup, ⟨k, hk, h⟩ | ⟨-, h | h | ⟨s, hs, h⟩⟩⟩ <;> rw [h]
  · exact hc
  · have hrun := hcall hup k hk
    revert hrun
    unfold run
    generalize Proc.run (exec i.1 k) c = r
    obtain ⟨outcome, c'⟩ := r
    intro hrun
    cases outcome with
    | ok u => exact hrun
    | err e => exact hrun
    | panic => exact hcrash c' hrun
  · exact hc
  · exact hcrash c hc
  · exact hstore s hs

end Didem.Consensus
