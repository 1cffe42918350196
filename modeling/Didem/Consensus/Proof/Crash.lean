import Didem.Consensus.Proof.Frame
import Didem.Storage.Proof.Totality

/-!
# What crashes a node

A message reaches a handler by its type tag, and the part the handler then reads need not be there:
the two are decoded independently. This module says of each handler, and then of `onMsg`, on which
messages it panics, **in whatever state the node is**. Below the handlers stand the store and the
mempool, each with panics of its own (`Hazards`, `TxMemPool.Lonely`), so the answer is as long as it
has to be; but every line of it is about the message and the state it meets.

The rules of `Proc.Panics` do the bookkeeping. Errors that are logged do not enter, and neither does
anything that is sent: the libraries underneath return (`CryptoLib.Returns`).
-/

set_option autoImplicit false

namespace Didem

open Lib Storage

/-- The encoder and the signer end with a value or an error. -/
structure CryptoLib.Returns [CryptoLib] : Prop where
  marshalMsg : ∀ msg : Msg, CryptoLib.marshalMsg msg ≠ .panic
  sign : ∀ key data : Bytes, CryptoLib.sign key data ≠ .panic

/-! ## Nil maps -/

/-- The map for evidence of such a vote was never made. -/
def State.NoEvidenceBook (p : State) (t : VoteType) : Prop :=
  t = .preVote ∧ p.preVotesEvidence = none ∨ t = .preCommit ∧ p.preCommitsEvidence = none

/-- The map for such a vote was never made, and the step is the one that counts it. -/
def State.NoVoteBook (p : State) (t : VoteType) : Prop :=
  t = .preVote ∧ p.step = .prevote ∧ p.preVotes = none ∨
    t = .preCommit ∧ p.step = .precommit ∧ p.preCommits = none

/-- The vote passes the state check of `onVote`. -/
def State.Current [CidText] (p : State) (vote : ConsensusMsgVote) : Prop :=
  vote.height = p.height ∧ vote.blockID = p.block.string ∧ vote.round = p.round

/-- The vote passes the state check and meets a nil map. -/
def State.FatalVote [CidText] (p : State) (vote : ConsensusMsgVote) : Prop :=
  p.Current vote ∧ (p.NoVoteBook vote.type ∨ p.amProposer = true ∧ p.NoEvidenceBook vote.type)

namespace Consensus

variable {S M : Type}

theorem run_of_panics {p : Engine S M Unit} {c : Consensus S M} (h : p.Panics c) :
    c.run p = (Proc.run p c).2.crash := by
  unfold Proc.Panics at h
  unfold run
  revert h
  cases Proc.run p c with
  | mk r c' =>
    intro h
    obtain rfl : r = .panic := h
    rfl

theorem run_of_not_panics {p : Engine S M Unit} {c : Consensus S M} (h : ¬ p.Panics c) :
    c.run p = (Proc.run p c).2 := by
  unfold Proc.Panics at h
  unfold run
  revert h
  cases Proc.run p c with
  | mk r c' =>
    intro h
    cases r with
    | ok u => rfl
    | err e => rfl
    | panic => exact absurd rfl h

/-! ## Sending -/

theorem putEvidence_panics {t : VoteType} {key : String} {msg : ConsensusMsgEvidence}
    {c : Consensus S M} :
    (putEvidence t key msg : Engine S M Unit).Panics c ↔ c.propsalState.NoEvidenceBook t := by
  simp only [putEvidence, Proc.panics_get_bind, State.NoEvidenceBook]
  cases t with
  | preVote => cases c.propsalState.preVotesEvidence <;> simp
  | preCommit => cases c.propsalState.preCommitsEvidence <;> simp
  | other n => simp

section Send

variable [CryptoLib] (hlib : CryptoLib.Returns)

include hlib

theorem sendMsg_returns (ω : Env) (wrapper : ConsensusMsg) (c : Consensus S M) :
    ¬ (sendMsg ω wrapper : Engine S M Unit).Panics c := by
  simp only [sendMsg, Proc.panics_get_bind]
  cases c.signingKey with
  | none => simp
  | some key =>
    simp only [Proc.panics_lift_bind, signatureData, Outcome.mapErr_eq_panic,
      hlib.marshalMsg, hlib.sign, false_or, not_exists, not_and]
    intro signData _ sig _
    split <;> simp

theorem sendVote_returns (ω : Env) (t : VoteType) (value : String) (c : Consensus S M) :
    ¬ (sendVote ω t value : Engine S M Unit).Panics c := sendMsg_returns hlib ω _ c

theorem sendEvidence_panics {ω : Env} {vote : ConsensusMsgVote} {c : Consensus S M} :
    (sendEvidence ω vote : Engine S M Unit).Panics c ↔
      c.propsalState.NoEvidenceBook vote.type := by
  rw [sendEvidence, Proc.panics_bind, putEvidence_panics]
  simp [sendMsg_returns hlib]

end Send

/-! ## Votes -/

/-- The maps of evidence are as they were, and the node is up if it was. -/
def SameEvidence (c c' : Consensus S M) : Prop :=
  c'.crashed = c.crashed ∧
    c'.propsalState.preVotesEvidence = c.propsalState.preVotesEvidence ∧
    c'.propsalState.preCommitsEvidence = c.propsalState.preCommitsEvidence

instance : Std.Refl (SameEvidence (S := S) (M := M)) := ⟨fun _ => ⟨rfl, rfl, rfl⟩⟩

instance : IsTrans (Consensus S M) SameEvidence :=
  ⟨fun _ _ _ hab hbc => ⟨hbc.1.trans hab.1, hbc.2.1.trans hab.2.1, hbc.2.2.trans hab.2.2⟩⟩

theorem SameEvidence.noEvidenceBook {c c' : Consensus S M} (h : SameEvidence c c')
    (t : VoteType) : c'.propsalState.NoEvidenceBook t ↔ c.propsalState.NoEvidenceBook t := by
  unfold State.NoEvidenceBook
  rw [h.2.1, h.2.2]

section Votes

variable [CryptoLib] [CidText]

theorem countVote_sameEvidence (ω : Env) (t : VoteType) (msg : Msg) :
    Proc.Within SameEvidence (countVote ω t msg : Engine S M Unit) := by
  have hsend (value : String) :
      Proc.Within SameEvidence (sendVote ω .preCommit value : Engine S M Unit) := by
    intro c
    obtain ⟨vote, htold, -⟩ := sendVote_told ω .preCommit value c
    rw [htold]
    exact ⟨rfl, rfl, rfl⟩
  cases t with
  | preVote =>
    refine .bind .get fun c => ?_
    split
    · exact .pure _
    · cases c.propsalState.preVotes with
      | none => exact .lift _
      | some book =>
        refine .bind (.modify fun _ => ⟨rfl, rfl, rfl⟩) fun _ => ?_
        split
        · exact .bind (.modify fun _ => ⟨rfl, rfl, rfl⟩) fun _ => .logged (hsend _)
        · exact .pure _
  | preCommit =>
    refine .bind .get fun c => ?_
    split
    · exact .pure _
    · cases c.propsalState.preCommits with
      | none => exact .lift _
      | some book =>
        refine .bind (.modify fun _ => ⟨rfl, rfl, rfl⟩) fun _ => ?_
        split
        · exact .modify fun _ => ⟨rfl, rfl, rfl⟩
        · exact .pure _
  | other n => exact .pure _

variable (hlib : CryptoLib.Returns)

include hlib

/-- Counting a vote makes no errors of its own: it ends with nil, or on a nil map. -/
theorem countVote_ends (ω : Env) (t : VoteType) (msg : Msg) (c : Consensus S M) :
    (c.propsalState.NoVoteBook t ∧ (countVote ω t msg : Engine S M Unit).Panics c) ∨
      ¬ c.propsalState.NoVoteBook t ∧ ((countVote ω t msg : Engine S M Unit).run c).1 = .ok () := by
  unfold State.NoVoteBook Proc.Panics
  cases t with
  | preVote =>
    simp only [countVote, onPreVote, Proc.run_bind, Proc.run_get]
    split
    · next hstep => simp [hstep]
    · next hstep =>
      rw [not_not] at hstep
      cases c.propsalState.preVotes with
      | none => simp [hstep]
      | some book =>
        simp only [Proc.run_bind, Proc.run_modify]
        split
        · simp [Proc.run_logged_of_not_panics (sendVote_returns hlib ω _ _ _)]
        · simp
  | preCommit =>
    simp only [countVote, onPreCommit, Proc.run_bind, Proc.run_get]
    split
    · next hstep => simp [hstep]
    · next hstep =>
      rw [not_not] at hstep
      cases c.propsalState.preCommits with
      | none => simp [hstep]
      | some book =>
        simp only [Proc.run_bind, Proc.run_modify]
        split <;> simp
  | other n => simp [countVote]

/-- `onVote`: what it reads of the message comes before the check of the sender, and what it reads
of the vote after. -/
theorem onVote_panics {ω : Env} {msg : Msg} {sender : String} {c : Consensus S M} :
    (onVote ω msg sender : Engine S M Unit).Panics c ↔
      ∀ body ∈ msg.consensus, sender ≠ c.state.proposer ∧
        ∀ vote ∈ body.vote, c.propsalState.FatalVote vote := by
  simp only [onVote, Proc.panics_get_bind]
  cases msg.consensus with
  | none => simp
  | some body =>
    simp only [Option.mem_some_iff, forall_eq']
    split
    · next hsender => simp [hsender]
    · next hsender =>
      cases body.vote with
      | none => simp [hsender]
      | some vote =>
        simp only [Option.mem_some_iff, forall_eq', ne_eq, hsender, not_false_eq_true, true_and]
        split
        · next hstale =>
          have hcurrent : ¬ c.propsalState.Current vote := by
            unfold State.Current
            tauto
          simp [State.FatalVote, hcurrent]
        · next hcurrent =>
          have hcurrent : c.propsalState.Current vote := by
            unfold State.Current
            tauto
          rw [Proc.panics_bind]
          simp only [State.FatalVote, hcurrent, true_and]
          obtain ⟨hbook, hpanics⟩ | ⟨hbook, hok⟩ := countVote_ends hlib ω vote.type msg c
          · simp [hbook, hpanics]
          · have hquiet : ¬ (countVote ω vote.type msg : Engine S M Unit).Panics c :=
              fun h => absurd (hok.symm.trans h) (by simp)
            have hsame := countVote_sameEvidence ω vote.type msg c
            simp only [hbook, hquiet, false_or]
            revert hok hsame
            cases (countVote ω vote.type msg : Engine S M Unit).run c with
            | mk r c' =>
              intro hok hsame
              obtain rfl : r = .ok () := hok
              simp only [Prod.mk.injEq, true_and]
              have hevidence := hsame.noEvidenceBook vote.type
              split
              · next ham => simp [ham, sendEvidence_panics hlib, hevidence]
              · next ham => simp [ham]

end Votes

/-! ## Messages from the proposer -/

theorem onNewRound_panics {msg : Option ConsensusMsgNewRound} {sender : String}
    {c : Consensus S M} :
    (onNewRound msg sender : Engine S M Unit).Panics c ↔
      sender = c.state.proposer ∧ msg = none := by
  simp only [onNewRound, Proc.panics_get_bind]
  split
  · next hsender => simp [hsender]
  · next hsender =>
    rw [not_not] at hsender
    cases msg <;> simp [hsender]

theorem onEvidence_panics {msg : Option ConsensusMsgEvidence} {sender : String}
    {c : Consensus S M} :
    (onEvidence msg sender : Engine S M Unit).Panics c ↔
      sender = c.state.proposer ∧ ∀ m ∈ msg, c.propsalState.NoEvidenceBook m.type := by
  simp only [onEvidence, Proc.panics_get_bind]
  split
  · next hsender => simp [hsender]
  · next hsender =>
    rw [not_not] at hsender
    cases msg <;> simp [hsender, putEvidence_panics]

end Consensus

/-- What makes a store panic, of what the handlers ask of it. -/
structure Hazards (S : Type) where
  /-- `Node` panics. -/
  node : String → S → Prop
  /-- `IsBlockValid` panics on the block, as a new one. -/
  validate : Runtime → Block → S → Prop
  /-- `MarkBlock` panics, marking the block as accepted. -/
  accept : Runtime → BlockID → S → Prop

/-- These are the hazards of the store, and all of them. -/
structure Hazards.Exact {S : Type} [Store S] [Validator S] (haz : Hazards S) : Prop where
  node : ∀ (id : String) (s : S), Store.node s id = .panic ↔ haz.node id s
  validate : ∀ (ω : Runtime) (b : Block) (s : S),
    (Validator.isBlockValid ω b true s).1 = .panic ↔ haz.validate ω b s
  accept : ∀ (ω : Runtime) (id : BlockID) (s : S),
    (Store.markBlock ω id .accepted s).1 = .panic ↔ haz.accept ω id s
  getBlock : ∀ (s : S) (id : BlockID), Store.getBlock s id ≠ .panic
  updateLastApplied : ∀ (id : BlockID) (s : S), (Store.updateLastApplied id s).1 ≠ .panic

namespace Consensus

/-- A store call followed by what does not panic. -/
theorem onStore_bind_panics {S M α β : Type} {p : Proc Err S α} {g : Err → Err}
    {f : α → Engine S M β} {c : Consensus S M} (hf : ∀ a c', ¬ (f a).Panics c') :
    (Proc.wrap g (onStore p : Engine S M α) >>= f).Panics c ↔ (p c.store).1 = .panic := by
  rw [Proc.panics_bind, Proc.panics_wrap]
  simp only [hf, and_false, exists_false, or_false]
  rfl

section Proposal

variable {S M : Type} [Store S] [Validator S] [CidText]

/-- The proposal names a block the store has, and validating it panics. -/
def FatalProposal (haz : Hazards S) (ω : Env) (s : S) (value : String) : Prop :=
  value ≠ Cid.undef.string ∧ ∃ cv block, CidText.parse value = some cv ∧
    Store.getBlock s cv = .ok block ∧ haz.validate ω.toRuntime block s

variable {haz : Hazards S} (hexact : haz.Exact)

include hexact

theorem validate_panics {ω : Env} {value : String} {c : Consensus S M} :
    (validate ω value : Engine S M Cid).Panics c ↔ FatalProposal haz ω c.store value := by
  unfold validate FatalProposal
  split
  · next hvalue => simp [hvalue]
  · next hvalue =>
    cases CidText.parse value with
    | none => simp
    | some cv =>
      have hblock : (Store.getBlock c.store cv).mapErr (·.wrap "getting block") ≠ .panic :=
        fun h => hexact.getBlock _ _ (Outcome.mapErr_eq_panic.mp h)
      have hcheck (b : Block) := (onStore_bind_panics (M := M) (c := c)
        (p := Validator.isBlockValid ω.toRuntime b true) (g := (·.wrap "invalid block"))
        (f := fun _ => do
          .modify (record (.validated cv))
          return cv) (by simp)).trans (hexact.validate ω.toRuntime b c.store)
      simp only [Proc.panics_get_bind, Proc.panics_lift_bind, hblock, false_or,
        Outcome.mapErr_eq_ok, ne_eq, hvalue, not_false_eq_true, true_and, Option.some.injEq]
      constructor
      · rintro ⟨b, hb, h⟩
        exact ⟨cv, b, rfl, hb, (hcheck b).mp h⟩
      · rintro ⟨cv', b, rfl, hb, h⟩
        exact ⟨b, hb, (hcheck b).mpr h⟩

variable [CryptoLib] (hlib : CryptoLib.Returns)

include hlib

theorem onProposal_panics {ω : Env} {msg : Option ConsensusMsgProposal} {sender : String}
    {c : Consensus S M} :
    (onProposal ω msg sender : Engine S M Unit).Panics c ↔
      sender = c.state.proposer ∧ c.propsalState.step = .propose ∧
        ∀ m ∈ msg, FatalProposal haz ω c.store m.blockID := by
  simp only [onProposal, Proc.panics_get_bind]
  split
  · next h =>
    simp only [Proc.not_panics_pure, false_iff, not_and]
    tauto
  · next h =>
    obtain ⟨hsender, hstep⟩ : sender = c.state.proposer ∧ c.propsalState.step = .propose := by
      tauto
    cases msg with
    | none => simp [hsender, hstep]
    | some m =>
      have hsend (bc : Cid) (c' : Consensus S M) :
          ¬ (prevoteFor ω bc m.blockID : Engine S M Unit).Panics c' := by
        simp [prevoteFor, Proc.panics_bind, sendVote_returns hlib]
      rw [Proc.panics_bind, Proc.panics_orElse, validate_panics hexact]
      simp only [hsender, hstep, Option.mem_some_iff, forall_eq', true_and, or_iff_left_iff_imp]
      rintro ⟨bc, c', -, h⟩
      split at h
      · exact absurd h (by simp)
      · exact absurd h (by simp [hsend])

omit [CryptoLib] hlib [CidText] in
/-- A commit panics as far as marking the locked block does. -/
theorem commit_panics {ω : Env} {c : Consensus S M} :
    (commit ω : Engine S M Unit).Panics c ↔ c.propsalState.lockedValue ≠ .undef ∧
      haz.accept ω.toRuntime c.propsalState.lockedValue c.store := by
  have hmark : c.MarkPanics ω ↔ c.propsalState.lockedValue ≠ .undef ∧
      haz.accept ω.toRuntime c.propsalState.lockedValue c.store :=
    and_congr_right fun _ => hexact.accept _ _ _
  rw [← hmark, Proc.Panics]
  by_cases hpanic : c.MarkPanics ω
  · exact iff_of_true (congrArg Prod.fst (commit_run_of_panics hpanic)) hpanic
  · refine iff_of_false ?_ hpanic
    rw [commit_run hexact.updateLastApplied hpanic]
    simp

omit [CryptoLib] hlib in
theorem onBlock_panics {ω : Env} {msg : Option ConsensusMsgBlock} {sender : String}
    {c : Consensus S M} :
    (onBlock ω msg sender : Engine S M Unit).Panics c ↔
      sender = c.state.proposer ∧ c.propsalState.step = .block ∧ ∀ m ∈ msg,
        (m.cid = c.propsalState.lockedValue.string ∧ m.round = c.propsalState.lockedRound) ∧
          c.propsalState.lockedValue ≠ .undef ∧
          haz.accept ω.toRuntime c.propsalState.lockedValue c.store := by
  simp only [onBlock, Proc.panics_get_bind]
  split
  · next h =>
    simp only [Proc.not_panics_pure, false_iff, not_and]
    tauto
  · next h =>
    obtain ⟨hsender, hstep⟩ : sender = c.state.proposer ∧ c.propsalState.step = .block := by tauto
    cases msg with
    | none => simp [hsender, hstep]
    | some m =>
      simp only [hsender, hstep, Option.mem_some_iff, forall_eq', true_and]
      split
      · next hother =>
        simp only [Proc.not_panics_pure, false_iff, not_and]
        tauto
      · next hsame =>
        have hmatch : m.cid = c.propsalState.lockedValue.string ∧
            m.round = c.propsalState.lockedRound := by
          rw [not_or, not_not, not_not] at hsame
          exact ⟨hsame.1, hsame.2.symm⟩
        rw [commit_panics hexact, and_iff_right hmatch]

end Proposal

/-- A transaction message panics without its part, and where the mempool compares with nil. -/
theorem onTx_panics {S : Type} {msg : Option TxMsg} {c : Consensus S TxMemPool}
    (hpool : c.memPool.Lonely) :
    (onTx msg : Engine S TxMemPool Unit).Panics c ↔
      ∀ m ∈ msg, c.memPool.plist = [none] ∨ m.tx = none ∧ c.memPool.plist ≠ [] := by
  cases msg with
  | none => simp [onTx]
  | some m =>
    have hadd := TxMemPool.addTx_eq_panic hpool (t := m.tx)
    simp only [Option.mem_some_iff, forall_eq', ← hadd, onTx, Proc.panics_logged]
    rfl

/-! ## `onMsg` -/

section Msg

variable {S : Type} [Store S] [CidText]

/-- The consensus message is handled, and what its type names is missing or does harm. -/
def FatalBody {M : Type} (haz : Hazards S) (ω : Env) (c : Consensus S M) (sender : String)
    (body : ConsensusMsg) : Prop :=
  match body.type with
  | .newRound => sender = c.state.proposer ∧ body.newRound = none
  | .proposal =>
    sender = c.state.proposer ∧ c.propsalState.step = .propose ∧
      ∀ msg ∈ body.proposal, FatalProposal haz ω c.store msg.blockID
  | .vote =>
    sender ≠ c.state.proposer ∧ ∀ vote ∈ body.vote, c.propsalState.FatalVote vote
  | .block =>
    sender = c.state.proposer ∧ c.propsalState.step = .block ∧ ∀ msg ∈ body.block,
      (msg.cid = c.propsalState.lockedValue.string ∧ msg.round = c.propsalState.lockedRound) ∧
        c.propsalState.lockedValue ≠ .undef ∧
        haz.accept ω.toRuntime c.propsalState.lockedValue c.store
  | .evidence =>
    sender = c.state.proposer ∧
      ∀ msg ∈ body.evidence, c.propsalState.NoEvidenceBook msg.type
  | .other _ => False

/-- What a message that passed the signature check does harm by. -/
def FatalContent (haz : Hazards S) (ω : Env) (c : Consensus S TxMemPool) (msg : Msg) : Prop :=
  match msg.type with
  | .consensus => ∀ body ∈ msg.consensus, FatalBody haz ω c msg.sender body
  | .tx => ∀ m ∈ msg.tx, c.memPool.plist = [none] ∨ m.tx = none ∧ c.memPool.plist ≠ []
  | .block | .other _ => False

variable [CryptoLib] [SigLib]

/-- The signature check of `onMsg` on a message, under a key: the bytes that are verified. -/
def Verified (msg : Msg) (pk : Bytes) : Prop :=
  ∃ signData, signatureData msg = .ok signData ∧
    SigLib.blsVerify pk msg.signature (CryptoLib.peerBytes msg.sender ++ signData) = true

/-- **The messages that crash a node.** On the node's own chain: the store panics on the sender, or
the sender's key decodes and is not a point of the curve, or the signature verifies under it and the
content does harm. -/
def Fatal (haz : Hazards S) (ω : Env) (c : Consensus S TxMemPool) (msg : Msg) : Prop :=
  msg.chain = c.chain ∧
    (haz.node msg.sender c.store ∨
      ∃ n rawPk, Store.node c.store msg.sender = .ok n ∧
        SigLib.multibaseDecode n.key = some rawPk ∧
        (SigLib.blsPublicKey rawPk = none ∧ (∃ signData, signatureData msg = .ok signData) ∨
          ∃ pk, SigLib.blsPublicKey rawPk = some pk ∧ Verified msg pk ∧
            FatalContent haz ω c msg))

/-- `onMsg`, or the handler it calls, panics. -/
def Crashes [Validator S] (ω : Env) (c : Consensus S TxMemPool) (msg : Msg) : Prop :=
  c.onMsg msg = .panic ∨
    ∃ k, c.onMsg msg = .ok (some k) ∧ (exec ω k : Engine S TxMemPool Unit).Panics c

variable [Validator S] {haz : Hazards S}

/-- The switch over the type of a consensus message. -/
theorem onConsensusMsg_crashes (hexact : haz.Exact) (hlib : CryptoLib.Returns) {ω : Env} {msg : Msg}
    {sender : String} {c : Consensus S TxMemPool} :
    (onConsensusMsg msg sender = .panic ∨ ∃ k, onConsensusMsg msg sender = .ok (some k) ∧
      (exec ω k : Engine S TxMemPool Unit).Panics c) ↔
        ∀ body ∈ msg.consensus, FatalBody haz ω c sender body := by
  cases hbody : msg.consensus with
  | none => simp [onConsensusMsg, hbody]
  | some body =>
    simp only [onConsensusMsg, hbody, Option.mem_some_iff, forall_eq', FatalBody]
    cases body.type with
    | newRound => simp [exec, onNewRound_panics]
    | proposal => simp [exec, onProposal_panics hexact hlib]
    | vote => simp [exec, onVote_panics hlib, hbody]
    | block => simp [exec, onBlock_panics hexact]
    | evidence => simp [exec, onEvidence_panics]
    | other n => simp

/-- **What crashes a node, exactly**, whatever state it is in. -/
theorem crashes_iff_fatal (hexact : haz.Exact) (hlib : CryptoLib.Returns) {ω : Env} {msg : Msg}
    {c : Consensus S TxMemPool} (hpool : c.memPool.Lonely) :
    Crashes ω c msg ↔ Fatal haz ω c msg := by
  have hcontent : (∀ body ∈ msg.consensus, FatalBody haz ω c msg.sender body) ↔ _ :=
    (onConsensusMsg_crashes hexact hlib).symm
  have htx : (onTx msg.tx : Engine S TxMemPool Unit).Panics c ↔ _ := onTx_panics hpool
  unfold Crashes Fatal onMsg
  rw [← hexact.node]
  by_cases hchain : msg.chain = c.chain
  · simp only [hchain, ne_eq, not_true_eq_false, if_false, true_and]
    cases Store.node c.store msg.sender with
    | panic => simp
    | err e => simp
    | ok n =>
      cases hdata : signatureData msg with
      | panic => exact absurd hdata (hlib.marshalMsg _)
      | err e => simp [Verified, hdata]
      | ok signData =>
        simp only [Outcome.ok_bind, reduceCtorEq, false_or, Outcome.ok.injEq, exists_eq_left',
          Verified, hdata, exists_and_left]
        cases SigLib.multibaseDecode n.key with
        | none => simp
        | some rawPk =>
          simp only [Option.some.injEq, exists_eq_left']
          cases SigLib.blsPublicKey rawPk with
          | none => simp
          | some pk =>
            simp only [Option.some.injEq, exists_eq_left', reduceCtorEq, false_and, false_or]
            split
            · next hverify =>
              simp only [hverify, FatalContent, true_and]
              cases msg.type with
              | consensus => exact hcontent.symm
              | tx => simp [exec, htx]
              | block => simp
              | other n => simp
            · next hverify => simp [hverify]
  · simp [hchain]

end Msg

/-! ## The mempool of a node that is up -/

section Pool

variable {S : Type}

/-- A nil transaction that was by itself, or not there, still is. -/
def KeepsLonely (c c' : Consensus S TxMemPool) : Prop := c.memPool.Lonely → c'.memPool.Lonely

instance : Std.Refl (KeepsLonely (S := S)) := ⟨fun _ h => h⟩

instance : IsTrans (Consensus S TxMemPool) KeepsLonely := ⟨fun _ _ _ hab hbc h => hbc (hab h)⟩

theorem Aside.keepsLonely {c c' : Consensus S TxMemPool} (h : Aside c c') : KeepsLonely c c' :=
  fun hc => h.memPool ▸ hc

theorem onStore_keepsLonely {α : Type} (p : Proc Err S α) :
    Proc.Within KeepsLonely (onStore p : Engine S TxMemPool α) := fun _ h => h

variable [Store S]

theorem commit_keepsLonely (ω : Env) :
    Proc.Within KeepsLonely (commit ω : Engine S TxMemPool Unit) := by
  refine .bind .get fun c => .bind ?_ fun _ => ?_
  · refine .bind .get fun c => ?_
    simp only
    split
    · exact .pure _
    · exact .bind (.modify fun _ h => h) fun _ => .logged (onStore_keepsLonely _)
  · exact .bind (.logged (onStore_keepsLonely _)) fun _ => .modify fun _ h => h

theorem MayCommit.keepsLonely {ω : Env} {c c' : Consensus S TxMemPool} (h : MayCommit ω c c') :
    KeepsLonely c c' := by
  obtain ⟨c₁, haside, rfl | rfl⟩ := h
  · exact haside.keepsLonely
  · exact fun hc => commit_keepsLonely ω c₁ (haside.keepsLonely hc)

variable [CryptoLib]

variable [CidText]

theorem startRound_keepsLonely (ω : Env) (inc : Bool) :
    Proc.Within KeepsLonely (startRound ω inc : Engine S TxMemPool Unit) := by
  have hmake : Proc.Within KeepsLonely (makeBlock ω : Engine S TxMemPool (Option Block)) :=
    makeBlock_within (fun _ h => h.getTx) (fun _ => onStore_keepsLonely _)
      (fun _ => onStore_keepsLonely _) fun _ => onStore_keepsLonely _
  refine .bind (.modify fun _ h => h) fun _ => .bind .get fun c => ?_
  split
  · refine lead_within (fun _ _ h => h.keepsLonely) (buildBlock_within hmake ?_ ?_)
    · exact fun _ => onStore_keepsLonely _
    · exact fun _ _ h => h
  · exact .pure _

variable [Validator S] [SigLib]

/-- Every call but that of `onTx` leaves nil transactions where they were. -/
theorem exec_keepsLonely (ω : Env) {k : Call} (hk : ∀ msg, k ≠ .tx msg)
    (c : Consensus S TxMemPool) : KeepsLonely c ((exec ω k).run c).2 := by
  have haside {p : Engine S TxMemPool Unit} (h : Proc.Within Aside p) :
      KeepsLonely c (p.run c).2 := (h c).keepsLonely
  cases k with
  | beacon b =>
    have hbeacon : Proc.Within KeepsLonely (onBeacon ω b : Engine S TxMemPool Unit) :=
      .bind .get fun _ => .bind (.lift _) fun _ => .bind (.modify fun _ h => h) fun _ =>
        startRound_keepsLonely ω false
    exact hbeacon c
  | newRound msg sender => exact haside (onNewRound_aside msg sender)
  | proposal msg sender =>
    exact onProposal_within (fun _ _ h => h.keepsLonely) (fun _ => onStore_keepsLonely _)
      (fun _ _ h => h) msg sender c
  | vote msg sender => exact haside (onVote_aside ω msg sender)
  | block msg sender => exact (onBlock_mayCommit ω msg sender c).keepsLonely
  | evidence msg sender => exact haside (onEvidence_aside msg sender)
  | tx msg => exact absurd rfl (hk msg)
  | gracePeriod => exact (onGracePeriod_mayCommit ω c).keepsLonely
  | timeoutProposal => exact haside (onTimeoutProposal_aside ω)
  | timeoutPrevote => exact haside (onTimeoutPrevote_aside ω)
  | timeoutPrecommit => exact startRound_keepsLonely ω true c
  | timeoutBlock => exact haside (.pure _)

/-- **One step**: a node that is still up afterwards has no nil transaction beside another. -/
theorem step_lonely (c : Consensus S TxMemPool) (i : Env × Input S)
    (hc : c.crashed = true ∨ c.memPool.Lonely) :
    (c.step i).crashed = true ∨ (c.step i).memPool.Lonely := by
  rcases step_cases c i with ⟨-, h⟩ | ⟨hup, ⟨k, -, h⟩ | ⟨-, h | h | ⟨s, -, h⟩⟩⟩ <;> rw [h]
  · exact hc
  · have hlonely : c.memPool.Lonely := hc.resolve_left (by simp [hup])
    by_cases hpanic : (exec i.1 k : Engine S TxMemPool Unit).Panics c
    · rw [run_of_panics hpanic]
      exact .inl rfl
    · rw [run_of_not_panics hpanic]
      refine .inr ?_
      by_cases hk : ∃ msg, k = .tx msg
      · obtain ⟨msg, rfl⟩ := hk
        cases msg with
        | none => exact hlonely
        | some msg =>
          have hadd : (c.memPool.addTx msg.tx).1 ≠ .panic := fun h => hpanic (by
            show Proc.Panics (Proc.logged _) c
            rw [Proc.panics_logged]
            exact h)
          show ((Proc.logged (onPool (MemPool.addTx msg.tx msg.ttl))).run c).2.memPool.Lonely
          rw [Proc.run_logged_snd]
          exact hlonely.addTx hadd
      · exact exec_keepsLonely i.1 (fun msg h => hk ⟨msg, h⟩) c hlonely
  · exact hc
  · exact .inl rfl
  · exact hc

theorem run_lonely {c : Consensus S TxMemPool} (hc : c.memPool.Lonely)
    (is : List (Env × Input S)) (hup : (is.foldl step c).crashed = false) :
    (is.foldl step c).memPool.Lonely := by
  have h := foldl_invariant (P := fun c : Consensus S TxMemPool =>
    c.crashed = true ∨ c.memPool.Lonely) step_lonely (.inr hc) is
  exact h.resolve_left (by simp [hup])

end Pool

/-! ## The proposer loop -/

/-- The remainder is by the number of registered nodes. -/
theorem elect_eq_panic {S : Type} [Store S] {b : UInt64} {s : S} :
    elect b s = .panic ↔ Store.nodes s = .panic ∨ Store.nodes s = .ok [] := by
  unfold elect
  cases Store.nodes s with
  | panic => simp
  | err e => simp
  | ok nodes => cases nodes <;> simp

end Consensus

/-! ## The two stores -/

section Stores

open NodeValidator

variable [Hash] [SigLib]

/-- A node entry that names another transaction, or one without a payload; a block in which
`AllTx` comes to a transaction without a payload, or the trial to a trap; a validated block of which
one transaction has no payload, or cannot be applied. -/
def memStoreHazards : Hazards MemStore where
  node id m := ∃ cid t, m.nodes.lookup id = some cid ∧ m.objects.lookup cid = some (.tx t) ∧
    (t.hollow = true ∨ t.type = .vc ∨ t.type = .did ∧ t.wellTyped = true)
  validate ω b m := m.Stumbles b ∨ ∃ txs, m.allTx b = .ok txs ∧
    MemStore.TrialTraps (ω.order txs.entries) (m.trialStore b.id)
  accept _ id m := m.stateOf id = .validated ∧ ∃ block, m.getBlock id = .ok block ∧
    (m.Stumbles block ∨
      ∃ txs, m.allTx block = .ok txs ∧ ∃ e ∈ txs.entries, MemStore.applicable e = false)

theorem memStoreHazards_exact (hmarshal : ∀ t : Tx, t.marshal ≠ .panic) :
    memStoreHazards.Exact where
  node _ _ := MemStore.node_eq_panic
  validate _ _ _ := MemStore.isBlockValid_eq_panic hmarshal
  accept _ _ _ := MemStore.markBlock_eq_panic
  getBlock := MemStore.getBlock_ne_panic
  updateLastApplied _ _ := fun h => nomatch h

variable [CidText]

/-- A node entry that names a transaction without a payload; every block whose transactions can be
read, and one in which `AllTx` comes to a transaction without a payload, also when it is accepted. -/
def ipfsHazards : Hazards IPFSStorage where
  node id s := ∃ v cid t, s.metadataGet (typedKey .nodes [id]) = some v ∧ castCid v = some cid ∧
    s.objects.lookup cid = some (.tx t) ∧ t.hollow = true
  validate _ b s := s.Stumbles b ∨ (∃ txs, s.allTx b = .ok txs) ∧ s.pfTipApply = none
  accept _ id s := s.stateOf id = .validated ∧ ∃ block, s.getBlock id = .ok block ∧ s.Stumbles block

theorem ipfsHazards_exact : ipfsHazards.Exact where
  node _ _ := IPFSStorage.node_eq_panic
  validate _ _ _ := IPFSStorage.isBlockValid_eq_panic
  accept _ _ _ := IPFSStorage.markBlock_accepted_eq_panic
  getBlock := IPFSStorage.getBlock_ne_panic
  updateLastApplied _ _ := fun h => nomatch h

open Consensus

omit [Hash] in
/-- In every state a node reaches, over any store with these hazards. -/
theorem reachable_crashes_iff {S : Type} [Store S] {haz : Hazards S} (hexact : haz.Exact)
    [CryptoLib] (hlib : CryptoLib.Returns) (hnodes : ∀ s : S, Store.nodes s ≠ .panic)
    {chain : Bytes} {id : String} {signingKey : Option Bytes} {store : S}
    {lastApplied : Option Block} {is : List (Env × Input S)} {c : Consensus S TxMemPool}
    (hc : is.foldl step (boot chain id signingKey {} store lastApplied) = c)
    (hup : c.crashed = false) :
    (∀ ω msg, ¬ Crashes ω c msg ↔ ¬ Fatal haz ω c msg) ∧
      ∀ b, elect b c.store ≠ .panic ↔ Store.nodes c.store ≠ .ok [] := by
  subst hc
  have hpool := run_lonely (c := boot chain id signingKey ({} : TxMemPool) store lastApplied)
    (.inl (by simp [boot])) is hup
  refine ⟨fun ω msg => not_congr (crashes_iff_fatal hexact hlib hpool), fun b => ?_⟩
  rw [ne_eq, elect_eq_panic]
  simp [hnodes]

/-- **What crashes a node.** Take any run of a node from its start, with a `MemStore` or an
`IPFSStorage` in whatever state, and a state of that run in which the node is up. Of all messages
exactly the fatal ones make `onMsg` or the handler it calls panic; and the proposer loop gets
through a beacon value, whichever it is, exactly if there is a node registered. -/
theorem crashes_iff [CryptoLib] (hlib : CryptoLib.Returns)
    (hmarshal : ∀ t : Tx, t.marshal ≠ .panic) (chain : Bytes) (id : String)
    (signingKey : Option Bytes) (lastApplied : Option Block) :
    (∀ (store : MemStore) (is : List (Env × Input MemStore)) (c : Consensus MemStore TxMemPool),
      is.foldl step (boot chain id signingKey {} store lastApplied) = c → c.crashed = false →
      (∀ ω msg, ¬ Crashes ω c msg ↔ ¬ Fatal memStoreHazards ω c msg) ∧
        ∀ b, elect b c.store ≠ .panic ↔ Store.nodes c.store ≠ .ok []) ∧
    (∀ (store : IPFSStorage) (is : List (Env × Input IPFSStorage))
      (c : Consensus IPFSStorage TxMemPool),
      is.foldl step (boot chain id signingKey {} store lastApplied) = c → c.crashed = false →
      (∀ ω msg, ¬ Crashes ω c msg ↔ ¬ Fatal ipfsHazards ω c msg) ∧
        ∀ b, elect b c.store ≠ .panic ↔ Store.nodes c.store ≠ .ok []) := by
  constructor
  · intro store is c hc hup
    exact reachable_crashes_iff (memStoreHazards_exact hmarshal) hlib (fun _ h => nomatch h) hc hup
  · intro store is c hc hup
    exact reachable_crashes_iff ipfsHazards_exact hlib (fun _ h => nomatch h) hc hup

end Stores

section

open Storage.Sample Sample Consensus

theorem sample_returns : CryptoLib.Returns where
  marshalMsg _ := fun h => nomatch h
  sign _ _ := fun h => nomatch h

/-- The node `a` after a beacon tick. -/
def tickedRun : List (Env × Input MemStore) := [call beacon]

/-- A message of type consensus without a consensus part, signed by the registered node `b`. -/
def bareMsg : Msg :=
  { type := .consensus, sender := "b", chain := [9], timestamp := 7
    signature := point "b" ++ (text "b" ++ [9]) }

/-- The message crashes the node; without registered nodes so does every beacon value. -/
theorem bareMsg_crashes :
    (tickedRun.foldl step (node "a")).crashed = false ∧
      Crashes env (tickedRun.foldl step (node "a")) bareMsg ∧
      ∀ b, elect b ({} : MemStore) = .panic := by
  refine ⟨by decide +kernel, .inl (by decide +kernel), fun b => ?_⟩
  exact elect_eq_panic.mpr (.inr rfl)

/-- The opening of a round, with its part, does no harm. -/
theorem newRound_handled :
    ¬ Crashes env (tickedRun.foldl step (node "a")) (newRound "p" 1 1) ∧
      ∀ b, elect b (tickedRun.foldl step (node "a")).store ≠ .panic := by
  obtain ⟨hmsg, hbeacon⟩ := (crashes_iff sample_returns (by simp [Tx.marshal, SigLib.marshalTx])
    [9] "a" (some (point "a")) none).1 genesisStore tickedRun _ rfl (by decide +kernel)
  refine ⟨(hmsg env (newRound "p" 1 1)).mpr ?_, fun b => (hbeacon b).mpr (by decide +kernel)⟩
  rintro ⟨-, hnode | ⟨n, rawPk, hn, hraw, ⟨hpoint, -⟩ | ⟨pk, -, -, hcontent⟩⟩⟩
  · exact absurd (MemStore.node_eq_panic.mpr hnode) (by decide +kernel)
  · have hp : Store.node (tickedRun.foldl step (Sample.node "a")).store "p" =
        .ok { id := "p", did := "", key := 0 :: point "p" } := by decide +kernel
    obtain rfl := Outcome.ok.inj (hp.symm.trans hn)
    obtain rfl := Option.some.inj hraw
    exact absurd hpoint (by decide)
  · exact absurd (hcontent _ rfl).2 (by simp)

end
end Didem
