import Didem.Consensus.Proof.Equivocation
import Didem.Consensus.Proof.Certificate
import Didem.Consensus.Proof.History
import Didem.Lib.Quorum

/-!
# Agreement

Two nodes that commit at one height commit the same block, if three things hold that the code leaves
open. A node that has precommitted a block at a height **locks no other** at that height: the lock
is cleared whenever a round is entered. The closure that announces a block runs a while after the
quorum of precommits was seen and announces whatever is locked **by then**: the proposer must have
seen a quorum for that. And a node that accepts an announcement must be at the **height** of it,
which `onBlock` does not compare.

The argument is the usual one. What is committed was announced or is the proposer's own, so a quorum
precommitted it (`Agreed`); two quorums share a node; and a node precommits one block at a height.
Each node is accountable for its part of this against what has been said on the network so far, and
what has been said only grows.
-/

set_option autoImplicit false

namespace Didem

open Lib Storage

/-- A precommit for this value, which is not the empty one of a timeout. -/
def Msg.Precommits (m : Msg) (height : UInt64) (value : String) : Prop :=
  value ≠ "" ∧ ∃ v, m.vote? = some v ∧ v.type = .preCommit ∧ v.height = height ∧ v.blockID = value

/-- A quorum said, by their precommits, that the value is the one at this height. -/
def Agreed (reg : Finset String) (said : Msg → Prop) (height : UInt64) (value : String) : Prop :=
  Supported reg (fun p value => ∃ m, said m ∧ m.sender = p ∧ m.Precommits height value) value

theorem Agreed.mono {reg : Finset String} {said said' : Msg → Prop} (hsaid : ∀ m, said m → said' m)
    {height : UInt64} {value : String} (h : Agreed reg said height value) :
    Agreed reg said' height value :=
  Supported.mono (fun _ ⟨m, hm, hrest⟩ => ⟨m, hsaid m hm, hrest⟩) h

/-- A certificate for a block at a height, of a quorum's size. -/
def Effect.Certificate (reg : Finset String) (height : UInt64) (c : Cid) : Effect → Prop
  | .certified h _ block voters =>
    h = height ∧ block = c ∧ twoThirds (reg.card - 1) < voters.length
  | _ => False

instance (reg : Finset String) (height : UInt64) (c : Cid) :
    (e : Effect) → Decidable (e.Certificate reg height c)
  | .certified _ _ _ _ => inferInstanceAs (Decidable (_ ∧ _ ∧ _))
  | .sent _ | .startRound _ | .validated _ | .accepted _ _ | .committed _ _ =>
    inferInstanceAs (Decidable False)

/-- A node precommits one value at a height. -/
def KeepsLock (trace : List Effect) : Prop :=
  ∀ v ∈ castVotes trace, ∀ v' ∈ castVotes trace, v.type = .preCommit → v'.type = .preCommit →
    v.height = v'.height → v.blockID ≠ "" → v'.blockID ≠ "" → v.blockID = v'.blockID

namespace Core

variable [CidText]

/-- The node has seen a quorum of precommits for this block. -/
def Backed (reg : Finset String) (k : Core) (height : UInt64) (c : Cid) : Prop :=
  ∃ e ∈ k.trace, e.Certificate reg height c

instance (reg : Finset String) (k : Core) (height : UInt64) (c : Cid) :
    Decidable (k.Backed reg height c) := inferInstanceAs (Decidable (∃ e ∈ k.trace, _))

/-- What nothing checks: a node locks no other block than it has precommitted, announces nothing it
has not seen a quorum for, and accepts announcements for its own height. -/
def Prudent (reg : Finset String) (k : Core) : Call → Prop
  | .vote msg _ => k.propsalState.step = .prevote → k.Counted .preVote msg → k.Locks msg →
    ∀ v ∈ castVotes k.trace, v.type = .preCommit → v.height = k.propsalState.height →
      v.blockID ≠ "" → v.blockID = k.propsalState.block.string
  | .block (some msg) sender => k.Passes msg sender → msg.height = k.propsalState.height
  | .gracePeriod => 0 < k.pending → k.Backed reg k.propsalState.height k.propsalState.lockedValue
  | _ => True

instance (reg : Finset String) (k : Core) : (call : Call) → Decidable (k.Prudent reg call)
  | .vote _ _ => inferInstanceAs (Decidable (_ → _ → _ → ∀ v ∈ castVotes k.trace, _))
  | .block (some _) _ => inferInstanceAs (Decidable (_ → _))
  | .gracePeriod => inferInstanceAs (Decidable (_ → _))
  | .beacon _ | .newRound _ _ | .proposal _ _ | .block none _ | .evidence _ _ | .tx _
  | .timeoutProposal | .timeoutPrevote | .timeoutPrecommit | .timeoutBlock =>
    inferInstanceAs (Decidable True)

/-- What a call brings from the network has been said there. -/
def Heard (reg : Finset String) (said : Msg → Prop) : Call → Prop
  | .vote msg sender => sender = msg.sender ∧ msg.sender ∈ reg ∧ said msg
  | .block (some msg) _ => Agreed reg said msg.height msg.cid
  | _ => True

/-- What a node has done, against what has been said. -/
structure Accountable (reg : Finset String) (said : Msg → Prop) (k : Core) : Prop where
  books : k.VoteBooks
  filed : ∀ b, k.propsalState.preCommits = some b → ∀ p m, b.lookup p = some m → p ∈ reg ∧ said m
  backed : ∀ height c, k.Backed reg height c → Agreed reg said height c.string
  announced : ∀ m b, .sent m ∈ k.trace → m.announcement? = some b →
    Agreed reg said b.height b.cid
  committed : ∀ p ∈ commits k.trace, Agreed reg said p.2.height p.2.block.string
  keepsLock : KeepsLock k.trace

theorem Accountable.mono {reg : Finset String} {said said' : Msg → Prop}
    (hsaid : ∀ m, said m → said' m) {k : Core} (h : k.Accountable reg said) :
    k.Accountable reg said' where
  books := h.books
  filed b hb p m hm := ⟨(h.filed b hb p m hm).1, hsaid m (h.filed b hb p m hm).2⟩
  backed height c hc := (h.backed height c hc).mono hsaid
  announced m b hm hb := (h.announced m b hm hb).mono hsaid
  committed p hp := (h.committed p hp).mono hsaid
  keepsLock := h.keepsLock

/-! ## One move -/

variable {reg : Finset String} {said : Msg → Prop} {k : Core} {move : Move} {call : Call}

theorem Accountable.filed_apply (h : k.Accountable reg said) (hheard : Heard reg said call)
    (hof : move.Of call) {b : VoteBook} (hb : (k.apply move).propsalState.preCommits = some b)
    {p : String} {m : Msg} (hm : b.lookup p = some m) : p ∈ reg ∧ said m := by
  rcases preCommits_apply k move with hkept | hempty | ⟨msg, sender, told, rfl⟩
  · exact h.filed b (hkept ▸ hb) p m hm
  · obtain rfl : ∅ = b := Option.some.inj (hempty.symm.trans hb)
    exact absurd hm (by simp)
  · obtain rfl : call = .vote msg sender := hof
    rw [preCommits_apply_preCommit, Option.some.injEq] at hb
    subst hb
    obtain ⟨-, hreg, hsaid⟩ := hheard
    by_cases hp : p = msg.sender
    · subst hp
      rw [enter, AList.lookup_insert, Option.some.injEq] at hm
      exact ⟨hreg, hm ▸ hsaid⟩
    · rw [enter, AList.lookup_insert_ne hp] at hm
      cases hbook : k.propsalState.preCommits with
      | none =>
        rw [hbook] at hm
        exact absurd hm (by simp)
      | some old =>
        rw [hbook] at hm
        exact h.filed old hbook p m hm

/-- A book with a quorum in it is a quorum's word for the block voted on. -/
theorem agreed_of_book {b : VoteBook} (hbooks : k.VoteBooks)
    (hb : k.propsalState.preCommits = some b)
    (hfiled : ∀ p m, b.lookup p = some m → p ∈ reg ∧ said m)
    (hquorum : twoThirds (reg.card - 1) < b.keys.length) :
    Agreed reg said k.propsalState.height k.propsalState.block.string := by
  have hlookup {p : String} (hp : p ∈ b.keys) : ∃ m, b.lookup p = some m :=
    Option.isSome_iff_exists.mp (AList.lookup_isSome.mpr hp)
  refine ⟨b.keys.toFinset, ?_, ?_, ?_⟩
  · intro p hp
    obtain ⟨m, hm⟩ := hlookup (List.mem_toFinset.mp hp)
    exact (hfiled p m hm).1
  · rw [List.toFinset_card_of_nodup (AList.keys_nodup b)]
    exact hquorum
  · intro p hp
    obtain ⟨m, hm⟩ := hlookup (List.mem_toFinset.mp hp)
    obtain ⟨hsender, v, hv, htype, hheight, -, hvalue⟩ := hbooks.preCommits_filed b hb p m hm
    exact ⟨m, (hfiled p m hm).2, hsender, Cid.string_ne_empty _, v, hv, htype, hheight, hvalue⟩

theorem Accountable.backed_apply (h : k.Accountable reg said) (hheard : Heard reg said call)
    (hen : k.Enabled move) (hof : move.Of call) {height : UInt64} {c : Cid}
    (hbacked : (k.apply move).Backed reg height c) : Agreed reg said height c.string := by
  obtain ⟨e, he, hcertificate⟩ := hbacked
  rcases List.mem_append.mp he with hnew | hold
  · cases e with
    | certified h' round block voters =>
      obtain ⟨msg, sender, told, rfl, hcertifies, rfl, -, rfl, rfl⟩ := emits_of_mem hnew
      obtain ⟨rfl, rfl, hquorum⟩ := hcertificate
      have hround : (k.apply (.preCommit msg sender told)).propsalState =
          { k.propsalState with
            preCommits := some (enter k.propsalState.preCommits msg), step := .block
            sbOnce := true } := by
        simp only [apply, next, if_pos hcertifies]
      have hagreed := agreed_of_book (h.books.apply hen) (congrArg State.preCommits hround)
        (fun p m hm => h.filed_apply hheard hof (congrArg State.preCommits hround) hm) hquorum
      rw [hround] at hagreed
      exact hagreed
    | _ => exact hcertificate.elim
  · exact h.backed height c ⟨e, hold, hcertificate⟩

/-- An announcement is of what is locked when the closure runs. -/
theorem Says.announced {m : Msg} (h : k.Says m move) {b : ConsensusMsgBlock}
    (hb : m.announcement? = some b) :
    0 < k.pending ∧ (∃ announced finished, move = .gracePeriod announced finished) ∧
      b.height = k.propsalState.height ∧ b.cid = k.propsalState.lockedValue.string := by
  have hvote {t : VoteType} {value : String → Prop} (hvotes : k.Votes t value m) : False := by
    rw [hvotes.2.1] at hb
    exact absurd hb (by simp)
  cases h with
  | talk htalk =>
    rw [htalk.2.2] at hb
    exact absurd hb (by simp)
  | proposal _ hvotes => exact (hvote hvotes).elim
  | timeoutProposal _ hvotes => exact (hvote hvotes).elim
  | preVote _ hvotes => exact (hvote hvotes).elim
  | timeoutPrevote _ hvotes => exact (hvote hvotes).elim
  | gracePeriod hpending hannounces =>
    obtain ⟨-, -, b', hb', hheight, -, hcid⟩ := hannounces
    obtain rfl : b = b' := Option.some.inj (hb.symm.trans hb')
    exact ⟨hpending, ⟨_, _, rfl⟩, hheight, hcid⟩

/-- Only a lock precommits a value, and the value is the block locked. -/
theorem Says.locks {m : Msg} (h : k.Says m move) {v : ConsensusMsgVote} (hv : m.vote? = some v)
    (htype : v.type = .preCommit) (hvalue : v.blockID ≠ "") :
    ∃ msg sender vote told, move = .preVote msg sender vote told ∧ k.Locks msg ∧
      v.height = k.propsalState.height ∧ v.blockID = k.propsalState.block.string := by
  cases h with
  | talk htalk => exact absurd hv (htalk.vote?_ne v)
  | proposal _ hvotes =>
    rw [(hvotes.of_vote? hv).1] at htype
    exact absurd htype (by simp)
  | timeoutProposal _ hvotes =>
    rw [(hvotes.of_vote? hv).1] at htype
    exact absurd htype (by simp)
  | preVote hlocks hvotes =>
    obtain ⟨-, hheight, -, hblock⟩ := hvotes.of_vote? hv
    exact ⟨_, _, _, _, rfl, hlocks, hheight, hblock⟩
  | timeoutPrevote _ hvotes => exact absurd (hvotes.of_vote? hv).2.2.2 hvalue
  | gracePeriod _ hannounces =>
    rw [hannounces.2.1] at hv
    exact absurd hv (by simp)

/-- What is committed was agreed on: by the announcement, or as the proposer's own certificate. -/
theorem Accountable.agreed_of_commits (h : k.Accountable reg said) (hprudent : k.Prudent reg call)
    (hheard : Heard reg said call) (hen : k.Enabled move) (hof : move.Of call)
    (hcommits : k.Commits move) :
    Agreed reg said k.propsalState.height k.propsalState.lockedValue.string := by
  cases move with
  | block msg sender finished =>
    obtain rfl : call = .block (some msg) sender := hof
    have hagreed : Agreed reg said msg.height msg.cid := hheard
    rw [hprudent hen, hen.2.2.1] at hagreed
    exact hagreed
  | gracePeriod announced finished =>
    obtain rfl : call = .gracePeriod := hof
    exact h.backed _ _ (hprudent hen.1)
  | _ => exact hcommits.elim

theorem Accountable.keepsLock_apply (h : k.Accountable reg said) (hprudent : k.Prudent reg call)
    (hen : k.Enabled move) (hof : move.Of call) : KeepsLock (k.apply move).trace := by
  -- a value precommitted now is the one precommitted at this height before
  have hsame {m : Msg} {v v' : ConsensusMsgVote} (hm : Sends m move) (hv : m.vote? = some v)
      (htype : v.type = .preCommit) (hvalue : v.blockID ≠ "") (hold : v' ∈ castVotes k.trace)
      (htype' : v'.type = .preCommit) (hheight : v.height = v'.height) (hvalue' : v'.blockID ≠ "") :
      v.blockID = v'.blockID := by
    obtain ⟨msg, sender, vote, told, rfl, hlocks, hpresent, hblock⟩ :=
      (says_of_sends hen hm).locks hv htype hvalue
    obtain rfl : call = .vote msg sender := hof
    obtain ⟨hstep, -, -, hcounted, -⟩ := hen
    rw [hblock, hprudent hstep hcounted hlocks v' hold htype' (hheight ▸ hpresent) hvalue']
  intro v hv v' hv' htype htype' hheight hvalue hvalue'
  rcases mem_castVotes_apply hv with ⟨m, hm, hvote⟩ | hold <;>
    rcases mem_castVotes_apply hv' with ⟨m', hm', hvote'⟩ | hold'
  · obtain ⟨-, -, -, -, -, -, -, hblock⟩ := (says_of_sends hen hm).locks hvote htype hvalue
    obtain ⟨-, -, -, -, -, -, -, hblock'⟩ := (says_of_sends hen hm').locks hvote' htype' hvalue'
    rw [hblock, hblock']
  · exact hsame hm hvote htype hvalue hold' htype' hheight hvalue'
  · exact (hsame hm' hvote' htype' hvalue' hold htype hheight.symm hvalue).symm
  · exact h.keepsLock v hold v' hold' htype htype' hheight hvalue hvalue'

theorem Accountable.apply (h : k.Accountable reg said) (hprudent : k.Prudent reg call)
    (hheard : Heard reg said call) (hen : k.Enabled move) (hof : move.Of call) :
    (k.apply move).Accountable reg said where
  books := h.books.apply hen
  filed _ hb _ _ hm := h.filed_apply hheard hof hb hm
  backed _ _ hc := h.backed_apply hheard hen hof hc
  announced m b hm hb := by
    rcases List.mem_append.mp hm with hnew | hold
    · obtain ⟨hpending, ⟨announced, finished, rfl⟩, hheight, hcid⟩ :=
        (says_of_sends hen (emits_of_mem hnew)).announced hb
      obtain rfl : call = .gracePeriod := hof
      rw [hheight, hcid]
      exact h.backed _ _ (hprudent hpending)
    · exact h.announced m b hold hb
  committed p hp := by
    rw [trace_apply, commits_append] at hp
    rcases commits_effects k move with ⟨hnone, -⟩ | ⟨hcommits, hsome, -⟩
    · rw [hnone] at hp
      exact h.committed p hp
    · rw [hsome] at hp
      rcases List.mem_cons.mp hp with rfl | hold
      · exact h.agreed_of_commits hprudent hheard hen hof hcommits
      · exact h.committed p hold
  keepsLock := h.keepsLock_apply hprudent hen hof

end Core

/-! ## Every run -/

namespace World

section

variable {S M : Type}

/-- The message was sent by the node it names, which left out the key. -/
def Said (w : World S M) (m : Msg) : Prop := .sent (m.withKey none) ∈ (w m.sender).trace

/-- No two commits at one height are of different blocks. -/
def Agreement (w : World S M) : Prop :=
  ∀ id id', ∀ p ∈ commits (w id).trace, ∀ p' ∈ commits (w id').trace,
    p.2.height = p'.2.height → p.2.block = p'.2.block

/-- Nodes that are all accountable agree. -/
theorem agreement_of_accountable [CidText] {reg : Finset String} {w : World S M}
    (hw : ∀ id, (w id).core.Accountable reg w.Said) : w.Agreement := by
  intro id id' p hp p' hp' hheight
  have hagreed := (hw id).committed p hp
  have hagreed' := (hw id').committed p' hp'
  rw [← hheight] at hagreed'
  refine Cid.string_inj.mp (Supported.unique ?_ hagreed hagreed')
  rintro v ⟨m, hsaid, rfl, hvalue, vote, hvote, htype, hat, hblock⟩
    ⟨m', hsaid', hsender, hvalue', vote', hvote', htype', hat', hblock'⟩
  rw [← hblock] at hvalue ⊢
  rw [← hblock'] at hvalue' ⊢
  have hcast : vote ∈ castVotes (w m.sender).core.trace := mem_castVotes.mpr ⟨_, hsaid, hvote⟩
  have hcast' : vote' ∈ castVotes (w m.sender).core.trace := by
    rw [← hsender]
    exact mem_castVotes.mpr ⟨_, hsaid', hvote'⟩
  exact (hw m.sender).keepsLock vote hcast vote' hcast' htype htype' (hat.trans hat'.symm) hvalue
    hvalue'

variable [Store S] [CryptoLib] [SigLib]

/-- An event of the network, over a fixed set of registered nodes. -/
def Happens (reg : Finset String) (w : World S M) (i : String × Env × Input S) : Prop :=
  w.Delivers i ∧ Registered reg (w i.1).store

/-- What a node hears in such an event has been said. -/
theorem heard_of_happens [CidText] {reg : Finset String} {w : World S M}
    (hw : ∀ id, (w id).core.Accountable reg w.Said) {i : String × Env × Input S}
    (hi : w.Happens reg i) : ∀ call ∈ (w i.1).calls i.2.2, Core.Heard reg w.Said call := by
  obtain ⟨id, ω, input⟩ := i
  obtain ⟨hdelivers, hreg⟩ := hi
  intro call hcall
  cases call with
  | vote m sender =>
    obtain ⟨msg, rfl, hmsg⟩ := Consensus.onMsg_of_calls hdelivers.isOwn hcall rfl
    obtain ⟨rfl, hsender, htype, n, hn⟩ := Consensus.vote_of_onMsg hmsg
    exact ⟨hsender, hreg.2 _ n hn, (hdelivers htype).2⟩
  | block b sender =>
    cases b with
    | none => trivial
    | some b =>
      obtain ⟨msg, rfl, hmsg⟩ := Consensus.onMsg_of_calls hdelivers.isOwn hcall rfl
      obtain ⟨-, htype, hb⟩ := Consensus.block_of_onMsg hmsg
      exact (hw msg.sender).announced _ b (hdelivers htype).2 hb
  | _ => trivial

variable [Validator S] [MemPool M] [CidText]

/-- What has been said stays said. -/
theorem said_step (w : World S M) (i : String × Env × Input S) {m : Msg} (h : w.Said m) :
    (w.step i).Said m := by
  unfold Said step
  by_cases hid : m.sender = i.1
  · rw [hid, Function.update_self]
    have hold : .sent (m.withKey none) ∈ (w i.1).core.trace := hid ▸ h
    rcases Consensus.step_moves (w i.1) i.2 with hsame | ⟨call, -, move, -, -, hcore⟩
    · rw [show ((w i.1).step i.2).trace = _ from congrArg Core.trace hsame]
      exact hold
    · rw [show ((w i.1).step i.2).trace = _ from congrArg Core.trace hcore, Core.trace_apply]
      exact List.mem_append_right _ hold
  · rw [Function.update_of_ne hid]
    exact h

/-- Every node stays accountable. -/
theorem accountable_step {reg : Finset String} {w : World S M}
    (hw : ∀ id, (w id).core.Accountable reg w.Said) {i : String × Env × Input S}
    (hi : w.Happens reg i) (hprudent : w.OnCalls (Core.Prudent reg) i) (id : String) :
    ((w.step i) id).core.Accountable reg (w.step i).Said := by
  refine Core.Accountable.mono (fun m hm => said_step w i hm) ?_
  unfold step
  by_cases hid : id = i.1
  · subst hid
    rw [Function.update_self]
    refine Consensus.step_invariant (I := Core.Accountable reg w.Said)
      (G := fun k call => k.Prudent reg call ∧ Core.Heard reg w.Said call) ?_ (w i.1) i.2
      (hw i.1) ?_
    · intro k call move hk hg hen hof
      exact hk.apply hg.1 hg.2 hen hof
    · intro call hcall
      exact ⟨hprudent call hcall, heard_of_happens hw hi call hcall⟩
  · rw [Function.update_of_ne hid]
    exact hw id

/-- **Agreement.** In every run of a network of nodes that start from the same chain, whatever is
lost, delayed, reordered or repeated and whenever ticks and timeouts come: if the nodes are prudent,
no two of them commit different blocks at one height. -/
theorem agreement_of_prudent (reg : Finset String) (chain : Bytes)
    (signingKeys : String → Option Bytes) (memPools : String → M) (stores : String → S)
    (lastApplied : Option Block) (is : List (String × Env × Input S))
    (hrun : Along step (fun w i => w.Happens reg i ∧ w.OnCalls (Core.Prudent reg) i)
      (boot chain signingKeys memPools stores fun _ => lastApplied) is) :
    (is.foldl step (boot chain signingKeys memPools stores fun _ => lastApplied)).Agreement := by
  have hboot (id : String) : Core.Accountable reg
      (boot chain signingKeys memPools stores fun _ => lastApplied : World S M).Said
      (boot chain signingKeys memPools stores (fun _ => lastApplied) id : Consensus S M).core := by
    refine ⟨.of_cleared rfl rfl rfl, ?_, ?_, ?_, ?_, ?_⟩
    · intro b hb
      exact absurd hb (by simp [boot, Consensus.boot, Consensus.core, State.noEvidence])
    · rintro height c ⟨e, he, -⟩
      exact absurd he (by simp [boot, Consensus.boot, Consensus.core])
    · intro m b hm
      exact absurd hm (by simp [boot, Consensus.boot, Consensus.core])
    · intro p hp
      exact absurd hp (by simp [boot, Consensus.boot, Consensus.core, commits])
    · intro v hv
      exact absurd hv (by simp [boot, Consensus.boot, Consensus.core, castVotes])
  refine agreement_of_accountable (Along.invariant
    (P := fun w : World S M => ∀ id, (w id).core.Accountable reg w.Said) ?_ hboot hrun)
  intro w i hw hg id
  exact accountable_step hw hg.1 hg.2 id

end

section

open Storage.Sample Sample

/-- Over `MemStore`s, as a check. -/
def HappensMem (reg : Finset String) (w : World MemStore TxMemPool) (i : Event) : Prop :=
  w.Delivers i ∧ (w i.1).store.nodes.keys = reg

instance (reg : Finset String) (w : World MemStore TxMemPool) (i : Event) :
    Decidable (w.HappensMem reg i) := inferInstanceAs (Decidable (_ ∧ _))

theorem HappensMem.happens {reg : Finset String} {w : World MemStore TxMemPool} {i : Event}
    (h : w.HappensMem reg i) : w.Happens reg i :=
  ⟨h.1, h.2 ▸ registered_memStore (w i.1).store⟩

/-- Two nodes commit the same block at height one. -/
theorem agreedRun_agreement :
    block ≠ .undef ∧
      commits (agreedRun.foldl step node "a").trace = [(⟨0, .undef, .undef⟩, ⟨1, block, .undef⟩)] ∧
      commits (agreedRun.foldl step node "b").trace = [(⟨0, .undef, .undef⟩, ⟨1, block, .undef⟩)] ∧
      (agreedRun.foldl step node).Agreement := by
  have hcheck : Along step (fun w i => w.HappensMem nodes i ∧ w.OnCalls (Core.Prudent nodes) i) node
      agreedRun := by decide +kernel
  refine ⟨by decide +kernel, by decide +kernel, by decide +kernel, ?_⟩
  exact agreement_of_prudent nodes [9] (fun id => some (point id)) (fun _ => ({} : TxMemPool))
    (fun _ => genesisStore) none agreedRun (hcheck.mono fun w i h => ⟨h.1.happens, h.2⟩)

/-- Two nodes commit at height one, the one a block and the other none. -/
theorem splitRun_not_agreement :
    Along step (Happens nodes) node splitRun ∧ ¬ (splitRun.foldl step node).Agreement := by
  have hcheck : Along step (HappensMem nodes) node splitRun := by decide +kernel
  refine ⟨hcheck.mono fun w i h => h.happens, ?_⟩
  intro hagree
  have hsame := hagree "a" "b" (⟨0, .undef, .undef⟩, ⟨1, block, .undef⟩) (by decide +kernel)
    (⟨0, .undef, .undef⟩, ⟨1, .undef, .undef⟩) (by decide +kernel) rfl
  exact absurd hsame (by decide +kernel)

end
end World
end Didem
