import Didem.Consensus.Network
import Didem.Consensus.Proof.VoteBook
import Didem.Consensus.Sample

/-!
# The commit certificate

When a node moves to the step block it holds precommits of `f + 1` peers, not one more: the count
passes the threshold with the vote that completes it, and the Once lets it pass once (`Counting`).
The votes are for the right block and from the right peers. Whether they are **enough** is decided
by `f`, and `f` is set on the proposer's path of `startRound` alone. Every other node counts against
what its field happens to hold: zero if it was never the proposer, a number from an earlier round if
it was.
-/

set_option autoImplicit false

namespace Didem

open Lib Storage

/-- The precommits held are for the present height, round and block, of these peers and of more than
two thirds of them. -/
def Certified [CidText] (others : Finset String) (p : State) : Prop :=
  (∀ e ∈ (p.preCommits.map AList.entries).getD [], e.1 ∈ others ∧ e.2.sender = e.1 ∧
    ∃ v ∈ e.2.vote?, v.type = .preCommit ∧ v.height = p.height ∧ v.round = p.round ∧
      v.blockID = p.block.string) ∧
  2 * others.card < 3 * votes p.preCommits

instance [CidText] (others : Finset String) (p : State) : Decidable (Certified others p) :=
  inferInstanceAs (Decidable (_ ∧ _))

namespace Core

/-- The precommits are of registered peers other than the proposer, and not more than the threshold
until the step is moved. -/
structure Counting (reg : Finset String) (k : Core) : Prop where
  peers : ∀ b, k.propsalState.preCommits = some b → ∀ p ∈ b, p ∈ reg.erase k.state.proposer
  count : k.propsalState.sbOnce = false → votes k.propsalState.preCommits ≤ k.propsalState.f

/-- The votes handled are under the name of a registered sender. -/
def Addressed (reg : Finset String) (_ : Core) : Call → Prop
  | .vote msg sender => sender = msg.sender ∧ msg.sender ∈ reg
  | _ => True

/-! ## One move -/

/-- The step block is entered with the precommit that completes the quorum. -/
theorem certifies_of_step_eq_block [CidText] {k : Core} {move : Move} (hen : k.Enabled move)
    (hbefore : k.propsalState.step ≠ .block) (hafter : (k.apply move).propsalState.step = .block) :
    ∃ msg sender told, move = .preCommit msg sender told ∧ k.Certifies msg := by
  cases move with
  | preCommit msg sender told =>
    by_cases hcertifies : k.Certifies msg
    · exact ⟨msg, sender, told, rfl, hcertifies⟩
    · simp only [apply, next, if_neg hcertifies] at hafter
      exact absurd hafter hbefore
  | restart inc proposer f block step told =>
    obtain ⟨-, hstep, -⟩ := hen
    have hblock : step = .block := hafter
    rw [hblock] at hstep
    exact absurd hstep (by simp)
  | proposal block checked step vote =>
    obtain ⟨-, hstep, -⟩ := hen
    simp only [apply, next] at hafter
    split at hafter
    · exact absurd hafter hbefore
    · have hblock : step = .block := hafter
      rw [hblock] at hstep
      exact absurd hstep (by simp)
  | preVote msg sender vote told =>
    simp only [apply, next] at hafter
    split at hafter
    · exact absurd hafter (by simp)
    · exact absurd hafter hbefore
  | block msg sender finished =>
    rw [propsalState_apply_block] at hafter
    exact absurd hafter hbefore
  | gracePeriod announced finished =>
    rw [propsalState_apply_gracePeriod] at hafter
    exact absurd hafter hbefore
  | quiet told => exact absurd hafter hbefore
  | adopt sender height round => exact absurd hafter (by simp [apply, next, State.cleared,
      State.noEvidence])
  | timeoutProposal vote => exact absurd hafter (by simp [apply, next])
  | timeoutPrevote vote => exact absurd hafter (by simp [apply, next])

/-- Entering one vote adds at most one. -/
theorem votes_enter_le (book : Option VoteBook) (msg : Msg) :
    votes (some (enter book msg)) ≤ votes book + 1 := by
  show ((book.getD ∅).insert msg.sender msg).keys.length ≤ _
  rw [AList.keys_insert, List.length_cons]
  cases book with
  | none => simp [votes]
  | some b => exact Nat.succ_le_succ (List.erase_sublist.length_le)

theorem mem_enter {book : Option VoteBook} {msg : Msg} {p : String} (h : p ∈ enter book msg) :
    p = msg.sender ∨ ∃ b, book = some b ∧ p ∈ b := by
  rcases (AList.mem_insert _).mp h with h | h
  · exact .inl h
  · cases book with
    | none => exact absurd h (by simp)
    | some b => exact .inr ⟨b, rfl, h⟩

theorem Counting.of_kept {reg : Finset String} {k k' : Core} (h : k.Counting reg)
    (hproposer : k'.state.proposer = k.state.proposer)
    (hcommits : k'.propsalState.preCommits = k.propsalState.preCommits)
    (honce : k'.propsalState.sbOnce = k.propsalState.sbOnce)
    (hf : k'.propsalState.f = k.propsalState.f) : k'.Counting reg where
  peers := by rw [hcommits, hproposer]; exact h.peers
  count := by rw [honce, hcommits, hf]; exact h.count

theorem Counting.of_cleared {reg : Finset String} {k : Core}
    (hcommits : k.propsalState.preCommits = some ∅) : k.Counting reg where
  peers := by
    intro b hb p hp
    rw [hcommits, Option.some.injEq] at hb
    subst hb
    exact absurd hp (by simp)
  count := by
    intro _
    rw [hcommits]
    exact Nat.zero_le _

theorem Counting.preCommit [CidText] {reg : Finset String} {k : Core} (h : k.Counting reg)
    {msg : Msg} {sender : String} {told : List Msg}
    (hen : k.Enabled (.preCommit msg sender told)) (haddressed : sender = msg.sender ∧
      msg.sender ∈ reg) : (k.apply (.preCommit msg sender told)).Counting reg := by
  obtain ⟨-, -, hsender, -⟩ := hen
  obtain ⟨rfl, hreg⟩ := haddressed
  have hpeers : ∀ p ∈ enter k.propsalState.preCommits msg, p ∈ reg.erase k.state.proposer := by
    intro p hp
    rcases mem_enter hp with rfl | ⟨b, hb, hp⟩
    · exact Finset.mem_erase.mpr ⟨hsender, hreg⟩
    · exact h.peers b hb p hp
  by_cases hcertifies : k.Certifies msg
  · refine ⟨?_, ?_⟩
    · simp only [apply, next, if_pos hcertifies]
      rintro b ⟨⟩
      exact hpeers
    · simp [apply, next, hcertifies]
  · refine ⟨?_, ?_⟩
    · simp only [apply, next, if_neg hcertifies]
      rintro b ⟨⟩
      exact hpeers
    · simp only [apply, next, if_neg hcertifies]
      intro honce
      exact Nat.le_of_not_lt fun hlt => hcertifies ⟨hlt, honce⟩

theorem Counting.apply [CidText] {reg : Finset String} {k : Core} (h : k.Counting reg) {move : Move}
    {call : Call} (haddressed : k.Addressed reg call) (hen : k.Enabled move) (hof : move.Of call) :
    (k.apply move).Counting reg := by
  cases move with
  | restart inc proposer f block step told => exact .of_cleared rfl
  | adopt sender height round => exact .of_cleared rfl
  | preCommit msg sender told =>
    have hcall : call = .vote msg sender := hof
    subst hcall
    exact h.preCommit hen haddressed
  | proposal block checked step vote =>
    refine h.of_kept rfl ?_ ?_ ?_ <;> simp only [Core.apply, next] <;> split <;> rfl
  | preVote msg sender vote told =>
    refine h.of_kept rfl ?_ ?_ ?_ <;> simp only [Core.apply, next] <;> split <;> rfl
  | block msg sender finished =>
    exact h.of_kept (proposer_apply _ _ (by simp)) (by simp) (by simp) (by simp)
  | gracePeriod announced finished =>
    exact h.of_kept (proposer_apply _ _ (by simp)) (by simp) (by simp) (by simp)
  | quiet told => exact h.of_kept rfl rfl rfl rfl
  | timeoutProposal vote => exact h.of_kept rfl rfl rfl rfl
  | timeoutPrevote vote => exact h.of_kept rfl rfl rfl rfl

/-- The books and the counts say of the votes what a certificate asks, except for their number. -/
theorem entries_certified [CidText] {reg : Finset String} {k : Core} (hbooks : k.VoteBooks)
    (hcounting : k.Counting reg) :
    ∀ e ∈ (k.propsalState.preCommits.map AList.entries).getD [],
      e.1 ∈ reg.erase k.state.proposer ∧ e.2.sender = e.1 ∧ k.Counted .preCommit e.2 := by
  cases hbook : k.propsalState.preCommits with
  | none => simp
  | some b =>
    intro e he
    have hlookup : b.lookup e.1 = some e.2 := AList.mem_lookup_iff.mpr he
    have hmem : e.1 ∈ b := AList.lookup_isSome.mp (by rw [hlookup]; rfl)
    exact ⟨hcounting.peers b hbook e.1 hmem, hbooks.preCommits_filed b hbook e.1 e.2 hlookup⟩

/-- **The move to the step block**: the certificate is complete exactly if one vote more than the
threshold is. -/
theorem certified_apply_iff [CidText] {reg : Finset String} {k : Core} (hbooks : k.VoteBooks)
    (hcounting : k.Counting reg) {move : Move} {call : Call} (haddressed : k.Addressed reg call)
    (hen : k.Enabled move) (hof : move.Of call) (hbefore : k.propsalState.step ≠ .block)
    (hafter : (k.apply move).propsalState.step = .block) :
    Certified (reg.erase (k.apply move).state.proposer) (k.apply move).propsalState ↔
      2 * (reg.erase (k.apply move).state.proposer).card < 3 * (k.propsalState.f + 1) := by
  have hentries := entries_certified (hbooks.apply hen) (hcounting.apply haddressed hen hof)
  obtain ⟨msg, sender, told, rfl, hquorum, honce⟩ :=
    certifies_of_step_eq_block hen hbefore hafter
  have hvotes : votes (k.apply (.preCommit msg sender told)).propsalState.preCommits =
      k.propsalState.f + 1 := by
    have hle := votes_enter_le k.propsalState.preCommits msg
    have hcount := hcounting.count honce
    have hgt : k.propsalState.f < votes (some (enter k.propsalState.preCommits msg)) := hquorum
    rw [preCommits_apply_preCommit]
    omega
  unfold Certified
  rw [hvotes]
  exact ⟨fun h => h.2, fun h => ⟨hentries, h⟩⟩

end Core

/-! ## Every run -/

namespace Consensus

section

variable {S M : Type} [Store S] [CryptoLib] [SigLib]

theorem addressed_of_networked {reg : Finset String} {c : Consensus S M} {i : Env × Input S}
    (h : Networked reg c i) : OnCalls (Core.Addressed reg) c i := by
  intro call hcall
  cases call with
  | vote msg sender => exact registered_of_networked h hcall
  | _ => trivial

variable [Validator S] [MemPool M] [CidText]

/-- **The commit certificate.** Take any run of a node over a fixed set of registered nodes, and a
next input that moves the node to the step block. It then holds precommits for exactly its height,
round and block from more than two thirds of the registered nodes other than the proposer, if and
only if one vote more than its threshold `f` is more than two thirds of them. -/
theorem certified_iff (chain : Bytes) (id : String) (signingKey : Option Bytes) (memPool : M)
    (store : S) (lastApplied : Option Block) (reg : Finset String) (is : List (Env × Input S))
    (i : Env × Input S) (c : Consensus S M)
    (hc : is.foldl step (boot chain id signingKey memPool store lastApplied) = c)
    (hrun : Along step (Networked reg) (boot chain id signingKey memPool store lastApplied) is)
    (hi : Networked reg c i) (hbefore : c.propsalState.step ≠ .block)
    (hafter : (c.step i).propsalState.step = .block) :
    Certified (reg.erase (c.step i).state.proposer) (c.step i).propsalState ↔
      2 * (reg.erase (c.step i).state.proposer).card < 3 * (c.propsalState.f + 1) := by
  have hbooks : c.core.VoteBooks := by
    rw [← hc]
    refine run_invariant (I := Core.VoteBooks) ?_ (.of_cleared rfl rfl rfl) is
    intro k move hk hen
    exact hk.apply hen
  have hcounting : c.core.Counting reg := by
    rw [← hc]
    refine Along.invariant (P := fun c : Consensus S M => c.core.Counting reg) ?_ ?_ hrun
    · intro c i hk hg
      refine step_invariant ?_ c i hk (addressed_of_networked hg)
      intro k call move hk haddressed hen hof
      exact hk.apply haddressed hen hof
    · exact ⟨fun b hb => absurd hb (by simp [boot, core, State.noEvidence]), fun _ => Nat.zero_le _⟩
  rcases step_moves c i with hsame | ⟨call, hcall, move, hen, hof, hcore⟩
  · exact absurd ((congrArg (fun k => k.propsalState.step) hsame).symm.trans hafter) hbefore
  · have h := Core.certified_apply_iff hbooks hcounting (addressed_of_networked hi call hcall) hen
      hof hbefore (hcore ▸ hafter)
    rw [← hcore] at h
    exact h

end
section

open Storage.Sample Sample

/-- The proposer `p`, one precommit short. -/
def leadingRun : List (Env × Input MemStore) :=
  [call beacon, recv (vote "a" .preVote 1 1 Cid.undef.string),
   recv (vote "b" .preVote 1 1 Cid.undef.string), recv (vote "a" .preCommit 1 1 Cid.undef.string)]

theorem leadingRun_certified :
    Certified (nodes.erase "p") ((leadingRun.foldl step (node "p")).step
      (recv (vote "b" .preCommit 1 1 Cid.undef.string))).propsalState := by
  have hcheck : Along step (NetworkedMem nodes) (node "p") leadingRun := by decide +kernel
  refine (certified_iff [9] "p" (some (point "p")) ({} : TxMemPool) genesisStore none nodes
    leadingRun (recv (vote "b" .preCommit 1 1 Cid.undef.string)) _ rfl
    (hcheck.mono fun _ _ => NetworkedMem.networked) (NetworkedMem.networked (by decide +kernel))
    (by decide +kernel) (by decide +kernel)).mpr ?_
  decide +kernel

/-- The node `a`, which was never the proposer and has the threshold zero. -/
def followingRun : List (Env × Input MemStore) :=
  [call beacon, recv (proposal "p" 1 1 Cid.undef.string),
   recv (vote "b" .preVote 1 1 Cid.undef.string)]

/-- It moves to the step block on the precommit of one of two other nodes. -/
theorem followingRun_not_certified :
    let c := followingRun.foldl step (node "a")
    let c' := c.step (recv (vote "b" .preCommit 1 1 Cid.undef.string))
    c.propsalState.step ≠ .block ∧ c'.propsalState.step = .block ∧
      c'.store.nodes.keys = nodes ∧ c'.state.proposer = "p" ∧
      ¬ Certified (nodes.erase "p") c'.propsalState := by
  decide +kernel

end
end Consensus
end Didem
