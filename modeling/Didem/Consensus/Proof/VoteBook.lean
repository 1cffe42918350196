import Didem.Consensus.Proof.Simulation

/-!
# Vote books and the lock

What the two maps and the lock say about the round a node is in, in every state a node can reach and
whatever it is sent. The three parts lean on each other: the block may only change while the maps
are empty, and it is the step that says when they are.
-/

set_option autoImplicit false

namespace Didem

open Lib Storage

namespace Core

variable [CidText]

/-- Every entry is a vote of this kind of the peer it is filed under, for the present round. -/
def Filed (k : Core) (t : VoteType) (book : Option VoteBook) : Prop :=
  ∀ b, book = some b → ∀ p m, b.lookup p = some m → m.sender = p ∧ k.Counted t m

structure VoteBooks (k : Core) : Prop where
  empty_of_propose : k.propsalState.step = .propose →
    votes k.propsalState.preVotes = 0 ∧ votes k.propsalState.preCommits = 0 ∧
      k.propsalState.lockedValue = .undef
  preVotes_filed : k.Filed .preVote k.propsalState.preVotes
  preCommits_filed : k.Filed .preCommit k.propsalState.preCommits
  of_locked : k.propsalState.lockedValue ≠ .undef →
    k.propsalState.lockedValue = k.propsalState.block ∧
      k.propsalState.lockedRound = k.propsalState.round ∧
      k.propsalState.f < votes k.propsalState.preVotes

/-! ## Books -/

omit [CidText] in
theorem lookup_eq_none_of_votes_eq_zero {book : Option VoteBook} (h : votes book = 0)
    {b : VoteBook} (hb : book = some b) (p : String) : b.lookup p = none := by
  subst hb
  rw [AList.lookup_eq_none]
  intro hp
  have hnil : b.keys = [] := List.length_eq_zero_iff.mp h
  rw [AList.mem_keys, hnil] at hp
  exact absurd hp (by simp)

omit [CidText] in
/-- Entering a vote loses none. -/
theorem votes_le_votes_enter (book : Option VoteBook) (msg : Msg) :
    votes book ≤ votes (some (enter book msg)) := by
  cases book with
  | none => exact Nat.zero_le _
  | some b =>
    show b.keys.length ≤ (b.insert msg.sender msg).keys.length
    rw [AList.keys_insert, List.length_cons]
    have := List.le_length_erase (a := msg.sender) (l := b.keys)
    omega

theorem filed_of_votes_eq_zero (k : Core) (t : VoteType) {book : Option VoteBook}
    (h : votes book = 0) : k.Filed t book := by
  intro b hb p m hm
  rw [lookup_eq_none_of_votes_eq_zero h hb p] at hm
  exact absurd hm (by simp)

/-- Whether a book is in order depends on the round and the block only. -/
theorem Filed.congr {k k' : Core} {t : VoteType} {book : Option VoteBook} (h : k.Filed t book)
    (hheight : k'.propsalState.height = k.propsalState.height)
    (hround : k'.propsalState.round = k.propsalState.round)
    (hblock : k'.propsalState.block = k.propsalState.block) : k'.Filed t book := by
  intro b hb p m hm
  obtain ⟨hp, hcounted⟩ := h b hb p m hm
  refine ⟨hp, ?_⟩
  unfold Counted
  rw [hheight, hround, hblock]
  exact hcounted

theorem Filed.enter {k : Core} {t : VoteType} {book : Option VoteBook} {msg : Msg}
    (h : k.Filed t book) (hmsg : k.Counted t msg) : k.Filed t (some (enter book msg)) := by
  intro b hb p m hm
  obtain rfl : Core.enter book msg = b := Option.some.inj hb
  by_cases hp : p = msg.sender
  · subst hp
    rw [Core.enter, AList.lookup_insert, Option.some.injEq] at hm
    subst hm
    exact ⟨rfl, hmsg⟩
  · rw [Core.enter, AList.lookup_insert_ne hp] at hm
    cases book with
    | none => exact absurd hm (by simp)
    | some old => exact h old rfl p m hm

/-! ## One move -/

/-- With empty books and no lock there is nothing to keep in order. -/
theorem VoteBooks.of_cleared {k : Core} (hvotes : votes k.propsalState.preVotes = 0)
    (hcommits : votes k.propsalState.preCommits = 0) (hlock : k.propsalState.lockedValue = .undef) :
    k.VoteBooks where
  empty_of_propose _ := ⟨hvotes, hcommits, hlock⟩
  preVotes_filed := filed_of_votes_eq_zero k _ hvotes
  preCommits_filed := filed_of_votes_eq_zero k _ hcommits
  of_locked h := absurd hlock h

theorem VoteBooks.congr {k k' : Core} (h : k.VoteBooks)
    (hstate : k'.propsalState = k.propsalState) : k'.VoteBooks where
  empty_of_propose := by rw [hstate]; exact h.empty_of_propose
  preVotes_filed := by
    rw [hstate]
    exact h.preVotes_filed.congr (by rw [hstate]) (by rw [hstate]) (by rw [hstate])
  preCommits_filed := by
    rw [hstate]
    exact h.preCommits_filed.congr (by rw [hstate]) (by rw [hstate]) (by rw [hstate])
  of_locked := by rw [hstate]; exact h.of_locked

theorem VoteBooks.preVote {k : Core} (h : k.VoteBooks) {msg : Msg} {sender : String}
    {vote : Option Msg} {told : List Msg} (hen : k.Enabled (.preVote msg sender vote told)) :
    (k.apply (.preVote msg sender vote told)).VoteBooks := by
  obtain ⟨hstep, -, -, hcounted, -⟩ := hen
  have hfiled := h.preVotes_filed.enter hcounted
  simp only [apply, next]
  split
  · next hlocks =>
    exact
      { empty_of_propose := fun hpropose => absurd hpropose (by simp)
        preVotes_filed := hfiled.congr rfl rfl rfl
        preCommits_filed := h.preCommits_filed.congr rfl rfl rfl
        of_locked := fun _ => ⟨rfl, rfl, hlocks.1⟩ }
  · refine
      { empty_of_propose := fun hpropose => absurd hpropose (by simp [hstep])
        preVotes_filed := hfiled.congr rfl rfl rfl
        preCommits_filed := h.preCommits_filed.congr rfl rfl rfl
        of_locked := fun hlocked => ?_ }
    obtain ⟨hvalue, hround, hquorum⟩ := h.of_locked hlocked
    exact ⟨hvalue, hround, hquorum.trans_le (votes_le_votes_enter _ msg)⟩

theorem VoteBooks.preCommit {k : Core} (h : k.VoteBooks) {msg : Msg} {sender : String}
    {told : List Msg} (hen : k.Enabled (.preCommit msg sender told)) :
    (k.apply (.preCommit msg sender told)).VoteBooks := by
  obtain ⟨hstep, -, -, hcounted, -⟩ := hen
  have hfiled := h.preCommits_filed.enter hcounted
  simp only [apply, next]
  split
  · exact
      { empty_of_propose := fun hpropose => absurd hpropose (by simp)
        preVotes_filed := h.preVotes_filed.congr rfl rfl rfl
        preCommits_filed := hfiled.congr rfl rfl rfl
        of_locked := h.of_locked }
  · exact
      { empty_of_propose := fun hpropose => absurd hpropose (by simp [hstep])
        preVotes_filed := h.preVotes_filed.congr rfl rfl rfl
        preCommits_filed := hfiled.congr rfl rfl rfl
        of_locked := h.of_locked }

/-- A timeout moves the step on, away from propose, and changes no book. -/
theorem VoteBooks.timeout {k k' : Core} (h : k.VoteBooks) {s : Step} {pv pc : Bool}
    (hs : s ≠ .propose)
    (hstate : k'.propsalState = { k.propsalState with step := s, pvOnce := pv, pcOnce := pc }) :
    k'.VoteBooks where
  empty_of_propose hpropose := absurd hpropose (by rw [hstate]; exact hs)
  preVotes_filed := by
    rw [hstate]
    exact h.preVotes_filed.congr (by rw [hstate]) (by rw [hstate]) (by rw [hstate])
  preCommits_filed := by
    rw [hstate]
    exact h.preCommits_filed.congr (by rw [hstate]) (by rw [hstate]) (by rw [hstate])
  of_locked := by rw [hstate]; exact h.of_locked

/-- **Every move keeps the books in order.** -/
theorem VoteBooks.apply {k : Core} (h : k.VoteBooks) {move : Move} (hen : k.Enabled move) :
    (k.apply move).VoteBooks := by
  cases move with
  | quiet told => exact h.congr rfl
  | restart inc proposer f block step told => exact .of_cleared rfl rfl rfl
  | adopt sender height round => exact .of_cleared rfl rfl rfl
  | proposal block checked step vote =>
    simp only [Core.apply, Core.next]
    split
    · exact h.congr rfl
    · -- the only change of the block: at the step propose, when the books are empty
      obtain ⟨hvotes, hcommits, hlock⟩ := h.empty_of_propose hen.1
      exact .of_cleared hvotes hcommits hlock
  | timeoutProposal vote => exact h.timeout (s := .prevote) (by simp) rfl
  | preVote msg sender vote told => exact h.preVote hen
  | timeoutPrevote vote => exact h.timeout (s := .precommit) (by simp) rfl
  | preCommit msg sender told => exact h.preCommit hen
  | block msg sender finished => exact h.congr (propsalState_apply_block k msg sender finished)
  | gracePeriod announced finished =>
    exact h.congr (propsalState_apply_gracePeriod k announced finished)

end Core

/-! ## Every run -/

namespace Consensus

variable {S M : Type} [Store S] [Validator S] [MemPool M] [CryptoLib] [CidText] [SigLib]

/-- **The vote-book and lock invariant.** In every state a node reaches, by whatever calls of its
handlers and whatever messages: before a proposal there are no votes and no lock; every vote held
is of its kind, filed under its sender and for the node's present height, round and block; and a
lock is on the present block and round, with more prevotes than the threshold behind it. -/
theorem voteBooks_of_run (chain : Bytes) (id : String) (signingKey : Option Bytes) (memPool : M)
    (store : S) (lastApplied : Option Block) (is : List (Env × Input S)) :
    let p := (is.foldl step (boot chain id signingKey memPool store lastApplied)).propsalState
    (p.step = .propose →
      votes p.preVotes = 0 ∧ votes p.preCommits = 0 ∧ p.lockedValue = .undef) ∧
    (∀ t book, (t = .preVote ∧ p.preVotes = some book ∨
        t = .preCommit ∧ p.preCommits = some book) →
      ∀ peer m, book.lookup peer = some m → m.sender = peer ∧ ∃ v, m.vote? = some v ∧
        v.type = t ∧ v.height = p.height ∧ v.round = p.round ∧ v.blockID = p.block.string) ∧
    (p.lockedValue ≠ .undef →
      p.lockedValue = p.block ∧ p.lockedRound = p.round ∧ p.f < votes p.preVotes) := by
  have hboot : (boot chain id signingKey memPool store lastApplied).core.VoteBooks :=
    .of_cleared rfl rfl rfl
  have h := run_invariant (I := Core.VoteBooks) (fun k move hk hen => hk.apply hen) hboot is
  refine ⟨h.empty_of_propose, ?_, h.of_locked⟩
  intro t book hbook
  rcases hbook with ⟨rfl, hbook⟩ | ⟨rfl, hbook⟩
  · exact h.preVotes_filed book hbook
  · exact h.preCommits_filed book hbook

end Consensus
end Didem
