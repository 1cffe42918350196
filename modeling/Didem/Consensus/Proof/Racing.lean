import Didem.Consensus.Proof.Simulation
import Didem.Consensus.Sample
import Didem.Utils.Proof.Resync

/-!
# Handlers that race

The engine's handlers are called from three goroutines: one reads the messages, one watches the
timers, one follows the beacon. A proposal and its timeout can therefore be handled at once, and so
can the last prevote and its timeout. Each of these pairs votes under one `Once`, and that is what
keeps the node from voting twice: here the functions handed to the `Once` are the engine's own, the
world they work on is the engine, and the lines of `Do` interleave in any way at all.
-/

set_option autoImplicit false

namespace Didem.Consensus

open Lib Storage Resync

section

variable {S M : Type} [CryptoLib]

/-- A function the engine hands to `pvOnce` or to `pcOnce`. -/
inductive Ballot where
  /-- In `onProposal`: the vote for a proposal. -/
  | proposal (ω : Env) (bc : Cid) (value : String)
  | timeoutProposal (ω : Env)
  /-- In `onPreVote`: the lock, and the vote for it. -/
  | preVotes (ω : Env)
  | timeoutPrevote (ω : Env)

namespace Ballot

/-- The vote it casts, which tells the `Once` it is handed to. -/
def voteType : Ballot → VoteType
  | .proposal _ _ _ | .timeoutProposal _ => .preVote
  | .preVotes _ | .timeoutPrevote _ => .preCommit

/-- What it does; the bit of the `Once` is set on the way out. -/
def cast [CidText] : Ballot → Engine S M Unit
  | .proposal ω bc value => prevoteFor ω bc value
  | .timeoutProposal ω => do
    .modify (update fun p => { p with pvOnce := true })
    .logged (sendVote ω .preVote "")
  | .preVotes ω => do
    .modify (update fun p =>
      { p with step := .precommit, lockedValue := p.block, lockedRound := p.round, pcOnce := true })
    let c ← .get
    .logged (sendVote ω .preCommit c.propsalState.block.string)
  | .timeoutPrevote ω => do
    .modify (update fun p => { p with pcOnce := true })
    .logged (sendVote ω .preCommit "")

/-- The engine after it. -/
def run [CidText] (b : Ballot) (c : Consensus S M) : Consensus S M := (Proc.run b.cast c).2

end Ballot

section Handlers

variable [CidText]

/-- The handlers vote in no other place. -/
theorem onTimeoutProposal_eq (ω : Env) :
    (onTimeoutProposal ω : Engine S M Unit) = (do
      let c ← .get
      if c.propsalState.height ≠ c.state.height ∧ c.propsalState.step ≠ .propose then return ()
      else
        .modify (setStep .prevote)
        if c.propsalState.pvOnce then return () else (Ballot.timeoutProposal ω).cast) := rfl

theorem onTimeoutPrevote_eq (ω : Env) :
    (onTimeoutPrevote ω : Engine S M Unit) = (do
      let c ← .get
      if c.propsalState.height ≠ c.state.height ∧ c.propsalState.step ≠ .prevote then return ()
      else
        .modify (setStep .precommit)
        if c.propsalState.pcOnce then return () else (Ballot.timeoutPrevote ω).cast) := rfl

theorem onProposal_eq [Store S] [Validator S] (ω : Env) (msg : ConsensusMsgProposal) (sender : String) :
    (onProposal ω (some msg) sender : Engine S M Unit) = (do
      let c ← .get
      if sender ≠ c.state.proposer ∨ c.propsalState.step ≠ .propose then return ()
      else
        let bc ← (validate ω msg.blockID).orElse .undef
        if c.propsalState.pvOnce then return ()
        else .logged (Ballot.proposal ω bc msg.blockID).cast) := rfl

theorem onPreVote_eq (ω : Env) (msg : Msg) :
    (onPreVote ω msg : Engine S M Unit) = (do
      let c ← .get
      if c.propsalState.step ≠ .prevote then return ()
      else
        match c.propsalState.preVotes with
        | none => .lift .panic
        | some book =>
          let book := book.insert msg.sender msg
          .modify (update fun p => { p with preVotes := some book })
          if book.keys.length > c.propsalState.f ∧ c.propsalState.pcOnce = false then
            (Ballot.preVotes ω).cast) := by
  funext c
  show Proc.run _ c = Proc.run _ c
  simp only [Proc.run_bind, Proc.run_get]
  split
  · rfl
  · cases c.propsalState.preVotes with
    | none => rfl
    | some book =>
      simp only [Proc.run_bind, Proc.run_modify]
      split_ifs
      · rfl
      · rfl

end Handlers

/-- One vote more, in the round the engine was in, or none. -/
def VotesOnce (t : VoteType) (c c' : Consensus S M) : Prop :=
  c'.trace = c.trace ∨ ∃ m, c'.trace = .sent m :: c.trace ∧ c.core.Votes t (fun _ => True) m

omit [CryptoLib] in
theorem votesOnce_tell {t : VoteType} {c c' : Consensus S M} {vote : Option Msg} {value : String}
    (htrace : c'.trace = vote.toList.map .sent ++ c.trace)
    (hvote : ∀ m ∈ vote, c.core.Votes t (· = value) m) : VotesOnce t c c' := by
  cases vote with
  | none => exact .inl htrace
  | some m =>
    obtain ⟨hid, hblock, v, hv, htype, hheight, hround, -⟩ := hvote m rfl
    exact .inr ⟨m, htrace, hid, hblock, v, hv, htype, hheight, hround, trivial⟩

/-- **A ballot is one vote at most**, of its type. -/
theorem Ballot.votesOnce [CidText] (b : Ballot) (c : Consensus S M) :
    VotesOnce b.voteType c (b.run c) := by
  cases b with
  | proposal ω bc value =>
    obtain ⟨vote, hrun, hvote⟩ := sendVote_update ω .preVote
      (if bc = .undef then Cid.undef.string else value) c
    refine votesOnce_tell ?_ hvote
    have hsent := hrun (fun p => { p with block := bc, pvOnce := true }) rfl rfl
    simp only [run, cast, prevoteFor, Proc.run_bind, Proc.run_modify]
    split
    · next heq =>
      rw [heq] at hsent
      exact congrArg Consensus.trace hsent
    · next heq =>
      rw [heq] at hsent
      exact congrArg Consensus.trace hsent
    · next heq =>
      rw [heq] at hsent
      exact congrArg Consensus.trace hsent
  | timeoutProposal ω =>
    obtain ⟨vote, hrun, hvote⟩ := sendVote_update ω .preVote "" c
    refine votesOnce_tell ?_ hvote
    simp only [run, cast, Proc.run_bind, Proc.run_modify, Proc.run_logged_snd]
    exact congrArg Consensus.trace (hrun (fun p => { p with pvOnce := true }) rfl rfl)
  | preVotes ω =>
    obtain ⟨vote, hrun, hvote⟩ := sendVote_update ω .preCommit c.propsalState.block.string c
    refine votesOnce_tell ?_ hvote
    simp only [run, cast, Proc.run_bind, Proc.run_modify, Proc.run_get, Proc.run_logged_snd]
    exact congrArg Consensus.trace (hrun (fun p =>
      { p with step := .precommit, lockedValue := p.block, lockedRound := p.round, pcOnce := true })
      rfl rfl)
  | timeoutPrevote ω =>
    obtain ⟨vote, hrun, hvote⟩ := sendVote_update ω .preCommit "" c
    refine votesOnce_tell ?_ hvote
    simp only [run, cast, Proc.run_bind, Proc.run_modify, Proc.run_logged_snd]
    exact congrArg Consensus.trace (hrun (fun p => { p with pcOnce := true }) rfl rfl)

/-- **Handlers that race vote once.** Whatever goroutines hand the engine's functions to one `Once`
between two resets, and however the lines of `Do` interleave, at every moment the engine has sent at
most one vote, of that `Once`'s type and for the round it was in. -/
theorem race_votes_once [CidText] {ι : Type} [DecidableEq ι] (t : VoteType)
    (program : ι → List (Op Ballot)) (ids : List ι) (w : Consensus S M) (hids : ids.Nodup)
    (hballots : ∀ i ∈ ids, ∀ op ∈ program i, ∃ b : Ballot, op = .once b ∧ b.voteType = t)
    (c : Conf (Once ι Ballot (Consensus S M)) (Goroutine ι Ballot))
    (h : Conf.Reach (Once.next Ballot.run) (Once.start w program ids) c) :
    VotesOnce t w c.shared.world := by
  have hrace : ∀ i ∈ ids, .reset ∉ program i := by
    intro i hi hreset
    obtain ⟨b, hb, -⟩ := hballots i hi _ hreset
    cases hb
  rcases Once.world_of_race hids hrace h with hworld | ⟨i, hi, b, hb, hworld⟩
  · exact .inl (by rw [hworld])
  · obtain ⟨b', hb', rfl⟩ := hballots i hi _ hb
    obtain rfl : b = b' := Op.once.inj hb'
    rw [hworld]
    exact b.votesOnce w

end

/-! ### A proposal and its timeout -/

section

open Storage.Sample Sample

/-- The node `a`, waiting for a proposal. -/
def racingNode : Consensus MemStore TxMemPool := [call beacon].foldl step (node "a")

/-- The message loop is about to vote for a proposal, and the timer goroutine against it. -/
def racers : Nat → List (Op Ballot)
  | 0 => [.once (.proposal env (blockId 1 (vcTx 1)) "block")]
  | _ => [.once (.timeoutProposal env)]

/-- Both have found the `Once` fresh when the timer goroutine takes the lock. -/
def racersSchedule : List (Nat × Nat) :=
  [(0, 0), (1, 0), (0, 0), (1, 0), (1, 0), (1, 0), (1, 0), (1, 0), (1, 0), (0, 0), (0, 0)]

def racersEnd : Option (Conf (Once Nat Ballot (Consensus MemStore TxMemPool)) (Goroutine Nat Ballot)) :=
  Conf.follow (Once.next Ballot.run) racersSchedule (Once.start racingNode racers [0, 1])

theorem racers_vote_once :
    ∃ c, racersEnd = some c ∧ c.shared.log.length = 2 ∧
      c.shared.world.trace.length = racingNode.trace.length + 1 ∧
      VotesOnce .preVote racingNode c.shared.world := by
  have hsome : racersEnd.isSome = true := by decide +kernel
  obtain ⟨c, hc⟩ := Option.isSome_iff_exists.mp hsome
  have hlog : racersEnd.map (fun c => c.shared.log.length) = some 2 := by decide +kernel
  have htrace : racersEnd.map (fun c => c.shared.world.trace.length) =
      some (racingNode.trace.length + 1) := by decide +kernel
  rw [hc] at hlog htrace
  refine ⟨c, hc, Option.some.inj hlog, Option.some.inj htrace,
    race_votes_once .preVote racers [0, 1] racingNode (by decide) ?_ c
      (Conf.reach_of_follow racersSchedule hc)⟩
  intro i hi op hop
  rcases List.mem_cons.mp hi with rfl | hi
  · exact ⟨_, List.mem_singleton.mp hop, rfl⟩
  · obtain rfl := List.mem_singleton.mp hi
    exact ⟨_, List.mem_singleton.mp hop, rfl⟩

end
end Didem.Consensus
