import Didem.Consensus.Proof.Simulation
import Didem.Consensus.Sample

/-!
# Equivocation

A node votes through two Onces, one for prevotes and one for precommits, and a Once lets one vote
out. But `startRound` and `onNewRound` reset them **whatever round they enter**, so what the Onces
give is one vote of a kind for each *entry* into a round. A node that enters a round it has voted in
can vote again, for something else: a second beacon tick at the same height is enough.

That is the only way. As long as every round is fresh when it is entered, the votes a node has sent
for its present round are covered by the Onces (`Consistent.once`), and no two of its votes
contradict each other.
-/

set_option autoImplicit false

namespace Didem

open Lib Storage

/-- The votes among the messages sent. -/
def castVotes (trace : List Effect) : List ConsensusMsgVote :=
  trace.filterMap fun
    | .sent m => m.vote?
    | _ => none

/-- No two votes of a kind for the same height and round are for different blocks. -/
def NoEquivocation (trace : List Effect) : Prop :=
  ∀ v ∈ castVotes trace, ∀ v' ∈ castVotes trace, v.type = v'.type → v.height = v'.height →
    v.round = v'.round → v.blockID = v'.blockID

instance (trace : List Effect) : Decidable (NoEquivocation trace) :=
  inferInstanceAs (Decidable (∀ v ∈ castVotes trace, ∀ v' ∈ castVotes trace, _))

theorem castVotes_append (es trace : List Effect) :
    castVotes (es ++ trace) = castVotes es ++ castVotes trace := List.filterMap_append

theorem mem_castVotes {trace : List Effect} {v : ConsensusMsgVote} :
    v ∈ castVotes trace ↔ ∃ m, .sent m ∈ trace ∧ m.vote? = some v := by
  unfold castVotes
  rw [List.mem_filterMap]
  constructor
  · rintro ⟨e, he, hv⟩
    split at hv
    · exact ⟨_, he, hv⟩
    · exact absurd hv (by simp)
  · rintro ⟨m, hm, hv⟩
    exact ⟨.sent m, hm, hv⟩

namespace Core

/-- The height and round that a call enters. -/
def enters (k : Core) : Call → Option (UInt64 × UInt32)
  | .beacon _ => some (k.state.height + 1, 1)
  | .timeoutPrecommit => some (k.state.height + 1, k.propsalState.round + 1)
  | .newRound (some msg) sender =>
    if sender = k.state.proposer then some (msg.height, msg.round) else none
  | _ => none

/-- The node has sent no vote yet for the round this call enters. -/
def EntersFresh (k : Core) (call : Call) : Prop :=
  ∀ hr ∈ k.enters call, ∀ v ∈ castVotes k.trace, ¬ (v.height = hr.1 ∧ v.round = hr.2)

instance (k : Core) (call : Call) : Decidable (k.EntersFresh call) :=
  -- not by running through all heights and rounds
  Option.decidableForallMem
    (p := fun hr : UInt64 × UInt32 =>
      ∀ v ∈ castVotes k.trace, ¬ (v.height = hr.1 ∧ v.round = hr.2)) (k.enters call)

/-- The Once for a kind of vote. -/
def done (k : Core) : VoteType → Bool
  | .preVote => k.propsalState.pvOnce
  | .preCommit => k.propsalState.pcOnce
  | .other _ => false

/-- The vote is for the round the node is in. -/
def Present (k : Core) (v : ConsensusMsgVote) : Prop :=
  v.height = k.propsalState.height ∧ v.round = k.propsalState.round

structure Consistent (k : Core) : Prop where
  once : ∀ v ∈ castVotes k.trace, k.Present v → k.done v.type = true
  unique : NoEquivocation k.trace

/-! ## One move -/

/-- A vote in the trace is sent by the move or was there before. -/
theorem mem_castVotes_apply {k : Core} {move : Move} {v : ConsensusMsgVote}
    (hv : v ∈ castVotes (k.apply move).trace) :
    (∃ m, Sends m move ∧ m.vote? = some v) ∨ v ∈ castVotes k.trace := by
  rw [trace_apply, castVotes_append, List.mem_append] at hv
  refine hv.imp_left ?_
  intro hnew
  obtain ⟨m, hm, hvote⟩ := mem_castVotes.mp hnew
  exact ⟨m, emits_of_mem hm, hvote⟩

theorem onces_apply {k : Core} {move : Move} (hmove : move.isEntry = false) :
    (k.propsalState.pvOnce = true → (k.apply move).propsalState.pvOnce = true) ∧
      (k.propsalState.pcOnce = true → (k.apply move).propsalState.pcOnce = true) := by
  cases move with
  | restart inc proposer f block step told => exact absurd hmove (by simp [Move.isEntry])
  | adopt sender height round => exact absurd hmove (by simp [Move.isEntry])
  | proposal block checked step vote =>
    simp only [apply, next]
    split
    · exact ⟨fun h => h, fun h => h⟩
    · exact ⟨fun _ => rfl, fun h => h⟩
  | timeoutProposal vote => exact ⟨fun _ => rfl, fun h => h⟩
  | preVote msg sender vote told =>
    simp only [apply, next]
    split
    · exact ⟨fun h => h, fun _ => rfl⟩
    · exact ⟨fun h => h, fun h => h⟩
  | timeoutPrevote vote => exact ⟨fun h => h, fun _ => rfl⟩
  | preCommit msg sender told =>
    simp only [apply, next]
    split <;> exact ⟨fun h => h, fun h => h⟩
  | block msg sender finished =>
    rw [propsalState_apply_block]
    exact ⟨fun h => h, fun h => h⟩
  | gracePeriod announced finished =>
    rw [propsalState_apply_gracePeriod]
    exact ⟨fun h => h, fun h => h⟩
  | quiet told => exact ⟨fun h => h, fun h => h⟩

/-- Within a round a Once that is done stays done. -/
theorem done_apply {k : Core} {move : Move} (hmove : move.isEntry = false) {t : VoteType}
    (h : k.done t = true) : (k.apply move).done t = true := by
  cases t with
  | other n => exact absurd h Bool.false_ne_true
  | preVote => exact (onces_apply hmove).1 h
  | preCommit => exact (onces_apply hmove).2 h

variable [CidText]

/-- A vote that is sent is for the present round and uses up its Once. -/
theorem Says.voted {k : Core} {move : Move} {m : Msg} (h : k.Says m move) {v : ConsensusMsgVote}
    (hv : m.vote? = some v) :
    move.isEntry = false ∧ k.Present v ∧ k.done v.type = false ∧
      (k.apply move).done v.type = true := by
  cases h with
  | talk htalk => exact absurd hv (htalk.vote?_ne v)
  | proposal honce hvotes =>
    obtain ⟨htype, hheight, hround, -⟩ := hvotes.of_vote? hv
    rw [htype]
    refine ⟨rfl, ⟨hheight, hround⟩, honce, ?_⟩
    simp [done, apply, next, honce]
  | timeoutProposal honce hvotes =>
    obtain ⟨htype, hheight, hround, -⟩ := hvotes.of_vote? hv
    rw [htype]
    exact ⟨rfl, ⟨hheight, hround⟩, honce, rfl⟩
  | preVote hlocks hvotes =>
    obtain ⟨htype, hheight, hround, -⟩ := hvotes.of_vote? hv
    rw [htype]
    refine ⟨rfl, ⟨hheight, hround⟩, hlocks.2, ?_⟩
    simp [done, apply, next, hlocks]
  | timeoutPrevote honce hvotes =>
    obtain ⟨htype, hheight, hround, -⟩ := hvotes.of_vote? hv
    rw [htype]
    exact ⟨rfl, ⟨hheight, hround⟩, honce, rfl⟩
  | gracePeriod _ hannounces =>
    rw [hannounces.2.1] at hv
    exact absurd hv (by simp)

/-- A move sends one vote at most. -/
theorem Says.unique {k : Core} {move : Move} {m m' : Msg} (h : k.Says m move)
    (h' : k.Says m' move) {v v' : ConsensusMsgVote} (hv : m.vote? = some v)
    (hv' : m'.vote? = some v') : v = v' := by
  have heq (hm : m = m') : v = v' := by
    subst hm
    exact Option.some.inj (hv.symm.trans hv')
  cases h' with
  | talk htalk => exact absurd hv' (htalk.vote?_ne v')
  | gracePeriod _ hannounces =>
    rw [hannounces.2.1] at hv'
    exact absurd hv' (by simp)
  | _ =>
    cases h with
    | talk htalk => exact absurd hv (htalk.vote?_ne v)
    | _ => exact heq rfl

/-- The round an entry enters is the one its call does. -/
theorem entered_of_isEntry {k : Core} {move : Move} {call : Call} (hen : k.Enabled move)
    (hof : move.Of call) (hmove : move.isEntry = true) :
    ((k.apply move).propsalState.height, (k.apply move).propsalState.round) ∈ k.enters call := by
  cases move with
  | restart inc proposer f block step told =>
    rcases hof with ⟨rfl, b, rfl⟩ | ⟨rfl, rfl⟩ <;> rfl
  | adopt sender height round =>
    obtain ⟨msg, rfl, rfl, rfl⟩ := hof
    show (if sender = k.state.proposer then some (msg.height, msg.round) else none) =
      some (msg.height, msg.round)
    have hsender : sender = k.state.proposer := hen
    exact if_pos hsender
  | _ => exact absurd hmove (by simp [Move.isEntry])

theorem Consistent.apply {k : Core} (h : k.Consistent) {move : Move} {call : Call}
    (hfresh : k.EntersFresh call) (hen : k.Enabled move) (hof : move.Of call) :
    (k.apply move).Consistent := by
  refine ⟨?_, ?_⟩
  · intro v hv hpresent
    rcases mem_castVotes_apply hv with ⟨m, hm, hvote⟩ | hold
    · exact ((says_of_sends hen hm).voted hvote).2.2.2
    · cases hentry : move.isEntry with
      | true =>
        -- the round is new, so no vote for it can be old
        exact absurd hpresent (hfresh _ (entered_of_isEntry hen hof hentry) v hold)
      | false =>
        obtain ⟨hheight, hround⟩ := round_apply (k := k) hentry
        unfold Present at hpresent
        rw [hheight, hround] at hpresent
        exact done_apply hentry (h.once v hold hpresent)
  · intro v hv v' hv' htype hheight hround
    rcases mem_castVotes_apply hv with ⟨m, hm, hvote⟩ | hold <;>
      rcases mem_castVotes_apply hv' with ⟨m', hm', hvote'⟩ | hold'
    · rw [(says_of_sends hen hm).unique (says_of_sends hen hm') hvote hvote']
    · -- a vote sent now meets none from before: its Once was not done
      obtain ⟨-, hpresent, hdone, -⟩ := (says_of_sends hen hm).voted hvote
      have hwas := h.once v' hold' ⟨hheight ▸ hpresent.1, hround ▸ hpresent.2⟩
      rw [← htype, hdone] at hwas
      exact absurd hwas (by simp)
    · obtain ⟨-, hpresent, hdone, -⟩ := (says_of_sends hen hm').voted hvote'
      have hwas := h.once v hold ⟨hheight ▸ hpresent.1, hround ▸ hpresent.2⟩
      rw [htype, hdone] at hwas
      exact absurd hwas (by simp)
    · exact h.unique v hold v' hold' htype hheight hround

end Core

/-! ## Every run -/

namespace Consensus

section

variable {S M : Type} [Store S] [Validator S] [MemPool M] [CryptoLib] [CidText] [SigLib]

/-- **A node that enters no round it has voted in does not equivocate.** -/
theorem noEquivocation_of_fresh (chain : Bytes) (id : String) (signingKey : Option Bytes)
    (memPool : M) (store : S) (lastApplied : Option Block) (is : List (Env × Input S))
    (hfresh : Along step (OnCalls Core.EntersFresh)
      (boot chain id signingKey memPool store lastApplied) is) :
    NoEquivocation (is.foldl step (boot chain id signingKey memPool store lastApplied)).trace := by
  have hboot : (boot chain id signingKey memPool store lastApplied).core.Consistent := by
    constructor
    · intro v hv
      exact absurd hv (by simp [castVotes, core, boot])
    · intro v hv
      exact absurd hv (by simp [castVotes, core, boot])
  refine (Along.invariant (P := fun c : Consensus S M => c.core.Consistent) ?_ hboot hfresh).unique
  intro c i hc hg
  refine step_invariant ?_ c i hc hg
  intro k call move hk hfresh hen hof
  exact hk.apply hfresh hen hof

end

section

open Storage.Sample Sample

/-- Two rounds at one height, entered once each. -/
def freshRun : List (Env × Input MemStore) :=
  [call beacon, recv (proposal "p" 1 1 Cid.undef.string),
   recv (vote "b" .preVote 1 1 Cid.undef.string), recv (newRound "p" 1 2),
   recv (proposal "p" 1 2 Cid.undef.string)]

theorem freshRun_noEquivocation :
    (castVotes (freshRun.foldl step (node "a")).trace).length = 3 ∧
      NoEquivocation (freshRun.foldl step (node "a")).trace := by
  refine ⟨by decide +kernel, ?_⟩
  exact noEquivocation_of_fresh [9] "a" (some (point "a")) ({} : TxMemPool) genesisStore none
    freshRun (by decide +kernel)

/-- The proposal of the first beacon tick comes after the second, at the same height. -/
def lateRun : List (Env × Input MemStore) :=
  [call beacon, call .timeoutProposal, call beacon, recv (proposal "p" 1 1 Cid.undef.string)]

theorem lateRun_equivocates : ¬ NoEquivocation (lateRun.foldl step (node "a")).trace := by
  decide +kernel

end
end Consensus
end Didem
