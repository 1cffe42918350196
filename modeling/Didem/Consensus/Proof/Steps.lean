import Didem.Consensus.Proof.NilVotes

/-!
# The steps of a round

Within a round the step goes from propose through prevote and precommit to block, and every handler
but two looks at the step before it moves it. The propose and the prevote timeout return early when
the height **and** the step are wrong, so that either of them being right lets them through; and the
height a timeout compares with is the one `onBlock` writes. Before the commit the two heights differ
and the step decides. After it they are equal, and **a timeout that comes late takes the node back**
to the step it is for, and has it vote if it has not voted.
-/

set_option autoImplicit false

namespace Didem

open Lib Storage

/-- The place of a step in its round. -/
def Step.rank : Step → Nat
  | .propose => 0
  | .prevote => 1
  | .precommit => 2
  | .block => 3

/-- The call starts a round: `startRound`, from a beacon tick or a timeout, or `onNewRound`. -/
def Call.startsRound : Call → Bool
  | .beacon _ | .newRound _ _ | .timeoutPrecommit => true
  | _ => false

/-- The call is the propose, the prevote or the block timeout. -/
def Call.isStepTimeout : Call → Bool
  | .timeoutProposal | .timeoutPrevote | .timeoutBlock => true
  | _ => false

/-- The round's block is committed, as a timeout can tell. -/
def Core.Settled (k : Core) : Prop := k.propsalState.height = k.state.height

/-! ## The machine -/

namespace Core

/-- **No move within a round takes the step back**, but for the two timeouts once the round is
settled. -/
theorem rank_apply [CidText] {k : Core} {move : Move} (hen : k.Enabled move)
    (hmove : move.isEntry = false)
    (htimeout : ∀ vote, move = .timeoutProposal vote ∨ move = .timeoutPrevote vote → ¬ k.Settled) :
    k.propsalState.step.rank ≤ (k.apply move).propsalState.step.rank := by
  cases move with
  | restart inc proposer f block step told => exact absurd hmove (by simp [Move.isEntry])
  | adopt sender height round => exact absurd hmove (by simp [Move.isEntry])
  | quiet told => exact Nat.le_refl _
  | proposal block checked step vote =>
    rw [hen.1]
    exact Nat.zero_le _
  | timeoutProposal vote =>
    rw [hen.1.resolve_left (htimeout vote (.inl rfl))]
    exact Nat.zero_le _
  | timeoutPrevote vote =>
    rw [hen.1.resolve_left (htimeout vote (.inr rfl))]
    exact Nat.le_succ 1
  | preVote msg sender vote told =>
    have hstep : k.propsalState.step = .prevote := hen.1
    simp only [apply, next]
    split
    · rw [hstep]
      exact Nat.le_succ 1
    · exact Nat.le_refl _
  | preCommit msg sender told =>
    have hstep : k.propsalState.step = .precommit := hen.1
    simp only [apply, next]
    split
    · rw [hstep]
      exact Nat.le_succ 2
    · exact Nat.le_refl _
  | block msg sender finished => rw [propsalState_apply_block]
  | gracePeriod announced finished => rw [propsalState_apply_gracePeriod]

end Core

/-- A call that starts no round makes no move that enters one. -/
theorem Move.Of.isEntry_eq_false {call : Call} {move : Move} (h : move.Of call)
    (hcall : call.startsRound = false) : move.isEntry = false := by
  cases move with
  | restart inc proposer f block step told =>
    rcases h with ⟨-, b, rfl⟩ | ⟨-, rfl⟩ <;> cases hcall
  | adopt sender height round =>
    obtain ⟨msg, rfl, -⟩ := h
    cases hcall
  | _ => rfl

/-! ## The handlers -/

namespace Consensus

section

variable {S M : Type} [CryptoLib]

/-- The vote a timeout would send does not go out: the node has no signing key, or it cannot be
signed or published. -/
def Mute (ω : Env) (t : VoteType) (c : Consensus S M) : Prop := ((sendVote ω t "").run c).2 = c

/-- The node cast no vote on the way. -/
def CastsNone (c c' : Consensus S M) : Prop :=
  ∃ es, c'.trace = es ++ c.trace ∧ ∀ m, .sent m ∈ es → m.vote? = none

omit [CryptoLib] in
theorem castsNone_of_trace_eq {c c' : Consensus S M} (h : c'.trace = c.trace) : CastsNone c c' :=
  ⟨[], h, by simp⟩

/-- **What is left of a timeout behind its guard** when it stays where it was and casts no vote: it
was there, and it had voted or cannot. -/
theorem timeout_still_iff (ω : Env) (t : VoteType) (s : Step) (done : Bool) (g : State → State)
    (c : Consensus S M) (hheight : (g c.propsalState).height = c.propsalState.height)
    (hround : (g c.propsalState).round = c.propsalState.round) (hstep : (g c.propsalState).step = s)
    {c' : Consensus S M}
    (hc' : c' = if done then c.setStep s else ((sendVote ω t "").run (c.update g)).2) :
    (c'.propsalState.step = c.propsalState.step ∧ CastsNone c c') ↔
      c.propsalState.step = s ∧ (done = true ∨ c.Mute ω t) := by
  obtain ⟨vote, hrun, hvote⟩ := sendVote_update ω t "" c
  have hmute : c.Mute ω t ↔ vote = none := by
    have hself : ((sendVote ω t "").run c).2 = c.tell vote.toList := hrun (fun p => p) rfl rfl
    rw [Mute, hself]
    cases vote with
    | none => exact iff_of_true rfl rfl
    | some m =>
      refine iff_of_false (fun h => ?_) (by simp)
      exact List.cons_ne_self _ _ (congrArg trace h)
  cases done with
  | true =>
    obtain rfl : c' = c.setStep s := hc'
    have htrace : CastsNone c (c.setStep s) := castsNone_of_trace_eq rfl
    simp only [true_or, and_true, htrace]
    exact eq_comm
  | false =>
    obtain rfl : c' = (c.update g).tell vote.toList := by
      rw [hc', if_neg Bool.false_ne_true, hrun g hheight hround]
    have hcasts : CastsNone c ((c.update g).tell vote.toList) ↔ vote = none := by
      cases vote with
      | none => exact iff_of_true (castsNone_of_trace_eq rfl) rfl
      | some m =>
        refine iff_of_false ?_ (by simp)
        rintro ⟨es, htrace, hes⟩
        obtain rfl : [.sent m] = es := List.append_cancel_right htrace
        obtain ⟨-, -, v, hv, -⟩ := hvote m rfl
        exact absurd (hes m List.mem_cons_self) (by simp [hv])
    have hkept : ((c.update g).tell vote.toList).propsalState.step = s := hstep
    rw [hkept, hcasts, hmute, eq_comm]
    simp

/-! ## Every call -/

variable [Store S] [Validator S] [MemPool M] [CidText] [SigLib]

/-- What is asked of a call within a round: the step does not go back, and a timeout that finds the
round settled leaves it alone and casts no vote. -/
structure Orderly (ω : Env) (call : Call) (c : Consensus S M) : Prop where
  forward :
    c.propsalState.step.rank ≤ ((exec ω call).run c).2.propsalState.step.rank
  settled : call.isStepTimeout = true → c.core.Settled →
    ((exec ω call).run c).2.propsalState.step = c.propsalState.step ∧
      CastsNone c ((exec ω call).run c).2

/-- A propose or prevote timeout comes before the round is settled, or finds nothing to do. -/
def InTime (ω : Env) (c : Consensus S M) : Call → Prop
  | .timeoutProposal => c.core.Settled →
    c.propsalState.step = .prevote ∧ (c.propsalState.pvOnce = true ∨ c.Mute ω .preVote)
  | .timeoutPrevote => c.core.Settled →
    c.propsalState.step = .precommit ∧ (c.propsalState.pcOnce = true ∨ c.Mute ω .preCommit)
  | _ => True

/-- The step does not go back unless the call is a timeout for a settled round. -/
theorem forward_of_unsettled (ω : Env) {call : Call} (hcall : call.startsRound = false)
    {c : Consensus S M}
    (htimeout : call = .timeoutProposal ∨ call = .timeoutPrevote → ¬ c.core.Settled) :
    c.propsalState.step.rank ≤ ((exec ω call).run c).2.propsalState.step.rank := by
  obtain ⟨move, hen, hof, hcore⟩ := exec_moves ω call c
  have hrank := Core.rank_apply hen (hof.isEntry_eq_false hcall) ?_
  · rw [← hcore] at hrank
    exact hrank
  · intro vote hmove
    refine htimeout ?_
    rcases hmove with rfl | rfl
    · exact .inl hof
    · exact .inr hof

/-- **When a round is orderly.** Whatever the state of the node and whichever call is made that
starts no round: the step does not go back, and a propose, prevote or block timeout neither moves it
nor has the node vote once the round is settled, exactly if a propose or prevote timeout does not
come that late or finds nothing to do. -/
theorem orderly_iff_inTime (ω : Env) (call : Call) (c : Consensus S M)
    (hcall : call.startsRound = false) : Orderly ω call c ↔ InTime ω c call := by
  by_cases hlate : (call = .timeoutProposal ∨ call = .timeoutPrevote) ∧ c.core.Settled
  · obtain ⟨htimeout, hsettled⟩ := hlate
    have hstill : ((((exec ω call).run c).2.propsalState.step = c.propsalState.step) ∧
        CastsNone c ((exec ω call).run c).2) ↔ InTime ω c call := by
      rcases htimeout with rfl | rfl
      · refine (timeout_still_iff ω .preVote .prevote _ _ c rfl rfl rfl
          ((onTimeoutProposal_run ω c).trans (if_neg fun h => h.1 hsettled))).trans ?_
        exact ⟨fun h _ => h, fun h => h hsettled⟩
      · refine (timeout_still_iff ω .preCommit .precommit _ _ c rfl rfl rfl
          ((onTimeoutPrevote_run ω c).trans (if_neg fun h => h.1 hsettled))).trans ?_
        exact ⟨fun h _ => h, fun h => h hsettled⟩
    have hstep : call.isStepTimeout = true := by
      rcases htimeout with rfl | rfl <;> rfl
    rw [← hstill]
    constructor
    · intro h
      exact h.settled hstep hsettled
    · intro h
      exact ⟨by rw [h.1], fun _ _ => h⟩
  · rw [not_and] at hlate
    refine iff_of_true ⟨forward_of_unsettled ω hcall hlate, ?_⟩ ?_
    · intro hstep hsettled
      cases call with
      | timeoutProposal => exact absurd hsettled (hlate (.inl rfl))
      | timeoutPrevote => exact absurd hsettled (hlate (.inr rfl))
      | timeoutBlock => exact ⟨rfl, castsNone_of_trace_eq rfl⟩
      | _ => exact absurd hstep (by simp [Call.isStepTimeout])
    · cases call with
      | timeoutProposal => exact fun hsettled => absurd hsettled (hlate (.inl rfl))
      | timeoutPrevote => exact fun hsettled => absurd hsettled (hlate (.inr rfl))
      | _ => trivial

end

section

open Storage.Sample Sample

/-- The node `a` when it has accepted the block of `p`. -/
def acceptedNode : Consensus MemStore TxMemPool := acceptingRun.foldl step (node "a")

/-- A propose timeout while the node waits for a proposal takes it on. -/
theorem waiting_orderly : Call.timeoutProposal.startsRound = false ∧
    Orderly env .timeoutProposal (ticked "a") := by
  have hopen : (ticked "a").propsalState.height ≠ (ticked "a").state.height := by decide +kernel
  exact ⟨rfl, (orderly_iff_inTime env .timeoutProposal (ticked "a") rfl).mpr
    fun hsettled => absurd hsettled hopen⟩

/-- **A late timeout.** The node has committed the block of its round; the propose timer, read
before it was stopped, then takes it from block back to prevote. -/
theorem late_timeout_steps_back :
    acceptedNode.core.Settled ∧ acceptedNode.state.block = block ∧
      acceptedNode.propsalState.step = .block ∧
      ((exec env .timeoutProposal).run acceptedNode).2.propsalState.step = .prevote ∧
      ¬ Orderly env .timeoutProposal acceptedNode := by
  have hfacts : acceptedNode.propsalState.height = acceptedNode.state.height ∧
      acceptedNode.state.block = block ∧ acceptedNode.propsalState.step = .block ∧
      ((exec env .timeoutProposal).run acceptedNode).2.propsalState.step = .prevote := by
    decide +kernel
  obtain ⟨hsettled, hblock, hstep, hback⟩ := hfacts
  refine ⟨hsettled, hblock, hstep, hback, ?_⟩
  intro h
  have hforward := h.forward
  rw [hstep, hback] at hforward
  exact absurd hforward (by decide)

end

end Consensus
end Didem
