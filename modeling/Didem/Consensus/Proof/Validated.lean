import Didem.Consensus.Proof.VoteBook
import Didem.Consensus.Sample

/-!
# A node accepts what it validated

A node that is not the proposer gets its block from one place, a proposal it validated, and gives it
up at every beacon tick. Between ticks the block survives everything else: new rounds, timeouts and
`NewRound` messages of the proposer. So do the records of what was validated, and the two are kept
together.

The proposer is the exception, since it never validates the block it built, and a node cannot stop
being one within a beacon round (`Honest.proposer`).
-/

set_option autoImplicit false

namespace Didem

open Lib Storage

/-- The block was validated after the last `startRound(false)`. -/
def ValidatedSince (trace : List Effect) (c : Cid) : Prop :=
  .validated c ∈ trace.takeWhile (· ≠ .startRound false)

/-- Whatever a node accepted while it was not the proposer it had validated. -/
def AcceptsValidated : List Effect → Prop
  | [] => True
  | e :: trace => (∀ c, e = .accepted c false → ValidatedSince trace c) ∧ AcceptsValidated trace

theorem ValidatedSince.append {trace : List Effect} {c : Cid} (h : ValidatedSince trace c)
    {es : List Effect} (hes : ∀ e ∈ es, e ≠ .startRound false) :
    ValidatedSince (es ++ trace) c := by
  unfold ValidatedSince
  rw [List.takeWhile_append_of_pos (by simpa using hes)]
  exact List.mem_append_right es h

theorem AcceptsValidated.append {trace : List Effect} (h : AcceptsValidated trace)
    {es : List Effect} (hes : ∀ c, .accepted c false ∈ es →
      ValidatedSince trace c ∧ ∀ e ∈ es, e ≠ .startRound false) :
    AcceptsValidated (es ++ trace) := by
  induction es with
  | nil => exact h
  | cons e es ih =>
    refine ⟨?_, ih ?_⟩
    · rintro c rfl
      obtain ⟨hsince, hstart⟩ := hes c List.mem_cons_self
      exact hsince.append fun e' he' => hstart e' (List.mem_cons_of_mem _ he')
    · intro c hc
      obtain ⟨hsince, hstart⟩ := hes c (List.mem_cons_of_mem e hc)
      exact ⟨hsince, fun e' he' => hstart e' (List.mem_cons_of_mem e he')⟩

theorem AcceptsValidated.validatedSince {newer older : List Effect} {c : Cid}
    (h : AcceptsValidated (newer ++ .accepted c false :: older)) : ValidatedSince older c := by
  induction newer with
  | nil => exact h.1 c rfl
  | cons e newer ih => exact ih h.2

namespace Core

/-! ## One move -/

theorem not_startRound_of_accepted {k : Core} {move : Move} {c : Cid} {am : Bool}
    (h : .accepted c am ∈ k.effects move) : ∀ e ∈ k.effects move, e ≠ .startRound false := by
  rintro e he rfl
  obtain ⟨hcommits, -⟩ := emits_of_mem h
  obtain ⟨proposer, f, block, step, told, rfl⟩ := emits_of_mem he
  exact hcommits

/-- What a node that is not the proposer holds, it validated. -/
structure Honest [CidText] (k : Core) : Prop where
  books : k.VoteBooks
  proposer : k.propsalState.amProposer = true → k.state.proposer = k.id
  block : k.propsalState.amProposer = false → k.propsalState.block ≠ .undef →
    ValidatedSince k.trace k.propsalState.block
  accepts : AcceptsValidated k.trace

variable [CidText]

theorem Honest.validatedSince_locked {k : Core} (h : k.Honest)
    (ham : k.propsalState.amProposer = false) (hlocked : k.propsalState.lockedValue ≠ .undef) :
    ValidatedSince k.trace k.propsalState.lockedValue := by
  have hblock := (h.books.of_locked hlocked).1
  rw [hblock] at hlocked ⊢
  exact h.block ham hlocked

theorem Honest.accepts_apply {k : Core} (h : k.Honest) (move : Move) :
    AcceptsValidated (k.apply move).trace := by
  refine h.accepts.append ?_
  intro c hc
  refine ⟨?_, not_startRound_of_accepted hc⟩
  obtain ⟨-, rfl, hdef, ham⟩ := emits_of_mem hc
  exact h.validatedSince_locked ham.symm hdef

/-- A move within a round that leaves the block alone. -/
theorem Honest.of_kept {k : Core} (h : k.Honest) {move : Move} (hen : k.Enabled move)
    (hmove : ∀ inc proposer f block step told, move ≠ .restart inc proposer f block step told)
    (ham : (k.apply move).propsalState.amProposer = k.propsalState.amProposer)
    (hblock : (k.apply move).propsalState.block = k.propsalState.block) :
    (k.apply move).Honest where
  books := h.books.apply hen
  proposer := by rw [ham, proposer_apply k move hmove, id_apply]; exact h.proposer
  block := by
    rw [ham, hblock, trace_apply]
    intro hnot hdef
    refine (h.block hnot hdef).append ?_
    rintro e he rfl
    obtain ⟨proposer, f, block, step, told, hrestart⟩ := emits_of_mem he
    exact hmove _ _ _ _ _ _ hrestart
  accepts := h.accepts_apply move

theorem Honest.restart {k : Core} (h : k.Honest) {inc : Bool} {proposer : String} {f : Nat}
    {block : Cid} {step : Step} {told : List Msg}
    (hen : k.Enabled (.restart inc proposer f block step told)) :
    (k.apply (.restart inc proposer f block step told)).Honest where
  books := h.books.apply hen
  proposer := fun ham => beq_iff_eq.mp ham
  block := by
    obtain ⟨hproposer, -, -, hbuilt⟩ := hen
    intro ham hdef
    have hother : proposer ≠ k.id := beq_eq_false_iff_ne.mp ham
    obtain ⟨-, hblock⟩ := hbuilt hother
    cases inc with
    | false => exact absurd hblock hdef
    | true =>
      -- the proposer is the same, so the node was not the proposer before either
      have hnot : k.propsalState.amProposer = false := by
        rw [← Bool.not_eq_true]
        intro hwas
        exact hother ((hproposer rfl).trans (h.proposer hwas))
      have hblock' : block = k.propsalState.block := hblock
      subst hblock'
      refine (h.block hnot hdef).append ?_
      rintro e he rfl
      obtain ⟨_, _, _, _, _, hrestart⟩ := emits_of_mem he
      cases hrestart
  accepts := h.accepts_apply _

theorem Honest.proposal {k : Core} (h : k.Honest) {block : Cid} {checked : Bool} {step : Step}
    {vote : Option Msg} (hen : k.Enabled (.proposal block checked step vote)) :
    (k.apply (.proposal block checked step vote)).Honest := by
  by_cases honce : k.propsalState.pvOnce = true
  · refine h.of_kept hen (by simp) ?_ ?_
    · simp [apply, next, honce]
    · simp [apply, next, honce]
  · refine ⟨h.books.apply hen, ?_, ?_, h.accepts_apply _⟩
    · simp only [apply, next, if_neg honce]
      exact h.proposer
    · intro _ hdef
      simp only [apply, next, if_neg honce] at hdef ⊢
      cases checked with
      | false => exact absurd (hen.2.2.1 rfl) hdef
      | true =>
        rw [effects, List.append_assoc]
        refine ValidatedSince.append ?_ (by simp)
        simp [ValidatedSince]

/-- **Every move of a node keeps it honest.** -/
theorem Honest.apply {k : Core} (h : k.Honest) {move : Move} (hen : k.Enabled move) :
    (k.apply move).Honest := by
  cases move with
  | restart inc proposer f block step told => exact h.restart hen
  | proposal block checked step vote => exact h.proposal hen
  | preVote msg sender vote told =>
    refine h.of_kept hen (by simp) ?_ ?_ <;> simp only [Core.apply, next] <;> split <;> rfl
  | preCommit msg sender told =>
    refine h.of_kept hen (by simp) ?_ ?_ <;> simp only [Core.apply, next] <;> split <;> rfl
  | block msg sender finished => exact h.of_kept hen (by simp) (by simp) (by simp)
  | gracePeriod announced finished => exact h.of_kept hen (by simp) (by simp) (by simp)
  | quiet told => exact h.of_kept hen (by simp) rfl rfl
  | adopt sender height round => exact h.of_kept hen (by simp) rfl rfl
  | timeoutProposal vote => exact h.of_kept hen (by simp) rfl rfl
  | timeoutPrevote vote => exact h.of_kept hen (by simp) rfl rfl

end Core

/-! ## Every run -/

namespace Consensus

section

variable {S M : Type} [Store S] [Validator S] [MemPool M] [CryptoLib] [CidText] [SigLib]

/-- **A node that is not the proposer only accepts blocks it validated itself.** In every run, over
arbitrary inputs: wherever the trace has the acceptance of a block while the node was not the
proposer, it has a successful validation of that block before, with no `startRound(false)` in
between. -/
theorem accepted_was_validated (chain : Bytes) (id : String) (signingKey : Option Bytes)
    (memPool : M) (store : S) (lastApplied : Option Block) (is : List (Env × Input S))
    (newer older : List Effect) (block : Cid)
    (h : (is.foldl step (boot chain id signingKey memPool store lastApplied)).trace =
      newer ++ .accepted block false :: older) :
    .validated block ∈ older.takeWhile (· ≠ .startRound false) := by
  have hboot : (boot chain id signingKey memPool store lastApplied).core.Honest :=
    ⟨.of_cleared rfl rfl rfl, fun ham => absurd ham (by simp [boot, core, State.noEvidence]),
      fun _ hdef => absurd rfl hdef, trivial⟩
  have hrun := run_invariant (I := Core.Honest) (fun k move hk hen => hk.apply hen) hboot is
  have haccepts : AcceptsValidated (newer ++ .accepted block false :: older) := h ▸ hrun.accepts
  exact haccepts.validatedSince

end

section

open Storage.Sample Sample

theorem acceptingRun_validated :
    (acceptingRun.foldl step (node "a")).state.block = block ∧
      .validated block ∈
        ((acceptingRun.foldl step (node "a")).trace.drop 2).takeWhile (· ≠ .startRound false) := by
  refine ⟨by decide +kernel, ?_⟩
  exact accepted_was_validated [9] "a" (some (point "a")) ({} : TxMemPool) genesisStore none
    acceptingRun ((acceptingRun.foldl step (node "a")).trace.take 1) _ block (by decide +kernel)

end
end Consensus
end Didem
