import Didem.Consensus.Proof.Simulation
import Didem.Consensus.Sample

/-!
# The committed history

A commit takes the height of the round and the locked block and makes them the tip. Nothing compares
them with the tip there was. What a node commits is a chain when four things are right that no code
looks at: the height of a `NewRound`, the parent and the height inside a block, that the round has
not been committed yet, and that a round without a block does not end a chain that has one — it
leaves the tip without a block, and the next block is built on that.

`BuildsOnTip` says so where each of the four is decided. `Follows` is what it gives while a round is
under way, and the chain is then added to commit by commit.
-/

set_option autoImplicit false

namespace Didem

open Lib Storage

/-! ## Histories -/

/-- The commits, the latest first, each with the tip before and after. -/
def commits (trace : List Effect) : List (Tip × Tip) :=
  trace.filterMap fun
    | .committed before after => some (before, after)
    | _ => none

theorem commits_append (es trace : List Effect) :
    commits (es ++ trace) = commits es ++ commits trace := List.filterMap_append

@[simp] theorem commits_sent (told : List Msg) : commits (told.map .sent) = [] := by
  refine List.filterMap_eq_nil_iff.mpr ?_
  intro e he
  obtain ⟨m, -, rfl⟩ := List.mem_map.mp he
  rfl

/-- The last block committed, from a first one on. -/
def lastBlock (first : Cid) : List (Tip × Tip) → Cid
  | [] => first
  | (_, after) :: older => if after.block = .undef then lastBlock first older else after.block

/-- A commit that adds to a chain which ends in the block `last`. -/
structure Extends (content : Cid → Block) (last : Cid) (before after : Tip) : Prop where
  height : after.height = before.height + 1
  parentBlock : after.parentBlock = before.block
  block : after.block ≠ .undef →
    (content after.block).parent = last ∧ (content after.block).height = after.height

instance (content : Cid → Block) (last : Cid) (before after : Tip) :
    Decidable (Extends content last before after) :=
  decidable_of_iff (after.height = before.height + 1 ∧ after.parentBlock = before.block ∧
      (after.block ≠ .undef →
        (content after.block).parent = last ∧ (content after.block).height = after.height))
    ⟨fun h => ⟨h.1, h.2.1, h.2.2⟩, fun h => ⟨h.1, h.2, h.3⟩⟩

/-- Every commit adds to the chain of the ones before it. -/
def IsChain (content : Cid → Block) (first : Cid) : List (Tip × Tip) → Prop
  | [] => True
  | (before, after) :: older =>
    Extends content (lastBlock first older) before after ∧ IsChain content first older

instance IsChain.decidable (content : Cid → Block) (first : Cid) :
    (cs : List (Tip × Tip)) → Decidable (IsChain content first cs)
  | [] => inferInstanceAs (Decidable True)
  | (before, after) :: older =>
    have := IsChain.decidable content first older
    inferInstanceAs (Decidable
      (Extends content (lastBlock first older) before after ∧ IsChain content first older))

/-- **Following parents from the last block of a chain reaches every block in it.** -/
theorem IsChain.reaches {content : Cid → Block} {first : Cid} {cs : List (Tip × Tip)}
    (h : IsChain content first cs) {p : Tip × Tip} (hp : p ∈ cs) (hblock : p.2.block ≠ .undef) :
    ∃ n, (fun c => (content c).parent)^[n] (lastBlock first cs) = p.2.block := by
  induction cs with
  | nil => exact absurd hp (by simp)
  | cons newest older ih =>
    obtain ⟨before, after⟩ := newest
    obtain ⟨hext, holder⟩ := h
    simp only [lastBlock]
    rcases List.mem_cons.mp hp with rfl | hp
    · exact ⟨0, by simp [hblock]⟩
    · obtain ⟨n, hn⟩ := ih holder hp
      split
      · exact ⟨n, hn⟩
      · next hafter =>
        refine ⟨n + 1, ?_⟩
        rw [Function.iterate_succ_apply, (hext.block hafter).1]
        exact hn

namespace Core

/-! ## One move -/

/-- The node has not committed this round, and with no block locked it has none to lose. -/
def Settles (k : Core) : Prop :=
  k.propsalState.height ≠ k.state.height ∧
    (k.propsalState.lockedValue = .undef → k.state.block = .undef)

instance (k : Core) : Decidable k.Settles := inferInstanceAs (Decidable (_ ∧ _))

/-- The block, if it is one, has the tip as its parent and the height of the round. -/
def OnTip (content : Cid → Block) (k : Core) (c : Cid) : Prop :=
  c ≠ .undef → (content c).parent = k.state.block ∧ (content c).height = k.propsalState.height

instance (content : Cid → Block) (k : Core) (c : Cid) : Decidable (k.OnTip content c) :=
  inferInstanceAs (Decidable (c ≠ .undef → _))

/-- What nothing checks: the heights of rounds entered, the blocks that are locked, and when commits
are made. -/
def BuildsOnTip [CidText] (content : Cid → Block) (k : Core) : Call → Prop
  | .newRound (some msg) sender => sender = k.state.proposer → msg.height = k.state.height + 1
  | .vote msg _ => k.propsalState.step = .prevote → k.Counted .preVote msg → k.Locks msg →
    k.OnTip content k.propsalState.block
  | .block (some msg) sender => k.Passes msg sender → k.Settles
  | .gracePeriod => 0 < k.pending → k.CommitsOwn → k.Settles
  | _ => True

instance [CidText] (content : Cid → Block) (k : Core) :
    (call : Call) → Decidable (k.BuildsOnTip content call)
  | .newRound (some _) _ => inferInstanceAs (Decidable (_ → _))
  | .vote _ _ => inferInstanceAs (Decidable (_ → _ → _ → _))
  | .block (some _) _ => inferInstanceAs (Decidable (_ → _))
  | .gracePeriod => inferInstanceAs (Decidable (_ → _ → _))
  | .beacon _ | .newRound none _ | .proposal _ _ | .block none _ | .evidence _ _ | .tx _
  | .timeoutProposal | .timeoutPrevote | .timeoutPrecommit | .timeoutBlock =>
    inferInstanceAs (Decidable True)

/-- A round under way is one above the tip, or is the tip once it has been committed. -/
structure Follows (content : Cid → Block) (k : Core) : Prop where
  open_of_block : k.propsalState.step = .block → k.propsalState.preCommits ≠ none
  height : k.propsalState.preCommits ≠ none →
    k.propsalState.height = k.state.height + 1 ∨ k.propsalState.height = k.state.height
  locked : k.propsalState.height ≠ k.state.height → k.OnTip content k.propsalState.lockedValue

theorem commits_commitEffects (k : Core) (finished : Bool) :
    commits (k.commitEffects finished) = if finished then [(k.state.tip, k.nextTip)] else [] := by
  have haccepted : commits (if k.propsalState.lockedValue = .undef then []
      else [.accepted k.propsalState.lockedValue k.propsalState.amProposer]) = [] := by
    split <;> rfl
  rw [commitEffects, commits_append, haccepted]
  cases finished <;> rfl

theorem tip_commit (k : Core) (finished : Bool) :
    (k.commit finished).state.tip = if finished then k.nextTip else k.state.tip := by
  cases finished <;> rfl

theorem tip_apply_gracePeriod (k : Core) (sent : Option Msg) (finished : Bool) :
    (k.apply (.gracePeriod (some sent) finished)).state.tip =
      if k.CommitsOwn then (k.commit finished).state.tip else k.state.tip := by
  by_cases hown : k.CommitsOwn
  · have hown' : ({ k with pending := k.pending - 1 } : Core).CommitsOwn := hown
    simp only [apply, next, Option.isSome_some, true_and, if_pos hown', if_pos hown, tip_commit]
    rfl
  · have hown' : ¬ ({ k with pending := k.pending - 1 } : Core).CommitsOwn := hown
    simp only [apply, next, Option.isSome_some, true_and, if_neg hown', if_neg hown]

/-- A move commits and advances the tip, or does neither. -/
theorem commits_effects (k : Core) (move : Move) :
    (commits (k.effects move) = [] ∧ (k.apply move).state.tip = k.state.tip) ∨
      k.Commits move ∧ commits (k.effects move) = [(k.state.tip, k.nextTip)] ∧
        (k.apply move).state.tip = k.nextTip := by
  cases move with
  | block msg sender finished =>
    have hcommits := commits_commitEffects k finished
    have htip := tip_commit k finished
    cases finished with
    | false => exact .inl ⟨hcommits, htip⟩
    | true => exact .inr ⟨trivial, hcommits, htip⟩
  | gracePeriod announced finished =>
    cases announced with
    | none => exact .inl ⟨rfl, rfl⟩
    | some sent =>
      rw [tip_apply_gracePeriod]
      simp only [effects, commits_append, commits_sent, List.append_nil]
      by_cases hown : k.CommitsOwn
      · rw [if_pos hown, if_pos hown, commits_commitEffects, tip_commit]
        cases finished with
        | false => exact .inl ⟨rfl, rfl⟩
        | true => exact .inr ⟨⟨rfl, hown⟩, rfl, rfl⟩
      · rw [if_neg hown, if_neg hown]
        exact .inl ⟨rfl, rfl⟩
  | preCommit msg sender told =>
    refine .inl ⟨?_, rfl⟩
    simp only [effects, commits_append, commits_sent, List.nil_append]
    split <;> rfl
  | proposal block checked step vote =>
    refine .inl ⟨?_, rfl⟩
    simp only [effects, commits_append, commits_sent, List.nil_append]
    split <;> rfl
  | restart inc proposer f block step told =>
    refine .inl ⟨?_, rfl⟩
    simp only [effects, commits_append, commits_sent]
    rfl
  | preVote msg sender vote told => exact .inl ⟨by simp [effects, commits_append], rfl⟩
  | quiet told => exact .inl ⟨commits_sent told, rfl⟩
  | adopt sender height round => exact .inl ⟨rfl, rfl⟩
  | timeoutProposal vote => exact .inl ⟨commits_sent _, rfl⟩
  | timeoutPrevote vote => exact .inl ⟨commits_sent _, rfl⟩

variable {content : Cid → Block}

/-- Nothing of the round that the history depends on has changed. -/
theorem Follows.of_kept {k k' : Core} (h : k.Follows content) (htip : k'.state.tip = k.state.tip)
    (hheight : k'.propsalState.height = k.propsalState.height)
    (hlocked : k'.propsalState.lockedValue = k.propsalState.lockedValue)
    (hopen : k'.propsalState.step = .block → k'.propsalState.preCommits ≠ none)
    (hbook : k'.propsalState.preCommits ≠ none → k.propsalState.preCommits ≠ none) :
    k'.Follows content := by
  have hstate : k'.state.height = k.state.height := congrArg Tip.height htip
  have hblock : k'.state.block = k.state.block := congrArg Tip.block htip
  refine ⟨hopen, ?_, ?_⟩
  · intro hsome
    rw [hheight, hstate]
    exact h.height (hbook hsome)
  · rw [hheight, hstate, hlocked, OnTip, hheight, hblock]
    exact h.locked

/-- A round that is entered has no votes and no lock yet. -/
theorem Follows.of_entered {k : Core} (hheight : k.propsalState.height = k.state.height + 1)
    (hlocked : k.propsalState.lockedValue = .undef) (hstep : k.propsalState.step ≠ .block) :
    k.Follows content :=
  ⟨fun h => absurd h hstep, fun _ => .inl hheight, fun _ h => absurd hlocked h⟩

variable [CidText]

/-- A commit that is made is one of its call. -/
theorem settles_of_commits {k : Core} {move : Move} {call : Call}
    (hbuilds : k.BuildsOnTip content call) (hen : k.Enabled move) (hof : move.Of call)
    (hcommits : k.Commits move) : k.propsalState.step = .block ∧ k.Settles := by
  cases move with
  | block msg sender finished =>
    obtain rfl : call = .block (some msg) sender := hof
    exact ⟨hen.2.1, hbuilds hen⟩
  | gracePeriod announced finished =>
    obtain rfl : call = .gracePeriod := hof
    exact ⟨hcommits.2.2, hbuilds hen.1 hcommits.2⟩
  | _ => exact hcommits.elim

theorem Follows.preVote {k : Core} (h : k.Follows content) {msg : Msg} {sender : String}
    {vote : Option Msg} {told : List Msg} (hen : k.Enabled (.preVote msg sender vote told))
    (hbuilds : k.BuildsOnTip content (.vote msg sender)) :
    (k.apply (.preVote msg sender vote told)).Follows content := by
  obtain ⟨hstep, -, -, hcounted, -⟩ := hen
  by_cases hlocks : k.Locks msg
  · simp only [apply, next, if_pos hlocks]
    exact ⟨fun hblock => absurd hblock (by simp), h.height,
      fun _ => hbuilds hstep hcounted hlocks⟩
  · simp only [apply, next, if_neg hlocks]
    refine h.of_kept rfl rfl rfl ?_ fun hsome => hsome
    intro hblock
    rw [show k.propsalState.step = .block from hblock] at hstep
    exact absurd hstep (by simp)

/-- A move that does not commit keeps the round on the tip. -/
theorem Follows.apply {k : Core} (h : k.Follows content) {move : Move} {call : Call}
    (hbuilds : k.BuildsOnTip content call) (hen : k.Enabled move) (hof : move.Of call)
    (htip : (k.apply move).state.tip = k.state.tip) : (k.apply move).Follows content := by
  cases move with
  | restart inc proposer f block step told =>
    obtain ⟨-, hstep, -⟩ := hen
    exact .of_entered rfl rfl (by rcases hstep with rfl | rfl <;> simp [Core.apply, next])
  | adopt sender height round =>
    obtain ⟨msg, rfl, rfl, rfl⟩ := hof
    refine .of_entered (hbuilds hen) rfl ?_
    simp [Core.apply, next, State.cleared, State.noEvidence]
  | preVote msg sender vote told =>
    obtain rfl : call = .vote msg sender := hof
    exact h.preVote hen hbuilds
  | preCommit msg sender told =>
    obtain ⟨-, hbook, -⟩ := hen
    simp only [Core.apply, next]
    split <;> exact h.of_kept rfl rfl rfl (fun _ => by simp) fun _ => hbook
  | proposal block checked step vote =>
    obtain ⟨hpropose, hstep, -⟩ := hen
    simp only [Core.apply, next]
    split
    · exact h.of_kept rfl rfl rfl h.open_of_block fun hsome => hsome
    · refine h.of_kept rfl rfl rfl ?_ fun hsome => hsome
      intro hblock
      rw [show step = .block from hblock] at hstep
      exact absurd hstep (by simp)
  | block msg sender finished =>
    exact h.of_kept htip (by simp) (by simp) (by simpa using h.open_of_block) (by simp)
  | gracePeriod announced finished =>
    exact h.of_kept htip (by simp) (by simp) (by simpa using h.open_of_block) (by simp)
  | quiet told => exact h.of_kept rfl rfl rfl h.open_of_block fun hsome => hsome
  | timeoutProposal vote =>
    refine h.of_kept rfl rfl rfl ?_ fun hsome => hsome
    exact fun hblock => absurd hblock (by simp [Core.apply, next])
  | timeoutPrevote vote =>
    refine h.of_kept rfl rfl rfl ?_ fun hsome => hsome
    exact fun hblock => absurd hblock (by simp [Core.apply, next])

structure Chained (content : Cid → Block) (first : Cid) (k : Core) : Prop where
  follows : k.Follows content
  tip : k.state.block = lastBlock first (commits k.trace)
  chain : IsChain content first (commits k.trace)

omit [CidText] in
/-- A commit adds to the chain, and the round is then the tip. -/
theorem Chained.commit {first : Cid} {k : Core} (h : k.Chained content first) {move : Move}
    (hstep : k.propsalState.step = .block) (hsettles : k.Settles)
    (hcommits : commits (k.effects move) = [(k.state.tip, k.nextTip)])
    (htip : (k.apply move).state.tip = k.nextTip)
    (hround : (k.apply move).propsalState = k.propsalState) :
    (k.apply move).Chained content first := by
  obtain ⟨hnew, hnil⟩ := hsettles
  have hopen := h.follows.open_of_block hstep
  have hheight : k.propsalState.height = k.state.height + 1 :=
    (h.follows.height hopen).resolve_right hnew
  have hafter : (k.apply move).state.height = k.propsalState.height := congrArg Tip.height htip
  have hblock : (k.apply move).state.block = k.propsalState.lockedValue := congrArg Tip.block htip
  have htrace : commits (k.apply move).trace = (k.state.tip, k.nextTip) :: commits k.trace := by
    rw [trace_apply, commits_append, hcommits]
    rfl
  refine ⟨⟨?_, ?_, ?_⟩, ?_, ?_⟩
  · rw [hround]
    exact h.follows.open_of_block
  · intro _
    rw [hround, hafter]
    exact .inr rfl
  · intro hne
    rw [hround, hafter] at hne
    exact absurd rfl hne
  · rw [htrace, hblock]
    show k.propsalState.lockedValue =
      if k.propsalState.lockedValue = .undef then lastBlock first (commits k.trace)
      else k.propsalState.lockedValue
    split
    · next hundef => rw [hundef, ← h.tip, hnil hundef]
    · rfl
  · rw [htrace]
    refine ⟨⟨hheight, rfl, ?_⟩, h.chain⟩
    intro hsome
    obtain ⟨hparent, hblockHeight⟩ := h.follows.locked hnew hsome
    exact ⟨hparent.trans h.tip, hblockHeight⟩

theorem Chained.apply {first : Cid} {k : Core} (h : k.Chained content first) {move : Move}
    {call : Call} (hbuilds : k.BuildsOnTip content call) (hen : k.Enabled move)
    (hof : move.Of call) : (k.apply move).Chained content first := by
  rcases commits_effects k move with ⟨hnone, htip⟩ | ⟨hcommits, hsome, htip⟩
  · have htrace : commits (k.apply move).trace = commits k.trace := by
      rw [trace_apply, commits_append, hnone]
      rfl
    refine ⟨h.follows.apply hbuilds hen hof htip, ?_, ?_⟩
    · rw [htrace, show (k.apply move).state.block = k.state.block from congrArg Tip.block htip]
      exact h.tip
    · rw [htrace]
      exact h.chain
  · obtain ⟨hstep, hsettles⟩ := settles_of_commits hbuilds hen hof hcommits
    refine h.commit hstep hsettles hsome htip ?_
    cases move with
    | block msg sender finished => simp
    | gracePeriod announced finished => simp
    | _ => exact hcommits.elim

end Core

/-! ## Every run -/

namespace World

section

variable {S M : Type} [Store S] [Validator S] [MemPool M] [CryptoLib] [CidText] [SigLib]

/-- **A network that builds on its tips commits chains.** `content` is the block behind a CID. At
every node each commit raises the height by one, keeps the old block as the parent and, if it is of
a block, that block's parent is the last one committed and its height the new one; and following
parents from the tip reaches every block the node committed. -/
theorem isChain_of_buildsOnTip (content : Cid → Block) (chain : Bytes)
    (signingKeys : String → Option Bytes) (memPools : String → M) (stores : String → S)
    (lastApplied : String → Option Block) (is : List (String × Env × Input S))
    (hbuilds : Along step (OnCalls (Core.BuildsOnTip content))
      (boot chain signingKeys memPools stores lastApplied) is) (id : String) :
    let w := boot chain signingKeys memPools stores lastApplied
    let c := is.foldl step w id
    IsChain content (w id).state.block (commits c.trace) ∧
      ∀ p ∈ commits c.trace, p.2.block ≠ .undef →
        ∃ n, (fun b => (content b).parent)^[n] c.state.block = p.2.block := by
  intro w c
  have hboot (id : String) : (w id).core.Chained content (w id).state.block := by
    refine ⟨⟨?_, ?_, ?_⟩, rfl, trivial⟩
    · intro h
      exact absurd h (by simp [w, boot, Consensus.boot, Consensus.core, State.noEvidence])
    · intro h
      exact absurd rfl h
    · intro _ h
      exact absurd rfl h
  have hrun : c.core.Chained content (w id).state.block := by
    refine run_invariant (I := fun id k => k.Chained content (w id).state.block) ?_ hboot hbuilds id
    intro id k call move hk hg hen hof
    exact hk.apply hg hen hof
  refine ⟨hrun.chain, ?_⟩
  intro p hp hblock
  obtain ⟨n, hn⟩ := hrun.chain.reaches hp hblock
  refine ⟨n, ?_⟩
  rw [show c.state.block = _ from hrun.tip]
  exact hn

end

section

open Storage.Sample Sample

/-- The block behind a CID, as the proposer's store reads it. -/
def read (c : Cid) : Block :=
  match Store.getBlock proposing.store c with
  | .ok b => b
  | _ => {}

theorem commitRun_isChain :
    Along step (OnCalls (Core.BuildsOnTip read)) node commitRun ∧
      IsChain read .undef (commits (commitRun.foldl step node "a").trace) ∧
      commits (commitRun.foldl step node "a").trace =
        [(⟨0, .undef, .undef⟩, ⟨1, block, .undef⟩)] := by
  have hbuilds : Along step (OnCalls (Core.BuildsOnTip read)) node commitRun := by decide +kernel
  exact ⟨hbuilds, (isChain_of_buildsOnTip read [9] (fun id => some (point id))
    (fun _ => ({} : TxMemPool)) (fun _ => genesisStore) (fun _ => none) commitRun hbuilds "a").1,
    by decide +kernel⟩

/-- The run that splits the network, and `a` is told of no block as well. -/
def recommitRun : List Event := splitRun ++ committing "a" "b" 1 Cid.undef.string

/-- It commits twice at height one, and loses the block. -/
theorem recommitRun_not_isChain :
    Along step Delivers node recommitRun ∧
      commits (recommitRun.foldl step node "a").trace =
        [(⟨1, block, .undef⟩, ⟨1, .undef, block⟩), (⟨0, .undef, .undef⟩, ⟨1, block, .undef⟩)] ∧
      ¬ IsChain read .undef (commits (recommitRun.foldl step node "a").trace) := by
  decide +kernel

end
end World
end Didem
