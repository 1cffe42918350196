import Didem.Consensus.Proof.Threshold

/-!
# Votes for no block

A node that finds a proposal invalid, gets none in time, or locks nothing, votes for no block, and
the others are to count that vote as what it is. **The vote is spelt at five places and read at
one.** `onProposal` and `onPreVote` write `cid.Undef.String()`, the text `onVote` compares with on a
node that has no block. The two timeouts write the empty string, which no CID has for its text: such
a vote is counted nowhere, and least of all by a node that timed out itself.

A node of which the other thinks as the proposer is not counted either, whatever it votes.
-/

set_option autoImplicit false

namespace Didem

open Lib Storage

/-- The call is one of the two timeouts that vote. -/
def Call.isTimeout : Call → Bool
  | .timeoutProposal | .timeoutPrevote => true
  | _ => false

/-- The step in which votes of this type are counted. -/
def State.Counts (p : State) (t : VoteType) : Prop :=
  t = .preVote ∧ p.step = .prevote ∨ t = .preCommit ∧ p.step = .precommit

/-- The vote of this type that is held of a node. -/
def State.recorded (p : State) (t : VoteType) (sender : String) : Option Msg :=
  match t with
  | .preVote => p.preVotes.bind (·.lookup sender)
  | .preCommit => p.preCommits.bind (·.lookup sender)
  | .other _ => none

/-- A round has been entered: the maps of votes are made. -/
def State.InRound (p : State) : Prop := p.preVotes ≠ none ∧ p.preCommits ≠ none

/-! ## Nodes that are in a round -/

namespace Core

/-- **A round once entered is never left.** -/
theorem inRound_apply {k : Core} (h : k.propsalState.InRound) (move : Move) :
    (k.apply move).propsalState.InRound := by
  cases move with
  | restart inc proposer f block step told => exact ⟨Option.some_ne_none _, Option.some_ne_none _⟩
  | adopt sender height round => exact ⟨Option.some_ne_none _, Option.some_ne_none _⟩
  | proposal block checked step vote => simp only [apply, next]; split <;> exact h
  | preVote msg sender vote told =>
    simp only [apply, next]
    split <;> exact ⟨Option.some_ne_none _, h.2⟩
  | preCommit msg sender told =>
    simp only [apply, next]
    split <;> exact ⟨h.1, Option.some_ne_none _⟩
  | block msg sender finished => rwa [propsalState_apply_block]
  | gracePeriod announced finished => rwa [propsalState_apply_gracePeriod]
  | quiet told => exact h
  | timeoutProposal vote => exact h
  | timeoutPrevote vote => exact h

/-- No move but the entry of a round changes its number. -/
theorem round_or_inRound_apply {k : Core}
    (h : k.propsalState.round = 0 ∨ k.propsalState.InRound) (move : Move) :
    (k.apply move).propsalState.round = 0 ∨ (k.apply move).propsalState.InRound := by
  rcases h with h | h
  · cases hentry : move.isEntry with
    | false => exact .inl ((round_apply hentry).2.trans h)
    | true =>
      cases move with
      | restart inc proposer f block step told =>
        exact .inr ⟨Option.some_ne_none _, Option.some_ne_none _⟩
      | adopt sender height round => exact .inr ⟨Option.some_ne_none _, Option.some_ne_none _⟩
      | _ => exact absurd hentry (by simp [Move.isEntry])
  · exact .inr (inRound_apply h move)

end Core

namespace Consensus

section

variable {S M : Type} [Store S] [Validator S] [MemPool M] [CryptoLib] [CidText] [SigLib]

/-- A node that has heard of a round is in one, in whatever run. -/
theorem inRound_of_run {chain : Bytes} {id : String} {signingKey : Option Bytes} {memPool : M}
    {store : S} {lastApplied : Option Block} (is : List (Env × Input S))
    (hround : (is.foldl step
      (boot chain id signingKey memPool store lastApplied)).propsalState.round ≠ 0) :
    (is.foldl step (boot chain id signingKey memPool store lastApplied)).propsalState.InRound := by
  refine (foldl_invariant (P := fun c : Consensus S M =>
    c.core.propsalState.round = 0 ∨ c.core.propsalState.InRound) ?_ (.inl rfl) is).resolve_left
    hround
  intro c i h
  rcases step_moves c i with hsame | ⟨-, -, move, -, -, hcore⟩
  · exact (show (c.step i).core = c.core from hsame) ▸ h
  · exact hcore ▸ Core.round_or_inRound_apply h move

end

/-! ## What is sent -/

section

variable {S M : Type}

/-- Whatever votes went out since are for no block, and say so with the text of `cid.Undef`. -/
def SaysNil [CidText] (c c' : Consensus S M) : Prop :=
  ∃ es, c'.trace = es ++ c.trace ∧
    ∀ m v, .sent m ∈ es → m.vote? = some v → v.blockID = Cid.undef.string

variable [CidText]

instance : Std.Refl (SaysNil (S := S) (M := M)) := ⟨fun _ => ⟨[], rfl, by simp⟩⟩

theorem SaysNil.trans {a b c : Consensus S M} (hab : SaysNil a b) (hbc : SaysNil b c) :
    SaysNil a c := by
  obtain ⟨es, htrace, hes⟩ := hab
  obtain ⟨es', htrace', hes'⟩ := hbc
  refine ⟨es' ++ es, by rw [htrace', htrace, List.append_assoc], ?_⟩
  intro m v hm hv
  rcases List.mem_append.mp hm with hm | hm
  · exact hes' m v hm hv
  · exact hes m v hm hv

instance : IsTrans (Consensus S M) SaysNil := ⟨fun _ _ _ => SaysNil.trans⟩

theorem SaysNil.of_trace_eq {c c' : Consensus S M} (h : c'.trace = c.trace) : SaysNil c c' :=
  ⟨[], h, by simp⟩

variable [CryptoLib]

theorem sendVote_saysNil (ω : Env) (t : VoteType) :
    Proc.Within SaysNil (sendVote ω t Cid.undef.string : Engine S M Unit) := by
  intro c
  obtain ⟨vote, htold, hvote⟩ := sendVote_told ω t Cid.undef.string c
  rw [htold]
  refine ⟨vote.toList.map .sent, rfl, ?_⟩
  intro m v hm hv
  obtain ⟨m', hm', heq⟩ := List.mem_map.mp hm
  obtain rfl : m' = m := Effect.sent.inj heq
  exact ((hvote m' (Option.mem_toList.mp hm')).of_vote? hv).2.2.2

variable [Store S] [Validator S]

omit [CryptoLib] in
theorem validate_saysNil (ω : Env) (value : String) :
    Proc.Within SaysNil (validate ω value : Engine S M Cid) := by
  unfold validate
  split
  · exact .pure _
  · split
    · exact .lift _
    · refine .bind .get fun c => .bind (.lift _) fun block => .bind (.wrap ?_) fun _ => ?_
      · exact fun c => .of_trace_eq rfl
      · refine .bind (.modify fun c => ⟨[.validated _], rfl, by simp⟩) fun _ => .pure _

/-- A proposal that leaves a node without a block has it vote for none. -/
theorem onProposal_saysNil {ω : Env} {msg : Option ConsensusMsgProposal} {sender : String}
    {c : Consensus S M}
    (hnil : ((onProposal ω msg sender).run c).2.propsalState.block = .undef) :
    SaysNil c ((onProposal ω msg sender).run c).2 := by
  simp only [onProposal, Proc.run_bind, Proc.run_get] at hnil ⊢
  split
  · exact Std.Refl.refl c
  · next hguard =>
    rw [if_neg hguard] at hnil
    cases msg with
    | none => exact Std.Refl.refl c
    | some msg =>
      simp only [Proc.run_bind] at hnil ⊢
      have hvalidate :
          Proc.Within SaysNil ((validate ω msg.blockID).orElse .undef : Engine S M Cid) :=
        (validate_saysNil ω msg.blockID).orElse _
      cases hrun : ((validate ω msg.blockID).orElse .undef : Engine S M Cid).run c with
      | mk outcome c' =>
        have hchecked : SaysNil c c' := hvalidate.of_run hrun
        rw [hrun] at hnil
        cases outcome with
        | panic => exact hchecked
        | err e => exact hchecked
        | ok bc =>
          simp only at hnil ⊢
          split
          · exact hchecked
          · next honce =>
            rw [if_neg honce, Proc.run_logged_snd] at hnil
            rw [Proc.run_logged_snd]
            obtain ⟨step, vote, -, -, hcore⟩ := prevoteFor_run ω bc msg.blockID c'
            obtain rfl : bc = .undef :=
              (congrArg (fun k => k.propsalState.block) hcore).symm.trans hnil
            refine hchecked.trans ?_
            refine (show Proc.Within SaysNil (prevoteFor ω .undef msg.blockID) from ?_) c'
            refine .bind (.modify fun c => .of_trace_eq rfl) fun _ => ?_
            rw [if_pos rfl]
            exact .bind (sendVote_saysNil ω .preVote) fun _ => .modify fun c => .of_trace_eq rfl

variable [MemPool M] [SigLib]

/-- The call has the node send this message, with a vote in it. -/
def Casts (ω : Env) (call : Call) (c : Consensus S M) (m : Msg) (v : ConsensusMsgVote) : Prop :=
  (∃ es, ((exec ω call).run c).2.trace = es ++ c.trace ∧ .sent m ∈ es) ∧ m.vote? = some v

/-- What the call votes for is no block: it leaves the node without one, or is a timeout. -/
def ForNoBlock (ω : Env) (call : Call) (c : Consensus S M) : Prop :=
  ((exec ω call).run c).2.propsalState.block = .undef ∨ call.isTimeout = true

/-- **How a vote for no block is spelt.** -/
theorem Casts.forNoBlock {ω : Env} {call : Call} {c : Consensus S M} {m : Msg}
    {v : ConsensusMsgVote} (h : Casts ω call c m v) (hnil : ForNoBlock ω call c) :
    m.sender = c.id ∧ (v.type = .preVote ∨ v.type = .preCommit) ∧
      v.height = c.propsalState.height ∧ v.round = c.propsalState.round ∧
      v.blockID = if call.isTimeout then "" else Cid.undef.string := by
  obtain ⟨⟨es, htrace, hm⟩, hv⟩ := h
  obtain ⟨move, hen, hof, hcore⟩ := exec_moves ω call c
  have hes : es = c.core.effects move :=
    List.append_cancel_right (htrace.symm.trans (congrArg Core.trace hcore))
  have hsends : Core.Sends m move := by
    rw [hes] at hm
    exact Core.emits_of_mem hm
  cases Core.says_of_sends hen hsends with
  | talk htalk => exact absurd hv (htalk.vote?_ne v)
  | gracePeriod _ hann => exact absurd hv (by rw [hann.2.1]; simp)
  | proposal _ hvotes =>
    obtain ⟨msg, sender, rfl⟩ := hof
    obtain ⟨ht, hh, hr, -⟩ := hvotes.of_vote? hv
    refine ⟨hvotes.1, .inl ht, hh, hr, ?_⟩
    obtain ⟨es', htrace', hes'⟩ := onProposal_saysNil (hnil.resolve_right Bool.false_ne_true)
    obtain rfl : es = es' := List.append_cancel_right (htrace.symm.trans htrace')
    exact hes' m v hm hv
  | timeoutProposal _ hvotes =>
    obtain rfl : call = .timeoutProposal := hof
    obtain ⟨ht, hh, hr, htext⟩ := hvotes.of_vote? hv
    exact ⟨hvotes.1, .inl ht, hh, hr, htext⟩
  | timeoutPrevote _ hvotes =>
    obtain rfl : call = .timeoutPrevote := hof
    obtain ⟨ht, hh, hr, htext⟩ := hvotes.of_vote? hv
    exact ⟨hvotes.1, .inr ht, hh, hr, htext⟩
  | preVote _ hvotes =>
    obtain rfl : call = .vote _ _ := hof
    obtain ⟨ht, hh, hr, htext⟩ := hvotes.of_vote? hv
    have hblock : c.propsalState.block = .undef :=
      (Core.sameRound_preVote _ _ _ _ _).block.symm.trans
        ((congrArg (fun k => k.propsalState.block) hcore).symm.trans
          (hnil.resolve_right Bool.false_ne_true))
    exact ⟨hvotes.1, .inr ht, hh, hr, htext.trans (congrArg Cid.string hblock)⟩

end

/-! ## What is counted -/

section

variable {S M : Type} [CryptoLib] [CidText]

/-- A vote of the proposer, or one that does not pass the state check, changes nothing. -/
theorem onVote_ignored (ω : Env) {msg : Msg} {sender : String} {vote : ConsensusMsgVote}
    {c : Consensus S M} (hvote : msg.vote? = some vote)
    (hno : sender = c.state.proposer ∨ ¬ c.propsalState.Current vote) :
    (onVote ω msg sender).run c = (.ok (), c) := by
  obtain ⟨body, hbody, hvote⟩ := Option.bind_eq_some_iff.mp hvote
  simp only [onVote, Proc.run_bind, Proc.run_get, hbody, hvote]
  split
  · rfl
  · next hsender =>
    have hstale : vote.height ≠ c.propsalState.height ∨
        vote.blockID ≠ c.propsalState.block.string ∨ vote.round ≠ c.propsalState.round := by
      have := hno.resolve_left hsender
      unfold State.Current at this
      tauto
    rw [if_pos hstale]
    rfl

/-- A vote that passes is recorded, in the step for its type and once a round has been entered. -/
theorem onVote_recorded (ω : Env) {msg : Msg} {sender : String} {vote : ConsensusMsgVote}
    {c : Consensus S M} (hvote : msg.vote? = some vote) (hsender : sender ≠ c.state.proposer)
    (hcurrent : c.propsalState.Current vote) (hcounts : c.propsalState.Counts vote.type)
    (hround : c.propsalState.InRound) :
    ((onVote ω msg sender).run c).2.propsalState.recorded vote.type msg.sender = some msg := by
  obtain ⟨told, htold⟩ := onVote_counted ω hvote hsender hcurrent
  show ((onVote ω msg sender).run c).2.core.propsalState.recorded vote.type msg.sender = some msg
  rw [htold]
  rcases hcounts with ⟨htype, hstep⟩ | ⟨htype, hstep⟩ <;> rw [htype, countVote]
  · obtain ⟨own, -, hrun⟩ := onPreVote_counted ω msg hstep hround.1
    rw [hrun sender]
    simp [State.recorded, Core.tell, Core.enter]
  · rw [onPreCommit_counted msg hstep hround.2 sender]
    simp [State.recorded, Core.tell, Core.enter]

/-- **Which votes for no block are counted as such.** Let a node send one, by whichever call, and
let another node at the same height and round have no block and not hold that very message already.
The vote passes the state check there, and is recorded if the step is the one for its type, exactly
if it was no timeout that sent it and its sender is not taken for the proposer. -/
theorem nilVote_recorded_iff {S' M' : Type} [Store S'] [Validator S'] [MemPool M'] [SigLib]
    (ω ω' : Env) (call : Call) (a : Consensus S' M') (b : Consensus S M) (m : Msg)
    (v : ConsensusMsgVote) (hcasts : Casts ω call a m v) (hnil : ForNoBlock ω call a)
    (hheight : b.propsalState.height = a.propsalState.height)
    (hround : b.propsalState.round = a.propsalState.round) (hblock : b.propsalState.block = .undef)
    (hin : b.propsalState.InRound) (hnew : b.propsalState.recorded v.type m.sender ≠ some m) :
    (b.propsalState.Current v ∧ (b.propsalState.Counts v.type →
      ((onVote ω' m m.sender).run b).2.propsalState.recorded v.type m.sender = some m)) ↔
      call.isTimeout = false ∧ (b.propsalState.Counts v.type → a.id ≠ b.state.proposer) := by
  obtain ⟨hsender, -, hvh, hvr, htext⟩ := hcasts.forNoBlock hnil
  have hvote : m.vote? = some v := hcasts.2
  have hcurrent : b.propsalState.Current v ↔ call.isTimeout = false := by
    rw [State.Current, hvh, hvr, hheight, hround, hblock, htext]
    cases call.isTimeout with
    | false => simp
    | true => simp [(Cid.string_ne_empty _).symm]
  rw [hcurrent, hsender]
  refine and_congr_right fun htimeout => forall_congr' fun hcounts => ⟨fun h heq => ?_, fun h => ?_⟩
  · rw [onVote_ignored ω' hvote (.inl heq)] at h
    exact hnew (hsender ▸ h)
  · have hrecorded := onVote_recorded ω' hvote h (hcurrent.mpr htimeout) hcounts hin
    rwa [hsender] at hrecorded

end

section

open Storage.Sample Sample

/-- A node after a beacon tick. -/
def ticked (id : String) : Consensus MemStore TxMemPool := step (node id) (call beacon)

/-- A node that has been told by the proposer that there is no block. -/
def toldOfNone (id : String) : Consensus MemStore TxMemPool :=
  [call beacon, recv (proposal "p" 1 1 Cid.undef.string)].foldl step (node id)

/-- **A timeout is not heard.** The node `a` gets no proposal in time; `b` has been told that there
is no block and collects prevotes for that. The prevote of `a` is dropped. -/
theorem timeout_vote_dropped :
    Casts env .timeoutProposal (ticked "a") (vote "a" .preVote 1 1 "")
        ⟨.preVote, 1, 1, "", 7, "a"⟩ ∧
      ForNoBlock env .timeoutProposal (ticked "a") ∧
      (toldOfNone "b").propsalState.height = (ticked "a").propsalState.height ∧
      (toldOfNone "b").propsalState.round = (ticked "a").propsalState.round ∧
      (toldOfNone "b").propsalState.block = .undef ∧
      (toldOfNone "b").propsalState.Counts .preVote ∧
      ((toldOfNone "b").step (recv (vote "a" .preVote 1 1 ""))).propsalState.recorded
        .preVote "a" = none := by
  refine ⟨⟨⟨[.sent (vote "a" .preVote 1 1 "")], ?_, by simp⟩, rfl⟩, .inr rfl, ?_⟩
  · decide +kernel
  · exact ⟨by decide +kernel, by decide +kernel, by decide +kernel, .inl ⟨rfl, by decide +kernel⟩,
      by decide +kernel⟩

/-- Told of no block, `a` votes for none and `b` records that. -/
theorem nil_vote_recorded :
    ((onVote env (vote "a" .preVote 1 1 Cid.undef.string) "a").run
      (toldOfNone "b")).2.propsalState.recorded .preVote "a" =
        some (vote "a" .preVote 1 1 Cid.undef.string) := by
  have hcasts : Casts env (.proposal (some ⟨1, 1, Cid.undef.string, 7⟩) "p") (ticked "a")
      (vote "a" .preVote 1 1 Cid.undef.string) ⟨.preVote, 1, 1, Cid.undef.string, 7, "a"⟩ :=
    ⟨⟨[.sent (vote "a" .preVote 1 1 Cid.undef.string)], by decide +kernel, by simp⟩, rfl⟩
  have h := (nilVote_recorded_iff env env _ (ticked "a") (toldOfNone "b") _ _ hcasts
    (.inl (by decide +kernel)) (by decide +kernel) (by decide +kernel) (by decide +kernel)
    (inRound_of_run _ (by decide +kernel)) (by decide +kernel)).mpr
      ⟨rfl, fun _ => by decide +kernel⟩
  exact h.2 (.inl ⟨rfl, by decide +kernel⟩)

end
end Consensus
end Didem
