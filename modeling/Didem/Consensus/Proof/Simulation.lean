import Didem.Consensus.Machine
import Didem.Consensus.Network
import Didem.Lib.Run

/-!
# The handlers make the machine's moves

`step_moves`: whatever a node takes in, its core makes one enabled move, and the move is of the kind
the handler that was called is for. From here on nothing looks at a handler again.

A handler may end early in a dozen ways, and the proofs do not count them. Sending is one lemma
(`sendMsg_told`); the long proposer's path of `startRound` is cut along its calls with the rules for
procedures, under the relation that says what it may touch (`Led`).
-/

set_option autoImplicit false

namespace Didem

open Lib Storage

/-- The move is one that this call makes. -/
def Move.Of (call : Call) : Move → Prop
  | .quiet _ => True
  | .restart inc _ _ _ _ _ =>
    (inc = false ∧ ∃ b, call = .beacon b) ∨ (inc = true ∧ call = .timeoutPrecommit)
  | .adopt sender height round => ∃ msg, call = .newRound (some msg) sender ∧
    msg.height = height ∧ msg.round = round
  | .proposal _ _ _ _ => ∃ msg sender, call = .proposal msg sender
  | .timeoutProposal _ => call = .timeoutProposal
  | .preVote msg sender _ _ => call = .vote msg sender
  | .timeoutPrevote _ => call = .timeoutPrevote
  | .preCommit msg sender _ => call = .vote msg sender
  | .block msg sender _ => call = .block (some msg) sender
  | .gracePeriod _ _ => call = .gracePeriod

/-- The core after these messages, the last one first. -/
def Core.tell (told : List Msg) (k : Core) : Core := { k with trace := told.map .sent ++ k.trace }

/-- The core after a commit, with the trace it leaves. -/
def Core.committed (finished : Bool) (k : Core) : Core :=
  { k.commit finished with trace := k.commitEffects finished ++ k.trace }

namespace Consensus

variable {S M : Type}

/-- From one node to the other by a move of this call. -/
def Moves [CidText] (call : Call) (c c' : Consensus S M) : Prop :=
  ∃ move : Move, c.core.Enabled move ∧ move.Of call ∧ c'.core = c.core.apply move

/-- The two nodes differ in nothing the machine sees. -/
def SameCore (c c' : Consensus S M) : Prop := c'.core = c.core

theorem Moves.of_sameCore [CidText] {call : Call} {c c' : Consensus S M} (h : SameCore c c') :
    Moves call c c' := by
  refine ⟨.quiet [], ?_, trivial, h⟩
  intro m hm
  exact absurd hm (by simp)

theorem onStore_sameCore {α : Type} (p : Proc Err S α) :
    Proc.Within SameCore (onStore p : Engine S M α) := by
  intro c
  rfl

theorem onPool_sameCore {α : Type} (p : Proc Err M α) :
    Proc.Within SameCore (onPool p : Engine S M α) := by
  intro c
  rfl

instance : Std.Refl (SameCore (S := S) (M := M)) := ⟨fun _ => rfl⟩

instance : IsTrans (Consensus S M) SameCore := ⟨fun _ _ _ hab hbc => Eq.trans hbc hab⟩

/-! ## Sending -/

/-- The node after it sent these messages, the last one first. -/
def tell (told : List Msg) (c : Consensus S M) : Consensus S M :=
  { c with trace := told.map .sent ++ c.trace }

theorem core_tell (told : List Msg) (c : Consensus S M) : (c.tell told).core = c.core.tell told :=
  rfl

theorem putEvidence_sameCore (t : VoteType) (key : String) (msg : ConsensusMsgEvidence) :
    Proc.Within SameCore (putEvidence t key msg : Engine S M Unit) := by
  intro c
  simp only [putEvidence, Proc.run_bind, Proc.run_get]
  cases t with
  | preVote => cases c.propsalState.preVotesEvidence <;> rfl
  | preCommit => cases c.propsalState.preCommitsEvidence <;> rfl
  | other n => rfl

section Send

variable [CryptoLib]

/-- **Sending** adds at most one message to the trace, and only by succeeding. It reads nothing of
the proposal state. -/
theorem sendMsg_update (ω : Env) (wrapper : ConsensusMsg) (c : Consensus S M) :
    ∃ (outcome : Outcome Err Unit) (sent : Option Msg),
      (∀ g, (sendMsg ω wrapper).run (c.update g) = (outcome, (c.update g).tell sent.toList)) ∧
        ∀ m ∈ sent, m.sender = c.id ∧ m.consensus = some wrapper ∧ outcome = .ok () := by
  simp only [sendMsg, Proc.run_bind, Proc.run_get, update]
  cases c.signingKey with
  | none => exact ⟨_, none, fun _ => rfl, by simp⟩
  | some key =>
    simp only [Proc.run_bind, Proc.run_lift]
    generalize (signatureData _).mapErr _ = signData
    cases signData with
    | panic => exact ⟨_, none, fun _ => rfl, by simp⟩
    | err e => exact ⟨_, none, fun _ => rfl, by simp⟩
    | ok signData =>
      simp only
      generalize (CryptoLib.sign _ _).mapErr _ = sig
      cases sig with
      | panic => exact ⟨_, none, fun _ => rfl, by simp⟩
      | err e => exact ⟨_, none, fun _ => rfl, by simp⟩
      | ok sig =>
        simp only
        split
        · refine ⟨_, some _, fun _ => rfl, ?_⟩
          intro m hm
          rw [← Option.mem_some_iff.mp hm]
          exact ⟨rfl, rfl, rfl⟩
        · exact ⟨_, none, fun _ => rfl, by simp⟩

theorem sendMsg_told (ω : Env) (wrapper : ConsensusMsg) (c : Consensus S M) :
    ∃ sent : Option Msg, ((sendMsg ω wrapper).run c).2 = c.tell sent.toList ∧
      ∀ m ∈ sent, m.sender = c.id ∧ m.consensus = some wrapper ∧
        ((sendMsg ω wrapper).run c).1 = .ok () := by
  obtain ⟨outcome, sent, hrun, hsent⟩ := sendMsg_update ω wrapper c
  have hrun : (sendMsg ω wrapper).run c = (outcome, c.tell sent.toList) := hrun fun p => p
  refine ⟨sent, by rw [hrun], ?_⟩
  rw [hrun]
  exact hsent

/-- A message whose body is neither a vote nor an announcement is talk. -/
theorem sendMsg_talk (ω : Env) {wrapper : ConsensusMsg} (hvote : wrapper.vote = none)
    (hblock : wrapper.block = none) (c : Consensus S M) :
    ∃ told : List Msg, ((sendMsg ω wrapper).run c).2.core = c.core.tell told ∧
      ∀ m ∈ told, c.core.Talk m := by
  obtain ⟨sent, hsent, hm⟩ := sendMsg_told ω wrapper c
  refine ⟨sent.toList, by rw [hsent, core_tell], ?_⟩
  intro m hmem
  obtain ⟨hid, hbody, -⟩ := hm m (Option.mem_toList.mp hmem)
  exact ⟨hid, by simp [Msg.vote?, hbody, hvote], by simp [Msg.announcement?, hbody, hblock]⟩

/-- A vote names the height and the round; the rest of the proposal state does not enter. -/
theorem sendVote_update (ω : Env) (t : VoteType) (value : String) (c : Consensus S M) :
    ∃ vote : Option Msg,
      (∀ g : State → State, (g c.propsalState).height = c.propsalState.height →
        (g c.propsalState).round = c.propsalState.round →
        ((sendVote ω t value).run (c.update g)).2 = (c.update g).tell vote.toList) ∧
      ∀ m ∈ vote, c.core.Votes t (· = value) m := by
  obtain ⟨outcome, sent, hrun, hsent⟩ := sendMsg_update ω
    { type := .vote
      vote := some
        { type := t, height := c.propsalState.height, round := c.propsalState.round
          blockID := value, timestamp := ω.now, validator := c.id } } c
  refine ⟨sent, ?_, ?_⟩
  · intro g hheight hround
    have hbody : (sendVote ω t value).run (c.update g) = (sendMsg ω
        { type := .vote
          vote := some
            { type := t, height := (g c.propsalState).height, round := (g c.propsalState).round
              blockID := value, timestamp := ω.now, validator := c.id } }).run (c.update g) := rfl
    rw [hbody, hheight, hround, hrun]
  · intro m hmem
    obtain ⟨hid, hbody, -⟩ := hsent m hmem
    refine ⟨hid, by simp [Msg.announcement?, hbody], _, by rw [Msg.vote?, hbody]; rfl, ?_⟩
    exact ⟨rfl, rfl, rfl, rfl⟩

theorem sendVote_told (ω : Env) (t : VoteType) (value : String) (c : Consensus S M) :
    ∃ vote : Option Msg, ((sendVote ω t value).run c).2 = c.tell vote.toList ∧
      ∀ m ∈ vote, c.core.Votes t (· = value) m := by
  obtain ⟨vote, hrun, hvote⟩ := sendVote_update ω t value c
  exact ⟨vote, hrun (fun p => p) rfl rfl, hvote⟩

theorem sendEvidence_talk (ω : Env) (v : ConsensusMsgVote) (c : Consensus S M) :
    ∃ told : List Msg, ((sendEvidence ω v).run c).2.core = c.core.tell told ∧
      ∀ m ∈ told, c.core.Talk m := by
  simp only [sendEvidence, Proc.run_bind]
  have hsame := putEvidence_sameCore v.type v.validator { v with accepted := true } c
  cases hput : (putEvidence v.type v.validator { v with accepted := true } : Engine S M Unit).run
      c with
  | mk r c' =>
    rw [hput] at hsame
    have hcore : c'.core = c.core := hsame
    cases r with
    | panic => exact ⟨[], hcore, by simp⟩
    | err e => exact ⟨[], hcore, by simp⟩
    | ok u => exact hcore ▸ sendMsg_talk ω rfl rfl c'

end Send
/-! ## Rounds -/

/-- What the proposer's path of `startRound` may have done: set the threshold, the block and the
step, and talked. -/
def Led (c c' : Consensus S M) : Prop :=
  ∃ (f : Nat) (block : Cid) (step : Step) (told : List Msg),
    (step = c.propsalState.step ∨ step = .prevote) ∧ (∀ m ∈ told, c.core.Talk m) ∧
    c'.core =
      { c.core with
        propsalState := { c.core.propsalState with f := f, block := block, step := step }
        trace := told.map .sent ++ c.trace }

theorem Led.of_sameCore {c c' : Consensus S M} (h : SameCore c c') : Led c c' := by
  refine ⟨c.propsalState.f, c.propsalState.block, c.propsalState.step, [], .inl rfl, ?_, h⟩
  intro m hm
  exact absurd hm (by simp)

instance : Std.Refl (Led (S := S) (M := M)) := ⟨fun _ => .of_sameCore rfl⟩

theorem Led.trans {a b c : Consensus S M} (hab : Led a b) (hbc : Led b c) : Led a c := by
  obtain ⟨f, block, step, told, hstep, htold, hb⟩ := hab
  obtain ⟨f', block', step', told', hstep', htold', hc⟩ := hbc
  have hid : b.core.id = a.core.id := by rw [hb]
  have hbstep : b.propsalState.step = step := congrArg (fun k => k.propsalState.step) hb
  have htrace : b.trace = told.map .sent ++ a.trace := congrArg Core.trace hb
  refine ⟨f', block', step', told' ++ told, ?_, ?_, ?_⟩
  · rw [hbstep] at hstep'
    rcases hstep' with h | h
    · rw [h]; exact hstep
    · exact .inr h
  · intro m hm
    rcases List.mem_append.mp hm with h | h
    · have ht := htold' m h
      exact ⟨ht.1.trans hid, ht.2⟩
    · exact htold m h
  · rw [hc, hb, htrace, List.map_append, List.append_assoc]

instance : IsTrans (Consensus S M) Led := ⟨fun _ _ _ => Led.trans⟩

theorem Led.of_talk {c c' : Consensus S M}
    (h : ∃ told : List Msg, c'.core = c.core.tell told ∧ ∀ m ∈ told, c.core.Talk m) : Led c c' := by
  obtain ⟨told, hcore, htold⟩ := h
  exact ⟨c.propsalState.f, c.propsalState.block, c.propsalState.step, told, .inl rfl, htold, hcore⟩

section

variable [Store S] [MemPool M] [CryptoLib]

/-- What `makeBlock` and the store keep, and the assignment of the block, `buildBlock` keeps. -/
theorem buildBlock_within {R : Consensus S M → Consensus S M → Prop} [Std.Refl R]
    [IsTrans (Consensus S M) R] {ω : Env} (hmake : Proc.Within R (makeBlock ω))
    (hput : ∀ block, Proc.Within R (onStore (Store.putBlock ω.toRuntime block)))
    (hblock : ∀ id c, R c (c.update fun p => { p with block := id })) :
    Proc.Within R (buildBlock ω) := by
  refine .bind .get fun c => ?_
  split
  · exact .pure _
  · refine .bind (.wrap hmake) fun block => ?_
    cases block with
    | none => exact .pure _
    | some block => exact .bind (.wrap (hput block)) fun id => .modify (hblock id)

/-- Making a block changes the store and the mempool only. -/
theorem makeBlock_sameCore (ω : Env) :
    Proc.Within SameCore (makeBlock ω : Engine S M (Option Block)) :=
  makeBlock_within (onPool_sameCore _) (fun _ => onStore_sameCore _) (fun _ => onStore_sameCore _)
    fun _ => onStore_sameCore _

theorem buildBlock_led (ω : Env) : Proc.Within Led (buildBlock ω : Engine S M Unit) := by
  refine buildBlock_within (fun c => .of_sameCore (makeBlock_sameCore ω c))
    (fun _ c => .of_sameCore (onStore_sameCore _ c)) ?_
  intro id c
  exact ⟨c.propsalState.f, id, c.propsalState.step, [], .inl rfl, by simp, rfl⟩

theorem lead_led [CidText] (ω : Env) : Proc.Within Led (lead ω : Engine S M Unit) := by
  refine .bind (.wrap fun c => .of_talk (sendMsg_talk ω rfl rfl c)) ?_
  intro _
  refine .bind (.get) ?_
  intro c
  refine .bind (.lift _) ?_
  intro nodes
  refine .bind (.lift _) ?_
  intro n
  refine .bind (.modify ?_) ?_
  · intro c
    exact ⟨twoThirds n, c.propsalState.block, c.propsalState.step, [], .inl rfl, by simp, rfl⟩
  intro _
  refine .bind (buildBlock_led ω) ?_
  intro _
  refine .bind (.wrap fun c => .of_talk (sendMsg_talk ω rfl rfl c)) ?_
  intro _
  refine .modify ?_
  intro c
  exact ⟨c.propsalState.f, c.propsalState.block, .prevote, [], .inr rfl, by simp, rfl⟩

end

/-- The assignments every `startRound` begins with are a restart that built nothing. -/
theorem openRound_restarts (inc : Bool) (c : Consensus S M) :
    ∃ step : Step, (step = .propose ∨ step = .prevote) ∧
      (c.openRound inc).core = c.core.apply
        (.restart inc c.state.proposer c.propsalState.f
          (if inc then c.propsalState.block else .undef) step []) := by
  exact ⟨(c.openRound inc).propsalState.step, (ite_eq_or_eq _ _ _).symm, rfl⟩

variable [CidText] [CryptoLib]

section

variable [Store S] [MemPool M]

/-- `startRound` is a restart, whether it came to its end or not. -/
theorem startRound_restarts (ω : Env) (inc : Bool) (c : Consensus S M) :
    ∃ f block step told, c.core.Enabled (.restart inc c.state.proposer f block step told) ∧
      ((startRound ω inc).run c).2.core =
        c.core.apply (.restart inc c.state.proposer f block step told) := by
  obtain ⟨step, hstep, hopen⟩ := openRound_restarts inc c
  have ham : (c.openRound inc).propsalState.amProposer = (c.state.proposer == c.id) :=
    congrArg (fun k => k.propsalState.amProposer) hopen
  simp only [startRound, Proc.run_bind, Proc.run_modify, Proc.run_get, ham]
  split
  · next hme =>
    -- the proposer goes on from the opened round
    obtain ⟨f, block, step', told, hstep', htold, hled⟩ := lead_led ω (c.openRound inc)
    have hopened : (c.openRound inc).propsalState.step = step :=
      congrArg (fun k => k.propsalState.step) hopen
    rw [hopened] at hstep'
    refine ⟨f, block, step', told, ⟨fun _ => rfl, ?_, ?_, ?_⟩, ?_⟩
    · rcases hstep' with h | h
      · rw [h]; exact hstep
      · exact .inr h
    · intro m hm
      have ht := htold m hm
      rw [hopen] at ht
      exact ht
    · intro hne
      exact absurd (beq_iff_eq.mp hme) hne
    · rw [hled, hopen]
      refine Core.ext rfl rfl rfl rfl ?_
      simp only [Core.apply, Core.effects, List.append_assoc]
      rfl
  · exact ⟨_, _, step, [], ⟨fun _ => rfl, hstep, by simp, fun _ => ⟨rfl, rfl⟩⟩, hopen⟩

theorem onBeacon_moves (ω : Env) (b : UInt64) (c : Consensus S M) :
    Moves (.beacon b) c ((onBeacon ω b).run c).2 := by
  simp only [onBeacon, Proc.run_bind, Proc.run_get, Proc.run_lift, Proc.run_modify]
  cases elect b c.store with
  | panic => exact .of_sameCore rfl
  | err e => exact .of_sameCore rfl
  | ok p =>
    obtain ⟨f, block, step, told, hen, hcore⟩ := startRound_restarts ω false
      { c.setStep .propose with state := { c.state with proposer := p } }
    refine ⟨.restart false p f block step told, ⟨by simp, ?_⟩, .inl ⟨rfl, b, rfl⟩, hcore⟩
    exact hen.2

theorem onTimeoutPrecommit_moves (ω : Env) (c : Consensus S M) :
    Moves .timeoutPrecommit c ((onTimeoutPrecommit ω).run c).2 := by
  obtain ⟨f, block, step, told, hen, hcore⟩ := startRound_restarts ω true c
  exact ⟨_, hen, .inr ⟨rfl, rfl⟩, hcore⟩

end

omit [CryptoLib] in
theorem onNewRound_moves (msg : Option ConsensusMsgNewRound) (sender : String)
    (c : Consensus S M) : Moves (.newRound msg sender) c ((onNewRound msg sender).run c).2 := by
  simp only [onNewRound, Proc.run_bind, Proc.run_get]
  split
  · exact .of_sameCore rfl
  · next hsender =>
    cases msg with
    | none => exact .of_sameCore rfl
    | some msg =>
      refine ⟨.adopt sender msg.height msg.round, not_not.mp hsender, ⟨msg, rfl, rfl, rfl⟩, rfl⟩

/-! ## Proposals -/

/-- A validation leaves nothing behind but the record of a success. -/
def Checked (c : Consensus S M) (r : Outcome Err Cid × Consensus S M) : Prop :=
  (SameCore c r.2 ∧ ∀ b, r.1 = .ok b → b = .undef) ∨
    ∃ b, r.1 = .ok b ∧ r.2.core = (c.record (.validated b)).core

omit [CryptoLib] in
theorem validate_checked [Store S] [Validator S] (ω : Env) (value : String) (c : Consensus S M) :
    Checked c ((validate ω value).run c) := by
  unfold validate
  split
  · exact .inl ⟨rfl, by simp⟩
  · split
    · exact .inl ⟨rfl, by simp⟩
    · next cv _ =>
      simp only [Proc.run_bind, Proc.run_get, Proc.run_lift]
      cases (Store.getBlock c.store cv).mapErr (·.wrap "getting block") with
      | panic => exact .inl ⟨rfl, by simp⟩
      | err e => exact .inl ⟨rfl, by simp⟩
      | ok block =>
        simp only
        have hsame : SameCore c (((onStore (Validator.isBlockValid ω.toRuntime block true)).wrap
            (·.wrap "invalid block") : Engine S M Unit).run c).2 :=
          Proc.Within.wrap (onStore_sameCore _) c
        revert hsame
        generalize ((onStore (Validator.isBlockValid ω.toRuntime block true)).wrap
            (·.wrap "invalid block") : Engine S M Unit).run c = r
        intro hsame
        obtain ⟨verdict, c'⟩ := r
        cases verdict with
        | panic => exact .inl ⟨hsame, by simp⟩
        | err e => exact .inl ⟨hsame, by simp⟩
        | ok u =>
          refine .inr ⟨cv, rfl, ?_⟩
          have hcore : c'.core = c.core := hsame
          show { c'.core with trace := .validated cv :: c'.core.trace } = _
          rw [hcore]
          rfl

omit [CidText] [CryptoLib] in
theorem Checked.orElse {c : Consensus S M} {p : Engine S M Cid} (h : Checked c (p.run c)) :
    Checked c ((p.orElse .undef).run c) := by
  rw [Proc.run_orElse]
  generalize p.run c = r at h
  obtain ⟨outcome, c'⟩ := r
  cases outcome with
  | panic => exact h
  | ok b => exact h
  | err e =>
    rcases h with ⟨hsame, -⟩ | ⟨b, hok, -⟩
    · exact .inl ⟨hsame, by simp [eq_comm]⟩
    · exact absurd hok (by simp)

omit [CidText] [CryptoLib] in
/-- A check that did not come to a verdict leaves no record. -/
theorem Checked.sameCore {c c' : Consensus S M} {outcome : Outcome Err Cid}
    (h : Checked c (outcome, c')) (hnone : ∀ bc, outcome ≠ .ok bc) : SameCore c c' := by
  rcases h with ⟨hsame, -⟩ | ⟨b, hok, -⟩
  · exact hsame
  · exact absurd hok (hnone b)

omit [CidText] [CryptoLib] in
/-- What the validation left, with its record if there is one. -/
theorem Checked.record {c c' : Consensus S M} {bc : Cid} (h : Checked c (.ok bc, c')) :
    ∃ checked : Bool, (checked = false → bc = .undef) ∧
      c'.core =
        { c.core with trace := (if checked then [.validated bc] else []) ++ c.trace } := by
  rcases h with ⟨hsame, hundef⟩ | ⟨b, hok, hcore⟩
  · exact ⟨false, fun _ => hundef bc rfl, hsame⟩
  · obtain rfl : bc = b := Outcome.ok.inj hok
    exact ⟨true, by simp, hcore⟩

/-- The body of the Once: the block is set, and the step unless sending failed. -/
theorem prevoteFor_run (ω : Env) (bc : Cid) (value : String) (c : Consensus S M) :
    ∃ (step : Step) (vote : Option Msg), (step = c.propsalState.step ∨ step = .prevote) ∧
      (∀ m ∈ vote, c.core.Votes .preVote (fun _ => True) m) ∧
      ((prevoteFor ω bc value).run c).2.core =
        { c.core with
          propsalState := { c.core.propsalState with block := bc, pvOnce := true, step := step }
          trace := vote.toList.map .sent ++ c.trace } := by
  obtain ⟨vote, htold, hvote⟩ := sendVote_told ω .preVote
    (if bc = .undef then Cid.undef.string else value)
    (c.update fun p => { p with block := bc, pvOnce := true })
  simp only [prevoteFor, Proc.run_bind, Proc.run_modify]
  have hvote' : ∀ m ∈ vote, c.core.Votes .preVote (fun _ => True) m := by
    intro m hm
    obtain ⟨hid, hann, v, hv, ht, hh, hr, -⟩ := hvote m hm
    exact ⟨hid, hann, v, hv, ht, hh, hr, trivial⟩
  generalize (sendVote ω .preVote (if bc = .undef then Cid.undef.string else value) :
    Engine S M Unit).run _ = r at htold
  obtain ⟨outcome, c'⟩ := r
  subst htold
  cases outcome with
  | ok u => exact ⟨.prevote, vote, .inr rfl, hvote', rfl⟩
  | err e => exact ⟨c.propsalState.step, vote, .inl rfl, hvote', rfl⟩
  | panic => exact ⟨c.propsalState.step, vote, .inl rfl, hvote', rfl⟩

theorem onProposal_moves [Store S] [Validator S] (ω : Env) (msg : Option ConsensusMsgProposal)
    (sender : String) (c : Consensus S M) :
    Moves (.proposal msg sender) c ((onProposal ω msg sender).run c).2 := by
  simp only [onProposal, Proc.run_bind, Proc.run_get]
  split
  · exact .of_sameCore rfl
  · next hguard =>
    obtain ⟨-, hstep⟩ := not_or.mp hguard
    rw [not_not] at hstep
    cases msg with
    | none => exact .of_sameCore rfl
    | some msg =>
      simp only [Proc.run_bind]
      have hchecked := (validate_checked ω msg.blockID c).orElse
      revert hchecked
      generalize ((validate ω msg.blockID).orElse .undef : Engine S M Cid).run c = r
      intro hchecked
      obtain ⟨outcome, c'⟩ := r
      cases outcome with
      | panic => exact .of_sameCore (hchecked.sameCore (by simp))
      | err e => exact .of_sameCore (hchecked.sameCore (by simp))
      | ok bc =>
        obtain ⟨checked, hundef, hcore⟩ := hchecked.record
        simp only
        split
        · next honce =>
          refine ⟨.proposal bc checked .propose none, ⟨hstep, .inl rfl, hundef, by simp⟩,
            ⟨_, _, rfl⟩, ?_⟩
          rw [Proc.run_pure, hcore]
          simp [Core.apply, Core.next, Core.effects, core, State.noEvidence, honce]
        · next honce =>
          rw [Proc.run_logged_snd]
          obtain ⟨step, vote, hstep', hvote, hrun⟩ := prevoteFor_run ω bc msg.blockID c'
          have hpropose : c'.propsalState.step = .propose :=
            (congrArg (fun k => k.propsalState.step) hcore).trans hstep
          have htrace : c'.trace = _ := congrArg Core.trace hcore
          rw [hpropose] at hstep'
          rw [hcore] at hvote
          have hfree : c.core.propsalState.pvOnce = false := Bool.eq_false_iff.mpr honce
          refine ⟨.proposal bc checked step vote, ⟨hstep, hstep', hundef, ?_⟩, ⟨_, _, rfl⟩, ?_⟩
          · intro m hm
            exact ⟨hfree, hvote m hm⟩
          · rw [hrun, hcore, htrace]
            simp only [Core.apply, Core.next, Core.effects, hfree, List.append_assoc]
            rfl

/-! ## Votes -/

/-- A prevote that is counted, before the proposer sends evidence of it. -/
theorem onPreVote_counted (ω : Env) (msg : Msg) {c : Consensus S M}
    (hstep : c.propsalState.step = .prevote) (hmade : c.propsalState.preVotes ≠ none) :
    ∃ vote : Option Msg,
      (∀ m ∈ vote, c.core.Locks msg ∧
        c.core.Votes .preCommit (· = c.propsalState.block.string) m) ∧
      ∀ sender, ((onPreVote ω msg).run c).2.core = c.core.apply (.preVote msg sender vote []) := by
  obtain ⟨book, hbook⟩ := Option.ne_none_iff_exists'.mp hmade
  have henter : Core.enter c.core.propsalState.preVotes msg = book.insert msg.sender msg := by
    simp [Core.enter, core, State.noEvidence, hbook]
  simp only [onPreVote, Proc.run_bind, Proc.run_get, hstep, hbook, ne_eq, not_true_eq_false,
    if_false, Proc.run_modify]
  split
  · next hquorum =>
    have hlocks : c.core.Locks msg := by
      rw [Core.Locks, henter]
      exact hquorum
    simp only [Proc.run_bind, Proc.run_modify, Proc.run_logged_snd]
    obtain ⟨vote, htold, hvote⟩ := sendVote_told ω .preCommit c.propsalState.block.string
      ((c.update fun p => { p with preVotes := some (book.insert msg.sender msg) }).update
        fun p => { p with step := .precommit, lockedValue := p.block, lockedRound := p.round
                          pcOnce := true })
    refine ⟨vote, fun m hm => ⟨hlocks, hvote m hm⟩, ?_⟩
    intro sender
    rw [htold]
    simp only [Core.apply, Core.next, Core.effects, henter, if_pos hlocks]
    rfl
  · next hquorum =>
    have hlocks : ¬ c.core.Locks msg := by
      rw [Core.Locks, henter]
      exact hquorum
    refine ⟨none, by simp, ?_⟩
    intro sender
    simp only [Core.apply, Core.next, Core.effects, henter, if_neg hlocks]
    rfl

/-- In another step it is ignored. -/
theorem onPreVote_ignored (ω : Env) (msg : Msg) {c : Consensus S M}
    (hstep : c.propsalState.step ≠ .prevote) : (onPreVote ω msg).run c = (.ok (), c) := by
  simp only [onPreVote, Proc.run_bind, Proc.run_get, if_pos hstep, Proc.run_pure]

theorem onPreVote_run (ω : Env) (msg : Msg) (c : Consensus S M) :
    SameCore c ((onPreVote ω msg).run c).2 ∨
      c.propsalState.step = .prevote ∧ c.propsalState.preVotes ≠ none ∧ ∃ vote : Option Msg,
        (∀ m ∈ vote, c.core.Locks msg ∧
          c.core.Votes .preCommit (· = c.propsalState.block.string) m) ∧
        ∀ sender, ((onPreVote ω msg).run c).2.core =
          c.core.apply (.preVote msg sender vote []) := by
  by_cases hstep : c.propsalState.step = .prevote
  · by_cases hbook : c.propsalState.preVotes = none
    · refine .inl ?_
      simp only [onPreVote, Proc.run_bind, Proc.run_get, hstep, hbook, ne_eq, not_true_eq_false,
        if_false, Proc.run_lift]
      rfl
    · exact .inr ⟨hstep, hbook, onPreVote_counted ω msg hstep hbook⟩
  · rw [onPreVote_ignored ω msg hstep]
    exact .inl rfl

omit [CidText] [CryptoLib] in
/-- The same for a precommit. -/
theorem onPreCommit_counted (msg : Msg) {c : Consensus S M}
    (hstep : c.propsalState.step = .precommit) (hmade : c.propsalState.preCommits ≠ none)
    (sender : String) :
    ((onPreCommit msg).run c).2.core = c.core.apply (.preCommit msg sender []) := by
  obtain ⟨book, hbook⟩ := Option.ne_none_iff_exists'.mp hmade
  have henter : Core.enter c.core.propsalState.preCommits msg = book.insert msg.sender msg := by
    simp [Core.enter, core, State.noEvidence, hbook]
  simp only [onPreCommit, Proc.run_bind, Proc.run_get, hstep, hbook, ne_eq, not_true_eq_false,
    if_false, Proc.run_modify]
  split
  · next hquorum =>
    have hcertifies : c.core.Certifies msg := by
      rw [Core.Certifies, henter]
      exact hquorum
    simp only [Core.apply, Core.next, Core.effects, henter, hcertifies, true_and]
    rfl
  · next hquorum =>
    have hcertifies : ¬ c.core.Certifies msg := by
      rw [Core.Certifies, henter]
      exact hquorum
    simp only [Core.apply, Core.next, Core.effects, henter, hcertifies, false_and]
    rfl

omit [CidText] [CryptoLib] in
theorem onPreCommit_ignored (msg : Msg) {c : Consensus S M}
    (hstep : c.propsalState.step ≠ .precommit) : (onPreCommit msg).run c = (.ok (), c) := by
  simp only [onPreCommit, Proc.run_bind, Proc.run_get, if_pos hstep, Proc.run_pure]

omit [CidText] [CryptoLib] in
theorem onPreCommit_run (msg : Msg) (c : Consensus S M) :
    SameCore c ((onPreCommit msg).run c).2 ∨
      c.propsalState.step = .precommit ∧ c.propsalState.preCommits ≠ none ∧
        ∀ sender, ((onPreCommit msg).run c).2.core = c.core.apply (.preCommit msg sender []) := by
  by_cases hstep : c.propsalState.step = .precommit
  · by_cases hbook : c.propsalState.preCommits = none
    · refine .inl ?_
      simp only [onPreCommit, Proc.run_bind, Proc.run_get, hstep, hbook, ne_eq, not_true_eq_false,
        if_false, Proc.run_lift]
      rfl
    · exact .inr ⟨hstep, hbook, onPreCommit_counted msg hstep hbook⟩
  · rw [onPreCommit_ignored msg hstep]
    exact .inl rfl

omit [CidText] [CryptoLib] in
/-- Evidence of a vote comes after it. -/
theorem tell_apply_preVote (k : Core) (msg : Msg) (sender : String) (vote : Option Msg)
    (told : List Msg) :
    (k.apply (.preVote msg sender vote [])).tell told =
      k.apply (.preVote msg sender vote told) := by
  refine Core.ext rfl rfl rfl rfl ?_
  simp [Core.tell, Core.effects]

omit [CidText] [CryptoLib] in
theorem tell_apply_preCommit (k : Core) (msg : Msg) (sender : String) (told : List Msg) :
    (k.apply (.preCommit msg sender [])).tell told = k.apply (.preCommit msg sender told) := by
  refine Core.ext rfl rfl rfl rfl ?_
  simp [Core.tell, Core.effects]

/-- A move of this call, whatever talk follows it. -/
def MovesThenTalks (call : Call) (c c' : Consensus S M) : Prop :=
  c'.id = c.id ∧ ∀ told : List Msg, (∀ m ∈ told, c.core.Talk m) →
    ∃ move : Move, c.core.Enabled move ∧ move.Of call ∧ c'.core.tell told = c.core.apply move

theorem countVote_moves (ω : Env) {msg : Msg} {sender : String} {vote : ConsensusMsgVote}
    {c : Consensus S M} (hvote : msg.vote? = some vote) (hsender : sender ≠ c.state.proposer)
    (hcurrent : vote.height = c.propsalState.height ∧
      vote.blockID = c.propsalState.block.string ∧ vote.round = c.propsalState.round) :
    MovesThenTalks (.vote msg sender) c ((countVote ω vote.type msg).run c).2 := by
  obtain ⟨hheight, hblock, hround⟩ := hcurrent
  have hquiet {c' : Consensus S M} (hsame : SameCore c c') :
      MovesThenTalks (.vote msg sender) c c' := by
    refine ⟨congrArg Core.id hsame, ?_⟩
    intro told htold
    exact ⟨.quiet told, htold, trivial, congrArg (Core.tell told) hsame⟩
  cases htype : vote.type with
  | preVote =>
    rcases onPreVote_run ω msg c with hsame | ⟨hstep, hbook, own, hown, hrun⟩
    · exact hquiet hsame
    · refine ⟨congrArg Core.id (hrun sender), ?_⟩
      intro told htold
      refine ⟨.preVote msg sender own told, ⟨hstep, hbook, hsender, ?_, hown, htold⟩, rfl, ?_⟩
      · exact ⟨vote, hvote, htype, hheight, hround, hblock⟩
      · show ((onPreVote ω msg).run c).2.core.tell told = _
        rw [hrun sender, tell_apply_preVote]
  | preCommit =>
    rcases onPreCommit_run msg c with hsame | ⟨hstep, hbook, hrun⟩
    · exact hquiet hsame
    · refine ⟨congrArg Core.id (hrun sender), ?_⟩
      intro told htold
      refine ⟨.preCommit msg sender told, ⟨hstep, hbook, hsender, ?_, htold⟩, rfl, ?_⟩
      · exact ⟨vote, hvote, htype, hheight, hround, hblock⟩
      · show ((onPreCommit msg).run c).2.core.tell told = _
        rw [hrun sender, tell_apply_preCommit]
  | other n => exact hquiet rfl

theorem onVote_moves (ω : Env) (msg : Msg) (sender : String) (c : Consensus S M) :
    Moves (.vote msg sender) c ((onVote ω msg sender).run c).2 := by
  simp only [onVote, Proc.run_bind, Proc.run_get]
  cases hbody : msg.consensus with
  | none => exact .of_sameCore rfl
  | some consensus =>
    simp only
    split
    · exact .of_sameCore rfl
    · next hsender =>
      cases hvote : consensus.vote with
      | none => exact .of_sameCore rfl
      | some vote =>
        simp only
        split
        · exact .of_sameCore rfl
        · next hcurrent =>
          simp only [not_or, not_not] at hcurrent
          have hvote? : msg.vote? = some vote := by simp [Msg.vote?, hbody, hvote]
          obtain ⟨hid, hmoves⟩ := countVote_moves ω hvote? hsender hcurrent
          simp only [Proc.run_bind]
          revert hid hmoves
          generalize (countVote ω vote.type msg : Engine S M Unit).run c = r
          intro hid hmoves
          obtain ⟨outcome, c'⟩ := r
          cases outcome with
          | panic => exact hmoves [] (by simp)
          | err e => exact hmoves [] (by simp)
          | ok u =>
            simp only
            split
            · obtain ⟨told, hcore, htold⟩ := sendEvidence_talk ω vote c'
              obtain ⟨move, hen, hof, happly⟩ := hmoves told fun m hm => by
                obtain ⟨hsent, hrest⟩ := htold m hm
                exact ⟨hsent.trans hid, hrest⟩
              refine ⟨move, hen, hof, ?_⟩
              rw [Proc.run_logged_snd, hcore, happly]
            · exact hmoves [] (by simp)

/-! ## The commit -/

section

variable [Store S]

omit [CidText] [CryptoLib] in
theorem markAccepted_core (ω : Env) (c : Consensus S M) :
    ((markAccepted ω).run c).2.core = c.core.committed false := by
  simp only [markAccepted, Proc.run_bind, Proc.run_get]
  split
  · next hundef =>
    have hcore : c.core.propsalState.lockedValue = .undef := hundef
    simp [Core.committed, Core.commit, Core.commitEffects, hcore]
  · next hlocked =>
    have hcore : c.core.propsalState.lockedValue ≠ .undef := hlocked
    simp only [Proc.run_bind, Proc.run_modify, Proc.run_logged_snd, Core.committed,
      Core.commitEffects, if_neg hcore]
    rfl

omit [CidText] [CryptoLib] in
/-- A commit is finished unless the store panics. -/
theorem commit_core (ω : Env) (c : Consensus S M) :
    ∃ finished : Bool, ((commit ω).run c).2.core = c.core.committed finished := by
  simp only [commit, Proc.run_bind, Proc.run_get]
  have hmark := markAccepted_core ω c
  revert hmark
  generalize (markAccepted ω : Engine S M Unit).run c = r
  intro hmark
  obtain ⟨outcome, c₁⟩ := r
  cases outcome with
  | panic => exact ⟨false, hmark⟩
  | err e => exact ⟨false, hmark⟩
  | ok u =>
    simp only
    have hsame : SameCore c₁
        (((onStore (Store.updateLastApplied c.propsalState.lockedValue)).logged :
          Engine S M Unit).run c₁).2 := by
      rw [Proc.run_logged_snd]
      exact onStore_sameCore _ c₁
    revert hsame
    generalize ((onStore (Store.updateLastApplied c.propsalState.lockedValue)).logged :
      Engine S M Unit).run c₁ = r'
    intro hsame
    obtain ⟨outcome', c₂⟩ := r'
    have hcore : c₂.core = c.core.committed false := hsame.trans hmark
    cases outcome' with
    | panic => exact ⟨false, hcore⟩
    | err e => exact ⟨false, hcore⟩
    | ok u =>
      refine ⟨true, ?_⟩
      show
        (let state :=
          { c₂.core.state with
            height := c₂.core.propsalState.height, parentBlock := c₂.core.state.block
            block := c.propsalState.lockedValue }
        { c₂.core with
          state := state, trace := .committed c₂.core.state.tip state.tip :: c₂.core.trace }) = _
      rw [hcore]
      rfl

omit [CryptoLib] in
/-- The guard of `onBlock`, and the commit behind it. -/
theorem onBlock_run (ω : Env) (msg : ConsensusMsgBlock) (sender : String) (c : Consensus S M) :
    (onBlock ω (some msg) sender).run c =
      if c.core.Passes msg sender then (commit ω).run c else (.ok (), c) := by
  simp only [onBlock, Proc.run_bind, Proc.run_get]
  split
  · next hguard =>
    rw [if_neg fun h => hguard.elim (absurd h.1) (absurd h.2.1)]
    rfl
  · next hguard =>
    split
    · next hmatch =>
      rw [if_neg fun h => hmatch.elim (absurd h.2.2.1) (absurd h.2.2.2)]
      rfl
    · next hmatch =>
      simp only [not_or, not_not] at hguard hmatch
      exact (if_pos ⟨hguard.1, hguard.2, hmatch⟩).symm

omit [CryptoLib] in
theorem onBlock_core (ω : Env) (msg : ConsensusMsgBlock) (sender : String) (c : Consensus S M) :
    ∃ finished : Bool, ((onBlock ω (some msg) sender).run c).2.core =
      if c.core.Passes msg sender then c.core.committed finished else c.core := by
  obtain ⟨finished, hcore⟩ := commit_core ω c
  refine ⟨finished, ?_⟩
  rw [onBlock_run]
  split
  · exact hcore
  · rfl

omit [CryptoLib] in
theorem onBlock_moves (ω : Env) (msg : Option ConsensusMsgBlock) (sender : String)
    (c : Consensus S M) : Moves (.block msg sender) c ((onBlock ω msg sender).run c).2 := by
  cases msg with
  | none =>
    simp only [onBlock, Proc.run_bind, Proc.run_get]
    split
    · exact .of_sameCore rfl
    · exact .of_sameCore rfl
  | some msg =>
    obtain ⟨finished, hcore⟩ := onBlock_core ω msg sender c
    split at hcore
    · next hguard => exact ⟨.block msg sender finished, hguard, rfl, hcore⟩
    · exact .of_sameCore hcore

variable [SigLib]

/-- `sendBlock` announces the lock, or fails and leaves everything as it was. -/
theorem sendBlock_run (ω : Env) (c : Consensus S M) :
    (((sendBlock ω).run c).2 = c ∧ ∀ msg, ((sendBlock ω).run c).1 ≠ .ok msg) ∨
      ∃ (msg : ConsensusMsgBlock) (sent : Option Msg),
        (sendBlock ω).run c = (.ok msg, c.tell sent.toList) ∧
        msg.cid = c.propsalState.lockedValue.string ∧ msg.round = c.propsalState.lockedRound ∧
        ∀ m ∈ sent, c.core.Announces m := by
  simp only [sendBlock, Proc.run_bind, Proc.run_get, Proc.run_lift]
  generalize collectVotes c.store _ = votes
  cases votes with
  | panic => exact .inl ⟨rfl, by simp⟩
  | err e => exact .inl ⟨rfl, by simp⟩
  | ok votes =>
    simp only
    generalize (CryptoLib.aggregatePublicKeys votes.1).mapErr _ = validators
    cases validators with
    | panic => exact .inl ⟨rfl, by simp⟩
    | err e => exact .inl ⟨rfl, by simp⟩
    | ok validators =>
      simp only
      generalize (CryptoLib.aggregateSignatures votes.2).mapErr _ = signature
      cases signature with
      | panic => exact .inl ⟨rfl, by simp⟩
      | err e => exact .inl ⟨rfl, by simp⟩
      | ok signature =>
        obtain ⟨sent, htold, hsent⟩ := sendMsg_told ω
          { type := .block
            block := some
              { height := c.propsalState.height, round := c.propsalState.lockedRound
                cid := c.propsalState.lockedValue.string, validators := validators
                signature := signature } } c
        simp only
        generalize (sendMsg ω _ : Engine S M Unit).run c = r at htold hsent
        obtain ⟨outcome, c'⟩ := r
        subst htold
        cases outcome with
        | ok u =>
          refine .inr ⟨_, sent, rfl, rfl, rfl, ?_⟩
          intro m hm
          obtain ⟨hid, hbody, -⟩ := hsent m hm
          refine ⟨hid, by simp [Msg.vote?, hbody], _, by rw [Msg.announcement?, hbody]; rfl, ?_⟩
          exact ⟨rfl, rfl, rfl⟩
        | err e =>
          cases sent with
          | none => exact .inl ⟨rfl, by simp⟩
          | some m => exact absurd (hsent m rfl).2.2 (by simp)
        | panic =>
          cases sent with
          | none => exact .inl ⟨rfl, by simp⟩
          | some m => exact absurd (hsent m rfl).2.2 (by simp)

theorem onGracePeriod_moves (ω : Env) (c : Consensus S M) :
    Moves .gracePeriod c ((onGracePeriod ω).run c).2 := by
  simp only [onGracePeriod, Proc.run_bind, Proc.run_get]
  split
  · exact .of_sameCore rfl
  · next hpending =>
    have hpos : 0 < c.core.pending := Nat.pos_of_ne_zero hpending
    simp only [Proc.run_bind, Proc.run_modify, Proc.run_logged_snd]
    rcases sendBlock_run ω { c with pending := c.pending - 1 } with
      ⟨hstate, hfail⟩ | ⟨msg, sent, hrun, hcid, hround, hsent⟩
    · revert hstate hfail
      generalize (sendBlock ω : Engine S M ConsensusMsgBlock).run _ = r
      intro hstate hfail
      obtain ⟨outcome, c'⟩ := r
      subst hstate
      cases outcome with
      | ok msg => exact absurd rfl (hfail msg)
      | err e => exact ⟨.gracePeriod none false, ⟨hpos, by simp⟩, rfl, rfl⟩
      | panic => exact ⟨.gracePeriod none false, ⟨hpos, by simp⟩, rfl, rfl⟩
    · obtain ⟨finished, hcore⟩ := onBlock_core ω msg c.id
        ({ c with pending := c.pending - 1 }.tell sent.toList)
      refine ⟨.gracePeriod (some sent) finished, ⟨hpos, ?_⟩, rfl, ?_⟩
      · intro s hs m hm
        obtain rfl := Option.mem_some_iff.mp hs
        exact hsent m hm
      · -- the node's own message always passes the rest of the guard
        rw [hrun]
        refine hcore.trans ?_
        by_cases hown : c.core.CommitsOwn
        · have hown' : ({ c.core with pending := c.core.pending - 1 } : Core).CommitsOwn := hown
          rw [if_pos ⟨hown.1, hown.2, hcid, hround.symm⟩]
          simp only [Core.apply, Core.next, Core.effects, Option.isSome_some, true_and,
            if_pos hown, if_pos hown', List.append_assoc]
          cases finished <;> rfl
        · have hown' : ¬ ({ c.core with pending := c.core.pending - 1 } : Core).CommitsOwn := hown
          rw [if_neg fun h => hown ⟨h.1, h.2.1⟩]
          simp only [Core.apply, Core.next, Core.effects, Option.isSome_some, true_and,
            if_neg hown, if_neg hown', List.nil_append]
          rfl

end

/-! ## Timeouts -/

omit [CidText] in
/-- Behind its guard a timeout sets the step, and votes if the Once of the vote has not run. -/
theorem onTimeoutProposal_run (ω : Env) (c : Consensus S M) :
    ((onTimeoutProposal ω).run c).2 =
      if c.propsalState.height ≠ c.state.height ∧ c.propsalState.step ≠ .propose then c
      else if c.propsalState.pvOnce then c.setStep .prevote
      else ((sendVote ω .preVote "").run
        (c.update fun p => { p with step := .prevote, pvOnce := true })).2 := by
  simp only [onTimeoutProposal, Proc.run_bind, Proc.run_get]
  split
  · rfl
  · simp only [Proc.run_bind, Proc.run_modify]
    split
    · rfl
    · simp only [Proc.run_bind, Proc.run_modify, Proc.run_logged_snd]
      rfl

theorem onTimeoutProposal_moves (ω : Env) (c : Consensus S M) :
    Moves .timeoutProposal c ((onTimeoutProposal ω).run c).2 := by
  rw [onTimeoutProposal_run]
  split
  · exact .of_sameCore rfl
  · next hguard =>
    rw [not_and_or, not_not, not_not] at hguard
    cases honce : c.propsalState.pvOnce with
    | true =>
      refine ⟨.timeoutProposal none, ⟨hguard, by simp⟩, rfl, ?_⟩
      simp [Core.apply, Core.next, Core.effects, core, setStep, update, State.noEvidence, honce]
    | false =>
      obtain ⟨vote, hrun, hvote⟩ := sendVote_update ω .preVote "" c
      refine ⟨.timeoutProposal vote, ⟨hguard, fun m hm => ⟨honce, hvote m hm⟩⟩, rfl, ?_⟩
      rw [if_neg Bool.false_ne_true, hrun _ rfl rfl, core_tell]
      rfl

omit [CidText] in
theorem onTimeoutPrevote_run (ω : Env) (c : Consensus S M) :
    ((onTimeoutPrevote ω).run c).2 =
      if c.propsalState.height ≠ c.state.height ∧ c.propsalState.step ≠ .prevote then c
      else if c.propsalState.pcOnce then c.setStep .precommit
      else ((sendVote ω .preCommit "").run
        (c.update fun p => { p with step := .precommit, pcOnce := true })).2 := by
  simp only [onTimeoutPrevote, Proc.run_bind, Proc.run_get]
  split
  · rfl
  · simp only [Proc.run_bind, Proc.run_modify]
    split
    · rfl
    · simp only [Proc.run_bind, Proc.run_modify, Proc.run_logged_snd]
      rfl

theorem onTimeoutPrevote_moves (ω : Env) (c : Consensus S M) :
    Moves .timeoutPrevote c ((onTimeoutPrevote ω).run c).2 := by
  rw [onTimeoutPrevote_run]
  split
  · exact .of_sameCore rfl
  · next hguard =>
    rw [not_and_or, not_not, not_not] at hguard
    cases honce : c.propsalState.pcOnce with
    | true =>
      refine ⟨.timeoutPrevote none, ⟨hguard, by simp⟩, rfl, ?_⟩
      simp [Core.apply, Core.next, Core.effects, core, setStep, update, State.noEvidence, honce]
    | false =>
      obtain ⟨vote, hrun, hvote⟩ := sendVote_update ω .preCommit "" c
      refine ⟨.timeoutPrevote vote, ⟨hguard, fun m hm => ⟨honce, hvote m hm⟩⟩, rfl, ?_⟩
      rw [if_neg Bool.false_ne_true, hrun _ rfl rfl, core_tell]
      rfl

omit [CidText] [CryptoLib] in
theorem onEvidence_sameCore (msg : Option ConsensusMsgEvidence) (sender : String) :
    Proc.Within SameCore (onEvidence msg sender : Engine S M Unit) := by
  refine .bind .get ?_
  intro c
  split
  · exact .pure _
  · cases msg with
    | none => exact .lift _
    | some msg => exact putEvidence_sameCore msg.type sender msg

omit [CidText] [CryptoLib] in
theorem onTx_sameCore [MemPool M] (msg : Option TxMsg) :
    Proc.Within SameCore (onTx msg : Engine S M Unit) := by
  intro c
  cases msg with
  | none => rfl
  | some msg =>
    simp only [onTx, SameCore, Proc.run_logged_snd]
    exact onPool_sameCore _ c

/-! ## Every input -/

section

variable [Store S] [Validator S] [MemPool M] [SigLib]

theorem exec_moves (ω : Env) (call : Call) (c : Consensus S M) :
    Moves call c ((exec ω call).run c).2 := by
  cases call with
  | beacon b => exact onBeacon_moves ω b c
  | newRound msg sender => exact onNewRound_moves msg sender c
  | proposal msg sender => exact onProposal_moves ω msg sender c
  | vote msg sender => exact onVote_moves ω msg sender c
  | block msg sender => exact onBlock_moves ω msg sender c
  | evidence msg sender => exact .of_sameCore (onEvidence_sameCore msg sender c)
  | tx msg => exact .of_sameCore (onTx_sameCore msg c)
  | gracePeriod => exact onGracePeriod_moves ω c
  | timeoutProposal => exact onTimeoutProposal_moves ω c
  | timeoutPrevote => exact onTimeoutPrevote_moves ω c
  | timeoutPrecommit => exact onTimeoutPrecommit_moves ω c
  | timeoutBlock => exact .of_sameCore rfl

omit [CidText] [CryptoLib] [Store S] [Validator S] [MemPool M] [SigLib] in
theorem run_core (p : Engine S M Unit) (c : Consensus S M) : (c.run p).core = (p.run c).2.core := by
  unfold run
  generalize Proc.run p c = r
  obtain ⟨outcome, c'⟩ := r
  cases outcome <;> rfl

/-- What a step is: nothing, for a node that is down; a call; or, without a call, content that
arrives or a message that is refused. -/
theorem step_cases (c : Consensus S M) (i : Env × Input S) :
    (c.crashed = true ∧ c.step i = c) ∨ c.crashed = false ∧
      ((∃ call, c.calls i.2 = some call ∧ c.step i = c.run (exec i.1 call)) ∨ c.calls i.2 = none ∧
        (c.step i = c ∨ c.step i = c.crash ∨
          ∃ s, i.2 = .store s ∧ c.step i = { c with store := s })) := by
  obtain ⟨ω, input⟩ := i
  unfold step
  cases hup : c.crashed with
  | true => exact .inl ⟨rfl, rfl⟩
  | false =>
    refine .inr ⟨rfl, ?_⟩
    cases input with
    | call k => exact .inl ⟨k, rfl, rfl⟩
    | store s => exact .inr ⟨rfl, .inr (.inr ⟨s, rfl, rfl⟩)⟩
    | recv msg =>
      simp only [calls]
      cases c.onMsg msg with
      | panic => exact .inr ⟨rfl, .inr (.inl rfl)⟩
      | err e => exact .inr ⟨rfl, .inl rfl⟩
      | ok k =>
        cases k with
        | none => exact .inr ⟨rfl, .inl rfl⟩
        | some k => exact .inl ⟨k, rfl, rfl⟩

/-- **A node does what the machine can do.** An input either changes nothing the machine sees, or
leads to a call, and the node makes a move of that call. -/
theorem step_moves (c : Consensus S M) (i : Env × Input S) :
    SameCore c (c.step i) ∨ ∃ call, c.calls i.2 = some call ∧ Moves call c (c.step i) := by
  rcases step_cases c i with ⟨-, h⟩ | ⟨-, ⟨call, hcall, h⟩ | ⟨-, h | h | ⟨s, -, h⟩⟩⟩ <;> rw [h]
  · exact .inl rfl
  · obtain ⟨move, hen, hof, hcore⟩ := exec_moves i.1 call c
    exact .inr ⟨call, hcall, move, hen, hof, (run_core _ c).trans hcore⟩
  · exact .inl rfl
  · exact .inl rfl
  · exact .inl rfl

/-- Every call the input leads to meets the condition. -/
def OnCalls (G : Core → Call → Prop) (c : Consensus S M) (i : Env × Input S) : Prop :=
  ∀ call ∈ c.calls i.2, G c.core call

instance (G : Core → Call → Prop) [∀ k call, Decidable (G k call)] (c : Consensus S M)
    (i : Env × Input S) : Decidable (OnCalls G c i) :=
  inferInstanceAs (Decidable (∀ call ∈ c.calls i.2, G c.core call))

/-- A property of cores that the enabled moves of the admitted calls keep is kept by a step. -/
theorem step_invariant {I : Core → Prop} {G : Core → Call → Prop}
    (hmove : ∀ k call move, I k → G k call → k.Enabled move → move.Of call → I (k.apply move))
    (c : Consensus S M) (i : Env × Input S) (hc : I c.core) (hg : OnCalls G c i) :
    I (c.step i).core := by
  rcases step_moves c i with hsame | ⟨call, hcall, move, hen, hof, hcore⟩
  · rw [show (c.step i).core = c.core from hsame]
    exact hc
  · rw [hcore]
    exact hmove c.core call move hc (hg call hcall) hen hof

/-- **Invariants of the machine are invariants of every node**, over any inputs at all. -/
theorem run_invariant {I : Core → Prop}
    (hmove : ∀ k move, I k → k.Enabled move → I (k.apply move)) {c : Consensus S M} (hc : I c.core)
    (is : List (Env × Input S)) : I (is.foldl step c).core :=
  foldl_invariant (P := fun c : Consensus S M => I c.core)
    (fun c i h => step_invariant (G := fun _ _ => True)
      (fun k _ move hk _ hen _ => hmove k move hk hen) c i h fun _ _ => trivial) hc is

end
end Consensus

/-! ## The network -/

namespace World

variable {S M : Type} [Store S] [Validator S] [MemPool M] [CryptoLib] [CidText] [SigLib]

/-- Every call the event leads to meets the condition. -/
def OnCalls (G : Core → Call → Prop) (w : World S M) (i : String × Env × Input S) : Prop :=
  Consensus.OnCalls G (w i.1) i.2

instance (G : Core → Call → Prop) [∀ k call, Decidable (G k call)] (w : World S M)
    (i : String × Env × Input S) : Decidable (OnCalls G w i) :=
  inferInstanceAs (Decidable (Consensus.OnCalls G (w i.1) i.2))

/-- **A property that moves keep is kept by every node of a network.** -/
theorem run_invariant {I : String → Core → Prop} {G : Core → Call → Prop}
    (hmove : ∀ id k call move, I id k → G k call → k.Enabled move → move.Of call →
      I id (k.apply move))
    {w : World S M} (hw : ∀ id, I id (w id).core) {is : List (String × Env × Input S)}
    (hg : Along step (OnCalls G) w is) (id : String) : I id (is.foldl step w id).core := by
  refine Along.invariant (P := fun w : World S M => ∀ id, I id (w id).core) ?_ hw hg id
  intro w i hw hi id
  by_cases hid : id = i.1
  · subst hid
    rw [step, Function.update_self]
    exact Consensus.step_invariant (hmove i.1) (w i.1) i.2 (hw i.1) hi
  · rw [step, Function.update_of_ne hid]
    exact hw id

end World
end Didem
