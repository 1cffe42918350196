import Didem.Consensus.Proof.NilVotes

/-!
# Who writes the maps of votes and of evidence

A round has four maps: the votes of both types, and the evidence of them. Opening a round makes them
anew. After that **only `onVote` records a vote**, under the sender of its message, and what is
entered as evidence is entered by `putEvidence`. `Silent` says so of everything else, in one relation
for the handlers of a round: the evidence is as it was, none was sent, and the votes are those there
were and perhaps some new ones.
-/

set_option autoImplicit false

namespace Didem

open Lib Storage

/-! ## Maps and messages -/

/-- The votes of a type that are recorded. -/
def State.ballots (p : State) : VoteType → VoteBook
  | .preVote => p.preVotes.getD ∅
  | .preCommit => p.preCommits.getD ∅
  | .other _ => ∅

/-- The evidence of votes of a type. -/
def State.evidence (p : State) : VoteType → EvidenceBook
  | .preVote => p.preVotesEvidence.getD ∅
  | .preCommit => p.preCommitsEvidence.getD ∅
  | .other _ => ∅

/-- None of the four maps is nil. -/
def State.Made (p : State) : Prop :=
  p.preVotes ≠ none ∧ p.preCommits ≠ none ∧ p.preVotesEvidence ≠ none ∧ p.preCommitsEvidence ≠ none

/-- The four maps. -/
def State.books (p : State) :
    Option VoteBook × Option VoteBook × Option EvidenceBook × Option EvidenceBook :=
  (p.preVotes, p.preCommits, p.preVotesEvidence, p.preCommitsEvidence)

def Msg.evidence? (m : Msg) : Option ConsensusMsgEvidence := m.consensus.bind ConsensusMsg.evidence

/-- The evidence a message of the trace has. -/
def Effect.evidence? : Effect → Option ConsensusMsgEvidence
  | .sent m => m.evidence?
  | _ => none

def evidenceIn (trace : List Effect) : List ConsensusMsgEvidence := trace.filterMap Effect.evidence?

namespace Consensus

variable {S M : Type}

/-! ## What leaves the evidence alone -/

/-- No evidence is entered or sent, and the only votes that may be recorded are the new ones. -/
structure Silent (new : VoteType → String → Prop) (c c' : Consensus S M) : Prop where
  id : c'.id = c.id
  proposer : c'.state.proposer = c.state.proposer
  amProposer : c'.propsalState.amProposer = c.propsalState.amProposer
  made : c.propsalState.Made → c'.propsalState.Made
  evidence : ∀ t, c'.propsalState.evidence t = c.propsalState.evidence t
  sent : ∃ told, c'.trace = told ++ c.trace ∧ evidenceIn told = []
  kept : ∀ t x, x ∈ c.propsalState.ballots t → x ∈ c'.propsalState.ballots t
  ballots : ∀ t x, x ∈ c'.propsalState.ballots t → x ∈ c.propsalState.ballots t ∨ new t x

theorem evidenceIn_append (l l' : List Effect) :
    evidenceIn (l ++ l') = evidenceIn l ++ evidenceIn l' := List.filterMap_append

namespace Silent

variable {new : VoteType → String → Prop}

/-- Nothing happens to the maps. -/
theorem of_books {c c' : Consensus S M} (hid : c'.id = c.id)
    (hproposer : c'.state.proposer = c.state.proposer)
    (ham : c'.propsalState.amProposer = c.propsalState.amProposer)
    (hbooks : c'.propsalState.books = c.propsalState.books) (told : List Effect)
    (htold : c'.trace = told ++ c.trace) (hnone : evidenceIn told = []) : Silent new c c' := by
  simp only [State.books, Prod.mk.injEq] at hbooks
  obtain ⟨hpv, hpc, hpve, hpce⟩ := hbooks
  have hballots (t : VoteType) : c'.propsalState.ballots t = c.propsalState.ballots t := by
    cases t <;> simp only [State.ballots, hpv, hpc]
  refine ⟨hid, hproposer, ham, ?_, ?_, ⟨told, htold, hnone⟩, ?_, ?_⟩
  · simp only [State.Made, hpv, hpc, hpve, hpce, imp_self]
  · intro t
    cases t <;> simp only [State.evidence, hpve, hpce]
  · intro t x hx
    rwa [hballots]
  · intro t x hx
    exact .inl (hballots t ▸ hx)

theorem refl (c : Consensus S M) : Silent new c c := of_books rfl rfl rfl rfl [] rfl rfl

theorem trans {a b c : Consensus S M} (hab : Silent new a b) (hbc : Silent new b c) :
    Silent new a c := by
  obtain ⟨told, htold, hnone⟩ := hab.sent
  obtain ⟨told', htold', hnone'⟩ := hbc.sent
  refine ⟨hbc.id.trans hab.id, hbc.proposer.trans hab.proposer, hbc.amProposer.trans hab.amProposer,
    hbc.made ∘ hab.made, fun t => (hbc.evidence t).trans (hab.evidence t), ⟨told' ++ told, ?_, ?_⟩,
    fun t x hx => hbc.kept t x (hab.kept t x hx), ?_⟩
  · rw [htold', htold, List.append_assoc]
  · rw [evidenceIn_append, hnone, hnone', List.nil_append]
  · intro t x hx
    rcases hbc.ballots t x hx with hx | hx
    · exact hab.ballots t x hx
    · exact .inr hx

instance : Std.Refl (Silent (S := S) (M := M) new) := ⟨refl⟩

instance : IsTrans (Consensus S M) (Silent new) := ⟨fun _ _ _ => trans⟩

theorem mono {new' : VoteType → String → Prop} (h : ∀ t x, new t x → new' t x)
    {c c' : Consensus S M} (hsilent : Silent new c c') : Silent new' c c' :=
  { hsilent with ballots := fun t x hx => (hsilent.ballots t x hx).imp_right (h t x) }

theorem crash (c : Consensus S M) : Silent new c c.crash := of_books rfl rfl rfl rfl [] rfl rfl

/-- A call to its end, be it a crash. -/
theorem of_run {p : Engine S M Unit} {c : Consensus S M} (h : Silent new c (p.run c).2) :
    Silent new c (c.run p) := by
  unfold run
  generalize Proc.run p c = r at h
  obtain ⟨outcome, c'⟩ := r
  cases outcome with
  | ok u => exact h
  | err e => exact h
  | panic => exact h.trans (crash c')

end Silent

section Handlers

variable {new : VoteType → String → Prop}

theorem onStore_silent {α : Type} (p : Proc Err S α) :
    Proc.Within (Silent new) (onStore p : Engine S M α) :=
  fun _ => .of_books rfl rfl rfl rfl [] rfl rfl

theorem onPool_silent {α : Type} (p : Proc Err M α) :
    Proc.Within (Silent new) (onPool p : Engine S M α) :=
  fun _ => .of_books rfl rfl rfl rfl [] rfl rfl

theorem update_silent {g : State → State} (ham : ∀ p, (g p).amProposer = p.amProposer)
    (hbooks : ∀ p, (g p).books = p.books) :
    Proc.Within (Silent new) (.modify (update g) : Engine S M Unit) :=
  fun c => .of_books rfl rfl (ham c.propsalState) (hbooks c.propsalState) [] rfl rfl

section Send

variable [CryptoLib]

theorem sendMsg_silent (ω : Env) {wrapper : ConsensusMsg} (hnone : wrapper.evidence = none) :
    Proc.Within (Silent new) (sendMsg ω wrapper : Engine S M Unit) := by
  intro c
  obtain ⟨sent, hsent, hm⟩ := sendMsg_told ω wrapper c
  rw [hsent]
  refine .of_books rfl rfl rfl rfl (sent.toList.map .sent) rfl ?_
  cases sent with
  | none => rfl
  | some m =>
    obtain ⟨-, hbody, -⟩ := hm m rfl
    simp [evidenceIn, Effect.evidence?, Msg.evidence?, hbody, hnone]

theorem sendVote_silent (ω : Env) (t : VoteType) (value : String) :
    Proc.Within (Silent new) (sendVote ω t value : Engine S M Unit) :=
  .bind .get fun _ => sendMsg_silent ω rfl

/-- A Once that sends a vote. -/
theorem once_silent (ω : Env) (t : VoteType) (done : Bool) {g : State → State}
    (ham : ∀ p, (g p).amProposer = p.amProposer) (hbooks : ∀ p, (g p).books = p.books) :
    Proc.Within (Silent new) (if done then pure () else do
      Proc.modify (update g)
      Proc.logged (sendVote ω t "") : Engine S M Unit) := by
  cases done with
  | true => exact .pure _
  | false => exact .bind (update_silent ham hbooks) fun _ => .logged (sendVote_silent ω t "")

theorem onTimeoutProposal_silent (ω : Env) :
    Proc.Within (Silent new) (onTimeoutProposal ω : Engine S M Unit) := by
  refine .bind .get fun c => ?_
  split
  · exact .pure _
  · exact .bind (update_silent (fun _ => rfl) fun _ => rfl) fun _ =>
      once_silent ω _ _ (fun _ => rfl) fun _ => rfl

theorem onTimeoutPrevote_silent (ω : Env) :
    Proc.Within (Silent new) (onTimeoutPrevote ω : Engine S M Unit) := by
  refine .bind .get fun c => ?_
  split
  · exact .pure _
  · exact .bind (update_silent (fun _ => rfl) fun _ => rfl) fun _ =>
      once_silent ω _ _ (fun _ => rfl) fun _ => rfl

end Send

theorem onTx_silent [MemPool M] (msg : Option TxMsg) :
    Proc.Within (Silent new) (onTx msg : Engine S M Unit) := by
  cases msg with
  | none => exact .lift _
  | some msg => exact .logged (onPool_silent _)

theorem record_silent {e : Effect} (he : e.evidence? = none) :
    Proc.Within (Silent new) (.modify (record e) : Engine S M Unit) := by
  intro c
  refine .of_books rfl rfl rfl rfl [e] rfl ?_
  simp [evidenceIn, he]

variable [Store S]

theorem commit_silent (ω : Env) : Proc.Within (Silent new) (commit ω : Engine S M Unit) := by
  refine .bind .get fun c => .bind (.bind .get fun c => ?_) fun _ =>
    .bind (.logged (onStore_silent _)) fun _ => ?_
  · dsimp only
    split
    · exact .pure _
    · exact .bind (record_silent rfl) fun _ => .logged (onStore_silent _)
  · exact fun c => .of_books rfl rfl rfl rfl [_] rfl rfl

variable [CidText]

theorem onBlock_silent (ω : Env) (msg : Option ConsensusMsgBlock) (sender : String) :
    Proc.Within (Silent new) (onBlock ω msg sender : Engine S M Unit) := by
  refine .bind .get fun c => ?_
  split
  · exact .pure _
  · cases msg with
    | none => exact .lift _
    | some msg =>
      simp only
      split
      · exact .pure _
      · exact commit_silent ω

variable [CryptoLib]

theorem onGracePeriod_silent [SigLib] (ω : Env) :
    Proc.Within (Silent new) (onGracePeriod ω : Engine S M Unit) := by
  have hsend : Proc.Within (Silent new) (sendBlock ω : Engine S M ConsensusMsgBlock) := by
    refine .bind .get fun c => .bind (.lift _) fun pair => ?_
    refine .bind (.lift _) fun validators => .bind (.lift _) fun signature => ?_
    exact .bind (sendMsg_silent ω rfl) fun _ => .pure _
  refine .bind .get fun c => ?_
  split
  · exact .pure _
  · refine .bind (fun c => .of_books rfl rfl rfl rfl [] rfl rfl) fun _ => ?_
    exact .logged (.bind hsend fun msg => onBlock_silent ω (some msg) c.id)

/-- Leading a round opens none. -/
theorem lead_silent [MemPool M] (ω : Env) : Proc.Within (Silent new) (lead ω : Engine S M Unit) := by
  have hmake : Proc.Within (Silent new) (makeBlock ω : Engine S M (Option Block)) :=
    makeBlock_within (onPool_silent _) (fun _ => onStore_silent _) (fun _ => onStore_silent _)
      fun _ => onStore_silent _
  have hbuild : Proc.Within (Silent new) (buildBlock ω : Engine S M Unit) :=
    buildBlock_within hmake (fun _ => onStore_silent _) fun _ _ =>
      .of_books rfl rfl rfl rfl [] rfl rfl
  refine .bind (.wrap (.bind .get fun _ => sendMsg_silent ω rfl)) fun _ => .bind .get fun c => ?_
  refine .bind (.lift _) fun nodes => .bind (.lift _) fun n => ?_
  refine .bind (update_silent (fun _ => rfl) fun _ => rfl) fun _ => .bind hbuild fun _ => ?_
  refine .bind (.wrap (.bind .get fun _ => sendMsg_silent ω rfl)) fun _ => ?_
  exact update_silent (fun _ => rfl) fun _ => rfl

theorem onProposal_silent [Validator S] (ω : Env) (msg : Option ConsensusMsgProposal)
    (sender : String) : Proc.Within (Silent new) (onProposal ω msg sender : Engine S M Unit) := by
  have hvalidate (value : String) :
      Proc.Within (Silent new) (validate ω value : Engine S M Cid) := by
    unfold validate
    split
    · exact .pure _
    · split
      · exact .lift _
      · refine .bind .get fun c => .bind (.lift _) fun block => ?_
        exact .bind (.wrap (onStore_silent _)) fun _ => .bind (record_silent rfl) fun _ => .pure _
  have hprevote (bc : Cid) (value : String) :
      Proc.Within (Silent new) (prevoteFor ω bc value : Engine S M Unit) := by
    refine .bind (update_silent (fun _ => rfl) fun _ => rfl) fun _ => ?_
    exact .bind (sendVote_silent ω _ _) fun _ => update_silent (fun _ => rfl) fun _ => rfl
  refine .bind .get fun c => ?_
  split
  · exact .pure _
  · cases msg with
    | none => exact .lift _
    | some msg =>
      refine .bind (.orElse (hvalidate msg.blockID) _) fun bc => ?_
      split
      · exact .pure _
      · exact .logged (hprevote bc msg.blockID)

end Handlers

/-! ## Votes -/

section Votes

/-- How a call ends that logs its errors. -/
theorem logged_ends (p : Engine S M Unit) (c : Consensus S M) :
    (p.logged.run c).1 = .ok () ∨ (p.logged.run c).1 = .panic := by
  rw [Proc.logged, Proc.run_orElse]
  obtain ⟨outcome, c'⟩ := p.run c
  cases outcome with
  | ok u => exact .inl rfl
  | err e => exact .inl rfl
  | panic => exact .inr rfl

/-- A vote is entered into the map of its type. -/
theorem Silent.of_insert {t : VoteType} {msg : Msg} {c c' : Consensus S M} (hid : c'.id = c.id)
    (hstate : c'.state = c.state) (htrace : c'.trace = c.trace)
    (ham : c'.propsalState.amProposer = c.propsalState.amProposer)
    (hmade : c'.propsalState.Made)
    (hevidence : ∀ t, c'.propsalState.evidence t = c.propsalState.evidence t)
    (hother : ∀ t', t' ≠ t → c'.propsalState.ballots t' = c.propsalState.ballots t')
    (hinsert : c'.propsalState.ballots t = (c.propsalState.ballots t).insert msg.sender msg) :
    Silent (fun t' x => t' = t ∧ x = msg.sender) c c' := by
  refine ⟨hid, congrArg _ hstate, ham, fun _ => hmade, hevidence, ⟨[], htrace, rfl⟩, ?_, ?_⟩
  · intro t' x hx
    by_cases ht : t' = t
    · subst ht
      rw [hinsert, AList.mem_insert]
      exact .inr hx
    · rwa [hother t' ht]
  · intro t' x hx
    by_cases ht : t' = t
    · subst ht
      rw [hinsert, AList.mem_insert] at hx
      exact hx.symm.imp_right fun hx => ⟨rfl, hx⟩
    · exact .inl (hother t' ht ▸ hx)

/-- What the count of a vote may do: it records the vote under the sender of its message or not at
all, and it goes wrong only after that. -/
structure Counted (t : VoteType) (signer : String) (c : Consensus S M)
    (r : Outcome Err Unit × Consensus S M) : Prop where
  silent : Silent (fun t' x => t' = t ∧ x = signer) c r.2
  ends : r.1 = .ok () ∨ r.1 = .panic ∧ signer ∈ r.2.propsalState.ballots t

/-- A vote that is entered, and what comes after. -/
theorem Counted.of_insert {t : VoteType} {msg : Msg} {c c₁ : Consensus S M} {p : Engine S M Unit}
    (hsilent : Silent (fun t' x => t' = t ∧ x = msg.sender) c c₁)
    (hmem : msg.sender ∈ c₁.propsalState.ballots t)
    (hp : Proc.Within (Silent fun t' x => t' = t ∧ x = msg.sender) p)
    (hends : (p.run c₁).1 = .ok () ∨ (p.run c₁).1 = .panic) : Counted t msg.sender c (p.run c₁) :=
  ⟨hsilent.trans (hp c₁), hends.imp_right fun h => ⟨h, (hp c₁).kept t _ hmem⟩⟩

variable [CryptoLib] [CidText]

theorem onPreVote_spec (ω : Env) (msg : Msg) {c : Consensus S M} (hmade : c.propsalState.Made) :
    Counted .preVote msg.sender c ((onPreVote ω msg).run c) := by
  by_cases hstep : c.propsalState.step = .prevote
  · obtain ⟨book, hbook⟩ := Option.ne_none_iff_exists'.mp hmade.1
    have hsilent : Silent (fun t' x => t' = .preVote ∧ x = msg.sender) c
        (c.update fun p => { p with preVotes := some (book.insert msg.sender msg) }) := by
      refine .of_insert rfl rfl rfl rfl ⟨Option.some_ne_none _, hmade.2⟩ (fun t => ?_) ?_ ?_
      · cases t <;> rfl
      · intro t ht
        cases t with
        | preVote => exact absurd rfl ht
        | preCommit => rfl
        | other n => rfl
      · simp [State.ballots, update, hbook]
    simp only [onPreVote, Proc.run_bind, Proc.run_get, hstep, hbook, ne_eq, not_true_eq_false,
      if_false, Proc.run_modify]
    refine .of_insert hsilent (by simp [State.ballots, update]) ?_ ?_
    · split
      · exact .bind (update_silent (fun _ => rfl) fun _ => rfl) fun _ =>
          .logged (sendVote_silent ω _ _)
      · exact .pure _
    · split
      · exact logged_ends _ _
      · exact .inl rfl
  · rw [onPreVote_ignored ω msg hstep]
    exact ⟨.refl c, .inl rfl⟩

omit [CryptoLib] [CidText] in
theorem onPreCommit_spec (msg : Msg) {c : Consensus S M} (hmade : c.propsalState.Made) :
    Counted .preCommit msg.sender c ((onPreCommit msg).run c) := by
  by_cases hstep : c.propsalState.step = .precommit
  · obtain ⟨book, hbook⟩ := Option.ne_none_iff_exists'.mp hmade.2.1
    have hsilent : Silent (fun t' x => t' = .preCommit ∧ x = msg.sender) c
        (c.update fun p => { p with preCommits := some (book.insert msg.sender msg) }) := by
      refine .of_insert rfl rfl rfl rfl ⟨hmade.1, Option.some_ne_none _, hmade.2.2⟩
        (fun t => ?_) ?_ ?_
      · cases t <;> rfl
      · intro t ht
        cases t with
        | preVote => rfl
        | preCommit => exact absurd rfl ht
        | other n => rfl
      · simp [State.ballots, update, hbook]
    simp only [onPreCommit, Proc.run_bind, Proc.run_get, hstep, hbook, ne_eq, not_true_eq_false,
      if_false, Proc.run_modify]
    refine .of_insert hsilent (by simp [State.ballots, update]) ?_ ?_
    · split
      · exact fun c => .of_books rfl rfl rfl rfl [_] rfl rfl
      · exact .pure _
    · split
      · exact .inl rfl
      · exact .inl rfl
  · rw [onPreCommit_ignored msg hstep]
    exact ⟨.refl c, .inl rfl⟩

theorem countVote_spec (ω : Env) (t : VoteType) (msg : Msg) {c : Consensus S M}
    (hmade : c.propsalState.Made) : Counted t msg.sender c ((countVote ω t msg).run c) := by
  cases t with
  | preVote => exact onPreVote_spec ω msg hmade
  | preCommit => exact onPreCommit_spec msg hmade
  | other n => exact ⟨.refl c, .inl rfl⟩

/-- A message that has no vote, or one that does not pass the checks, leaves everything as it is. -/
theorem onVote_refused (ω : Env) {msg : Msg} {sender : String} {c : Consensus S M}
    (h : ∀ vote, msg.vote? = some vote → sender ≠ c.state.proposer →
      ¬ c.propsalState.Current vote) : ((onVote ω msg sender).run c).2 = c := by
  cases hvote : msg.vote? with
  | some vote =>
    have hno : sender = c.state.proposer ∨ ¬ c.propsalState.Current vote :=
      or_iff_not_imp_left.mpr (h vote hvote)
    rw [onVote_ignored ω hvote hno]
  | none =>
    simp only [onVote, Proc.run_bind, Proc.run_get]
    cases hbody : msg.consensus with
    | none => rfl
    | some body =>
      have hnil : body.vote = none := by rwa [Msg.vote?, hbody] at hvote
      simp only [hnil]
      split <;> rfl

/-- A vote that passes is counted, and evidence of it is sent. -/
theorem onVote_run (ω : Env) {msg : Msg} {sender : String} {vote : ConsensusMsgVote}
    {c : Consensus S M} (hvote : msg.vote? = some vote) (hsender : sender ≠ c.state.proposer)
    (hcurrent : c.propsalState.Current vote) :
    (onVote ω msg sender).run c =
      (do countVote ω vote.type msg
          if c.propsalState.amProposer then .logged (sendEvidence ω vote) else return () :
        Engine S M Unit).run c := by
  obtain ⟨body, hbody, hvote⟩ := Option.bind_eq_some_iff.mp hvote
  obtain ⟨hheight, hblock, hround⟩ := hcurrent
  simp only [onVote, Proc.run_bind, Proc.run_get, hbody, hvote, if_neg hsender, hheight, hblock,
    hround, ne_eq, not_true_eq_false, or_self, if_false]

/-- A node that is not the proposer makes no evidence of a vote. -/
theorem onVote_silent (ω : Env) (msg : Msg) (sender : String) {c : Consensus S M}
    (hmade : c.propsalState.Made) (ham : c.propsalState.amProposer = false) :
    Silent (fun _ _ => True) c ((onVote ω msg sender).run c).2 := by
  by_cases h : ∃ vote, msg.vote? = some vote ∧ sender ≠ c.state.proposer ∧
      c.propsalState.Current vote
  · obtain ⟨vote, hvote, hsender, hcurrent⟩ := h
    have hsilent := (countVote_spec ω vote.type msg hmade).silent.mono fun _ _ _ => trivial
    rw [onVote_run ω hvote hsender hcurrent, ham, Proc.run_bind]
    generalize (countVote ω vote.type msg).run c = r at hsilent
    obtain ⟨outcome, c₁⟩ := r
    cases outcome <;> exact hsilent
  · rw [onVote_refused ω fun vote hvote hsender hcurrent => h ⟨vote, hvote, hsender, hcurrent⟩]
    exact .refl c

end Votes

end Consensus
end Didem
