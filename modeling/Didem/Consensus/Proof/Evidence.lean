import Didem.Consensus.Proof.Records

/-!
# Evidence of votes

A proposer answers every vote that passes the checks of `onVote` with evidence of it, which it
enters into a map of its own and sends to the others. **Three names meet here**: a vote is recorded
under the sender of its message, the proposer's evidence is filed under the validator the vote
*names*, and whoever gets the evidence files it under the proposer it came from.

So a follower has at most one entry of each type, and none of them under a voter's name: a proposer
does not vote. Whatever is accepted in a round, the follower's maps are wrong. The proposer's own
are right when voters name themselves and no vote comes in another step than its own, because
evidence is made also of votes that `onPreVote` and `onPreCommit` pass over.

The results are about what the two nodes take in during one round, in any order: everything but what
opens another one.
-/

set_option autoImplicit false

namespace Didem

open Lib Storage

/-! ## Votes and evidence in a round -/

/-- A type there is a map for. -/
def VoteType.isHandled : VoteType → Bool
  | .preVote | .preCommit => true
  | .other _ => false

/-- A vote, with the node that signed the message it came in. -/
structure SignedVote where
  signer : String
  vote : ConsensusMsgVote
  deriving DecidableEq

instance State.decidableCurrent [CidText] (p : State) (vote : ConsensusMsgVote) :
    Decidable (p.Current vote) :=
  inferInstanceAs (Decidable (_ ∧ _ ∧ _))

/-- The call does not open another round. -/
def Call.staysInRound (proposer : String) : Call → Bool
  | .beacon _ | .timeoutPrecommit => false
  | .newRound _ sender => sender ≠ proposer
  | _ => true

/-- What the proposer of a round is called with: a vote with the signer of its message, and no
evidence of its own. -/
def Call.reachesLeader (id : String) : Call → Bool
  | .vote msg sender => sender = msg.sender
  | .evidence _ sender => sender ≠ id
  | call => call.staysInRound id

namespace Consensus

section Round

variable {S M : Type} [Store S] [Validator S] [MemPool M] [CryptoLib] [CidText] [SigLib]

/-- The vote an input has that passes the checks of `onVote`. -/
def acceptedVote (c : Consensus S M) (input : Input S) : Option SignedVote :=
  if c.crashed then none
  else
    match c.calls input with
    | some (.vote msg sender) =>
      match msg.vote? with
      | some vote =>
        if sender ≠ c.state.proposer ∧ c.propsalState.Current vote then some ⟨msg.sender, vote⟩
        else none
      | none => none
    | _ => none

/-- The votes that are accepted in a run. -/
def acceptedVotes (c : Consensus S M) : List (Env × Input S) → List SignedVote
  | [] => []
  | i :: is => (c.acceptedVote i.2).toList ++ (c.step i).acceptedVotes is

/-- The evidence an input brings from the proposer; it may be a nil pointer. -/
def receivedEvidence (c : Consensus S M) (input : Input S) :
    Option (Option ConsensusMsgEvidence) :=
  if c.crashed then none
  else
    match c.calls input with
    | some (.evidence msg sender) => if sender = c.state.proposer then some msg else none
    | _ => none

def receivedEvidences (c : Consensus S M) :
    List (Env × Input S) → List (Option ConsensusMsgEvidence)
  | [] => []
  | i :: is => (c.receivedEvidence i.2).toList ++ (c.step i).receivedEvidences is

/-- The evidence that was sent between two states of a node. -/
def sentEvidence (c c' : Consensus S M) : List ConsensusMsgEvidence :=
  evidenceIn (c'.trace.take (c'.trace.length - c.trace.length))

def LeaderInput (c : Consensus S M) (i : Env × Input S) : Prop :=
  ∀ call ∈ c.calls i.2, call.reachesLeader c.id = true

def FollowerInput (c : Consensus S M) (i : Env × Input S) : Prop :=
  ∀ call ∈ c.calls i.2, call.staysInRound c.state.proposer = true

end Round

variable {S M : Type}

/-- The proposer of a round, at its start. -/
structure Opened (c : Consensus S M) : Prop where
  own : c.state.proposer = c.id
  amProposer : c.propsalState.amProposer = true
  made : c.propsalState.Made
  ballots : ∀ t x, x ∉ c.propsalState.ballots t
  evidence : ∀ t x, x ∉ c.propsalState.evidence t

/-- Another node in the round of a proposer, before any evidence has come. -/
structure Follows (leader : String) (c : Consensus S M) : Prop where
  other : c.id ≠ leader
  proposer : c.state.proposer = leader
  amProposer : c.propsalState.amProposer = false
  made : c.propsalState.Made
  evidence : ∀ t x, x ∉ c.propsalState.evidence t

/-- The evidence has one entry for each node with a recorded vote, and it is of a vote this node
signed. -/
def Attributed (accepted : List SignedVote) (votes evidence : State) : Prop :=
  ∀ t x, (x ∈ evidence.evidence t ↔ x ∈ votes.ballots t) ∧
    ∀ e ∈ (evidence.evidence t).lookup x, ⟨x, e.toConsensusMsgVote⟩ ∈ accepted

/-! ## Opening a round -/

section Open

variable [CryptoLib] [CidText]

omit [CryptoLib] [CidText] in
theorem cleared_empty (p : State) :
    p.cleared.Made ∧ (∀ t x, x ∉ p.cleared.ballots t) ∧ ∀ t x, x ∉ p.cleared.evidence t := by
  refine ⟨⟨nofun, nofun, nofun, nofun⟩, fun t x => ?_, fun t x => ?_⟩
  · cases t <;> exact AList.notMem_empty x
  · cases t <;> exact AList.notMem_empty x

/-- **A proposer that starts a round has opened it**, however far it gets. -/
theorem opened_of_startRound [Store S] [MemPool M] (ω : Env) (inc : Bool) {c : Consensus S M}
    (hown : c.state.proposer = c.id) : Opened ((startRound ω inc).run c).2 := by
  obtain ⟨hmade, hballots, hevidence⟩ := cleared_empty c.propsalState
  have ham : (c.openRound inc).propsalState.amProposer = true := by simp [openRound, hown]
  rw [run_startRound_snd, if_pos ham]
  have hsilent : Silent (fun _ _ => False) (c.openRound inc) ((lead ω).run (c.openRound inc)).2 :=
    lead_silent ω _
  refine ⟨?_, hsilent.amProposer.trans ham, hsilent.made hmade, fun t x hx => ?_, fun t x hx => ?_⟩
  · rw [hsilent.proposer, hsilent.id]
    exact hown
  · exact (hsilent.ballots t x hx).elim (fun h => hballots t x (by cases t <;> exact h)) not_false
  · rw [hsilent.evidence] at hx
    exact hevidence t x (by cases t <;> exact hx)

/-- **Any other node that starts it follows.** -/
theorem follows_of_startRound [Store S] [MemPool M] (ω : Env) (inc : Bool) {c : Consensus S M}
    (hother : c.id ≠ c.state.proposer) : Follows c.state.proposer ((startRound ω inc).run c).2 := by
  obtain ⟨hmade, -, hevidence⟩ := cleared_empty c.propsalState
  have ham : (c.openRound inc).propsalState.amProposer = false := by
    simp [openRound, hother.symm]
  rw [run_startRound_snd, if_neg (by simp [ham])]
  exact ⟨hother, rfl, ham, hmade, fun t x hx => hevidence t x (by cases t <;> exact hx)⟩

omit [CryptoLib] [CidText] in
/-- And so does one that is told of it. -/
theorem follows_of_onNewRound (msg : ConsensusMsgNewRound) {c : Consensus S M}
    (hother : c.id ≠ c.state.proposer) (ham : c.propsalState.amProposer = false) :
    Follows c.state.proposer ((onNewRound (some msg) c.state.proposer).run c).2 := by
  obtain ⟨hmade, -, hevidence⟩ := cleared_empty c.propsalState
  simp only [onNewRound, Proc.run_bind, Proc.run_get, ne_eq, not_true_eq_false, if_false]
  exact ⟨hother, rfl, ham, hmade, fun t x hx => hevidence t x (by cases t <;> exact hx)⟩

end Open

/-! ## Evidence -/

/-- Evidence is entered under a name. -/
def file (t : VoteType) (key : String) (msg : ConsensusMsgEvidence) (c : Consensus S M) :
    Consensus S M :=
  c.update fun p =>
    match t with
    | .preVote => { p with preVotesEvidence := p.preVotesEvidence.map (·.insert key msg) }
    | .preCommit => { p with preCommitsEvidence := p.preCommitsEvidence.map (·.insert key msg) }
    | .other _ => p

theorem putEvidence_run (t : VoteType) (key : String) (msg : ConsensusMsgEvidence)
    {c : Consensus S M} (hmade : c.propsalState.Made) :
    (putEvidence t key msg).run c = (.ok (), c.file t key msg) := by
  simp only [putEvidence, Proc.run_bind, Proc.run_get]
  cases t with
  | preVote =>
    obtain ⟨book, hbook⟩ := Option.ne_none_iff_exists'.mp hmade.2.2.1
    simp [hbook, file, update]
  | preCommit =>
    obtain ⟨book, hbook⟩ := Option.ne_none_iff_exists'.mp hmade.2.2.2
    simp [hbook, file, update]
  | other n => rfl

theorem evidence_file {c : Consensus S M} (hmade : c.propsalState.Made) (t t' : VoteType)
    (key : String) (msg : ConsensusMsgEvidence) :
    (c.file t key msg).propsalState.evidence t' =
      if t' = t ∧ t.isHandled then (c.propsalState.evidence t').insert key msg
      else c.propsalState.evidence t' := by
  obtain ⟨pve, hpve⟩ := Option.ne_none_iff_exists'.mp hmade.2.2.1
  obtain ⟨pce, hpce⟩ := Option.ne_none_iff_exists'.mp hmade.2.2.2
  cases t <;> cases t' <;> simp [file, update, State.evidence, VoteType.isHandled, hpve, hpce]

theorem mem_evidence_of_lookup {p : State} {t : VoteType} {x : String} {e : ConsensusMsgEvidence}
    (h : e ∈ (p.evidence t).lookup x) : x ∈ p.evidence t :=
  AList.lookup_isSome.mp (Option.isSome_of_mem h)

theorem exists_lookup_of_mem_evidence {p : State} {t : VoteType} {x : String}
    (h : x ∈ p.evidence t) : ∃ e, e ∈ (p.evidence t).lookup x :=
  Option.isSome_iff_exists.mp (AList.lookup_isSome.mpr h)

section File

variable {c : Consensus S M} (hmade : c.propsalState.Made) {t : VoteType} {key : String}
  {msg : ConsensusMsgEvidence}

include hmade

theorem mem_evidence_file {t' : VoteType} {x : String} (hx : x ∈ c.propsalState.evidence t') :
    x ∈ (c.file t key msg).propsalState.evidence t' := by
  rw [evidence_file hmade]
  split
  · exact (AList.mem_insert _).mpr (.inr hx)
  · exact hx

theorem key_mem_evidence_file (ht : t.isHandled = true) :
    key ∈ (c.file t key msg).propsalState.evidence t := by
  rw [evidence_file hmade, if_pos ⟨rfl, ht⟩]
  exact (AList.mem_insert _).mpr (.inl rfl)

/-- What is found after is what was found before, or what was filed. -/
theorem lookup_evidence_file {t' : VoteType} {x : String} {e : ConsensusMsgEvidence}
    (he : e ∈ ((c.file t key msg).propsalState.evidence t').lookup x) :
    e ∈ (c.propsalState.evidence t').lookup x ∨ t' = t ∧ x = key ∧ e = msg := by
  rw [evidence_file hmade] at he
  split at he
  · next ht =>
    by_cases hx : x = key
    · subst hx
      rw [AList.lookup_insert] at he
      exact .inr ⟨ht.1, rfl, (Option.mem_some_iff.mp he).symm⟩
    · rw [AList.lookup_insert_ne hx] at he
      exact .inl he
  · exact .inl he

end File

theorem made_file {c : Consensus S M} (hmade : c.propsalState.Made) (t : VoteType) (key : String)
    (msg : ConsensusMsgEvidence) : (c.file t key msg).propsalState.Made := by
  obtain ⟨hpv, hpc, hpve, hpce⟩ := hmade
  cases t with
  | preVote => exact ⟨hpv, hpc, by simpa [file, update] using hpve, hpce⟩
  | preCommit => exact ⟨hpv, hpc, hpve, by simpa [file, update] using hpce⟩
  | other n => exact ⟨hpv, hpc, hpve, hpce⟩

theorem ballots_file (c : Consensus S M) (t t' : VoteType) (key : String)
    (msg : ConsensusMsgEvidence) :
    (c.file t key msg).propsalState.ballots t' = c.propsalState.ballots t' := by
  cases t <;> rfl

theorem amProposer_file (c : Consensus S M) (t : VoteType) (key : String)
    (msg : ConsensusMsgEvidence) :
    (c.file t key msg).propsalState.amProposer = c.propsalState.amProposer := by
  cases t <;> rfl

/-- What a step does that accepts a vote. A proposer that goes down over it has recorded the vote
before. -/
structure Files (a : SignedVote) (c c' : Consensus S M) : Prop where
  id : c'.id = c.id
  proposer : c'.state.proposer = c.state.proposer
  amProposer : c'.propsalState.amProposer = c.propsalState.amProposer
  made : c'.propsalState.Made
  kept : ∀ t x, x ∈ c.propsalState.ballots t → x ∈ c'.propsalState.ballots t
  ballots : ∀ t x, x ∈ c'.propsalState.ballots t →
    x ∈ c.propsalState.ballots t ∨ t = a.vote.type ∧ x = a.signer
  evidence : ∀ t x, x ∈ c.propsalState.evidence t → x ∈ c'.propsalState.evidence t
  entries : ∀ t x, ∀ e ∈ (c'.propsalState.evidence t).lookup x,
    e ∈ (c.propsalState.evidence t).lookup x ∨
      t = a.vote.type ∧ x = a.vote.validator ∧ e.toConsensusMsgVote = a.vote
  filed : a.vote.type.isHandled = true → a.vote.validator ∈ c'.propsalState.evidence a.vote.type ∨
    c'.crashed = true ∧ a.signer ∈ c'.propsalState.ballots a.vote.type
  sent : ∃ told, c'.trace = told ++ c.trace ∧
    ∀ e ∈ evidenceIn told, e.toConsensusMsgVote = a.vote

theorem Files.crash {a : SignedVote} {c c' : Consensus S M} (h : Files a c c') :
    Files a c c'.crash :=
  { h with filed := fun ht => (h.filed ht).imp_right fun hmem => ⟨rfl, hmem.2⟩ }

/-- The count went wrong. -/
theorem Files.of_panic {a : SignedVote} {c c₁ : Consensus S M}
    (hsilent : Silent (fun t x => t = a.vote.type ∧ x = a.signer) c c₁) (hmade : c.propsalState.Made)
    (hmem : a.signer ∈ c₁.propsalState.ballots a.vote.type) : Files a c c₁.crash := by
  obtain ⟨told, htold, hnone⟩ := hsilent.sent
  exact
    { id := hsilent.id
      proposer := hsilent.proposer
      amProposer := hsilent.amProposer
      made := hsilent.made hmade
      kept := hsilent.kept
      ballots := hsilent.ballots
      evidence := fun t x hx => by rwa [← hsilent.evidence t] at hx
      entries := fun t x e he => .inl (by rwa [← hsilent.evidence t])
      filed := fun _ => .inr ⟨rfl, hmem⟩
      sent := ⟨told, htold, by simp [hnone]⟩ }

section Send

variable [CryptoLib]

/-- Sending evidence files it first; what is then sent is that evidence or nothing. -/
theorem sendEvidence_run (ω : Env) (vote : ConsensusMsgVote) {c : Consensus S M}
    (hmade : c.propsalState.Made) :
    ∃ told, ((sendEvidence ω vote).run c).2 =
        (c.file vote.type vote.validator { vote with accepted := true }).tell told ∧
      ∀ e ∈ evidenceIn (told.map .sent), e.toConsensusMsgVote = vote := by
  simp only [sendEvidence, Proc.run_bind, putEvidence_run _ _ _ hmade]
  obtain ⟨sent, hsent, hm⟩ := sendMsg_told ω
    { type := .evidence, evidence := some { vote with accepted := true } }
    (c.file vote.type vote.validator { vote with accepted := true })
  refine ⟨sent.toList, hsent, ?_⟩
  cases sent with
  | none => exact fun e he => absurd he List.not_mem_nil
  | some m =>
    obtain ⟨-, hbody, -⟩ := hm m rfl
    simp [evidenceIn, Effect.evidence?, Msg.evidence?, hbody]

theorem Files.of_sendEvidence (ω : Env) {a : SignedVote} {c c₁ : Consensus S M}
    (hsilent : Silent (fun t x => t = a.vote.type ∧ x = a.signer) c c₁)
    (hmade : c.propsalState.Made) : Files a c ((sendEvidence ω a.vote).run c₁).2 := by
  have hmade₁ := hsilent.made hmade
  obtain ⟨told, htold, hnone⟩ := hsilent.sent
  obtain ⟨told', hrun, hsent⟩ := sendEvidence_run ω a.vote hmade₁
  rw [hrun]
  refine ⟨hsilent.id, hsilent.proposer, (amProposer_file _ _ _ _).trans hsilent.amProposer,
    made_file hmade₁ _ _ _, ?_, ?_, ?_, ?_, ?_, ⟨told'.map .sent ++ told, ?_, ?_⟩⟩
  · intro t x hx
    exact (ballots_file c₁ _ t _ _) ▸ hsilent.kept t x hx
  · intro t x hx
    exact hsilent.ballots t x ((ballots_file c₁ _ t _ _) ▸ hx)
  · intro t x hx
    exact mem_evidence_file hmade₁ (hsilent.evidence t ▸ hx)
  · intro t x e he
    rcases lookup_evidence_file hmade₁ he with he | ⟨ht, hx, rfl⟩
    · exact .inl (hsilent.evidence t ▸ he)
    · exact .inr ⟨ht, hx, rfl⟩
  · exact fun ht => .inl (key_mem_evidence_file hmade₁ ht)
  · show told'.map .sent ++ (c₁.file _ _ _).trace = _
    rw [List.append_assoc, ← htold]
    rfl
  · rw [evidenceIn_append, hnone, List.append_nil]
    exact hsent

variable [CidText]

theorem onVote_files (ω : Env) {msg : Msg} {sender : String} {vote : ConsensusMsgVote}
    {c : Consensus S M} (hmade : c.propsalState.Made) (ham : c.propsalState.amProposer = true)
    (hvote : msg.vote? = some vote) (hsender : sender ≠ c.state.proposer)
    (hcurrent : c.propsalState.Current vote) :
    Files ⟨msg.sender, vote⟩ c (c.run (onVote ω msg sender)) := by
  obtain ⟨hsilent, hends⟩ := countVote_spec ω vote.type msg hmade
  rw [run, onVote_run ω hvote hsender hcurrent, ham, Proc.run_bind]
  generalize (countVote ω vote.type msg).run c = r at hsilent hends
  obtain ⟨outcome, c₁⟩ := r
  rcases hends with hok | ⟨hpanic, hmem⟩
  · obtain rfl : outcome = .ok () := hok
    have hfiles := Files.of_sendEvidence ω (a := ⟨msg.sender, vote⟩) hsilent hmade
    rw [← Proc.run_logged_snd] at hfiles
    simp only [if_true]
    generalize (Proc.logged (sendEvidence ω vote)).run c₁ = r at hfiles
    obtain ⟨outcome, c₂⟩ := r
    cases outcome with
    | ok u => exact hfiles
    | err e => exact hfiles
    | panic => exact hfiles.crash
  · obtain rfl : outcome = .panic := hpanic
    exact .of_panic (a := ⟨msg.sender, vote⟩) hsilent hmade hmem

end Send

/-! ## One step -/

section Step

variable [Store S] [Validator S] [MemPool M] [CryptoLib] [CidText] [SigLib]

/-- A call that is no vote and no evidence stays out of the maps, unless it opens a round. -/
theorem exec_silent {new : VoteType → String → Prop} (ω : Env) {call : Call} {c : Consensus S M}
    (hround : call.staysInRound c.state.proposer = true)
    (hvote : ∀ msg sender, call ≠ .vote msg sender)
    (hevidence : ∀ msg sender, call = .evidence msg sender → sender ≠ c.state.proposer) :
    Silent new c ((exec ω call).run c).2 := by
  cases call with
  | beacon b => cases hround
  | newRound msg sender =>
    have hsender : sender ≠ c.state.proposer := of_decide_eq_true hround
    simp only [exec, onNewRound, Proc.run_bind, Proc.run_get, if_pos hsender]
    exact .refl c
  | proposal msg sender => exact onProposal_silent ω msg sender c
  | vote msg sender => exact absurd rfl (hvote msg sender)
  | block msg sender => exact onBlock_silent ω msg sender c
  | evidence msg sender =>
    have hsender := hevidence msg sender rfl
    simp only [exec, onEvidence, Proc.run_bind, Proc.run_get, if_pos hsender]
    exact .refl c
  | tx msg => exact onTx_silent msg c
  | gracePeriod => exact onGracePeriod_silent ω c
  | timeoutProposal => exact onTimeoutProposal_silent ω c
  | timeoutPrevote => exact onTimeoutPrevote_silent ω c
  | timeoutPrecommit => cases hround
  | timeoutBlock => exact .refl c

/-- A step that makes no call stays out of them as well. -/
theorem step_cases_silent (c : Consensus S M) (i : Env × Input S) :
    (∀ new, Silent new c (c.step i)) ∨ c.crashed = false ∧
      ∃ call, c.calls i.2 = some call ∧ c.step i = c.run (exec i.1 call) := by
  rcases step_cases c i with ⟨-, h⟩ | ⟨hup, ⟨call, hcall, h⟩ | ⟨-, h | h | ⟨s, -, h⟩⟩⟩
  · exact .inl fun _ => h.symm ▸ .refl c
  · exact .inr ⟨hup, call, hcall, h⟩
  · exact .inl fun _ => h.symm ▸ .refl c
  · exact .inl fun _ => h.symm ▸ .crash c
  · exact .inl fun _ => h.symm ▸ .of_books rfl rfl rfl rfl [] rfl rfl

theorem step_of_crashed {c : Consensus S M} (h : c.crashed = true) (i : Env × Input S) :
    c.step i = c := if_pos h

omit [Validator S] [MemPool M] in
theorem acceptedVote_eq_none {c : Consensus S M} {input : Input S} {msg : Msg} {sender : String}
    (hup : c.crashed = false) (hcall : c.calls input = some (.vote msg sender))
    (h : c.acceptedVote input = none) :
    ∀ vote, msg.vote? = some vote → sender ≠ c.state.proposer → ¬ c.propsalState.Current vote := by
  intro vote hvote hsender hcurrent
  simp [acceptedVote, hup, hcall, hvote, hsender, hcurrent] at h

omit [Validator S] [MemPool M] in
theorem acceptedVote_eq_some {c : Consensus S M} {input : Input S} {a : SignedVote}
    (h : c.acceptedVote input = some a) :
    c.crashed = false ∧ ∃ msg sender, c.calls input = some (.vote msg sender) ∧
      msg.vote? = some a.vote ∧ msg.sender = a.signer ∧ sender ≠ c.state.proposer ∧
      c.propsalState.Current a.vote := by
  unfold acceptedVote at h
  split at h
  · cases h
  · next hup =>
    refine ⟨Bool.eq_false_iff.mpr hup, ?_⟩
    split at h
    · next msg sender hcall =>
      split at h
      · next vote hvote =>
        split_ifs at h with hpass
        obtain rfl := Option.some.inj h
        exact ⟨msg, sender, hcall, hvote, rfl, hpass⟩
      · cases h
    · cases h

/-- **The proposer, without a vote that is accepted.** -/
theorem step_leader_none {c : Consensus S M} (hown : c.state.proposer = c.id) {i : Env × Input S}
    (hi : c.LeaderInput i) (h : c.acceptedVote i.2 = none) :
    Silent (fun _ _ => False) c (c.step i) := by
  rcases step_cases_silent c i with hsilent | ⟨hup, call, hcall, hstep⟩
  · exact hsilent _
  · have hreach := hi call hcall
    rw [hstep]
    refine .of_run ?_
    by_cases hvote : ∃ msg sender, call = .vote msg sender
    · obtain ⟨msg, sender, rfl⟩ := hvote
      show Silent _ c ((onVote i.1 msg sender).run c).2
      rw [onVote_refused i.1 (acceptedVote_eq_none hup hcall h)]
      exact .refl c
    · have hnot : ∀ msg sender, call ≠ .vote msg sender := fun msg sender heq =>
        hvote ⟨msg, sender, heq⟩
      refine exec_silent i.1 ?_ hnot ?_
      · rw [hown]
        cases call <;> first | exact hreach | rfl
      · rintro msg sender rfl
        rw [hown]
        exact of_decide_eq_true hreach

/-- **The proposer, with one.** -/
theorem step_leader_some {c : Consensus S M} (hmade : c.propsalState.Made)
    (ham : c.propsalState.amProposer = true) {i : Env × Input S} (hi : c.LeaderInput i)
    {a : SignedVote} (h : c.acceptedVote i.2 = some a) :
    Files a c (c.step i) ∧ a.signer ≠ c.state.proposer := by
  obtain ⟨hup, msg, sender, hcall, hvote, hsigner, hsender, hcurrent⟩ := acceptedVote_eq_some h
  obtain rfl : sender = msg.sender := of_decide_eq_true (hi _ hcall)
  rcases step_cases c i with ⟨hdown, -⟩ | ⟨-, ⟨call, hcall', hstep⟩ | ⟨hnone, -⟩⟩
  · cases hdown.symm.trans hup
  · obtain rfl : call = .vote msg msg.sender := Option.some.inj (hcall'.symm.trans hcall)
    rw [hstep]
    have hfiles := onVote_files i.1 hmade ham hvote hsender hcurrent
    rw [hsigner] at hfiles hsender
    exact ⟨hsigner ▸ hfiles, hsender⟩
  · cases hcall.symm.trans hnone

/-- **Another node, without evidence from the proposer.** -/
theorem step_follower_none {c : Consensus S M} (hmade : c.propsalState.Made)
    (ham : c.propsalState.amProposer = false) {i : Env × Input S} (hi : c.FollowerInput i)
    (h : c.receivedEvidence i.2 = none) : Silent (fun _ _ => True) c (c.step i) := by
  rcases step_cases_silent c i with hsilent | ⟨hup, call, hcall, hstep⟩
  · exact hsilent _
  · rw [hstep]
    refine .of_run ?_
    by_cases hvote : ∃ msg sender, call = .vote msg sender
    · obtain ⟨msg, sender, rfl⟩ := hvote
      exact onVote_silent i.1 msg sender hmade ham
    · refine exec_silent i.1 (hi call hcall) (fun msg sender heq => hvote ⟨msg, sender, heq⟩) ?_
      rintro msg sender rfl hsender
      simp [receivedEvidence, hup, hcall, hsender] at h

/-- **Another node, with evidence**: it is filed under the name of the proposer. -/
theorem step_follower_some {c : Consensus S M} (hmade : c.propsalState.Made) {i : Env × Input S}
    {msg : Option ConsensusMsgEvidence} (h : c.receivedEvidence i.2 = some msg) :
    c.step i = c.crash ∨
      ∃ e, msg = some e ∧ c.step i = c.file e.type c.state.proposer e := by
  unfold receivedEvidence at h
  split at h
  · cases h
  · next hup =>
    split at h
    · next msg' sender hcall =>
      split_ifs at h with hsender
      obtain rfl := Option.some.inj h
      rcases step_cases c i with ⟨hdown, -⟩ | ⟨-, ⟨call, hcall', hstep⟩ | ⟨hnone, -⟩⟩
      · exact absurd hdown hup
      · obtain rfl : call = .evidence msg' sender := Option.some.inj (hcall'.symm.trans hcall)
        subst hsender
        rw [hstep, run]
        simp only [exec, onEvidence, Proc.run_bind, Proc.run_get, ne_eq, not_true_eq_false,
          if_false]
        cases msg' with
        | none => exact .inl rfl
        | some e =>
          refine .inr ⟨e, rfl, ?_⟩
          simp only [putEvidence_run _ _ _ hmade]
      · cases hcall.symm.trans hnone
    · cases h

end Step

/-! ## A round at the proposer -/

/-- What the maps of the proposer and its messages have to do with the votes it accepted. -/
structure Ledger (c₀ : Consensus S M) (accepted : List SignedVote) (c : Consensus S M) : Prop where
  id : c.id = c₀.id
  own : c.state.proposer = c.id
  amProposer : c.propsalState.amProposer = true
  made : c.propsalState.Made
  signers : ∀ a ∈ accepted, a.signer ≠ c.id
  ballots : ∀ t x, x ∈ c.propsalState.ballots t →
    ∃ a ∈ accepted, a.vote.type = t ∧ a.signer = x
  entries : ∀ t x, ∀ e ∈ (c.propsalState.evidence t).lookup x,
    ∃ a ∈ accepted, a.vote.type = t ∧ a.vote.validator = x ∧ a.vote = e.toConsensusMsgVote
  filed : ∀ a ∈ accepted, a.vote.type.isHandled = true →
    a.vote.validator ∈ c.propsalState.evidence a.vote.type ∨
      c.crashed = true ∧ a.signer ∈ c.propsalState.ballots a.vote.type
  sent : ∃ told, c.trace = told ++ c₀.trace ∧
    ∀ e ∈ evidenceIn told, ∃ a ∈ accepted, a.vote = e.toConsensusMsgVote

namespace Ledger

theorem of_opened {c : Consensus S M} (h : Opened c) : Ledger c [] c where
  id := rfl
  own := h.own
  amProposer := h.amProposer
  made := h.made
  signers := fun _ ha => nomatch ha
  ballots := fun t x hx => absurd hx (h.ballots t x)
  entries := fun t x _ he => absurd (mem_evidence_of_lookup he) (h.evidence t x)
  filed := fun _ ha => nomatch ha
  sent := ⟨[], rfl, fun _ he => nomatch he⟩

variable {c₀ c c' : Consensus S M} {accepted : List SignedVote}

theorem silent (h : Ledger c₀ accepted c) (hsilent : Silent (fun _ _ => False) c c')
    (hcrash : c.crashed = true → c'.crashed = true) : Ledger c₀ accepted c' := by
  obtain ⟨told, htold, hsent⟩ := h.sent
  obtain ⟨told', htold', hnone⟩ := hsilent.sent
  refine
    { id := hsilent.id.trans h.id
      own := hsilent.proposer.trans (h.own.trans hsilent.id.symm)
      amProposer := hsilent.amProposer.trans h.amProposer
      made := hsilent.made h.made
      signers := fun a ha => hsilent.id ▸ h.signers a ha
      ballots := fun t x hx => h.ballots t x ((hsilent.ballots t x hx).resolve_right not_false)
      entries := fun t x e he => h.entries t x e (hsilent.evidence t ▸ he)
      filed := fun a ha ht => ?_
      sent := ⟨told' ++ told, ?_, ?_⟩ }
  · rw [hsilent.evidence]
    exact (h.filed a ha ht).imp_right fun hdown => ⟨hcrash hdown.1, hsilent.kept _ _ hdown.2⟩
  · rw [htold', htold, List.append_assoc]
  · rw [evidenceIn_append, hnone, List.nil_append]
    exact hsent

theorem files (h : Ledger c₀ accepted c) {a : SignedVote} (hfiles : Files a c c')
    (hsigner : a.signer ≠ c.state.proposer) (hup : c.crashed = false) :
    Ledger c₀ (accepted ++ [a]) c' := by
  obtain ⟨told, htold, hsent⟩ := h.sent
  obtain ⟨told', htold', hsent'⟩ := hfiles.sent
  have hnew : a ∈ accepted ++ [a] := List.mem_append_right _ List.mem_cons_self
  have hold {b : SignedVote} (hb : b ∈ accepted) : b ∈ accepted ++ [a] := List.mem_append_left _ hb
  refine ⟨hfiles.id.trans h.id, hfiles.proposer.trans (h.own.trans hfiles.id.symm),
    hfiles.amProposer.trans h.amProposer, hfiles.made, ?_, ?_, ?_, ?_, told' ++ told, ?_, ?_⟩
  · intro b hb
    rw [hfiles.id]
    rcases List.mem_append.mp hb with hb | hb
    · exact h.signers b hb
    · obtain rfl := List.mem_singleton.mp hb
      exact h.own ▸ hsigner
  · intro t x hx
    rcases hfiles.ballots t x hx with hx | ⟨rfl, rfl⟩
    · obtain ⟨b, hb, hrest⟩ := h.ballots t x hx
      exact ⟨b, hold hb, hrest⟩
    · exact ⟨a, hnew, rfl, rfl⟩
  · intro t x e he
    rcases hfiles.entries t x e he with he | ⟨rfl, rfl, hvote⟩
    · obtain ⟨b, hb, hrest⟩ := h.entries t x e he
      exact ⟨b, hold hb, hrest⟩
    · exact ⟨a, hnew, rfl, rfl, hvote.symm⟩
  · intro b hb ht
    rcases List.mem_append.mp hb with hb | hb
    · -- before this vote the proposer was up
      have hleft := (h.filed b hb ht).resolve_right fun hdown => nomatch hdown.1.symm.trans hup
      exact .inl (hfiles.evidence _ _ hleft)
    · obtain rfl := List.mem_singleton.mp hb
      exact hfiles.filed ht
  · rw [htold', htold, List.append_assoc]
  · intro e he
    rw [evidenceIn_append] at he
    rcases List.mem_append.mp he with he | he
    · exact ⟨a, hnew, (hsent' e he).symm⟩
    · obtain ⟨b, hb, hvote⟩ := hsent e he
      exact ⟨b, hold hb, hvote⟩

variable [Store S] [Validator S] [MemPool M] [CryptoLib] [CidText] [SigLib]

theorem step (h : Ledger c₀ accepted c) {i : Env × Input S} (hi : c.LeaderInput i) :
    Ledger c₀ (accepted ++ (c.acceptedVote i.2).toList) (c.step i) := by
  cases ha : c.acceptedVote i.2 with
  | none =>
    rw [Option.toList_none, List.append_nil]
    refine h.silent (step_leader_none h.own hi ha) fun hdown => ?_
    rwa [step_of_crashed hdown]
  | some a =>
    obtain ⟨hfiles, hsigner⟩ := step_leader_some h.made h.amProposer hi ha
    exact h.files hfiles hsigner (acceptedVote_eq_some ha).1

/-- **The maps of the proposer, at any point of its round.** -/
theorem run (h : Ledger c₀ accepted c) {is : List (Env × Input S)}
    (his : Along Consensus.step LeaderInput c is) :
    Ledger c₀ (accepted ++ c.acceptedVotes is) (is.foldl Consensus.step c) := by
  induction is generalizing c accepted with
  | nil => rwa [acceptedVotes, List.append_nil]
  | cons i is ih =>
    rw [acceptedVotes, ← List.append_assoc]
    exact ih (h.step his.1) his.2

end Ledger

/-! ## The same round at another node -/

/-- What another node has of the evidence that came: entries under the name of the proposer. -/
structure Notes (leader : String) (received : List (Option ConsensusMsgEvidence))
    (c : Consensus S M) : Prop where
  proposer : c.state.proposer = leader
  amProposer : c.propsalState.amProposer = false
  made : c.propsalState.Made
  evidence : ∀ t x, x ∈ c.propsalState.evidence t →
    x = leader ∧ ∃ e, some e ∈ received ∧ e.type = t

namespace Notes

variable {p : String} {c : Consensus S M} {received : List (Option ConsensusMsgEvidence)}

theorem of_follows (h : Follows p c) : Notes p [] c :=
  ⟨h.proposer, h.amProposer, h.made, fun t x hx => absurd hx (h.evidence t x)⟩

theorem mono {received' : List (Option ConsensusMsgEvidence)} (h : Notes p received c)
    (hsub : received ⊆ received') : Notes p received' c :=
  { h with evidence := fun t x hx =>
      (h.evidence t x hx).imp_right fun ⟨e, he, ht⟩ => ⟨e, hsub he, ht⟩ }

theorem silent {new : VoteType → String → Prop} {c' : Consensus S M} (h : Notes p received c)
    (hsilent : Silent new c c') : Notes p received c' :=
  ⟨hsilent.proposer.trans h.proposer, hsilent.amProposer.trans h.amProposer, hsilent.made h.made,
    fun t x hx => h.evidence t x (hsilent.evidence t ▸ hx)⟩

theorem file (h : Notes p received c) (e : ConsensusMsgEvidence) :
    Notes p (received ++ [some e]) (c.file e.type c.state.proposer e) := by
  refine ⟨h.proposer, (amProposer_file _ _ _ _).trans h.amProposer, made_file h.made _ _ _, ?_⟩
  intro t x hx
  have hnew : some e ∈ received ++ [some e] := List.mem_append_right _ List.mem_cons_self
  have hmono := h.mono (List.subset_append_left received [some e])
  obtain ⟨e', he'⟩ := exists_lookup_of_mem_evidence hx
  rcases lookup_evidence_file h.made he' with he' | ⟨rfl, rfl, -⟩
  · exact hmono.evidence t x (mem_evidence_of_lookup he')
  · exact ⟨h.proposer, e, hnew, rfl⟩

variable [Store S] [Validator S] [MemPool M] [CryptoLib] [CidText] [SigLib]

theorem step (h : Notes p received c) {i : Env × Input S} (hi : c.FollowerInput i) :
    Notes p (received ++ (c.receivedEvidence i.2).toList) (c.step i) := by
  cases hmsg : c.receivedEvidence i.2 with
  | none =>
    rw [Option.toList_none, List.append_nil]
    exact h.silent (step_follower_none h.made h.amProposer hi hmsg)
  | some msg =>
    rcases step_follower_some h.made hmsg with hstep | ⟨e, rfl, hstep⟩
    · have hcrash : Silent (fun _ _ => False) c c.crash := .crash c
      rw [hstep]
      exact (h.silent hcrash).mono (List.subset_append_left _ _)
    · rw [hstep]
      exact h.file e

theorem run (h : Notes p received c) {js : List (Env × Input S)}
    (hjs : Along Consensus.step FollowerInput c js) :
    Notes p (received ++ c.receivedEvidences js) (js.foldl Consensus.step c) := by
  induction js generalizing c received with
  | nil => rwa [receivedEvidences, List.append_nil]
  | cons i js ih =>
    rw [receivedEvidences, ← List.append_assoc]
    exact ih (h.step hjs.1) hjs.2

end Notes

/-! ## Both -/

/-- What was sent since a state is what stands before its trace. -/
theorem sentEvidence_eq {c c' : Consensus S M} {told : List Effect}
    (h : c'.trace = told ++ c.trace) : sentEvidence c c' = evidenceIn told := by
  rw [sentEvidence, h, List.length_append, Nat.add_sub_cancel, List.take_left]

/-- Only the two handled types have evidence. -/
theorem isHandled_of_mem_evidence {p : State} {t : VoteType} {x : String} (h : x ∈ p.evidence t) :
    t.isHandled = true := by
  cases t with
  | preVote => rfl
  | preCommit => rfl
  | other n => exact absurd h (AList.notMem_empty x)

theorem isHandled_of_mem_ballots {p : State} {t : VoteType} {x : String} (h : x ∈ p.ballots t) :
    t.isHandled = true := by
  cases t with
  | preVote => rfl
  | preCommit => rfl
  | other n => exact absurd h (AList.notMem_empty x)

section Both

variable {c₀ c r : Consensus S M} {accepted : List SignedVote}
  {received : List (Option ConsensusMsgEvidence)}

/-- **Nothing is attributed when anything is accepted.** The vote is in one of the proposer's maps.
If it is evidence that is there, a vote is recorded under the same name; and for a recorded vote the
follower has no entry, because its entries are the proposer's, and the proposer does not vote. -/
theorem Ledger.not_handled (h : Ledger c₀ accepted c) (hr : Notes c.id received r)
    (hown : Attributed accepted c.propsalState c.propsalState)
    (hother : Attributed accepted c.propsalState r.propsalState) :
    ∀ a ∈ accepted, a.vote.type.isHandled = false := by
  intro a ha
  rw [Bool.eq_false_iff]
  intro ht
  obtain ⟨x, hx⟩ : ∃ x, x ∈ c.propsalState.ballots a.vote.type := by
    rcases h.filed a ha ht with hfiled | ⟨-, hmem⟩
    · exact ⟨_, (hown _ _).1.mp hfiled⟩
    · exact ⟨_, hmem⟩
  obtain ⟨b, hb, -, rfl⟩ := h.ballots _ _ hx
  exact h.signers b hb (hr.evidence _ _ ((hother _ _).1.mpr hx)).1

/-- Without a vote of a handled type all maps are empty. -/
theorem Ledger.ballots_empty (h : Ledger c₀ accepted c)
    (hnone : ∀ a ∈ accepted, a.vote.type.isHandled = false) (t : VoteType) (x : String) :
    x ∉ c.propsalState.ballots t := by
  intro hx
  obtain ⟨a, ha, rfl, -⟩ := h.ballots t x hx
  exact absurd (isHandled_of_mem_ballots hx) (by simp [hnone a ha])

theorem Ledger.evidence_empty (h : Ledger c₀ accepted c)
    (hnone : ∀ a ∈ accepted, a.vote.type.isHandled = false) (t : VoteType) (x : String) :
    x ∉ c.propsalState.evidence t := by
  intro hx
  obtain ⟨e, he⟩ := exists_lookup_of_mem_evidence hx
  obtain ⟨a, ha, rfl, -⟩ := h.entries t x e he
  exact absurd (isHandled_of_mem_evidence hx) (by simp [hnone a ha])

/-- The evidence that reached the follower is of accepted votes. -/
theorem Notes.evidence_empty (h : Ledger c₀ accepted c) (hr : Notes c.id received r)
    (hreceived : received.Perm ((sentEvidence c₀ c).map some))
    (hnone : ∀ a ∈ accepted, a.vote.type.isHandled = false) (t : VoteType) (x : String) :
    x ∉ r.propsalState.evidence t := by
  intro hx
  obtain ⟨-, e, he, rfl⟩ := hr.evidence t x hx
  obtain ⟨told, htold, hsent⟩ := h.sent
  rw [hreceived.mem_iff, sentEvidence_eq htold, List.mem_map] at he
  obtain ⟨e', he', heq⟩ := he
  obtain rfl := Option.some.inj heq
  obtain ⟨a, ha, hvote⟩ := hsent e' he'
  have htype : a.vote.type = e'.type := congrArg ConsensusMsgVote.type hvote
  exact absurd (isHandled_of_mem_evidence hx) (by simp [← htype, hnone a ha])

/-- Empty maps have nothing that could be attributed wrongly. -/
theorem attributed_of_empty {votes evidence : State} (hvotes : ∀ t x, x ∉ votes.ballots t)
    (hevidence : ∀ t x, x ∉ evidence.evidence t) : Attributed accepted votes evidence :=
  fun t x => ⟨iff_of_false (hevidence t x) (hvotes t x), fun _ he =>
    absurd (mem_evidence_of_lookup he) (hevidence t x)⟩

/-- **The proposer's own maps**, where every voter names itself. -/
theorem Ledger.attributed_iff (h : Ledger c₀ accepted c) (hup : c.crashed = false)
    (hnames : ∀ a ∈ accepted, a.vote.validator = a.signer) :
    Attributed accepted c.propsalState c.propsalState ↔
      ∀ a ∈ accepted, a.vote.type.isHandled = true →
        a.signer ∈ c.propsalState.ballots a.vote.type := by
  have hfiled : ∀ a ∈ accepted, a.vote.type.isHandled = true →
      a.signer ∈ c.propsalState.evidence a.vote.type := by
    intro a ha ht
    have hleft := (h.filed a ha ht).resolve_right fun hdown => nomatch hdown.1.symm.trans hup
    exact hnames a ha ▸ hleft
  constructor
  · intro hown a ha ht
    exact (hown _ _).1.mp (hfiled a ha ht)
  · intro hrecorded t x
    refine ⟨⟨fun hx => ?_, fun hx => ?_⟩, fun e he => ?_⟩
    · obtain ⟨e, he⟩ := exists_lookup_of_mem_evidence hx
      obtain ⟨a, ha, rfl, rfl, -⟩ := h.entries t x e he
      exact hnames a ha ▸ hrecorded a ha (isHandled_of_mem_evidence hx)
    · obtain ⟨a, ha, rfl, rfl⟩ := h.ballots t x hx
      exact hfiled a ha (isHandled_of_mem_ballots hx)
    · obtain ⟨a, ha, -, rfl, hvote⟩ := h.entries t x e he
      rw [hnames a ha, ← hvote]
      exact ha

end Both

section Evidence

variable [Store S] [Validator S] [MemPool M] [CryptoLib] [CidText] [SigLib]

/-- **Evidence of votes in a round.** The proposer takes in anything that leaves it in the round. So
does another node, which gets the evidence the proposer sends, in any order and without loss. The
maps of both have one entry for each recorded vote, under the name of its signer, exactly when no
prevote and no precommit is accepted.

The proposer's alone are right more often: if it stays up and voters name themselves, when every
vote that is accepted is also recorded. -/
theorem evidence_attributed_iff (c r : Consensus S M) (hc : Opened c) (hr : Follows c.id r)
    (is js : List (Env × Input S)) (his : Along step LeaderInput c is)
    (hjs : Along step FollowerInput r js)
    (hdelivered : (r.receivedEvidences js).Perm ((sentEvidence c (is.foldl step c)).map some)) :
    ((Attributed (c.acceptedVotes is) (is.foldl step c).propsalState
          (is.foldl step c).propsalState ∧
        Attributed (c.acceptedVotes is) (is.foldl step c).propsalState
          (js.foldl step r).propsalState) ↔
      ∀ a ∈ c.acceptedVotes is, a.vote.type.isHandled = false) ∧
    ((is.foldl step c).crashed = false →
      (∀ a ∈ c.acceptedVotes is, a.vote.validator = a.signer) →
      (Attributed (c.acceptedVotes is) (is.foldl step c).propsalState
          (is.foldl step c).propsalState ↔
        ∀ a ∈ c.acceptedVotes is, a.vote.type.isHandled = true →
          a.signer ∈ (is.foldl step c).propsalState.ballots a.vote.type)) := by
  have hledger : Ledger c (c.acceptedVotes is) (is.foldl step c) := (Ledger.of_opened hc).run his
  have hnotes : Notes (is.foldl step c).id (r.receivedEvidences js) (js.foldl step r) :=
    hledger.id.symm ▸ (Notes.of_follows hr).run hjs
  refine ⟨⟨fun h => hledger.not_handled hnotes h.1 h.2, fun hnone => ?_⟩, hledger.attributed_iff⟩
  have hballots := hledger.ballots_empty hnone
  exact ⟨attributed_of_empty hballots (hledger.evidence_empty hnone),
    attributed_of_empty hballots (hnotes.evidence_empty hledger hdelivered hnone)⟩

end Evidence

section

open Storage.Sample Sample

instance decidableLeaderInput (c : Consensus MemStore TxMemPool) (i : Env × Input MemStore) :
    Decidable (c.LeaderInput i) :=
  inferInstanceAs (Decidable (∀ call ∈ c.calls i.2, call.reachesLeader c.id = true))

instance decidableFollowerInput (c : Consensus MemStore TxMemPool) (i : Env × Input MemStore) :
    Decidable (c.FollowerInput i) :=
  inferInstanceAs (Decidable (∀ call ∈ c.calls i.2, call.staysInRound c.state.proposer = true))

/-- The votes of the two others for no block, all in time. -/
def votesInTime : List (Env × Input MemStore) :=
  [.preVote, .preCommit].flatMap fun t => ["a", "b"].map fun id =>
    recv (vote id t 1 1 Cid.undef.string)

/-- The evidence a proposer has sent, the last first, as it comes in elsewhere. -/
def evidenceFrom (c : Consensus MemStore TxMemPool) : List (Env × Input MemStore) :=
  c.trace.filterMap fun
    | .sent m => if m.evidence?.isSome then some (recv m) else none
    | _ => none

theorem leaderOfThree_opened : Opened leaderOfThree :=
  opened_of_startRound (c := { (node "p").setStep .propose with
    state := { (node "p").state with proposer := "p" } }) env false rfl

theorem ticked_follows : Follows "p" (ticked "a") :=
  follows_of_startRound (c := { (node "a").setStep .propose with
    state := { (node "a").state with proposer := "p" } }) env false (by decide)

/-- **Two honest voters, and all in time.** The proposer's maps are right. Those of the node that gets
its evidence are not. -/
theorem votesInTime_attributed :
    Attributed (leaderOfThree.acceptedVotes votesInTime)
        (votesInTime.foldl step leaderOfThree).propsalState
        (votesInTime.foldl step leaderOfThree).propsalState ∧
      ¬ Attributed (leaderOfThree.acceptedVotes votesInTime)
        (votesInTime.foldl step leaderOfThree).propsalState
        ((evidenceFrom (votesInTime.foldl step leaderOfThree)).foldl step
          (ticked "a")).propsalState := by
  have hid : leaderOfThree.id = "p" := by decide +kernel
  obtain ⟨hboth, hown⟩ := evidence_attributed_iff leaderOfThree (ticked "a") leaderOfThree_opened
    (hid ▸ ticked_follows) votesInTime (evidenceFrom (votesInTime.foldl step leaderOfThree))
    (by decide +kernel) (by decide +kernel) (by decide +kernel)
  have hright := (hown (by decide +kernel) (by decide +kernel)).mpr (by decide +kernel)
  exact ⟨hright, fun hother => absurd (hboth.mp ⟨hright, hother⟩) (by decide +kernel)⟩

/-- A prevote of `a` in the name of `z`. -/
def misnamedVote : Msg :=
  signed "a"
    { type := .vote, vote := some ⟨.preVote, 1, 1, Cid.undef.string, 7, "z"⟩ }

/-- **Evidence is lost and misattributed.** Of two honest voters, in time, the other node gets all
the evidence, and has one entry of each type, under the name of the proposer. The proposer itself
files a prevote under the name it gives, and has evidence of a precommit that came early and is
not recorded. -/
theorem evidence_lost_and_misattributed :
    ((votesInTime.foldl step leaderOfThree).propsalState.preVotes.map AList.keys = some ["b", "a"] ∧
      ((ticked "a").receivedEvidences
        (evidenceFrom (votesInTime.foldl step leaderOfThree))).Perm
        ((sentEvidence leaderOfThree (votesInTime.foldl step leaderOfThree)).map some) ∧
      ((evidenceFrom (votesInTime.foldl step leaderOfThree)).foldl step
        (ticked "a")).propsalState.preVotesEvidence.map AList.keys = some ["p"] ∧
      ((evidenceFrom (votesInTime.foldl step leaderOfThree)).foldl step
        (ticked "a")).propsalState.preCommitsEvidence.map AList.keys = some ["p"]) ∧
    ((leaderOfThree.step (recv misnamedVote)).propsalState.preVotes.map AList.keys = some ["a"] ∧
      (leaderOfThree.step (recv misnamedVote)).propsalState.preVotesEvidence.map AList.keys =
        some ["z"]) ∧
    ((leaderOfThree.step
        (recv (vote "a" .preCommit 1 1 Cid.undef.string))).propsalState.preCommits.map AList.keys =
        some [] ∧
      (leaderOfThree.step
        (recv (vote "a" .preCommit 1 1 Cid.undef.string))).propsalState.preCommitsEvidence.map
          AList.keys = some ["a"]) := by
  decide +kernel

end

end Consensus
end Didem
