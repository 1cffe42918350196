import Didem.Consensus.Handlers

/-!
# The voting machine

What the protocol is about: votes, the lock, the step and the commit. A `Core` is a node without its
store, mempool, keys and evidence, and a `Move` is one thing a node can do, with what the outside
decided as its arguments: which blocks validate, what the proposer builds, which messages go out.
The machine has no failures of its own. An early exit of a handler is a move that did less.

`Enabled` says when a move can be made and `apply` what it does; every invariant of a node is proved
about these two and never about a handler.
-/

set_option autoImplicit false

namespace Didem

open Lib Storage

def State.noEvidence (p : State) : State :=
  { p with preVotesEvidence := none, preCommitsEvidence := none }

@[ext] structure Core where
  id : String
  state : State
  propsalState : State
  pending : Nat
  trace : List Effect

/-- A node as the machine sees it. -/
def Consensus.core {S M : Type} (c : Consensus S M) : Core :=
  ⟨c.id, c.state, c.propsalState.noEvidence, c.pending, c.trace⟩

inductive Move where
  /-- Nothing but messages that are neither votes nor announcements. -/
  | quiet (told : List Msg)
  /-- `startRound`, under this proposer and as far as it came. -/
  | restart (inc : Bool) (proposer : String) (f : Nat) (block : Cid) (step : Step)
      (told : List Msg)
  /-- A `NewRound` that was not ignored. -/
  | adopt (sender : String) (height : UInt64) (round : UInt32)
  /-- A proposal that was not ignored, the block to vote for and whether it was validated. -/
  | proposal (block : Cid) (checked : Bool) (step : Step) (vote : Option Msg)
  | timeoutProposal (vote : Option Msg)
  | preVote (msg : Msg) (sender : String) (vote : Option Msg) (told : List Msg)
  | timeoutPrevote (vote : Option Msg)
  | preCommit (msg : Msg) (sender : String) (told : List Msg)
  /-- A block message that passed the guard; not finished when the store panicked. -/
  | block (msg : ConsensusMsgBlock) (sender : String) (finished : Bool)
  /-- The delayed closure: `none` when `sendBlock` failed, `some none` without a signing key. -/
  | gracePeriod (announced : Option (Option Msg)) (finished : Bool)

/-- The move enters a round. -/
def Move.isEntry : Move → Bool
  | .restart _ _ _ _ _ _ | .adopt _ _ _ => true
  | _ => false

namespace Core

/-! ## What a move does -/

/-- The book with this vote in it. -/
def enter (book : Option VoteBook) (msg : Msg) : VoteBook :=
  (book.getD ∅).insert msg.sender msg

/-- The prevote completes a quorum. -/
def Locks (k : Core) (msg : Msg) : Prop :=
  (enter k.propsalState.preVotes msg).keys.length > k.propsalState.f ∧ k.propsalState.pcOnce = false

/-- The precommit completes a quorum. -/
def Certifies (k : Core) (msg : Msg) : Prop :=
  (enter k.propsalState.preCommits msg).keys.length > k.propsalState.f ∧
    k.propsalState.sbOnce = false

instance (k : Core) (msg : Msg) : Decidable (k.Locks msg) := inferInstanceAs (Decidable (_ ∧ _))

instance (k : Core) (msg : Msg) : Decidable (k.Certifies msg) := inferInstanceAs (Decidable (_ ∧ _))

/-- The tip after a commit. -/
def nextTip (k : Core) : Tip := ⟨k.propsalState.height, k.propsalState.lockedValue, k.state.block⟩

/-- The lines of `onBlock` after the guard. -/
def commit (finished : Bool) (k : Core) : Core :=
  if finished then
    { k with
      state :=
        { k.state with
          height := k.nextTip.height, block := k.nextTip.block
          parentBlock := k.nextTip.parentBlock } }
  else k

/-- What they leave in the trace. -/
def commitEffects (finished : Bool) (k : Core) : List Effect :=
  (if finished then [.committed k.state.tip k.nextTip] else []) ++
    if k.propsalState.lockedValue = .undef then []
    else [.accepted k.propsalState.lockedValue k.propsalState.amProposer]

/-- The closure's own message passes the guard of `onBlock`. -/
def CommitsOwn (k : Core) : Prop := k.id = k.state.proposer ∧ k.propsalState.step = .block

instance (k : Core) : Decidable k.CommitsOwn := inferInstanceAs (Decidable (_ ∧ _))

/-- What a move adds to the trace. -/
def effects (k : Core) : Move → List Effect
  | .quiet told => told.map .sent
  | .restart inc _ _ _ _ told => told.map .sent ++ [.startRound inc]
  | .adopt _ _ _ => []
  | .proposal block checked _ vote =>
    vote.toList.map .sent ++ if checked then [.validated block] else []
  | .timeoutProposal vote | .timeoutPrevote vote => vote.toList.map .sent
  | .preVote _ _ vote told => told.map .sent ++ vote.toList.map .sent
  | .preCommit msg _ told =>
    told.map .sent ++
      if k.Certifies msg then
        [.certified k.propsalState.height k.propsalState.round k.propsalState.block
          (enter k.propsalState.preCommits msg).keys]
      else []
  | .block _ _ finished => k.commitEffects finished
  | .gracePeriod announced finished =>
    match announced with
    | none => []
    | some sent =>
      (if k.CommitsOwn then k.commitEffects finished else []) ++ sent.toList.map .sent

/-- What a move does to the rest. -/
def next (k : Core) : Move → Core
  | .quiet _ => k
  | .restart inc proposer f block step _ =>
    { k with
      state := { k.state with proposer := proposer }
      propsalState :=
        { k.propsalState.cleared.noEvidence with
          amProposer := proposer == k.id, height := k.state.height + 1
          round := if inc then k.propsalState.round + 1 else 1
          f := f, block := block, step := step } }
  | .adopt _ height round =>
    { k with
      propsalState := { k.propsalState.cleared.noEvidence with height := height, round := round } }
  | .proposal block _ step _ =>
    { k with
      propsalState :=
        if k.propsalState.pvOnce then k.propsalState
        else { k.propsalState with block := block, pvOnce := true, step := step } }
  | .timeoutProposal _ =>
    { k with propsalState := { k.propsalState with step := .prevote, pvOnce := true } }
  | .preVote msg _ _ _ =>
    let p := { k.propsalState with preVotes := some (enter k.propsalState.preVotes msg) }
    { k with
      propsalState :=
        if k.Locks msg then
          { p with step := .precommit, lockedValue := p.block, lockedRound := p.round
                   pcOnce := true }
        else p }
  | .timeoutPrevote _ =>
    { k with propsalState := { k.propsalState with step := .precommit, pcOnce := true } }
  | .preCommit msg _ _ =>
    let p := { k.propsalState with preCommits := some (enter k.propsalState.preCommits msg) }
    { k with
      propsalState := if k.Certifies msg then { p with step := .block, sbOnce := true } else p
      pending := if k.Certifies msg ∧ p.amProposer then k.pending + 1 else k.pending }
  | .block _ _ finished => k.commit finished
  | .gracePeriod announced finished =>
    let k := { k with pending := k.pending - 1 }
    if announced.isSome ∧ k.CommitsOwn then k.commit finished else k

def apply (k : Core) (move : Move) : Core :=
  { k.next move with trace := k.effects move ++ k.trace }

/-! ### What it leaves alone -/

@[simp] theorem trace_apply (k : Core) (move : Move) :
    (k.apply move).trace = k.effects move ++ k.trace := rfl

@[simp] theorem propsalState_commit (finished : Bool) (k : Core) :
    (k.commit finished).propsalState = k.propsalState := by
  cases finished <;> rfl

@[simp] theorem id_commit (finished : Bool) (k : Core) : (k.commit finished).id = k.id := by
  cases finished <;> rfl

@[simp] theorem proposer_commit (finished : Bool) (k : Core) :
    (k.commit finished).state.proposer = k.state.proposer := by
  cases finished <;> rfl

@[simp] theorem propsalState_apply_block (k : Core) (msg : ConsensusMsgBlock) (sender : String)
    (finished : Bool) : (k.apply (.block msg sender finished)).propsalState = k.propsalState :=
  propsalState_commit finished k

@[simp] theorem propsalState_apply_gracePeriod (k : Core) (announced : Option (Option Msg))
    (finished : Bool) :
    (k.apply (.gracePeriod announced finished)).propsalState = k.propsalState := by
  simp only [apply, next]
  split
  · exact propsalState_commit finished _
  · rfl

@[simp] theorem id_apply (k : Core) (move : Move) : (k.apply move).id = k.id := by
  cases move with
  | block msg sender finished => exact id_commit finished k
  | gracePeriod announced finished =>
    simp only [apply, next]
    split
    · exact id_commit finished _
    · rfl
  | _ => rfl

/-- Only a restart changes the proposer. -/
theorem proposer_apply (k : Core) (move : Move)
    (hmove : ∀ inc proposer f block step told, move ≠ .restart inc proposer f block step told) :
    (k.apply move).state.proposer = k.state.proposer := by
  cases move with
  | restart inc proposer f block step told =>
    exact absurd rfl (hmove inc proposer f block step told)
  | block msg sender finished => exact proposer_commit finished k
  | gracePeriod announced finished =>
    simp only [apply, next]
    split
    · exact proposer_commit finished _
    · rfl
  | _ => rfl

/-- Within a round, the height and the round stay. -/
theorem round_apply {k : Core} {move : Move} (hmove : move.isEntry = false) :
    (k.apply move).propsalState.height = k.propsalState.height ∧
      (k.apply move).propsalState.round = k.propsalState.round := by
  cases move with
  | restart inc proposer f block step told => exact absurd hmove (by simp [Move.isEntry])
  | adopt sender height round => exact absurd hmove (by simp [Move.isEntry])
  | proposal block checked step vote => simp only [apply, next]; split <;> exact ⟨rfl, rfl⟩
  | preVote msg sender vote told => simp only [apply, next]; split <;> exact ⟨rfl, rfl⟩
  | preCommit msg sender told => simp only [apply, next]; split <;> exact ⟨rfl, rfl⟩
  | block msg sender finished => simp
  | gracePeriod announced finished => simp
  | _ => exact ⟨rfl, rfl⟩

@[simp] theorem preVotes_apply_preVote (k : Core) (msg : Msg) (sender : String)
    (vote : Option Msg) (told : List Msg) :
    (k.apply (.preVote msg sender vote told)).propsalState.preVotes =
      some (enter k.propsalState.preVotes msg) := by
  simp only [apply, next]
  split <;> rfl

@[simp] theorem preCommits_apply_preCommit (k : Core) (msg : Msg) (sender : String)
    (told : List Msg) : (k.apply (.preCommit msg sender told)).propsalState.preCommits =
      some (enter k.propsalState.preCommits msg) := by
  simp only [apply, next]
  split <;> rfl

/-- The precommits held are kept, dropped or have one more. -/
theorem preCommits_apply (k : Core) (move : Move) :
    (k.apply move).propsalState.preCommits = k.propsalState.preCommits ∨
      (k.apply move).propsalState.preCommits = some ∅ ∨
      ∃ msg sender told, move = .preCommit msg sender told := by
  cases move with
  | restart inc proposer f block step told => exact .inr (.inl rfl)
  | adopt sender height round => exact .inr (.inl rfl)
  | preCommit msg sender told => exact .inr (.inr ⟨msg, sender, told, rfl⟩)
  | proposal block checked step vote => simp only [apply, next]; split <;> exact .inl rfl
  | preVote msg sender vote told => simp only [apply, next]; split <;> exact .inl rfl
  | block msg sender finished => exact .inl (by simp)
  | gracePeriod announced finished => exact .inl (by simp)
  | quiet told => exact .inl rfl
  | timeoutProposal vote => exact .inl rfl
  | timeoutPrevote vote => exact .inl rfl

/-! ### What it records -/

/-- The move passes the guard of `onBlock`. -/
def Commits (k : Core) : Move → Prop
  | .block _ _ _ => True
  | .gracePeriod announced _ => announced.isSome ∧ k.CommitsOwn
  | _ => False

/-- The move sends this message. -/
def Sends (m : Msg) : Move → Prop
  | .quiet told | .restart _ _ _ _ _ told | .preCommit _ _ told => m ∈ told
  | .proposal _ _ _ vote | .timeoutProposal vote | .timeoutPrevote vote => m ∈ vote
  | .preVote _ _ vote told => m ∈ told ∨ m ∈ vote
  | .gracePeriod announced _ => ∃ sent ∈ announced, m ∈ sent
  | _ => False

/-- Where an effect comes from. -/
def Emits (k : Core) (move : Move) : Effect → Prop
  | .sent m => Sends m move
  | .startRound inc => ∃ proposer f block step told,
    move = .restart inc proposer f block step told
  | .validated c => ∃ step vote, move = .proposal c true step vote
  | .certified height round c voters => ∃ msg sender told, move = .preCommit msg sender told ∧
    k.Certifies msg ∧ height = k.propsalState.height ∧ round = k.propsalState.round ∧
    c = k.propsalState.block ∧ voters = (enter k.propsalState.preCommits msg).keys
  | .accepted c am => k.Commits move ∧ c = k.propsalState.lockedValue ∧ c ≠ .undef ∧
    am = k.propsalState.amProposer
  | .committed before after => k.Commits move ∧ before = k.state.tip ∧ after = k.nextTip

theorem emits_of_mem_sent {k : Core} {move : Move} {told : List Msg} {e : Effect}
    (h : e ∈ told.map Effect.sent) (hsends : ∀ m ∈ told, Sends m move) : k.Emits move e := by
  obtain ⟨m, hm, rfl⟩ := List.mem_map.mp h
  exact hsends m hm

theorem emits_of_mem_commitEffects {k : Core} {move : Move} {finished : Bool} {e : Effect}
    (hmove : k.Commits move) (h : e ∈ k.commitEffects finished) : k.Emits move e := by
  unfold commitEffects at h
  rcases List.mem_append.mp h with h | h
  · split at h
    · rw [List.mem_singleton.mp h]
      exact ⟨hmove, rfl, rfl⟩
    · exact absurd h (by simp)
  · split at h
    · exact absurd h (by simp)
    · next hlocked =>
      rw [List.mem_singleton.mp h]
      exact ⟨hmove, rfl, hlocked, rfl⟩

/-- **Every effect of a move has its reason.** -/
theorem emits_of_mem {k : Core} {move : Move} {e : Effect} (h : e ∈ k.effects move) :
    k.Emits move e := by
  cases move with
  | quiet told => exact emits_of_mem_sent h fun m hm => hm
  | restart inc proposer f block step told =>
    rcases List.mem_append.mp h with h | h
    · exact emits_of_mem_sent h fun m hm => hm
    · rw [List.mem_singleton.mp h]
      exact ⟨proposer, f, block, step, told, rfl⟩
  | adopt sender height round => exact absurd h (by simp [effects])
  | proposal block checked step vote =>
    rcases List.mem_append.mp h with h | h
    · exact emits_of_mem_sent h fun m hm => Option.mem_toList.mp hm
    · cases checked with
      | false => exact absurd h (by simp)
      | true =>
        rw [List.mem_singleton.mp h]
        exact ⟨step, vote, rfl⟩
  | timeoutProposal vote => exact emits_of_mem_sent h fun m hm => Option.mem_toList.mp hm
  | preVote msg sender vote told =>
    rcases List.mem_append.mp h with h | h
    · exact emits_of_mem_sent h fun m hm => .inl hm
    · exact emits_of_mem_sent h fun m hm => .inr (Option.mem_toList.mp hm)
  | timeoutPrevote vote => exact emits_of_mem_sent h fun m hm => Option.mem_toList.mp hm
  | preCommit msg sender told =>
    rcases List.mem_append.mp h with h | h
    · exact emits_of_mem_sent h fun m hm => hm
    · split at h
      · next hcertifies =>
        rw [List.mem_singleton.mp h]
        exact ⟨msg, sender, told, rfl, hcertifies, rfl, rfl, rfl, rfl⟩
      · exact absurd h (by simp)
  | block msg sender finished => exact emits_of_mem_commitEffects trivial h
  | gracePeriod announced finished =>
    cases announced with
    | none => exact absurd h (by simp [effects])
    | some sent =>
      rcases List.mem_append.mp h with h | h
      · split at h
        · next hown => exact emits_of_mem_commitEffects ⟨rfl, hown⟩ h
        · exact absurd h (by simp)
      · exact emits_of_mem_sent h fun m hm => ⟨sent, rfl, Option.mem_toList.mp hm⟩

/-! ## When it can be made -/

/-- A message of this node that is neither a vote nor an announcement. -/
def Talk (k : Core) (m : Msg) : Prop :=
  m.sender = k.id ∧ m.vote? = none ∧ m.announcement? = none

/-- A vote of this node for a value, in its present round. -/
def Votes (k : Core) (t : VoteType) (value : String → Prop) (m : Msg) : Prop :=
  m.sender = k.id ∧ m.announcement? = none ∧ ∃ v, m.vote? = some v ∧ v.type = t ∧
    v.height = k.propsalState.height ∧ v.round = k.propsalState.round ∧ value v.blockID

/-- A vote of another node, for what this one is voting on. -/
def Counted [CidText] (k : Core) (t : VoteType) (msg : Msg) : Prop :=
  ∃ v ∈ msg.vote?, v.type = t ∧ v.height = k.propsalState.height ∧
    v.round = k.propsalState.round ∧ v.blockID = k.propsalState.block.string

instance [CidText] (k : Core) (t : VoteType) (msg : Msg) : Decidable (k.Counted t msg) :=
  inferInstanceAs (Decidable (∃ v ∈ msg.vote?, _))

/-- This node's announcement of what it has locked. -/
def Announces [CidText] (k : Core) (m : Msg) : Prop :=
  m.sender = k.id ∧ m.vote? = none ∧ ∃ b, m.announcement? = some b ∧
    b.height = k.propsalState.height ∧ b.round = k.propsalState.lockedRound ∧
    b.cid = k.propsalState.lockedValue.string

/-- The guard of `onBlock`. -/
def Passes [CidText] (k : Core) (msg : ConsensusMsgBlock) (sender : String) : Prop :=
  sender = k.state.proposer ∧ k.propsalState.step = .block ∧
    msg.cid = k.propsalState.lockedValue.string ∧ k.propsalState.lockedRound = msg.round

instance [CidText] (k : Core) (msg : ConsensusMsgBlock) (sender : String) :
    Decidable (k.Passes msg sender) := inferInstanceAs (Decidable (_ ∧ _))

def Enabled [CidText] (k : Core) : Move → Prop
  | .quiet told => ∀ m ∈ told, k.Talk m
  | .restart inc proposer f block step told =>
    (inc = true → proposer = k.state.proposer) ∧ (step = .propose ∨ step = .prevote) ∧
    (∀ m ∈ told, k.Talk m) ∧
    -- only a proposer sets the threshold and builds a block
    (proposer ≠ k.id → f = k.propsalState.f ∧
      block = if inc then k.propsalState.block else .undef)
  | .adopt sender _ _ => sender = k.state.proposer
  | .proposal block checked step vote =>
    k.propsalState.step = .propose ∧ (step = .propose ∨ step = .prevote) ∧
    (checked = false → block = .undef) ∧
    ∀ m ∈ vote, k.propsalState.pvOnce = false ∧ k.Votes .preVote (fun _ => True) m
  | .timeoutProposal vote =>
    (k.propsalState.height = k.state.height ∨ k.propsalState.step = .propose) ∧
    ∀ m ∈ vote, k.propsalState.pvOnce = false ∧ k.Votes .preVote (· = "") m
  | .preVote msg sender vote told =>
    k.propsalState.step = .prevote ∧ k.propsalState.preVotes ≠ none ∧
    sender ≠ k.state.proposer ∧ k.Counted .preVote msg ∧
    (∀ m ∈ vote, k.Locks msg ∧ k.Votes .preCommit (· = k.propsalState.block.string) m) ∧
    ∀ m ∈ told, k.Talk m
  | .timeoutPrevote vote =>
    (k.propsalState.height = k.state.height ∨ k.propsalState.step = .prevote) ∧
    ∀ m ∈ vote, k.propsalState.pcOnce = false ∧ k.Votes .preCommit (· = "") m
  | .preCommit msg sender told =>
    k.propsalState.step = .precommit ∧ k.propsalState.preCommits ≠ none ∧
    sender ≠ k.state.proposer ∧ k.Counted .preCommit msg ∧ ∀ m ∈ told, k.Talk m
  | .block msg sender _ => k.Passes msg sender
  | .gracePeriod announced _ => 0 < k.pending ∧ ∀ sent ∈ announced, ∀ m ∈ sent, k.Announces m

/-! ## What is said -/

theorem Votes.of_vote? {k : Core} {t : VoteType} {value : String → Prop} {m : Msg}
    (h : k.Votes t value m) {v : ConsensusMsgVote} (hv : m.vote? = some v) :
    v.type = t ∧ v.height = k.propsalState.height ∧ v.round = k.propsalState.round ∧
      value v.blockID := by
  obtain ⟨-, -, w, hw, hrest⟩ := h
  obtain rfl : v = w := Option.some.inj (hv.symm.trans hw)
  exact hrest

theorem Talk.vote?_ne {k : Core} {m : Msg} (h : k.Talk m) (v : ConsensusMsgVote) :
    m.vote? ≠ some v := by
  rw [h.2.1]
  simp

/-- Why a move sends a message: it is talk, the one vote of the move or its announcement. -/
inductive Says [CidText] (k : Core) (m : Msg) : Move → Prop
  | talk {move : Move} : k.Talk m → Says k m move
  | proposal {block : Cid} {checked : Bool} {step : Step} :
    k.propsalState.pvOnce = false → k.Votes .preVote (fun _ => True) m →
    Says k m (.proposal block checked step (some m))
  | timeoutProposal :
    k.propsalState.pvOnce = false → k.Votes .preVote (· = "") m →
    Says k m (.timeoutProposal (some m))
  | preVote {msg : Msg} {sender : String} {told : List Msg} :
    k.Locks msg → k.Votes .preCommit (· = k.propsalState.block.string) m →
    Says k m (.preVote msg sender (some m) told)
  | timeoutPrevote :
    k.propsalState.pcOnce = false → k.Votes .preCommit (· = "") m →
    Says k m (.timeoutPrevote (some m))
  | gracePeriod {finished : Bool} :
    0 < k.pending → k.Announces m → Says k m (.gracePeriod (some (some m)) finished)

/-- **Every message of an enabled move has its reason.** -/
theorem says_of_sends [CidText] {k : Core} {move : Move} (hen : k.Enabled move) {m : Msg}
    (hm : Sends m move) : k.Says m move := by
  cases move with
  | quiet told => exact .talk (hen m hm)
  | restart inc proposer f block step told => exact .talk (hen.2.2.1 m hm)
  | adopt sender height round => exact hm.elim
  | proposal block checked step vote =>
    obtain rfl : vote = some m := hm
    obtain ⟨honce, hvotes⟩ := hen.2.2.2 m rfl
    exact .proposal honce hvotes
  | timeoutProposal vote =>
    obtain rfl : vote = some m := hm
    obtain ⟨honce, hvotes⟩ := hen.2 m rfl
    exact .timeoutProposal honce hvotes
  | preVote msg sender vote told =>
    obtain ⟨-, -, -, -, hvote, htold⟩ := hen
    rcases hm with hm | hm
    · exact .talk (htold m hm)
    · obtain rfl : vote = some m := hm
      obtain ⟨hlocks, hvotes⟩ := hvote m rfl
      exact .preVote hlocks hvotes
  | timeoutPrevote vote =>
    obtain rfl : vote = some m := hm
    obtain ⟨honce, hvotes⟩ := hen.2 m rfl
    exact .timeoutPrevote honce hvotes
  | preCommit msg sender told => exact .talk (hen.2.2.2.2 m hm)
  | block msg sender finished => exact hm.elim
  | gracePeriod announced finished =>
    obtain ⟨sent, hsent, hm⟩ := hm
    obtain rfl : announced = some sent := hsent
    obtain rfl : sent = some m := hm
    exact .gracePeriod hen.1 (hen.2 _ rfl m rfl)

end Core
end Didem
