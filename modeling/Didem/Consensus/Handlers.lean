import Didem.Consensus.Blocks
import Didem.Lib.Quorum

/-!
# The handlers

The rest of `consensus.go`: rounds, messages and timeouts, in the order of the file. A handler that
logs an error and goes on is `logged`; a nil pointer that is dereferenced is a panic, at the place
where the source first reads through it and not before.

The threshold `f` is worth following. It is written on one line, on the path of `startRound` that
only a proposer takes, and read by everyone in `onPreVote` and `onPreCommit`.
-/

set_option autoImplicit false

namespace Didem

open Lib Storage

/-- What `startRound` and `onNewRound` reset alike: the lock, the four maps, the three Onces and the
step. -/
def State.cleared (p : State) : State :=
  { p with
    lockedRound := 0, lockedValue := .undef, step := .propose
    preVotes := some ∅, preCommits := some ∅
    preVotesEvidence := some ∅, preCommitsEvidence := some ∅
    pvOnce := false, pcOnce := false, sbOnce := false }

namespace Consensus

variable {S M : Type} [Store S] [Validator S] [MemPool M] [CryptoLib] [CidText]

/-! ## Rounds -/

/-- The assignments at the start of `startRound`, down to the first thing that can fail. -/
def openRound (inc : Bool) (c : Consensus S M) : Consensus S M :=
  let am := c.state.proposer == c.id
  let block := if inc then c.propsalState.block else .undef
  let round := if inc then c.propsalState.round + 1 else 1
  -- a node that is not the proposer and has no block yet is still waiting for a proposal
  let waiting := am = false ∧ block = .undef ∧ round > 1
  { c with
    propsalState :=
      { c.propsalState.cleared with
        amProposer := am, height := c.state.height + 1, round := round, block := block
        step := if inc ∧ ¬ waiting then .prevote else .propose }
    trace := .startRound inc :: c.trace }

/-- The loop that takes the node itself out of the node list, on the list's backing array `l`, of
which the first `n` entries are the list. -/
def removeSelfList (id : String) : Nat → Nat → List String → Nat → Outcome Err (List String)
  | 0, _, l, n => .ok (l.take n)
  | left + 1, i, l, n =>
    if l.getD i "" = id then
      if i < n then removeSelfList id left (i + 1) (l.set i (l.getD (n - 1) "")) (n - 1)
      else .panic
    else removeSelfList id left (i + 1) l n

/-- The length of the list the loop leaves. -/
def removeSelf (id : String) (left i : Nat) (l : List String) (n : Nat) : Outcome Err Nat := do
  let rest ← removeSelfList id left i l n
  return rest.length

/-- The proposer's own block, built unless there is one from an earlier round. -/
def buildBlock (ω : Env) : Engine S M Unit := do
  let c ← .get
  if c.propsalState.block ≠ .undef then return ()
  else
    match ← (makeBlock ω).wrap (·.wrap "making new block") with
    | none => return ()
    | some block =>
      let id ← (onStore (Store.putBlock ω.toRuntime block)).wrap (·.wrap "storing new block")
      .modify (update fun p => { p with block := id })

/-- The part of `startRound` for the proposer. -/
def lead (ω : Env) : Engine S M Unit := do
  (sendNewRound ω).wrap (·.wrap "sending new round")
  let c ← .get
  let nodes ← .lift ((Store.nodes c.store).mapErr (·.wrap "getting nodes"))
  let n ← .lift (removeSelf c.id nodes.length 0 nodes nodes.length)
  .modify (update fun p => { p with f := twoThirds n })
  buildBlock ω
  (sendProposal ω).wrap (·.wrap "sending proposal")
  .modify (setStep .prevote)

/-- `startRound`. -/
def startRound (ω : Env) (inc : Bool) : Engine S M Unit := do
  .modify (openRound inc)
  let c ← .get
  if c.propsalState.amProposer then lead ω

/-- The proposer of a beacon round, an entry of the node list. -/
def elect (b : UInt64) (s : S) : Outcome Err String :=
  match Store.nodes s with
  | .err e => .err e
  | .panic => .panic
  | .ok [] => .panic
  | .ok nodes => .ok (nodes.getD (b.toNat % nodes.length) "")

/-- One turn of `watchProposer`, with the turn of `proposer` that feeds it. -/
def onBeacon (ω : Env) (b : UInt64) : Engine S M Unit := do
  let c ← .get
  let p ← .lift (elect b c.store)
  .modify fun c => { c.setStep .propose with state := { c.state with proposer := p } }
  startRound ω false

/-! ## Messages from the proposer -/

def onNewRound (msg : Option ConsensusMsgNewRound) (sender : String) : Engine S M Unit := do
  let c ← .get
  if sender ≠ c.state.proposer then return ()
  else
    match msg with
    | none => .lift .panic
    | some msg =>
      .modify (update fun p => { p.cleared with height := msg.height, round := msg.round })

/-- `validate`: the block to vote for. -/
def validate (ω : Env) (value : String) : Engine S M Cid :=
  if value = Cid.undef.string then return .undef
  else
    match CidText.parse value with
    | none => .lift (.err (.wrap (.new "invalid cid") "unable to parse CID"))
    | some cv => do
      let c ← .get
      let block ← .lift ((Store.getBlock c.store cv).mapErr (·.wrap "getting block"))
      (onStore (Validator.isBlockValid ω.toRuntime block true)).wrap (·.wrap "invalid block")
      .modify (record (.validated cv))
      return cv

/-- The body of `pvOnce` in `onProposal`. -/
def prevoteFor (ω : Env) (bc : Cid) (value : String) : Engine S M Unit := do
  .modify (update fun p => { p with block := bc, pvOnce := true })
  sendVote ω .preVote (if bc = .undef then Cid.undef.string else value)
  .modify (setStep .prevote)

def onProposal (ω : Env) (msg : Option ConsensusMsgProposal) (sender : String) :
    Engine S M Unit := do
  let c ← .get
  if sender ≠ c.state.proposer ∨ c.propsalState.step ≠ .propose then return ()
  else
    match msg with
    | none => .lift .panic
    | some msg =>
      -- a validation error is logged, and the block is then `Undef`
      let bc ← (validate ω msg.blockID).orElse .undef
      if c.propsalState.pvOnce then return () else .logged (prevoteFor ω bc msg.blockID)

/-! ## Votes -/

def onPreVote (ω : Env) (msg : Msg) : Engine S M Unit := do
  let c ← .get
  if c.propsalState.step ≠ .prevote then return ()
  else
    match c.propsalState.preVotes with
    | none => .lift .panic
    | some book =>
      let book := book.insert msg.sender msg
      .modify (update fun p => { p with preVotes := some book })
      if book.keys.length > c.propsalState.f ∧ c.propsalState.pcOnce = false then
        .modify (update fun p =>
          { p with step := .precommit, lockedValue := p.block, lockedRound := p.round
                   pcOnce := true })
        .logged (sendVote ω .preCommit c.propsalState.block.string)

def onPreCommit (msg : Msg) : Engine S M Unit := do
  let c ← .get
  if c.propsalState.step ≠ .precommit then return ()
  else
    match c.propsalState.preCommits with
    | none => .lift .panic
    | some book =>
      let book := book.insert msg.sender msg
      .modify (update fun p => { p with preCommits := some book })
      if book.keys.length > c.propsalState.f ∧ c.propsalState.sbOnce = false then
        .modify fun c =>
          { c with
            propsalState := { c.propsalState with step := .block, sbOnce := true }
            -- the proposer hands `sendBlock` to a timer
            pending := if c.propsalState.amProposer then c.pending + 1 else c.pending
            trace := .certified c.propsalState.height c.propsalState.round c.propsalState.block
              book.keys :: c.trace }

/-- The switch of `onVote`. -/
def countVote (ω : Env) (t : VoteType) (msg : Msg) : Engine S M Unit :=
  match t with
  | .preVote => onPreVote ω msg
  | .preCommit => onPreCommit msg
  | .other _ => return ()

def onVote (ω : Env) (msg : Msg) (sender : String) : Engine S M Unit := do
  let c ← .get
  match msg.consensus with
  | none => .lift .panic
  | some consensus =>
    if sender = c.state.proposer then return ()
    else
      match consensus.vote with
      | none => .lift .panic
      | some vote =>
        if vote.height ≠ c.propsalState.height ∨ vote.blockID ≠ c.propsalState.block.string ∨
            vote.round ≠ c.propsalState.round then return ()
        else
          countVote ω vote.type msg
          if c.propsalState.amProposer then .logged (sendEvidence ω vote)

/-- `onEvidence`: the entry is made under the name of the proposer it came from. -/
def onEvidence (msg : Option ConsensusMsgEvidence) (sender : String) : Engine S M Unit := do
  let c ← .get
  if sender ≠ c.state.proposer then return ()
  else
    match msg with
    | none => .lift .panic
    | some msg => putEvidence msg.type sender msg

/-! ## The commit -/

/-- Marks the locked block; a nil block is not marked. -/
def markAccepted (ω : Env) : Engine S M Unit := do
  let c ← .get
  let locked := c.propsalState.lockedValue
  if locked = .undef then return ()
  else
    .modify (record (.accepted locked c.propsalState.amProposer))
    .logged (onStore (Store.markBlock ω.toRuntime locked .accepted))

/-- What follows the guard of `onBlock`. -/
def commit (ω : Env) : Engine S M Unit := do
  let c ← .get
  let locked := c.propsalState.lockedValue
  markAccepted ω
  .logged (onStore (Store.updateLastApplied locked))
  .modify fun c =>
    let state :=
      { c.state with
        height := c.propsalState.height, parentBlock := c.state.block, block := locked }
    { c with state := state, trace := .committed c.state.tip state.tip :: c.trace }

def onBlock (ω : Env) (msg : Option ConsensusMsgBlock) (sender : String) : Engine S M Unit := do
  let c ← .get
  if sender ≠ c.state.proposer ∨ c.propsalState.step ≠ .block then return ()
  else
    match msg with
    | none => .lift .panic
    | some msg =>
      if msg.cid ≠ c.propsalState.lockedValue.string ∨ c.propsalState.lockedRound ≠ msg.round then
        return ()
      else commit ω

/-- The closure a proposer hands to `time.AfterFunc`. -/
def onGracePeriod [SigLib] (ω : Env) : Engine S M Unit := do
  let c ← .get
  if c.pending = 0 then return ()
  else
    .modify fun c => { c with pending := c.pending - 1 }
    .logged do
      let msg ← sendBlock ω
      onBlock ω (some msg) c.id

/-! ## Timeouts -/

def onTimeoutProposal (ω : Env) : Engine S M Unit := do
  let c ← .get
  if c.propsalState.height ≠ c.state.height ∧ c.propsalState.step ≠ .propose then return ()
  else
    .modify (setStep .prevote)
    if c.propsalState.pvOnce then return ()
    else
      .modify (update fun p => { p with pvOnce := true })
      .logged (sendVote ω .preVote "")

def onTimeoutPrevote (ω : Env) : Engine S M Unit := do
  let c ← .get
  if c.propsalState.height ≠ c.state.height ∧ c.propsalState.step ≠ .prevote then return ()
  else
    .modify (setStep .precommit)
    if c.propsalState.pcOnce then return ()
    else
      .modify (update fun p => { p with pcOnce := true })
      .logged (sendVote ω .preCommit "")

def onTimeoutPrecommit (ω : Env) : Engine S M Unit := startRound ω true

/-- `onTimeoutBlock` only logs. -/
def onTimeoutBlock : Engine S M Unit := return ()

def onTx (msg : Option TxMsg) : Engine S M Unit :=
  match msg with
  | none => .lift .panic
  | some msg => .logged (onPool (MemPool.addTx msg.tx msg.ttl))

end Consensus
end Didem
