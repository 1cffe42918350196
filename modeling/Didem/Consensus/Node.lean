import Didem.Consensus.Handlers

/-!
# A node and its inputs

`onMsg` and `onConsensusMsg`, and the step function of a node. What a node takes in is an `Input`:

* `call`, a handler called with any arguments whatever, however it came to be called — beacon
  ticks, timeouts and the delayed closure have no other way in;
* `recv`, a message from the network, which reaches a handler only through the checks of `onMsg`;
* `store`, the arrival of content: the store is another one from here on.

Results about arbitrary messages quantify over all inputs. Results about nodes that all run this
code restrict `call` to what is local to a node and `recv` to what was sent.
-/

set_option autoImplicit false

namespace Didem

open Lib Storage

/-- A call of a handler. -/
inductive Call where
  | beacon (b : UInt64)
  | newRound (msg : Option ConsensusMsgNewRound) (sender : String)
  | proposal (msg : Option ConsensusMsgProposal) (sender : String)
  | vote (msg : Msg) (sender : String)
  | block (msg : Option ConsensusMsgBlock) (sender : String)
  | evidence (msg : Option ConsensusMsgEvidence) (sender : String)
  | tx (msg : Option TxMsg)
  | gracePeriod
  | timeoutProposal
  | timeoutPrevote
  | timeoutPrecommit
  | timeoutBlock
  deriving DecidableEq

inductive Input (S : Type) where
  | call (k : Call)
  | recv (msg : Msg)
  | store (s : S)

/-- The call does not come from another node. -/
def Call.isLocal : Call → Bool
  | .beacon _ | .tx _ | .gracePeriod => true
  | .timeoutProposal | .timeoutPrevote | .timeoutPrecommit | .timeoutBlock => true
  | _ => false

/-- The input is from the network or the node's own: no other call is forced on it. -/
def Input.isOwn {S : Type} : Input S → Bool
  | .call k => k.isLocal
  | _ => true

namespace Consensus

variable {S M : Type} [Store S] [Validator S] [MemPool M] [CryptoLib] [CidText] [SigLib]

def exec (ω : Env) : Call → Engine S M Unit
  | .beacon b => onBeacon ω b
  | .newRound msg sender => onNewRound msg sender
  | .proposal msg sender => onProposal ω msg sender
  | .vote msg sender => onVote ω msg sender
  | .block msg sender => onBlock ω msg sender
  | .evidence msg sender => onEvidence msg sender
  | .tx msg => onTx msg
  | .gracePeriod => onGracePeriod ω
  | .timeoutProposal => onTimeoutProposal ω
  | .timeoutPrevote => onTimeoutPrevote ω
  | .timeoutPrecommit => onTimeoutPrecommit ω
  | .timeoutBlock => onTimeoutBlock

/-- A call to its end: an error is logged, a panic ends the process. -/
def run (p : Engine S M Unit) (c : Consensus S M) : Consensus S M :=
  match Proc.run p c with
  | (.panic, c) => c.crash
  | (_, c) => c

/-- `onConsensusMsg`. -/
def onConsensusMsg (msg : Msg) (sender : String) : Outcome Err (Option Call) :=
  match msg.consensus with
  | none => .panic
  | some consensus =>
    match consensus.type with
    | .newRound => .ok (some (.newRound consensus.newRound sender))
    | .proposal => .ok (some (.proposal consensus.proposal sender))
    | .vote => .ok (some (.vote msg sender))
    | .block => .ok (some (.block consensus.block sender))
    | .evidence => .ok (some (.evidence consensus.evidence sender))
    | .other _ => .ok none

/-- `onMsg`, up to the handler it calls. A key that decodes as multibase but not as a curve point
is only logged, and the nil key is then used. -/
def onMsg (msg : Msg) (c : Consensus S M) : Outcome Err (Option Call) := do
  if msg.chain ≠ c.chain then .err (.new "received msg from different chain")
  else
    let node ← Store.node c.store msg.sender
    let signData ← signatureData msg
    match SigLib.multibaseDecode node.key with
    | none => .err (.new "decoding node key")
    | some rawPk =>
      match SigLib.blsPublicKey rawPk with
      | none => .panic
      | some pk =>
        if SigLib.blsVerify pk msg.signature (CryptoLib.peerBytes msg.sender ++ signData) then
          match msg.type with
          | .consensus => onConsensusMsg msg msg.sender
          | .tx => .ok (some (.tx msg.tx))
          | .block | .other _ => .ok none
        else .err (.new "invalid signature")

/-- The call an input leads to. -/
def calls (c : Consensus S M) : Input S → Option Call
  | .call k => some k
  | .recv msg =>
    match c.onMsg msg with
    | .ok k => k
    | _ => none
  | .store _ => none

/-- One atomic step of a node. -/
def step (c : Consensus S M) (i : Env × Input S) : Consensus S M :=
  if c.crashed then c
  else
    match i.2 with
    | .call k => c.run (exec i.1 k)
    | .recv msg =>
      match c.onMsg msg with
      | .ok (some k) => c.run (exec i.1 k)
      | .ok none | .err _ => c
      | .panic => c.crash
    | .store s => { c with store := s }

end Consensus
end Didem
