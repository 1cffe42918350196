import Didem.Storage.Document
import Didem.Storage.Chain

/-!
# Consensus messages

`pkg/did/consensus/msg.go` and `crypto.go`. The types follow the Go structs field by field; a
pointer is an `Option`, because a decoded message may leave any of them out. Peer identifiers are
their text form, which is how the engine compares them, and times are integers.

`CryptoLib` is what the engine calls to encode, sign and aggregate. Nothing is assumed about it:
authenticity of messages enters where the network is modelled, not here.
-/

set_option autoImplicit false

namespace Didem

open Lib Storage

inductive MsgType where
  | tx
  | block
  | consensus
  | other (n : UInt16)
  deriving DecidableEq, Repr

inductive ConsensusMsgType where
  | newRound
  | proposal
  | vote
  | block
  | evidence
  | other (n : UInt8)
  deriving DecidableEq, Repr

/-- `VoteType`; the source's third value, `VoteTypeProposal`, is handled nowhere and is one of the
others. -/
inductive VoteType where
  | preVote
  | preCommit
  | other (n : UInt8)
  deriving DecidableEq, Repr

structure ConsensusMsgNewRound where
  height : UInt64
  round : UInt32
  lastCommitRound : UInt32
  timestamp : Int
  deriving DecidableEq, Repr

structure ConsensusMsgProposal where
  height : UInt64
  round : UInt32
  blockID : String
  timestamp : Int
  deriving DecidableEq, Repr

structure ConsensusMsgVote where
  type : VoteType
  height : UInt64
  round : UInt32
  blockID : String
  timestamp : Int
  validator : String
  deriving DecidableEq, Repr

structure ConsensusMsgEvidence extends ConsensusMsgVote where
  accepted : Bool
  deriving DecidableEq, Repr

structure ConsensusMsgBlock where
  height : UInt64
  round : UInt32
  cid : String
  validators : Bytes
  signature : Bytes
  deriving DecidableEq, Repr

structure ConsensusMsg where
  type : ConsensusMsgType
  newRound : Option ConsensusMsgNewRound := none
  proposal : Option ConsensusMsgProposal := none
  vote : Option ConsensusMsgVote := none
  block : Option ConsensusMsgBlock := none
  evidence : Option ConsensusMsgEvidence := none
  deriving DecidableEq, Repr

structure TxMsg where
  tx : Option Tx
  ttl : Int
  deriving DecidableEq, Repr

structure BlockMsg where
  block : Option Block
  deriving DecidableEq, Repr

/-- `Msg`. The field `sender` is the source's `From`. A nil `Key` is encoded otherwise than an empty
one, so the two are kept apart. -/
structure Msg where
  type : MsgType
  sender : String
  chain : Bytes
  tx : Option TxMsg := none
  block : Option BlockMsg := none
  consensus : Option ConsensusMsg := none
  timestamp : Int
  signature : Bytes := []
  key : Option Bytes := none
  deriving DecidableEq, Repr

/-- The encoders and the BLS operations the engine calls. -/
class CryptoLib where
  marshalMsg : Msg → Outcome Err Bytes
  /-- `peer.ID.MarshalBinary`. -/
  peerBytes : String → Bytes
  sign : Bytes → Bytes → Outcome Err Bytes
  aggregatePublicKeys : List Bytes → Outcome Err Bytes
  aggregateSignatures : List Bytes → Outcome Err Bytes
  makeBloom : List Cid → Outcome Err Bytes

/-- `signatureData`: the message without its signature, encoded. -/
def signatureData [CryptoLib] (msg : Msg) : Outcome Err Bytes :=
  CryptoLib.marshalMsg { msg with signature := [] }

namespace Msg

/-- The vote of a message; an engine only puts one into a message of type vote. -/
def vote? (m : Msg) : Option ConsensusMsgVote := m.consensus.bind ConsensusMsg.vote

/-- The announcement of a block, likewise. -/
def announcement? (m : Msg) : Option ConsensusMsgBlock := m.consensus.bind ConsensusMsg.block

/-- The message as it arrives: the transport overwrites the key (`p2p.Msgs`). -/
def withKey (m : Msg) (key : Option Bytes) : Msg := { m with key := key }

end Msg
end Didem
