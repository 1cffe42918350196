import Didem.Stream.RW
import Didem.Sync.Handler

/-!
# Asking a peer for its tip

`ReqTip` and `Handle` of `internal/did/handler.go`, down to the bytes. The messages are those of
`api/consensus.proto`; their encoding is protobuf's and a parameter here (`ProtoLib`). Each is one
frame of a `stream.RW`, whose reads may be **short**: what a call of `Read` returns need not be what
was written.

The stream is closed by the one who answers, so where there is no answer the asker reads the end of
the stream. Opening it may fail. That the two have a time limit is left out, since neither looks at
its context once the stream is open.
-/

set_option autoImplicit false

namespace Didem.Sync

open Lib Storage Consensus Didem.Stream

/-- `proto.Marshal` and `proto.Unmarshal`, at the two messages. -/
class ProtoLib where
  /-- A `ConsensusRequest` for the tip of this chain. -/
  marshalRequest : Bytes → Outcome Err Bytes
  /-- The chain whose tip a `ConsensusRequest` asks for, if it does. -/
  unmarshalRequest : Bytes → Outcome Err (Option Bytes)
  marshalResponse : TipResponse → Outcome Err Bytes
  unmarshalResponse : Bytes → Outcome Err TipResponse

variable [ProtoLib]

section

variable {S M : Type} [CidText]

/-- The end of `handleTipReq`: the response, if there is one, is encoded and written. -/
def writeResponse : Option TipResponse → Bytes
  | none => []
  | some r =>
    match ProtoLib.marshalResponse r with
    | .ok b => RW.write b
    | _ => []

/-- `Handle`, by what it writes. -/
def handle (alloc : Alloc) (c : Consensus S M) (s : RW) : Bytes :=
  match (s.read alloc).1 with
  | .ok msg =>
    match ProtoLib.unmarshalRequest msg with
    | .ok (some chainId) => writeResponse (handleTipReq chainId c)
    | _ => []
  | _ => []

end

/-- A stream between two nodes, and how it splits what is written in the one direction and the
other. -/
structure Link where
  opens : Bool
  alloc : Alloc
  chunks : Nat → Nat
  allocPeer : Alloc
  chunksPeer : Nat → Nat

/-- The end of `ReqTip`: what was read is decoded, and has to be about the same chain. -/
def takeResponse (chainID : Bytes) (br : Bytes) : Outcome Err String := do
  let resp ← (ProtoLib.unmarshalResponse br).mapErr (·.wrap "unmarshalling resp")
  reqTip chainID (some resp)

/-- `ReqTip`, of a peer that makes this of what it is sent. The answer is read with the `RW` the
request was written with. -/
def reqTipOver (l : Link) (peer : Bytes → Bytes) (chainID : Bytes) : Outcome Err String :=
  if l.opens then do
    let b ← (ProtoLib.marshalRequest chainID).mapErr (·.wrap "marshalling req")
    let stream := (RW.new (peer (RW.write b)) l.chunks).wrote l.alloc (RW.write b)
    let br ← (stream.read l.alloc).1.mapErr (·.wrap "reading resp")
    takeResponse chainID br
  else .err (.wrap (.new "dial") "connecting to peer")

/-- A node asks another. -/
def exchange {S M : Type} [CidText] (l : Link) (chainID : Bytes) (c : Consensus S M) :
    Outcome Err String :=
  reqTipOver l (fun w => handle l.allocPeer c (RW.new w l.chunksPeer)) chainID

end Didem.Sync
