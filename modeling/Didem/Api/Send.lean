import Didem.Comm.Handler
import Didem.Lib.FanOut

/-!
# Sending through the API

`Send` of `internal/api/comm.go`, on a node as `NewNode` of `internal/node/node.go` builds it. For
every recipient a goroutine resolves it, copies the message and hands it to `comm.Handler.Send`; an
error goes into a slice that the goroutines share, and the response has the texts of that slice.

A goroutine that panics recovers, and appends an error of its own. Its deferred calls run last to
first: the wait group is told first, and **the error is appended after that, without the mutex**.
-/

set_option autoImplicit false

namespace Didem.Api

open Lib Storage Comm

/-! ## The node -/

/-- A node, as far as the API looks at it; `S` is its storage. -/
structure Node (S : Type) where
  storage : Option S := none
  /-- `identityResolver`. -/
  resolver : Option Resolver := none
  idStore : Option IdentityStore := none

/-- The options there are. -/
inductive NodeOption (S : Type) where
  | withStorage (s : S)
  /-- With what `NewIPFSStorage` returns, or what fails before. -/
  | withDefaultOptions (s : Outcome Err S)
  | withIdentityStore (store : IdentityStore)

variable {S : Type}

def NodeOption.apply (n : Node S) : NodeOption S → Outcome Err (Node S)
  | .withStorage s => .ok { n with storage := some s }
  | .withDefaultOptions s => do return { n with storage := some (← s) }
  | .withIdentityStore store => .ok { n with idStore := some store }

/-- The loop of `NewNode` over its options. -/
def applyAll (n : Node S) : List (NodeOption S) → Outcome Err (Node S)
  | [] => .ok n
  | opt :: opts => do applyAll (← opt.apply n) opts

/-- The node before its options: with what `NewFileStore` returns, if one is configured. -/
def withFileStore : Option (Outcome Err IdentityStore) → Outcome Err (Node S)
  | none => .ok {}
  | some fs => do return { idStore := some (← fs.mapErr (·.wrap "loading identity store")) }

/-- `NewNode`; `rest` is how the rest of it ends: the host, the randomness, the stream handlers and
the bootstrapping. -/
def newNode (fileStore : Option (Outcome Err IdentityStore)) (opts : List (NodeOption S))
    (rest : Outcome Err Unit) : Outcome Err (Node S) := do
  let n ← withFileStore fileStore
  let n ← applyAll n opts
  rest
  return n

/-! ## The request -/

/-- `EmSendPart`. -/
structure SendPart where
  mime : String
  data : Bytes
  deriving DecidableEq, Repr

/-- `EmSendRequest`. -/
structure SendRequest where
  sender : String
  recipients : List String
  headers : List (String × String)
  parts : List SendPart
  deriving DecidableEq, Repr

/-- What a call of `Send` meets. -/
structure Call where
  /-- `PublicIdentity` of a private identity. -/
  publicIdentity : Option PrivateKey → Outcome Err PublicIdentity
  /-- `time.Now().Unix()`. -/
  now : Int
  /-- For the goroutine of each recipient: the random bytes and the rest of `handle`. -/
  nonce : String → Option Bytes
  rest : String → ClientHandler → Outcome Err Unit

namespace Call

/-- The message that is copied for every recipient. -/
def template (ω : Call) (n : Node S) (req : SendRequest) : Outcome Err Message :=
  match n.idStore with
  | none => .panic
  | some idStore => do
    let fromsk ← (idStore req.sender).mapErr (·.wrap "finding identity for sender")
    let sender ← (ω.publicIdentity fromsk).mapErr (·.wrap "building public from sender identity")
    return { sender := some sender, createdTime := ω.now, body := req.headers,
             attachments := req.parts.map fun p => { id := "", mediaType := p.mime, data := p.data } }

/-- `sendSingle`: no options. -/
def sendSingle (ω : Call) (n : Node S) (rcpt : String) (em : Message) : Outcome Err Unit :=
  Sending.send ⟨n.resolver, ω.now, ω.nonce rcpt, ω.rest rcpt⟩ em []

/-- What the goroutine of a recipient does. -/
def deliver (ω : Call) (n : Node S) (tmpl : Message) (rcpt : String) : Outcome Err Unit :=
  match n.resolver with
  | none => .panic
  | some resolver => do
    let id ← (resolver rcpt).mapErr (·.wrap "resolving recipient")
    (ω.sendSingle n rcpt { tmpl.copy with recipients := [id] }).mapErr (·.wrap ("sending to " ++ rcpt))

/-- What it tells, and how. -/
def work (ω : Call) (n : Node S) (tmpl : Message) (rcpt : String) : FanOut.Work Err :=
  match ω.deliver n tmpl rcpt with
  | .ok _ => .nothing
  | .err e => .add e
  | .panic => .rescue (.new ("internal error sending to " ++ rcpt))

/-- Some run of `Send` responds with these errors. -/
def Responds (ω : Call) (n : Node S) (req : SendRequest) (errs : List Err) : Prop :=
  ∃ tmpl, ω.template n req = .ok tmpl ∧ FanOut.Collects (ω.work n tmpl) req.recipients errs

end Call
end Didem.Api
