import Didem.Comm.Send

/-!
# The entrance to messaging

`Send` of `internal/comm/handler.go`, with the options of `pkg/comm/sendOptions.go`. The options are
functions over a configuration that starts empty. The client it makes is given the message, the
recipient and the resolver of the node; **it is given no identity**.
-/

set_option autoImplicit false

namespace Didem.Comm

open Lib Storage

/-- `SendConfig`; both interfaces may be nil. -/
structure SendConfig where
  id : Option (Option PrivateKey) := none
  publicResolver : Option Resolver := none

/-- A `SendOption` changes the configuration or fails. -/
abbrev SendOption := SendConfig → Outcome Err SendConfig

def withIdentity (id : Option (Option PrivateKey)) : SendOption :=
  fun cfg => .ok { cfg with id := id }

/-- The loop of `Send` over its options. -/
def buildConfig (cfg : SendConfig) : List SendOption → Outcome Err SendConfig
  | [] => .ok cfg
  | opt :: opts => do
    let cfg ← (opt cfg).mapErr (·.wrap "building config")
    buildConfig cfg opts

/-- A call: the resolver of the node, the clock and the random bytes that `handle` reads, and what
the rest of `handle` returns, from `connectEndProviders` on. -/
structure Sending where
  resolver : Option Resolver
  now : Int
  nonce : Option Bytes
  rest : ClientHandler → Outcome Err Unit

namespace Sending

/-- `handle` of the client. -/
def handle (ω : Sending) (s : Sender) : Outcome Err Unit := do
  let c ← s.prepare ω.now ω.nonce
  ω.rest c

/-- `send`. -/
def sendWith (ω : Sending) (email : Message) (cfg : SendConfig) : Outcome Err Unit :=
  match cfg.id, email.recipients, cfg.publicResolver with
  | none, _, _ => .err (.new "sender identity missing")
  | some _, [], _ => .err (.new "recipient identity missing")
  | some _, _ :: _, none => .err (.new "no resolver configure")
  | some _, _ :: _, some publicResolver => do
    let rDID ← (publicResolver (← email.to0).id).mapErr (·.wrap "resolving recipient")
    ω.handle { email := email, identity := none, recipient := rDID, resolver := ω.resolver }

/-- `Send`. -/
def send (ω : Sending) (email : Message) (opts : List SendOption) : Outcome Err Unit := do
  let cfg ← buildConfig {} opts
  ω.sendWith email cfg

end Sending

/-! ## A copy of a message -/

/-- `Copy`: the fields it copies, and no others. -/
def Message.copy (e : Message) : Message :=
  { createdTime := e.createdTime
    sender := e.sender
    recipients := e.recipients
    body := e.body
    attachments := e.attachments.map fun p => { id := "", mediaType := p.mediaType, data := p.data } }

end Didem.Comm
