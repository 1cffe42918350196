import Didem.Comm.Message
import Didem.Lib.Proc
import Didem.Stream.RW

/-!
# A messaging session

`internal/comm/clientHandler.go` and `serverHandler.go`. The client sends a signed hello, the server
checks it and answers with one of its own, the client checks that and sends the message, and the
server puts it into the inbox. The hellos are framed by `stream.RW`; **the message itself is written
to the stream as it is**, and read as a frame.

`session` runs one side against the other. A side that fails closes the stream, so the other one
reads what was sent before and then the end.
-/

set_option autoImplicit false

namespace Didem.Comm

open Lib Storage Didem.Stream

/-- What the runtime of one side decides. -/
structure Side where
  alloc : Alloc
  /-- Where the memory of decoded messages starts. -/
  heap : Nat
  /-- `rand.Read` for a nonce; it may fail. -/
  nonce : Option Bytes
  /-- What a signature takes from `rand.Reader`. -/
  entropy : Bytes
  /-- `time.Now`, in nanoseconds. -/
  now : Int

def helloTimeWindow : Int := 5000000000

/-! ## What both sides do -/

/-- `rw.Read()`. -/
def readFrame (ω : Side) : Proc Err RW Bytes := fun rw => rw.read ω.alloc

theorem run_readFrame (ω : Side) (rw : RW) : (readFrame ω).run rw = rw.read ω.alloc := rfl

/-- The two `makeHello`, from the fields they fill in. -/
def newHello (ω : Side) (createdTime : Int) (sender : Option PublicIdentity)
    (recipients : List (Option PublicIdentity)) : Outcome Err Message :=
  match ω.nonce with
  | none => .err (.wrap (.new "rand") "reading nonce")
  | some nonce =>
    .ok { createdTime := createdTime, sender := sender, recipients := recipients, nonce := nonce }

variable [CommLib]

/-- The two `sign`. -/
def signMessage (ω : Side) (identity : Option PrivateKey) (e : Message) : Outcome Err Message := do
  let b ← (CommLib.marshal e).mapErr (·.wrap "mashalling client hello")
  let s ← sign ω.entropy (← deref identity) b
  return { e with signature := s }

/-- The end of the two `sendHello`: what goes onto the wire. -/
def writeHello (ω : Side) (identity : Option PrivateKey) (hello : Message) : Outcome Err Bytes := do
  let hello ← (signMessage ω identity hello).mapErr (·.wrap "signing client hello")
  let b ← (CommLib.marshal hello).mapErr (·.wrap "mashalling client hello")
  return RW.write b

/-- A `Read` and the decoding of what it returns. -/
def readMessage (ω : Side) (reading : Err → Err) (parsing : String) : Proc Err RW Message := do
  let b ← (readFrame ω).wrap reading
  .lift ((CommLib.unmarshal ω.heap b).mapErr (·.wrap parsing))

/-! ## The server -/

structure ServerHandler where
  resolver : Option Resolver
  idStore : Option IdentityStore
  /-- `AddToInbox` of the store. -/
  addToInbox : Message → Outcome Err Unit

namespace ServerHandler

def readClientHello (ω : Side) : Proc Err RW Message :=
  readMessage ω (·.wrap "reading client hello") "parsing client hello"

/-- `validateClientHello`, with the identity it finds. The signature is looked for among the keys of
the recipient. -/
def validateClientHello (resolver : Resolver) (idStore : IdentityStore) (clientHello : Message) :
    Outcome Err (Option PrivateKey) :=
  if clientHello.body ≠ [] then .err (.new "unexpected body in client hello")
  else if clientHello.attachments ≠ [] then .err (.new "unexpected attachments in client hello")
  else do
    let rcpt ← clientHello.to0
    let pi ← (idStore rcpt.id).mapErr (·.wrap "finding matching identity")
    let sender ← deref clientHello.sender
    let pk ← (resolver sender.id).mapErr (·.wrap "finding sender identity")
    if ← (← deref pk).matches sender then
      checkSignature clientHello (.ok rcpt.publicKeys) "no matching singature found"
      return pi
    else .err (.new "public identity mismatch")

/-- `sendHello`; `makeHello` swaps the two parties. -/
def sendHello (ω : Side) (identity : Option PrivateKey) (clientHello : Message) :
    Outcome Err Bytes :=
  match clientHello.recipients with
  | [] => .panic
  | rcpt :: _ => do
    let hello ← newHello ω clientHello.createdTime rcpt [clientHello.sender]
    writeHello ω identity hello

def validateEmail (clientHello received : Message) : Outcome Err Unit := do
  let sender ← deref clientHello.sender
  if ← sender.matches (← deref received.sender) then
    let rcpt ← clientHello.to0
    if ← rcpt.matches (← received.to0) then
      checkSignature clientHello (.ok rcpt.publicKeys)
        "no matching singature found on received email"
    else .err (.new "received sender does not match client hello")
  else .err (.new "received sender does not match client hello")

def readEmail (ω : Side) (clientHello : Message) : Proc Err RW Message := do
  let received ← readMessage ω id "parsing email"
  .lift (validateEmail clientHello received)
  return received

/-- `handle`, until the hello is sent: the client's hello, as it is then, and the server's. -/
def greet (s : ServerHandler) (ω : Side) : Proc Err RW (Message × Bytes) :=
  match s.resolver, s.idStore with
  | none, _ => .lift (.err (.new "no identity resolver set to validate recipients"))
  | some _, none => .lift (.err (.new "no identity store set to receive mail"))
  | some resolver, some idStore => do
    let clientHello ← (readClientHello ω).wrap (·.wrap "reading client hello")
    let identity ← .lift ((validateClientHello resolver idStore clientHello).mapErr
      (·.wrap "validating client hello"))
    let clientHello := clientHello.unsigned
    let hello ← .lift ((sendHello ω identity clientHello).mapErr (·.wrap "sending server hello"))
    return (clientHello, hello)

end ServerHandler

/-! ## The client -/

structure ClientHandler where
  email : Message
  identity : Option PrivateKey
  recipient : Option PublicIdentity
  resolver : Resolver

namespace ClientHandler

def sendHello (c : ClientHandler) (ω : Side) : Outcome Err Bytes := do
  let hello ← (newHello ω c.email.createdTime c.email.sender c.email.recipients).mapErr
    (·.wrap "creating new hello")
  writeHello ω c.identity hello

def readServerHello (ω : Side) : Proc Err RW Message :=
  readMessage ω (·.wrap "reading server hello") "unmarshalling server hello"

/-- `validateServerHello`. -/
def validateServerHello (c : ClientHandler) (ω : Side) (h : Message) : Outcome Err Unit :=
  let helloTime := h.createdTime * 1000000000
  if helloTime < ω.now - helloTimeWindow ∨ ω.now + helloTimeWindow < helloTime then
    .err (.new "hello too old")
  else if (h.nonce.map UInt8.toNat).sum = 0 then .err (.new "empty nonce")
  else do
    let rcpt ← h.to0
    if rcpt.id = "" ∨ rcpt.publicKeys = [] then .err (.new "no identity provided")
    else
      let sender ← deref h.sender
      let recipient ← deref c.recipient
      if sender.id ≠ recipient.id then .err (.new "unexpected recipient ID")
      else if ← recipient.matches sender then
        if rcpt.id ≠ (← deref c.email.sender).id then .err (.new "unexpected change in sender ID")
        else
          match c.resolver sender.id with
          | .panic => .panic
          | .err _ => .err (.new "validating publickly known identity of recipient")
          | .ok knownId =>
            checkSignature h (do return (← deref knownId).publicKeys) "no matching singature found"
      else .err (.new "public identity mismatch")

/-- The rest of `handshake`, once the client's hello is sent. -/
def hearBack (c : ClientHandler) (ω : Side) : Proc Err RW Unit := do
  let h ← readServerHello ω
  .lift (c.validateServerHello ω h)

/-- `send`, by the bytes it puts onto the stream: no length goes before them. -/
def send (c : ClientHandler) : Outcome Err Bytes :=
  (CommLib.marshal c.email).mapErr (·.wrap "marshaling email")

end ClientHandler

/-! ## One against the other -/

/-- The two sides, and how the stream is cut up in each direction. -/
structure Net where
  client : Side
  server : Side
  toServer : Nat → Nat
  toClient : Nat → Nat

/-- How a session ended on each side, and what went into the inbox. -/
structure Ended where
  client : Outcome Err Unit
  server : Outcome Err Unit
  inbox : List Message := []
  deriving DecidableEq

/-- What a side that got that far has sent. -/
def sentBy : Outcome Err Bytes → Bytes
  | .ok b => b
  | _ => []

/-- More has arrived. -/
def arrive (b : Bytes) (rw : RW) : RW :=
  { rw with
    rd := { rw.rd with transport := { rw.rd.transport with rest := rw.rd.transport.rest ++ b } } }

/-- The session once the server has come to its hello or failed: the client hears what there is to
hear, sends the message if it still can, and the server reads on. -/
def goOn (ω : Net) (c : ClientHandler) (s : ServerHandler) (hello : Outcome Err Bytes)
    (greeting : Outcome Err (Message × Bytes)) (rw : RW) : Ended :=
  let reply := greeting >>= fun g => return g.2
  let stream := (RW.new (sentBy reply) ω.toClient).wrote ω.client.alloc (sentBy hello)
  let heard := ((c.hearBack ω.client).run stream).1
  let mail := do let _ ← hello; heard; c.send
  let client := do let _ ← mail; return ()
  match greeting with
  | .err e => { client := client, server := .err e }
  | .panic => { client := client, server := .panic }
  | .ok (clientHello, _) =>
    let stream := arrive (sentBy mail) (rw.wrote ω.server.alloc (sentBy reply))
    match ((ServerHandler.readEmail ω.server clientHello).run stream).1 with
    | .err e => { client := client, server := .err (e.wrap "reading email") }
    | .panic => { client := client, server := .panic }
    | .ok received =>
      { client := client, server := s.addToInbox received, inbox := [received] }

/-- `handshake` and then `send` against `handle`. -/
def session (ω : Net) (c : ClientHandler) (s : ServerHandler) : Ended :=
  let hello := c.sendHello ω.client
  let (greeting, rw) := (s.greet ω.server).run (RW.new (sentBy hello) ω.toServer)
  goOn ω c s hello greeting rw

end Didem.Comm
