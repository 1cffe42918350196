import Didem.Comm.Session
import Didem.Lib.Threads

/-!
# Sending a message

`handle` and `connectEndProviders` of `internal/comm/clientHandler.go`. A message goes to every
provider of its recipient that can be reached, one goroutine and one stream each, and `handle`
returns the first thing its `select` gets: an error from the channel `errs`, which holds one, or the
word from `done` that every goroutine has ended.

What another node does is an input: a `Provider` says whether it can be connected to, whether it
lets a stream be opened, what it sends on it and whether writing to it fails. The goroutines are
started together here. One of them may well be done before the next one starts, but only the
goroutine that waits for all looks at the count, and it starts last.
-/

set_option autoImplicit false

namespace Didem.Comm

open Lib Storage Didem.Stream

/-! ## Finding and connecting -/

/-- A provider of the recipient, as this call will find it. -/
structure Provider where
  /-- `Connect` succeeds. -/
  connects : Bool
  /-- `Open` succeeds. -/
  opens : Bool
  /-- The runtime of the goroutine that talks to it. -/
  side : Side
  /-- What it sends. -/
  answer : RW
  /-- How writing the hello to it fails, if it does. -/
  helloErr : Option Err := none
  /-- How writing the message to it fails. -/
  mailErr : Option Err := none

/-- What `FindProvider` returns, and the order in which goroutines get hold of the mutex. -/
structure Providers where
  found : Outcome Err (List Provider)
  order : List Provider → List Provider
  order_perm : ∀ l, (order l).Perm l

namespace Providers

def findProviders (ω : Providers) : Outcome Err (List Provider) :=
  ω.found.mapErr (·.wrap "finding recipient provider")

/-- `connectEndProviders`. -/
def connectEndProviders (ω : Providers) : Outcome Err (List Provider) := do
  let addrs ← ω.findProviders.mapErr (·.wrap "finding recipient provider")
  if addrs.length = 0 then .err (.new "no recipient providers")
  else
    let connectedAddrs := ω.order (addrs.filter (·.connects))
    if connectedAddrs.length = 0 then .err (.new "no recipient provider connected")
    else .ok (ω.order (connectedAddrs.filter (·.opens)))

end Providers

/-- A `ClientHandler` before `handle` has looked at it: the resolver and the identity may be nil. -/
structure Sender where
  email : Message
  identity : Option (Option PrivateKey)
  recipient : Option PublicIdentity
  resolver : Option Resolver

/-- The first lines of `handle`; `now` is in seconds. -/
def Sender.prepare (s : Sender) (now : Int) (nonce : Option Bytes) : Outcome Err ClientHandler :=
  match s.resolver, s.identity, nonce with
  | none, _, _ => .err (.new "no identity store set to validate recipients")
  | some _, none, _ => .err (.new "no sender identity set")
  | some _, some _, none => .err (.wrap (.new "rand") "reading nonce")
  | some resolver, some identity, some nonce =>
    .ok { email := { s.email with createdTime := now, nonce := nonce }
          identity := identity, recipient := s.recipient, resolver := resolver }

/-! ## One stream -/

namespace ClientHandler

variable [CommLib] (c : ClientHandler)

/-- `handshake`. -/
def handshake (p : Provider) : Outcome Err Unit := do
  let _ ← c.sendHello p.side
  .ofError p.helloErr
  ((c.hearBack p.side).run p.answer).1

/-- `send`, with the bytes that were written. -/
def transmit (p : Provider) : Outcome Err Bytes := do
  let b ← c.send
  .ofError (p.mailErr.map (·.wrap "transmitting email"))
  return b

end ClientHandler

/-! ## The goroutines -/

/-- Where a goroutine is. -/
inductive At where
  | handshake (p : Provider)
  | send (p : Provider)
  /-- `errs <- err`. -/
  | report (e : Err)
  /-- The deferred calls. -/
  | closing
  /-- The deferred calls of a goroutine that panics: they are made before the process ends. -/
  | dying
  | dead
  /-- `wg.Wait()`, and then `done <- struct{}{}`. -/
  | wait
  /-- The `select` of `handle`. -/
  | select
  | finished

structure Shared where
  /-- The count of `wg`. -/
  wg : Nat
  /-- What `errs` holds. -/
  errs : Option Err := none
  /-- Somebody is about to send on `done`. -/
  done : Bool := false
  /-- What was written in full, one entry per stream. -/
  written : List Bytes := []
  returned : Option (Outcome Err Unit) := none
  panicked : Bool := false

namespace Shared

variable [CommLib]

/-- What can happen at the `select`: either case that is ready. -/
def choices (s : Shared) : List (Shared × At) :=
  (s.errs.toList.map fun e => ({ s with errs := none, returned := some (.err e) }, .finished)) ++
    if s.done then [({ s with done := false, returned := some (.ok ()) }, .finished)] else []

/-- One atomic step. -/
def act (c : ClientHandler) (s : Shared) : At → List (Shared × At)
  | .handshake p =>
    match c.handshake p with
    | .ok _ => [(s, .send p)]
    | .err e => [(s, .report (e.wrap "client handshake"))]
    | .panic => [(s, .dying)]
  | .send p =>
    match c.transmit p with
    | .ok b => [({ s with written := b :: s.written }, .closing)]
    | .err e => [(s, .report e)]
    | .panic => [(s, .dying)]
  | .report e =>
    match s.errs with
    | none => [({ s with errs := some e }, .closing)]
    | some _ => []
  | .closing => [({ s with wg := s.wg - 1 }, .finished)]
  | .dying => [({ s with wg := s.wg - 1 }, .dead)]
  | .dead => [({ s with panicked := true }, .finished)]
  | .wait => if s.wg = 0 then [({ s with done := true }, .finished)] else []
  | .select => s.choices
  | .finished => []

def next (c : ClientHandler) (s : Shared) (l : At) : List (Shared × At) :=
  if s.panicked then [] else s.act c l

end Shared

/-- The goroutines of `handle`, on these streams. -/
def goroutines (ss : List Provider) : Conf Shared At :=
  ⟨{ wg := ss.length }, .select :: .wait :: ss.map .handshake⟩

/-- A call of `handle`. -/
structure Handling where
  sender : Sender
  now : Int
  nonce : Option Bytes
  providers : Providers

/-- `handle` gets to its goroutines, with this handler and these streams. -/
def Handling.Begins (k : Handling) (c : ClientHandler) (ss : List Provider) : Prop :=
  k.sender.prepare k.now k.nonce = .ok c ∧ k.providers.connectEndProviders = .ok ss

/-- **`handle` returns nil.** Before the goroutines it only returns errors. -/
def Handling.ReturnsNil [CommLib] (k : Handling) (c : ClientHandler) (ss : List Provider)
    (conf : Conf Shared At) : Prop :=
  k.Begins c ss ∧ Conf.Reach (Shared.next c) (goroutines ss) conf ∧
    conf.shared.returned = some (.ok ())

end Didem.Comm
