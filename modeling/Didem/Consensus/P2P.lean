import Didem.Consensus.State

/-!
# Messages on the wire

`p2p.go`. A message is encoded when it is published, its signature included, and decoded by every
subscriber. `pubsub` puts a key of its own next to the data where the peer's id does not have the
public key in it, and `Msgs` **writes that key into the message**, over whatever the sender had
there. Nothing in this package sets the key of a message before.

How a topic is joined and how `pubsub` forwards is left out: it may deliver anything at all. An
`Envelope` is what `Subscription.Next` returns.
-/

set_option autoImplicit false

namespace Didem

open Lib Storage

/-- The fields of a `pubsub.Message` that are read. -/
structure Envelope where
  sender : Bytes
  data : Bytes
  key : Option Bytes
  deriving DecidableEq, Repr

/-- The decoder that goes with `CryptoLib.marshalMsg`. -/
class MsgDecoder where
  unmarshalMsg : Bytes → Option Msg

/-- What is assumed of the two: every message can be encoded, and decoding gives it back. -/
structure MsgDecoder.Faithful [CryptoLib] [MsgDecoder] : Prop where
  marshals : ∀ m, ∃ data, CryptoLib.marshalMsg m = .ok data
  decodes : ∀ m data, CryptoLib.marshalMsg m = .ok data → MsgDecoder.unmarshalMsg data = some m

/-- No two messages have one encoding. -/
theorem MsgDecoder.Faithful.injective [CryptoLib] [MsgDecoder] (h : MsgDecoder.Faithful)
    {m m' : Msg} (heq : CryptoLib.marshalMsg m = CryptoLib.marshalMsg m') : m = m' := by
  obtain ⟨data, hdata⟩ := h.marshals m
  have hm := h.decodes m data hdata
  have hm' := h.decodes m' data (heq ▸ hdata)
  exact Option.some.inj (hm.symm.trans hm')

namespace P2P

variable [CryptoLib]

/-- `PublishContext`, and what `pubsub` makes of it: the envelope has the publisher's id, and a key
or none. -/
def publish (self : String) (m : Msg) (key : Option Bytes) : Outcome Err Envelope := do
  let b ← CryptoLib.marshalMsg m
  return { sender := CryptoLib.peerBytes self, data := b, key := key }

/-- One turn of the loop in `Msgs`: what goes into the channel, if anything does. -/
def msgs [MsgDecoder] (self : String) (m : Envelope) : Option Msg :=
  if CryptoLib.peerBytes self = m.sender then none
  else
    match MsgDecoder.unmarshalMsg m.data with
    | none => none
    | some msg => some (msg.withKey m.key)

/-- **A message arrives as it was sent, but for its key.** -/
theorem msgs_of_publish [MsgDecoder] (hcodec : MsgDecoder.Faithful) {self other : String}
    (hother : CryptoLib.peerBytes other ≠ CryptoLib.peerBytes self) (m : Msg)
    (key : Option Bytes) :
    ∃ e, publish self m key = .ok e ∧ msgs other e = some (m.withKey key) := by
  obtain ⟨data, hdata⟩ := hcodec.marshals m
  refine ⟨⟨CryptoLib.peerBytes self, data, key⟩, by rw [publish, hdata]; rfl, ?_⟩
  rw [msgs, if_neg hother, hcodec.decodes m data hdata]

end P2P
end Didem
