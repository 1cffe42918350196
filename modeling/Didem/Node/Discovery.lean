import Didem.Comm.Send
import Didem.Identity.FileStore
import Mathlib.Logic.Relation

/-!
# Finding the node of a recipient

A node tells the DHT which identities it holds, and a sender asks the DHT for the node of its
recipient: `provideIdentity` of `internal/node/p2p.go` and `findProviders` of
`internal/comm/clientHandler.go`, with the public IDs of `pkg/did/privateIdentity.go`.

Both sides make a content identifier of the ID. The ID is the text of the multihash of the public
key; the node reads that text back, and the sender **hashes the text**. Digests, multihashes, their
texts and identifiers come from a library, `DigestLib`.
-/

set_option autoImplicit false

namespace Didem.Discovery

open Lib Storage
open Identity (PrivateIdentity FileStore IdentityLib)

/-! ## The two sides -/

/-- SHA3-384 and go-multihash at it, the identifier of a raw multihash, and public keys. -/
class DigestLib where
  sha3Sum384 : Bytes → Bytes
  /-- `multihash.Sum` with SHA3-384. -/
  multihashSum : Bytes → Outcome Err Bytes
  /-- `multihash.Encode` of a digest, with the code of SHA3-384. -/
  multihashEncode : Bytes → Outcome Err Bytes
  b58String : Bytes → String
  fromB58String : String → Outcome Err Bytes
  /-- `cid.NewCidV1(cid.Raw, mh)`. -/
  newCidV1 : Bytes → Cid
  /-- `Public` of `ed25519.PrivateKey`. -/
  ed25519Public : Bytes → Outcome Err Bytes
  /-- The public keys of other identities. -/
  otherPublic : String → Bytes → Outcome Err Bytes

variable [DigestLib]

def publicKey : PrivateIdentity → Outcome Err Bytes
  | .ed25519 sk => DigestLib.ed25519Public sk
  | .other type sk => DigestLib.otherPublic type sk

/-- The ID of `PublicIdentity`. -/
def publicID (id : PrivateIdentity) : Outcome Err String := do
  let pk ← publicKey id
  let mh ← DigestLib.multihashSum pk
  return DigestLib.b58String mh

/-- `provideIdentity`, by what it asks the DHT to provide. -/
def provideIdentity (id : PrivateIdentity) : Outcome Err Cid := do
  let pid ← publicID id
  let mh ← DigestLib.fromB58String pid
  return DigestLib.newCidV1 mh

/-- What `findProviders` asks the DHT for. -/
def recCID (recipient : String) : Outcome Err Cid := do
  let mh ← DigestLib.multihashEncode (DigestLib.sha3Sum384 (stringBytes recipient))
  return DigestLib.newCidV1 mh

/-! ## The network -/

/-- A node: its identities, and how others find it. -/
structure Node where
  store : FileStore
  peer : Comm.Provider

/-- What the DHT has been told, and by whom. -/
abbrev Dht := List (Cid × Comm.Provider)

/-- Those that provide it. -/
def Dht.providers (dht : Dht) (c : Cid) : List Comm.Provider :=
  (dht.filter fun r => r.1 = c).map Prod.snd

/-- One goroutine of `doAdvertise` comes to its end, at one of the nodes, or records expire. Calls
that fail change nothing. -/
inductive Step (nodes : List Node) : Dht → Dht → Prop where
  | provide {n : Node} {id : PrivateIdentity} {c : Cid} (dht : Dht) (hn : n ∈ nodes)
      (hid : id ∈ n.store.list) (h : provideIdentity id = .ok c) :
      Step nodes dht ((c, n.peer) :: dht)
  | expire {dht dht' : Dht} (h : dht'.Sublist dht) : Step nodes dht dht'

/-- What the DHT may hold. -/
def Reachable (nodes : List Node) (dht : Dht) : Prop :=
  Relation.ReflTransGen (Step nodes) [] dht

end Didem.Discovery
