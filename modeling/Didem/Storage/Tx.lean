import Didem.Storage.Cid

/-!
# Transactions and DID documents

`pkg/tx` and the data types of `pkg/did/w3cdid`. The payload of a transaction is an interface in
the source; `TxData` lists what it holds, with the pointer of a DID payload kept as an `Option`
because nothing in the decoder makes it non-nil. Of a decoded transaction the Go type of the payload
is the one `Tx.Unmarshal` allocates for the type of the transaction: a VC transaction keeps its
payload as the `msgpack.RawMessage` it was decoded into, and `TxData` then says what that message
encodes. A type assertion on a decoded payload is therefore one on the type of the transaction as
well.

`TxType`, `TxAction` and `VerificationMethodType` are open in Go — an `int8`, an `int8` and a
string off the wire — so each carries an `other` arm for the values without a name.
-/

set_option autoImplicit false

namespace Didem.Storage

/-- The verification method types `w3cdid.validators` has an entry for; `other` is any other
string, the empty one included. -/
inductive VerificationMethodType where
  | ed25519VerificationKey2018
  | bls12381G2Key2020
  | ecdsaSecp256k1VerificationKey2019
  | other (name : String)
  deriving DecidableEq, Repr

structure VerificationMethod where
  id : String
  type : VerificationMethodType
  controller : String
  publicKeyJwk : Option Bytes := none
  publicKeyMultibase : String := ""
  deriving DecidableEq, Repr

structure Service where
  id : String
  type : String
  serviceEndpoint : String
  deriving DecidableEq, Repr

/-- `w3cdid.Document`. -/
structure Document where
  context : List String := []
  id : String := ""
  alsoKnownAs : List String := []
  controller : List String := []
  verificationMethod : List VerificationMethod := []
  authentication : List VerificationMethod := []
  assertionMethod : List VerificationMethod := []
  keyAgreement : List VerificationMethod := []
  capabilityInvocation : List VerificationMethod := []
  capabilityDelegation : List VerificationMethod := []
  service : List Service := []
  deriving DecidableEq, Repr

/-- `tx.Node`. -/
structure Node where
  id : String
  did : String
  key : Bytes
  deriving DecidableEq, Repr

inductive TxType where
  | did
  | vc
  | node
  | other (n : Int)
  deriving DecidableEq, Repr

inductive TxAction where
  | add
  | update
  | revoke
  | other (n : Int)
  deriving DecidableEq, Repr

/-- What the `Data` interface of a transaction holds: a `DID`, a `Node`, or a message that encodes
neither, by its bytes. -/
inductive TxData where
  | did (document : Option Document)
  | node (n : Node)
  | raw (d : Bytes)
  deriving DecidableEq, Repr

/-- `tx.Tx`. The field `sender` is the source's `From`. -/
structure Tx where
  version : UInt8
  ts : Int
  sender : String
  type : TxType
  action : TxAction
  data : Option TxData
  signature : Bytes
  deriving DecidableEq, Repr

/-- `tx.Version1`. -/
def version1 : UInt8 := 1

/-- The payload is of the transaction's type: a DID, a node, or for a VC transaction any message. -/
def Tx.wellTyped (t : Tx) : Bool :=
  match t.type, t.data with
  | .did, some (.did _) => true
  | .vc, some _ => true
  | .node, some (.node _) => true
  | _, _ => false

/-- A DID or node transaction whose payload is nil. -/
def Tx.hollow (t : Tx) : Bool :=
  match t.type, t.data with
  | .did, none => true
  | .node, none => true
  | _, _ => false

end Didem.Storage
