import Didem.Lib.Outcome
import Didem.Storage.Cid

/-!
# Identities, messages and signatures

`pkg/did/publicIdentity.go`, `pkg/comm/msg.go` and `internal/comm/signatures.go`. A public key is
held in an interface, so **how two keys compare is a matter of what the interfaces hold**: pointers
are equal if they point to the same place, and comparing two slices is a panic. A key therefore has
an address here besides its bytes. A key that comes out of a decoder is of another type: what msgpack
puts into an interface is what it finds on the wire, bytes for a slice and a map for a struct.

The encoding and the signature schemes are a library, `CommLib`. A nil slice and an empty one are
not told apart.
-/

set_option autoImplicit false

namespace Didem.Comm

open Lib Storage

/-! ## Identities -/

/-- What a `crypto.PublicKey` or `crypto.PrivateKey` may hold, as far as the code looks. -/
inductive KeyType where
  | ecdsa
  | ed25519
  | rsa
  | other (name : String) (pointer : Bool)
  deriving DecidableEq, Repr

/-- Only an Ed25519 key is not held by a pointer. -/
def KeyType.isPointer : KeyType → Bool
  | .ecdsa | .rsa => true
  | .ed25519 => false
  | .other _ pointer => pointer

/-- The types that `sign` and `verify` know. -/
def KeyType.signs : KeyType → Bool
  | .ecdsa | .ed25519 | .rsa => true
  | .other .. => false

structure PublicKey where
  type : KeyType
  key : Bytes
  /-- Where it points to, if it is a pointer. -/
  addr : Nat := 0
  deriving DecidableEq, Repr

/-- `a.Key == b.Key`, two interfaces. -/
def PublicKey.eq (a b : PublicKey) : Outcome Err Bool :=
  if a.type ≠ b.type then .ok false
  else if a.type.isPointer then .ok (a.addr == b.addr)
  else .panic

structure PublicIdentity where
  id : String
  publicKeys : List PublicKey
  deriving DecidableEq, Repr

/-- The inner loop of `Matches`. -/
def hasKey (pipk : PublicKey) : List PublicKey → Outcome Err Bool
  | [] => .ok false
  | ppk :: ppks => do
    let e ← ppk.eq pipk
    let f ← hasKey pipk ppks
    return e || f

/-- The outer loop of `Matches`. -/
def hasKeys (ppks : List PublicKey) : List PublicKey → Outcome Err Bool
  | [] => .ok true
  | pipk :: pipks => do if ← hasKey pipk ppks then hasKeys ppks pipks else return false

/-- `Matches`. -/
def PublicIdentity.matches (pi p : PublicIdentity) : Outcome Err Bool :=
  if pi.id ≠ p.id then .ok false else hasKeys p.publicKeys pi.publicKeys

/-- A private identity, by its private key. -/
structure PrivateKey where
  type : KeyType
  key : Bytes
  deriving DecidableEq, Repr

/-- `ResolvePI`; an identity is a pointer and may be nil. -/
abbrev Resolver := String → Outcome Err (Option PublicIdentity)

/-- `Find`; an identity is an interface and may be nil. -/
abbrev IdentityStore := String → Outcome Err (Option PrivateKey)

/-! ## Messages -/

structure MessageAttachment where
  id : String
  mediaType : String
  data : Bytes
  deriving DecidableEq, Repr

structure Message where
  type : String := ""
  id : String := ""
  threadId : String := ""
  createdTime : Int := 0
  expiresTime : Int := 0
  /-- `From`. -/
  sender : Option PublicIdentity := none
  /-- `To`. -/
  recipients : List (Option PublicIdentity) := []
  nonce : Bytes := List.replicate 32 0
  signature : Bytes := []
  body : List (String × String) := []
  attachments : List MessageAttachment := []
  deriving DecidableEq, Repr

/-- What a pointer points to. -/
def deref {α : Type} : Option α → Outcome Err α
  | none => .panic
  | some a => .ok a

/-- `m.To[0]`, dereferenced. -/
def Message.to0 (m : Message) : Outcome Err PublicIdentity := deref (m.recipients.head?.getD none)

/-- The message once its signature has been set to nil. -/
def Message.unsigned (m : Message) : Message := { m with signature := [] }

/-! ## What a decoder keeps -/

def PublicKey.erased (k : PublicKey) : PublicKey := { k with addr := 0 }

def PublicIdentity.erased (pi : PublicIdentity) : PublicIdentity :=
  { pi with publicKeys := pi.publicKeys.map PublicKey.erased }

def PublicIdentity.keyless (pi : PublicIdentity) : PublicIdentity := { pi with publicKeys := [] }

/-- The message without the keys in it. -/
def Message.keyless (m : Message) : Message :=
  { m with
    sender := m.sender.map PublicIdentity.keyless
    recipients := m.recipients.map (Option.map PublicIdentity.keyless) }

/-- What stands for the keys in the message is not a key. -/
def Message.Foreign (m : Message) : Prop :=
  ∀ pi, (m.sender = some pi ∨ some pi ∈ m.recipients) → ∀ k ∈ pi.publicKeys, k.type.signs = false

/-! ## Signatures -/

/-- msgpack and the signature schemes. -/
class CommLib where
  marshal : Message → Outcome Err Bytes
  /-- Pointers of the decoded message are to new memory, from this address on. -/
  unmarshal : Nat → Bytes → Outcome Err Message
  sha3Sum512 : Bytes → Bytes
  ecdsaSign : Bytes → Bytes → Bytes → Outcome Err Bytes
  ed25519Sign : Bytes → Bytes → Outcome Err Bytes
  rsaSign : Bytes → Bytes → Bytes → Outcome Err Bytes
  ecdsaVerify : Bytes → Bytes → Bytes → Outcome Err Bool
  ed25519Verify : Bytes → Bytes → Bytes → Outcome Err Bool
  rsaVerify : Bytes → Bytes → Bytes → Outcome Err Unit

variable [CommLib]

def sign (entropy : Bytes) (pk : PrivateKey) (b : Bytes) : Outcome Err Bytes :=
  let h := CommLib.sha3Sum512 b
  match pk.type with
  | .ecdsa => CommLib.ecdsaSign entropy pk.key h
  | .ed25519 => CommLib.ed25519Sign pk.key b
  | .rsa => CommLib.rsaSign entropy pk.key h
  | .other name _ => .err (.new ("unknown private key type: " ++ name))

/-- `verify`. With an RSA key `valid` is never set. -/
def verify (pk : PublicKey) (b sig : Bytes) : Outcome Err Unit := do
  let h := CommLib.sha3Sum512 b
  let valid : Outcome Err Bool :=
    match pk.type with
    | .rsa => CommLib.rsaVerify pk.key h sig >>= fun _ => return false
    | .ed25519 => CommLib.ed25519Verify pk.key b sig
    | .ecdsa => CommLib.ecdsaVerify pk.key h sig
    | .other name _ => .err (.new ("unknown public key type: " ++ name))
  if ← valid then return () else .err (.new "invalid signature")

/-- The loop that looks for a key under which the signature verifies. -/
def hasMatchingSignature (b sig : Bytes) : List PublicKey → Outcome Err Bool
  | [] => .ok false
  | pk :: pks =>
    match verify pk b sig with
    | .ok () => .ok true
    | .err _ => hasMatchingSignature b sig pks
    | .panic => .panic

/-- The check at the end of each `validate`. `hd` is the message itself and not a copy, so the
signature that is verified is the one that has just been cleared. -/
def checkSignature (m : Message) (keys : Outcome Err (List PublicKey)) (missing : String) :
    Outcome Err Unit := do
  let hd := m.unsigned
  let b ← (CommLib.marshal hd).mapErr (·.wrap "rebuilding signature data")
  if ← hasMatchingSignature b hd.signature (← keys) then return () else .err (.new missing)

/-! ## A library to evaluate with -/

namespace Sample

/-- Every message is encoded as nothing. A signature is a zero, the key and what was signed; keys are
their own public keys. -/
scoped instance plainCommLib : CommLib where
  marshal _ := .ok []
  unmarshal _ _ := .ok {}
  sha3Sum512 b := b
  ecdsaSign _ key h := .ok (0 :: (key ++ h))
  ed25519Sign key b := .ok (0 :: (key ++ b))
  rsaSign _ key h := .ok (0 :: (key ++ h))
  ecdsaVerify pub h sig := .ok (sig = 0 :: (pub ++ h))
  ed25519Verify pub b sig := .ok (sig = 0 :: (pub ++ b))
  rsaVerify pub h sig := if sig = 0 :: (pub ++ h) then .ok () else .err (.new "verification error")

end Sample
end Didem.Comm
