import Didem.Storage.Document

/-!
# Signing with secp256k1

`Secp256k1PrivateKey` of `pkg/cryptography/ecdsa.go`; the check of such a signature,
`ValidateEcdsaSecp256k1`, is with the other validators in `Storage/Document.lean`. Both hash a
message that is longer than 128 bytes, and **take any other for a digest as it is**.
-/

set_option autoImplicit false

namespace Didem.Cryptography

open Lib Storage

/-- `go-ethereum/crypto` and `go-multibase`, as far as they are used on the side that signs. -/
class EthCrypto where
  /-- `Sign`, of a digest with a private key. -/
  sign : Bytes → Bytes → Outcome Err Bytes
  /-- `multibase.Encode` in base 58. -/
  multibaseEncode : Bytes → String

variable [EthCrypto] [SigLib]

structure Secp256k1PrivateKey where
  key : Bytes
  deriving DecidableEq, Repr

/-- What `Sign` and `ValidateEcdsaSecp256k1` make of a message. -/
def digestOf (msg : Bytes) : Bytes := if msg.length > 128 then SigLib.sha512 msg else msg

/-- `Secp256k1PrivateKey.Sign`. -/
def Secp256k1PrivateKey.sign (p : Secp256k1PrivateKey) (digest : Bytes) : Outcome Err Bytes :=
  EthCrypto.sign (digestOf digest) p.key

/-- The verification method with a public key in multibase. -/
def secp256k1Method (pub : Bytes) : VerificationMethod where
  id := ""
  type := .ecdsaSecp256k1VerificationKey2019
  controller := ""
  publicKeyMultibase := EthCrypto.multibaseEncode pub

theorem validateEcdsaSecp256k1_eq {pub pk : Bytes} (sig msg : Bytes)
    (hdecode : decodeMultibase (EthCrypto.multibaseEncode pub) = some pub)
    (hpoint : SigLib.secp256k1PublicKey pub = some pk) :
    validateEcdsaSecp256k1 (secp256k1Method pub) sig msg =
      .ok (SigLib.secp256k1Verify pk (digestOf msg) sig) := by
  simp only [validateEcdsaSecp256k1, secp256k1Method, hdecode, hpoint, digestOf]

end Didem.Cryptography
