import Didem.Storage.Tx

/-!
# Document checks and signatures

`w3cdid/validation.go`, `w3cdid/crypto.go`, `w3cdid/url.go` and the three signature validators of
`pkg/cryptography`. The primitives underneath — multibase, the curves, SHA-512, the URL parser and
the transaction encoder — are operations of `SigLib`; what is modelled is the code around them,
with its two ways of failing: an error that `Signed` logs and skips, and a panic that it does not
survive. A `url.Parse` error leaves a nil URL whose `Opaque` the code reads, and `ed25519.Verify`
panics on a key that is not 32 bytes long.
-/

set_option autoImplicit false

namespace Didem.Storage

open Lib

/-- The libraries the signature and document checks call. -/
class SigLib where
  /-- The `Opaque` part of a parsed URL; `none` when `url.Parse` returns a nil URL. -/
  urlOpaque : String → Option String
  /-- `msgpack` encoding of a transaction; it fails on a payload it cannot encode. -/
  marshalTx : Tx → Outcome Err Bytes
  multibaseDecode : Bytes → Option Bytes
  /-- `ed25519.Verify` on a 32 byte public key. -/
  ed25519Verify : Bytes → Bytes → Bytes → Bool
  /-- Decoding of a point of G1, the public keys of BLS12-381. -/
  blsPublicKey : Bytes → Option Bytes
  blsVerify : Bytes → Bytes → Bytes → Bool
  secp256k1PublicKey : Bytes → Option Bytes
  secp256k1Verify : Bytes → Bytes → Bytes → Bool
  sha512 : Bytes → Bytes

variable [SigLib]

/-- `Tx.Marshal`. -/
def Tx.marshal (t : Tx) : Outcome Err Bytes := (SigLib.marshalTx t).mapErr (·.wrap "mashaling tx")

/-! ## `w3cdid.URL` -/

/-- `strings.SplitN(s, ":", 2)`, as the part before the first colon and the part after it. -/
def splitColon (s : String) : String × Option String :=
  match s.toList.span (· ≠ ':') with
  | (before, []) => (String.ofList before, none)
  | (before, _ :: rest) => (String.ofList before, some (String.ofList rest))

/-- `URL.Method`. -/
def urlMethod (u : String) : Outcome Err String :=
  match SigLib.urlOpaque u with
  | none => .panic
  | some opaquePart => .ok (splitColon opaquePart).1

/-- `URL.Id`. -/
def urlId (u : String) : Outcome Err String :=
  match SigLib.urlOpaque u with
  | none => .panic
  | some opaquePart => .ok ((splitColon opaquePart).2.getD "")

/-! ## `Document.IsValid` -/

/-- `w3cdid.ErrInvalid`. -/
def errInvalid : Err := .new "did invalid"

/-- `url.Id() == "" || url.Method() == ""`, with the short circuit. -/
def urlIncomplete (u : String) : Outcome Err Bool := do
  if (← urlId u) = "" then return true
  return (← urlMethod u) = ""

/-- The check made of one verification method. -/
def VerificationMethod.isValid (v : VerificationMethod) : Outcome Err Unit := do
  if v.type = .other "" then .err errInvalid
  else if ← urlIncomplete v.id then .err errInvalid
  else if ← urlIncomplete v.controller then .err errInvalid
  else .ok ()

def Service.isValid (s : Service) : Outcome Err Unit :=
  if s.id = "" ∨ s.type = "" ∨ s.serviceEndpoint = "" then .err errInvalid else .ok ()

/-- The verification methods of a document, of every kind, in the order they are checked. -/
def Document.methods (d : Document) : List VerificationMethod :=
  d.verificationMethod ++ d.authentication ++ d.assertionMethod ++ d.keyAgreement ++
    d.capabilityInvocation ++ d.capabilityDelegation

/-- `Document.IsValid`. -/
def Document.isValid (d : Document) : Outcome Err Unit := do
  if d.id = "" then .err errInvalid
  else if ← urlIncomplete d.id then .err errInvalid
  else
    d.methods.forM VerificationMethod.isValid
    d.service.forM Service.isValid

/-! ## `Document.Signed` -/

def decodeMultibase (s : String) : Option Bytes := SigLib.multibaseDecode (stringBytes s)

/-- `cryptography.ValidateEd25519`. -/
def validateEd25519 (vm : VerificationMethod) (sig msg : Bytes) : Outcome Err Bool :=
  match decodeMultibase vm.publicKeyMultibase with
  | none => .err (.wrap (.new "multibase") "decoding multibase")
  | some pk => if pk.length ≠ 32 then .panic else .ok (SigLib.ed25519Verify pk msg sig)

/-- `cryptography.ValidateBls12381`. -/
def validateBls12381 (vm : VerificationMethod) (sig msg : Bytes) : Outcome Err Bool :=
  match decodeMultibase vm.publicKeyMultibase with
  | none => .err (.wrap (.new "multibase") "decoding multibase")
  | some d =>
    match SigLib.blsPublicKey d with
    | none => .err (.new "bls12-381 point")
    | some pk => if SigLib.blsVerify pk sig msg then .ok true else .err (.new "bls: invalid signature")

/-- `cryptography.ValidateEcdsaSecp256k1`. -/
def validateEcdsaSecp256k1 (vm : VerificationMethod) (sig msg : Bytes) : Outcome Err Bool :=
  let dig := if msg.length > 128 then SigLib.sha512 msg else msg
  match decodeMultibase vm.publicKeyMultibase with
  | none => .err (.wrap (.new "multibase") "decoding multibase")
  | some d =>
    match SigLib.secp256k1PublicKey d with
    | none => .err (.wrap (.new "secp256k1 public key") "unmarshalling public key")
    | some pk => .ok (SigLib.secp256k1Verify pk dig sig)

/-- The table `w3cdid.validators`. -/
def validators : VerificationMethodType → Option (VerificationMethod → Bytes → Bytes → Outcome Err Bool)
  | .ed25519VerificationKey2018 => some validateEd25519
  | .bls12381G2Key2020 => some validateBls12381
  | .ecdsaSecp256k1VerificationKey2019 => some validateEcdsaSecp256k1
  | .other _ => none

/-- The loop of `Document.Signed`: a method of an unsupported type and one whose validator
returns an error are skipped. -/
def signedLoop (sig msg : Bytes) : List VerificationMethod → Outcome Err Unit
  | [] => .err (.new "no valid signatures")
  | vm :: vms =>
    match validators vm.type with
    | none => signedLoop sig msg vms
    | some validator =>
      match validator vm sig msg with
      | .ok true => .ok ()
      | .ok false => signedLoop sig msg vms
      | .err _ => signedLoop sig msg vms
      | .panic => .panic

/-- `Document.Signed`. -/
def Document.signed (d : Document) (sig msg : Bytes) : Outcome Err Unit :=
  if d.verificationMethod.length = 0 then .err (.new "no verification method specified")
  else signedLoop sig msg d.verificationMethod

/-- The signature verifies under one of these methods: its type has a validator and the validator
accepts. -/
def VerifiedBy (vms : List VerificationMethod) (sig msg : Bytes) : Prop :=
  ∃ vm ∈ vms, ∃ validator, validators vm.type = some validator ∧ validator vm sig msg = .ok true

theorem verifiedBy_of_signedLoop {sig msg : Bytes} {vms : List VerificationMethod}
    (h : signedLoop sig msg vms = .ok ()) : VerifiedBy vms sig msg := by
  induction vms with
  | nil => simp [signedLoop] at h
  | cons vm vms ih =>
    have skip : signedLoop sig msg vms = .ok () → VerifiedBy (vm :: vms) sig msg := by
      intro htail
      obtain ⟨vm', hmem, hv⟩ := ih htail
      exact ⟨vm', List.mem_cons_of_mem _ hmem, hv⟩
    rw [signedLoop] at h
    cases hval : validators vm.type with
    | none => rw [hval] at h; exact skip h
    | some validator =>
      rw [hval] at h
      cases hres : validator vm sig msg with
      | ok accepted =>
        cases accepted with
        | true => exact ⟨vm, List.mem_cons_self, validator, hval, hres⟩
        | false => simp only [hres] at h; exact skip h
      | err e => simp only [hres] at h; exact skip h
      | panic => simp [hres] at h

/-- **What a nil error of `Document.Signed` means.** -/
theorem Document.verifiedBy_of_signed {d : Document} {sig msg : Bytes}
    (h : d.signed sig msg = .ok ()) : VerifiedBy d.verificationMethod sig msg := by
  unfold Document.signed at h
  split at h
  · exact absurd h (by simp)
  · exact verifiedBy_of_signedLoop h

/-- A document without verification methods signs nothing. -/
theorem Document.signed_of_no_method {d : Document} (h : d.verificationMethod = [])
    (sig msg : Bytes) : d.signed sig msg = .err (.new "no verification method specified") := by
  simp [Document.signed, h]

end Didem.Storage
