import Didem.Comm.Message
import Didem.Cryptography.Ecdsa

/-!
# What is signed and what is verified

Four schemes have a half that signs and a half that verifies. Each scheme is sound by itself
(`Correct`), and the question is whether the two halves of this program use it alike:

* **ECDSA and Ed25519** do: both halves hash the message, or neither does;
* **RSA** does, and then `verify` does not look at the result. Only `valid` says that a signature is
  good, and in the RSA case nothing sets it;
* **secp256k1** does not agree with the library about sizes. A message is signed only if it is 32
  bytes long, since it is hashed only beyond 128 bytes and then to 64; and the signature has a
  recovery byte at its end that the verifier has no place for.
-/

set_option autoImplicit false

namespace Didem.Comm

open Lib Storage Cryptography

/-- The schemes with both halves: the key types of `comm.sign`, and the one of `pkg/cryptography`
with a private key. -/
inductive Scheme where
  | ecdsa
  | ed25519
  | rsa
  | secp256k1
  deriving DecidableEq, Repr

section

variable [CommLib] [SigLib] [EthCrypto]

namespace Scheme

/-- The half that signs. -/
def sign (entropy key b : Bytes) : Scheme → Outcome Err Bytes
  | .ecdsa => Comm.sign entropy ⟨.ecdsa, key⟩ b
  | .ed25519 => Comm.sign entropy ⟨.ed25519, key⟩ b
  | .rsa => Comm.sign entropy ⟨.rsa, key⟩ b
  | .secp256k1 => Secp256k1PrivateKey.sign ⟨key⟩ b

/-- The half that verifies accepts. -/
def Accepts (pub b sig : Bytes) : Scheme → Prop
  | .ecdsa => verify { type := .ecdsa, key := pub } b sig = .ok ()
  | .ed25519 => verify { type := .ed25519, key := pub } b sig = .ok ()
  | .rsa => verify { type := .rsa, key := pub } b sig = .ok ()
  | .secp256k1 => validateEcdsaSecp256k1 (secp256k1Method pub) sig b = .ok true

end Scheme

/-- **The primitives are correct**, for the keys that belong together: what a scheme signs it
verifies. The last five are the contracts of the libraries around secp256k1. -/
structure Correct (pairs : Scheme → Bytes → Bytes → Prop) : Prop where
  ecdsa : ∀ {key pub : Bytes}, pairs .ecdsa key pub → ∀ entropy h, ∃ sig,
    CommLib.ecdsaSign entropy key h = .ok sig ∧ CommLib.ecdsaVerify pub h sig = .ok true
  ed25519 : ∀ {key pub : Bytes}, pairs .ed25519 key pub → ∀ b, ∃ sig,
    CommLib.ed25519Sign key b = .ok sig ∧ CommLib.ed25519Verify pub b sig = .ok true
  rsa : ∀ {key pub : Bytes}, pairs .rsa key pub → ∀ entropy h, ∃ sig,
    CommLib.rsaSign entropy key h = .ok sig ∧ CommLib.rsaVerify pub h sig = .ok ()
  /-- The last byte of a signature is for the recovery of the key. -/
  secp256k1 : ∀ {key pub : Bytes}, pairs .secp256k1 key pub → ∀ dig : Bytes, dig.length = 32 →
    ∃ sig, EthCrypto.sign dig key = .ok sig ∧ sig.length = 65 ∧
      SigLib.secp256k1Verify pub dig (sig.take 64) = true
  sign_size : ∀ dig key : Bytes, dig.length ≠ 32 → ∃ e, EthCrypto.sign dig key = .err e
  verify_size : ∀ pub dig sig : Bytes, SigLib.secp256k1Verify pub dig sig = true →
    dig.length = 32 ∧ sig.length = 64
  sha512_size : ∀ b : Bytes, (SigLib.sha512 b).length = 64
  multibase : ∀ {key pub : Bytes}, pairs .secp256k1 key pub →
    decodeMultibase (EthCrypto.multibaseEncode pub) = some pub ∧
      SigLib.secp256k1PublicKey pub = some pub

variable {pairs : Scheme → Bytes → Bytes → Prop} {key pub : Bytes}

/-! ## The schemes of `comm.sign` -/

theorem Correct.ecdsa_verifies (h : Correct pairs) (hpair : pairs .ecdsa key pub)
    (entropy b : Bytes) :
    ∃ sig, Scheme.ecdsa.sign entropy key b = .ok sig ∧ Scheme.ecdsa.Accepts pub b sig := by
  obtain ⟨sig, hsign, hverify⟩ := h.ecdsa hpair entropy (CommLib.sha3Sum512 b)
  refine ⟨sig, hsign, ?_⟩
  simp only [Scheme.Accepts, verify, hverify, Outcome.ok_bind, if_true, Outcome.pure_eq]

theorem Correct.ed25519_verifies (h : Correct pairs) (hpair : pairs .ed25519 key pub)
    (entropy b : Bytes) :
    ∃ sig, Scheme.ed25519.sign entropy key b = .ok sig ∧ Scheme.ed25519.Accepts pub b sig := by
  obtain ⟨sig, hsign, hverify⟩ := h.ed25519 hpair b
  refine ⟨sig, hsign, ?_⟩
  simp only [Scheme.Accepts, verify, hverify, Outcome.ok_bind, if_true, Outcome.pure_eq]

/-- **No RSA signature is accepted**, whatever the primitives say of it. -/
theorem not_accepts_rsa (pub b sig : Bytes) : ¬ Scheme.rsa.Accepts pub b sig := by
  intro h
  simp only [Scheme.Accepts, verify] at h
  -- a good signature leaves `valid` as it was, a bad one is an error of its own
  cases hverify : CommLib.rsaVerify pub (CommLib.sha3Sum512 b) sig <;> rw [hverify] at h <;> cases h

/-! ## secp256k1 -/

/-- A digest has 32 bytes only if it is the message. -/
theorem Correct.length_digestOf (h : Correct pairs) (b : Bytes) :
    (digestOf b).length = 32 ↔ b.length = 32 := by
  unfold digestOf
  split
  · next hlong =>
    rw [h.sha512_size]
    omega
  · rfl

/-- **`Sign` succeeds on messages of 32 bytes** and on no others. -/
theorem Correct.secp256k1_signs_iff (h : Correct pairs) (hpair : pairs .secp256k1 key pub)
    (entropy b : Bytes) :
    (∃ sig, Scheme.secp256k1.sign entropy key b = .ok sig) ↔ b.length = 32 := by
  rw [← h.length_digestOf b]
  constructor
  · rintro ⟨sig, hsign⟩
    by_contra hlen
    obtain ⟨e, herr⟩ := h.sign_size (digestOf b) key hlen
    cases hsign.symm.trans herr
  · intro hlen
    obtain ⟨sig, hsign, -⟩ := h.secp256k1 hpair _ hlen
    exact ⟨sig, hsign⟩

/-- **What `Sign` returns is not accepted**: it has one byte too many. -/
theorem Correct.secp256k1_refuses (h : Correct pairs) (hpair : pairs .secp256k1 key pub)
    {entropy b sig : Bytes} (hsign : Scheme.secp256k1.sign entropy key b = .ok sig) :
    ¬ Scheme.secp256k1.Accepts pub b sig := by
  intro haccepts
  have hlen := (h.secp256k1_signs_iff hpair entropy b).mp ⟨sig, hsign⟩
  obtain ⟨sig', hsign', hlen', -⟩ := h.secp256k1 hpair _ ((h.length_digestOf b).mpr hlen)
  obtain rfl : sig = sig' := Outcome.ok.inj (hsign.symm.trans hsign')
  obtain ⟨hdecode, hpoint⟩ := h.multibase hpair
  simp only [Scheme.Accepts, validateEcdsaSecp256k1_eq sig b hdecode hpoint] at haccepts
  have hsize := (h.verify_size _ _ _ (Outcome.ok.inj haccepts)).2
  omega

/-! ## All of them -/

/-- **What the program signs, the program verifies**, for ECDSA and Ed25519 keys: for those on every
message, and for the others on none. -/
theorem signed_verifies_iff (h : Correct pairs) {s : Scheme} (hpair : pairs s key pub)
    (entropy b : Bytes) :
    ((∃ sig, s.sign entropy key b = .ok sig ∧ s.Accepts pub b sig) ↔
      s = .ecdsa ∨ s = .ed25519) ∧
    (s = .secp256k1 → ((∃ sig, s.sign entropy key b = .ok sig) ↔ b.length = 32)) := by
  cases s with
  | ecdsa =>
    refine ⟨iff_of_true (h.ecdsa_verifies hpair entropy b) (.inl rfl), ?_⟩
    exact fun hs => by cases hs
  | ed25519 =>
    refine ⟨iff_of_true (h.ed25519_verifies hpair entropy b) (.inr rfl), ?_⟩
    exact fun hs => by cases hs
  | rsa =>
    refine ⟨iff_of_false ?_ (by decide), fun hs => by cases hs⟩
    rintro ⟨sig, -, haccepts⟩
    exact not_accepts_rsa pub b sig haccepts
  | secp256k1 =>
    refine ⟨iff_of_false ?_ (by decide), fun _ => h.secp256k1_signs_iff hpair entropy b⟩
    rintro ⟨sig, hsign, haccepts⟩
    exact h.secp256k1_refuses hpair hsign haccepts

end

/-! ## Libraries that are correct -/

section Sample

open Comm.Sample

/-- One key, which is the byte 1. -/
local instance sizedSigLib : SigLib where
  urlOpaque _ := none
  marshalTx _ := .err (.new "msgpack")
  multibaseDecode _ := some [1]
  ed25519Verify _ _ _ := false
  blsPublicKey _ := none
  blsVerify _ _ _ := false
  secp256k1PublicKey d := some d
  secp256k1Verify _ dig sig := dig.length = 32 ∧ sig = dig ++ dig
  sha512 _ := List.replicate 64 0

/-- A signature is the digest twice, and a last byte. -/
local instance sizedEthCrypto : EthCrypto where
  sign dig _ :=
    if dig.length = 32 then .ok (dig ++ dig ++ [0])
    else .err (.new "hash is required to be exactly 32 bytes")
  multibaseEncode _ := "z2"

/-- Keys that belong together. -/
def samplePairs (s : Scheme) (key pub : Bytes) : Prop :=
  key = pub ∧ (s = .secp256k1 → pub = [1])

theorem sample_correct : Correct samplePairs where
  ecdsa h _ b := ⟨_, rfl, by simp [CommLib.ecdsaVerify, h.1]⟩
  ed25519 h b := ⟨_, rfl, by simp [CommLib.ed25519Verify, h.1]⟩
  rsa h _ b := ⟨_, rfl, by simp [CommLib.rsaVerify, h.1]⟩
  secp256k1 _ dig hlen := by
    refine ⟨dig ++ dig ++ [0], if_pos hlen, by simp [hlen], ?_⟩
    have htake : (dig ++ dig ++ [0]).take 64 = dig ++ dig :=
      List.take_left' (by simp [hlen])
    rw [htake]
    exact decide_eq_true ⟨hlen, rfl⟩
  sign_size dig _ hlen := ⟨_, if_neg hlen⟩
  verify_size _ dig sig h := by
    obtain ⟨hlen, rfl⟩ := of_decide_eq_true h
    exact ⟨hlen, by simp [hlen]⟩
  sha512_size _ := List.length_replicate
  multibase h := ⟨congrArg some (h.2 rfl).symm, rfl⟩

/-- An ECDSA key and an Ed25519 key, on a message of three bytes. -/
theorem plain_signed_verifies :
    (∃ sig, Scheme.ecdsa.sign [9] [2] [5, 6, 7] = .ok sig ∧
      Scheme.ecdsa.Accepts [2] [5, 6, 7] sig) ∧
    ∃ sig, Scheme.ed25519.sign [9] [2] [5, 6, 7] = .ok sig ∧
      Scheme.ed25519.Accepts [2] [5, 6, 7] sig := by
  have hecdsa : samplePairs .ecdsa [2] [2] := ⟨rfl, fun hs => by cases hs⟩
  have hed25519 : samplePairs .ed25519 [2] [2] := ⟨rfl, fun hs => by cases hs⟩
  exact ⟨(signed_verifies_iff sample_correct hecdsa [9] [5, 6, 7]).1.mpr (.inl rfl),
    (signed_verifies_iff sample_correct hed25519 [9] [5, 6, 7]).1.mpr (.inr rfl)⟩

/-- An RSA signature is refused. With secp256k1 the empty message and one of 129 bytes cannot be
signed; one of 32 bytes is, and then the signature is refused. -/
theorem signed_not_verified :
    Scheme.rsa.sign [] [2] [3] = .ok [0, 2, 3] ∧
    verify { type := .rsa, key := [2] } [3] [0, 2, 3] = .err (.new "invalid signature") ∧
    (∀ n ∈ [0, 129], Scheme.secp256k1.sign [] [1] (List.replicate n 5) =
      .err (.new "hash is required to be exactly 32 bytes")) ∧
    Scheme.secp256k1.sign [] [1] (List.replicate 32 5) = .ok (List.replicate 64 5 ++ [0]) ∧
    validateEcdsaSecp256k1 (secp256k1Method [1]) (List.replicate 64 5 ++ [0])
      (List.replicate 32 5) = .ok false := by
  decide +kernel

end Sample

end Didem.Comm
