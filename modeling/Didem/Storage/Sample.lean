import Didem.Lib.Code
import Didem.Storage.MemStore
import Didem.Storage.Validator

/-!
# Sample libraries

The model leaves third-party code abstract. Here is one choice of it on which the model runs, small
enough to evaluate and shaped like the real thing where a result could depend on it:

* the text of a CID is `b` followed by a letter for each byte, and `Undef` has the text `b`;
* multibase texts are in the identity encoding, a zero byte followed by the bytes, and **no
  multibase text is a curve point**: a point has the top bit of its first byte set, the
  compression flag;
* a signature is the public key followed by what was signed.

Theorems quantify over all libraries; these are in force only where the namespace is open.

The hash `sum` tells apart what the examples put side by side. Where a result needs a hash **without
collisions** there is a second one, `Exact.hash`, that writes the whole object into the CID.
-/

set_option autoImplicit false

namespace Didem.Storage.Sample

open Lib

/-! ## CIDs -/

/-- The letter for a byte, from `a` on. -/
def letter (b : UInt8) : Char := Char.ofNat (b.toNat + 97)

theorem toNat_letter (b : UInt8) : (letter b).toNat = b.toNat + 97 := by
  have hb : b.toNat < 256 := b.toNat_lt
  have hvalid : (b.toNat + 97).isValidChar := .inl (by omega)
  unfold letter Char.ofNat
  rw [dif_pos hvalid]
  rfl

theorem letter_injective : Function.Injective letter := by
  intro a b h
  have hnat := congrArg Char.toNat h
  rw [toNat_letter, toNat_letter] at hnat
  exact UInt8.toNat.inj (by omega)

def string (c : Cid) : String := String.ofList ('b' :: c.str.map letter)

/-- Reads back what `string` writes. -/
def parse (s : String) : Option Cid :=
  match s.toList with
  | 'b' :: d :: ds => some ⟨(d :: ds).map fun x => UInt8.ofNat (x.toNat - 97)⟩
  | _ => none

scoped instance cidText : CidText where
  string := string
  parse := parse
  string_injective a b h := by
    have hlist := String.ofList_injective h
    rw [List.cons.injEq] at hlist
    obtain ⟨str⟩ := a
    obtain ⟨str'⟩ := b
    exact congrArg Cid.mk (List.map_injective_iff.mpr letter_injective hlist.2)
  string_ne_empty c h := by
    have hlist := congrArg String.toList h
    simp [string] at hlist

/-- One byte for the kind of an object, then what tells the objects of that kind apart. -/
def sum : Obj → Cid
  | .tx t => ⟨[1, UInt8.ofNat t.ts.toNat]⟩
  | .set children tx => ⟨2 :: (children ++ tx.toList).flatMap Cid.str⟩
  | .block b => ⟨3 :: b.height.toUInt8 :: UInt8.ofNat b.createdAt.toNat :: b.txRoot.str⟩
  | .raw d => ⟨4 :: d⟩

scoped instance hash : Hash where
  sum := sum
  sum_ne_undef o := by cases o <;> simp [sum]

/-! ## Signatures -/

scoped instance sigLib : SigLib where
  urlOpaque u := some ((splitColon u).2.getD "")
  marshalTx t := .ok [UInt8.ofNat t.ts.toNat]
  multibaseDecode
    | 0 :: d => some d
    | _ => none
  ed25519Verify pk msg sig := sig = pk ++ msg
  blsPublicKey d := if 128 ≤ d.headD 0 then some d else none
  blsVerify pk sig msg := sig = pk ++ msg
  secp256k1PublicKey d := some d
  secp256k1Verify pk msg sig := sig = pk ++ msg
  sha512 msg := msg

/-- A runtime that visits maps in the order of the model and whose services all answer. -/
def runtime : Runtime where
  order l := l
  order_perm _ := .rfl
  put _ := true
  pin _ := true
  commit := true
  flip _ := false

/-! ## Transactions -/

def document (id : String) : Document where
  id := id
  verificationMethod :=
    [{ id := id, type := .ecdsaSecp256k1VerificationKey2019, controller := id,
       publicKeyMultibase := "\x00k" }]

/-- A DID transaction at a time, which is also what tells it from others. -/
def didTx (ts : Int) (action : TxAction) (id : String) (signature : Bytes) : Tx where
  version := version1
  ts := ts
  sender := "p"
  type := .did
  action := action
  data := some (.did (some (document id)))
  signature := signature

/-- A transaction the validator has nothing against. -/
def vcTx (ts : Int) : Tx where
  version := version1
  ts := ts
  sender := "p"
  type := .vc
  action := .add
  data := some (.raw [160])
  signature := []

/-! ## Blocks of one transaction -/

def leaf (t : Tx) : TxSet := { tx := some (sum (.tx t)) }

def blockOf (height : UInt64) (t : Tx) : Block :=
  { height := height, txRoot := sum (marshalSet (leaf t)) }

def blockId (height : UInt64) (t : Tx) : BlockID := sum (marshalBlock (blockOf height t))

/-- Stores a block of one transaction, with everything it refers to. -/
def putBlockOf (height : UInt64) (t : Tx) (s : MemStore) : MemStore :=
  let s := (s.putTx t).2
  let s := (s.putSet (leaf t)).2
  (s.putBlock (blockOf height t)).2

/-! ## A hash without collisions -/

namespace Exact

instance : Code Cid := .ofInjective Cid.str fun ⟨_⟩ ⟨_⟩ h => congrArg Cid.mk h

/-- The three types with a name, and the names of the others. -/
instance : Code VerificationMethodType :=
  .ofInjective
    (fun
      | .ed25519VerificationKey2018 => (0, "")
      | .bls12381G2Key2020 => (1, "")
      | .ecdsaSecp256k1VerificationKey2019 => (2, "")
      | .other name => (3, name))
    fun a b h => by cases a <;> cases b <;> simp_all

instance : Code VerificationMethod :=
  .ofInjective (fun v => (v.id, v.type, v.controller, v.publicKeyJwk, v.publicKeyMultibase))
    fun ⟨_, _, _, _, _⟩ ⟨_, _, _, _, _⟩ h => by simpa using h

instance : Code Service :=
  .ofInjective (fun s => (s.id, s.type, s.serviceEndpoint))
    fun ⟨_, _, _⟩ ⟨_, _, _⟩ h => by simpa using h

instance : Code Document :=
  .ofInjective
    (fun d => (d.context, d.id, d.alsoKnownAs, d.controller, d.verificationMethod, d.authentication,
      d.assertionMethod, d.keyAgreement, d.capabilityInvocation, d.capabilityDelegation, d.service))
    fun ⟨_, _, _, _, _, _, _, _, _, _, _⟩ ⟨_, _, _, _, _, _, _, _, _, _, _⟩ h => by simpa using h

instance : Code Node :=
  .ofInjective (fun n => (n.id, n.did, n.key)) fun ⟨_, _, _⟩ ⟨_, _, _⟩ h => by simpa using h

instance : Code TxType :=
  .ofInjective
    (fun
      | .did => (0, 0)
      | .vc => (1, 0)
      | .node => (2, 0)
      | .other n => (3, n))
    fun a b h => by cases a <;> cases b <;> simp_all

instance : Code TxAction :=
  .ofInjective
    (fun
      | .add => (0, 0)
      | .update => (1, 0)
      | .revoke => (2, 0)
      | .other n => (3, n))
    fun a b h => by cases a <;> cases b <;> simp_all

instance : Code TxData :=
  .ofInjective
    (fun
      | .did document => (some document, none, none)
      | .node n => (none, some n, none)
      | .raw d => (none, none, some d) : TxData → Option (Option Document) × Option Node × Option Bytes)
    fun a b h => by cases a <;> cases b <;> simp_all

instance : Code Tx :=
  .ofInjective (fun t => (t.version, t.ts, t.sender, t.type, t.action, t.data, t.signature))
    fun ⟨_, _, _, _, _, _, _⟩ ⟨_, _, _, _, _, _, _⟩ h => by simpa using h

instance : Code Block :=
  .ofInjective
    (fun b => (b.version, b.id, b.parent, b.height, b.createdAt, b.proposer, b.signature, b.nonce,
      b.bloom, b.txRoot))
    fun ⟨_, _, _, _, _, _, _, _, _, _⟩ ⟨_, _, _, _, _, _, _, _, _, _⟩ h => by simpa using h

instance : Code Obj :=
  .ofInjective
    (fun
      | .tx t => (some t, none, none, none)
      | .block b => (none, some b, none, none)
      | .set children tx => (none, none, some (children, tx), none)
      | .raw d => (none, none, none, some d) :
        Obj → Option Tx × Option Block × Option (List Cid × Option Cid) × Option Bytes)
    fun a b h => by cases a <;> cases b <;> simp_all

/-- The object itself, after a byte that no object is without. -/
def sum (o : Obj) : Cid := ⟨1 :: Code.put o []⟩

scoped instance hash : Hash where
  sum := sum
  sum_ne_undef o := by simp [sum]

theorem sum_injective : Function.Injective (Hash.sum : Obj → Cid) := by
  intro a b h
  have hstr : (1 : UInt8) :: Code.put a [] = 1 :: Code.put b [] := congrArg Cid.str h
  exact Code.put_nil_injective (List.cons.inj hstr).2

scoped instance : CidText := Sample.cidText

scoped instance : SigLib := Sample.sigLib

end Exact
end Didem.Storage.Sample
