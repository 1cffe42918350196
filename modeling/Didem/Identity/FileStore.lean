import Didem.Lib.Outcome
import Didem.Lib.Run
import Didem.Storage.Cid
import Mathlib.Data.Finmap

/-!
# The identities of a node

`internal/did/fileStore.go`. The private identities are kept twice: `ids` is what the file holds, a
list of encoded keys, and `idx` is what `Find` and `List` look at, a map from the public id to the
identity. `read` fills both; `Add` looks at the second and **appends to the first**.

YAML, multibase and the derivation of a public id are a library. Of an identity the store looks at
its Go type and at the key of the one type it can write down.
-/

set_option autoImplicit false

namespace Didem.Identity

open Lib Storage

/-- `did.PrivateIdentity`. -/
inductive PrivateIdentity where
  | ed25519 (sk : Bytes)
  /-- An identity of another Go type, such as `*did.Bls12381G2Identity`. -/
  | other (type : String) (sk : Bytes)
  deriving DecidableEq, Repr

/-- `IdentityFileStoreId`. -/
structure FileStoreId where
  type : String
  data : String
  deriving DecidableEq, Repr

class IdentityLib where
  multibaseDecode : String → Outcome Err Bytes
  multibaseEncode : Bytes → Outcome Err String
  yamlUnmarshal : Bytes → Outcome Err (List FileStoreId)
  yamlMarshal : List FileStoreId → Outcome Err Bytes
  /-- `id.PublicIdentity()`, of which only the ID is looked at. -/
  publicIdentity : PrivateIdentity → Outcome Err String

/-- How the calls on the file fail, if they do; a `Write` may have written a part. -/
structure Disk where
  openErr : Option Err := none
  readErr : Option Err := none
  truncateErr : Option Err := none
  writeErr : Option (Err × Nat) := none

/-- What the map holds. -/
abbrev Index := Finmap fun _ : String => PrivateIdentity

structure FileStore where
  file : Bytes
  ids : List FileStoreId
  idx : Index

variable [IdentityLib]

/-! ## Reading -/

def decodeType (t data : String) : Outcome Err PrivateIdentity := do
  let raw ← (IdentityLib.multibaseDecode data).mapErr (·.wrap "decoding identity data")
  if t = "ed25519" then .ok (.ed25519 raw) else .err (.new ("unknown key type " ++ t))

/-- The loop of `buildIdx`. -/
def buildFrom (idx : Index) : List FileStoreId → Outcome Err Index
  | [] => .ok idx
  | fid :: ids => do
    let id ← (decodeType fid.type fid.data).mapErr (·.wrap "decoding id")
    let pid ← (IdentityLib.publicIdentity id).mapErr (·.wrap "getting public id from private")
    buildFrom (idx.insert pid id) ids

def buildIdx (ids : List FileStoreId) : Outcome Err Index := buildFrom ∅ ids

/-- `NewFileStore`, that is `read`, where the file has this content; a new file has none. -/
def newFileStore (ω : Disk) (file : Bytes) : Outcome Err FileStore := do
  .ofError (ω.openErr.map (·.wrap "opening identity file for read"))
  .ofError (ω.readErr.map (·.wrap ""))
  let ids ← (IdentityLib.yamlUnmarshal file).mapErr (·.wrap "unmarshalling identity data")
  let idx ← buildIdx ids
  return ⟨file, ids, idx⟩

namespace FileStore

/-! ## Writing -/

def write (ω : Disk) (fs : FileStore) : Outcome Err Unit × FileStore :=
  match ω.openErr with
  | some e => (.err (e.wrap "opening identity file for write"), fs)
  | none =>
    match (IdentityLib.yamlMarshal fs.ids).mapErr (·.wrap "marshalling identity data") with
    | .panic => (.panic, fs)
    | .err e => (.err e, fs)
    | .ok d =>
      match ω.truncateErr, ω.writeErr with
      | some e, _ => (.err e, fs)
      | none, some (e, n) => (.err e, { fs with file := d.take n })
      | none, none => (.ok (), { fs with file := d })

def add (ω : Disk) (id : PrivateIdentity) (fs : FileStore) : Outcome Err Unit × FileStore :=
  match IdentityLib.publicIdentity id with
  | .panic => (.panic, fs)
  | .err e => (.err e, fs)
  | .ok pid =>
    if pid ∈ fs.idx then (.ok (), fs)
    else
      match id with
      | .other type _ => (.err (.new ("unknown did PK type " ++ type)), fs)
      | .ed25519 sk =>
        match (IdentityLib.multibaseEncode sk).mapErr
            (·.wrap "encoding private key to multibase") with
        | .panic => (.panic, fs)
        | .err e => (.err e, fs)
        | .ok raw => write ω { fs with ids := fs.ids ++ [⟨"ed25519", raw⟩] }

/-! ## Looking up -/

omit [IdentityLib]

def find (fs : FileStore) (id : String) : Outcome Err PrivateIdentity :=
  match fs.idx.lookup id with
  | none => .err (.new "not found")
  | some i => .ok i

/-- `List`, in the order of a Go map, which is none. -/
def list (fs : FileStore) : Multiset PrivateIdentity := fs.idx.entries.map Sigma.snd

end FileStore
end Didem.Identity
