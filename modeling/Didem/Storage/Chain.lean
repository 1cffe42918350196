import Didem.Storage.Document

/-!
# Blocks, transaction sets and their encoding

`pkg/storage/chain.go` and the msgpack encoding of what the stores keep under a CID.

Objects are stored as bytes. A byte string is represented by what its encoder wrote into it
(`Obj`), and the decoders are functions of that: msgpack matches map keys by name, skips the ones
it does not know and leaves missing fields at zero, so an object decodes as another type whenever
the values under the shared keys do. That is not an exotic case here — `MemStore.LookupDID`
decodes a *transaction* as a document.

One fact of the encoding carries most of its weight. `BlockID` is a defined type over `cid.Cid`
and does not inherit its marshaler; it is a struct without exported fields, so msgpack writes an
empty map for it. The two fields of a block that have this type, `ID` and `Parent`, are therefore
lost (`marshalBlock`), while `TxRoot`, a plain `cid.Cid`, survives — if it is defined, since the
binary form of `Undef` does not parse.
-/

set_option autoImplicit false

namespace Didem.Storage

open Lib

def maxBlockTxCount : Nat := 1000

/-- `storage.Version`. -/
def blockVersion : UInt32 := 1

inductive BlockState where
  | unvalidated
  | validated
  | accepted
  deriving DecidableEq, Repr

/-- `storage.Block`. -/
structure Block where
  version : UInt32 := 0
  id : BlockID := .undef
  parent : BlockID := .undef
  height : UInt64 := 0
  createdAt : Int := 0
  proposer : String := ""
  signature : Bytes := []
  nonce : Bytes := []
  bloom : Bytes := []
  txRoot : Cid := .undef
  deriving DecidableEq, Repr

/-- `storage.TxSet`; `cid` is the unexported field, set by `NewTxSet` and never encoded. -/
structure TxSet where
  children : List Cid := []
  tx : Option Cid := none
  cid : Cid := .undef
  deriving DecidableEq, Repr

/-- An encoded object, by the fields its encoder wrote. `raw` is a byte string none of the
decoders accepts. -/
inductive Obj where
  | tx (t : Tx)
  | block (b : Block)
  | set (children : List Cid) (tx : Option Cid)
  | raw (d : Bytes)
  deriving DecidableEq, Repr

/-- `msgpack.Marshal` of a block: `ID` and `Parent` are written as empty maps. -/
def marshalBlock (b : Block) : Obj := .block { b with id := .undef, parent := .undef }

def marshalSet (s : TxSet) : Obj := .set s.children s.tx

/-- The payload `Tx.Unmarshal` leaves. Its second pass decodes into the pointer the type of the
transaction asks for, and into the message of the first pass where it asks for none. -/
def unmarshalData : TxType → Option TxData → Outcome Err TxData
  -- of a nil payload msgpack makes a nil pointer, and the one it was given cannot be set
  | .did, none => .panic
  | .did, some (.did document) => .ok (.did document)
  | .did, some (.node _) => .err (.new "msgpack: unexpected code decoding map length")
  | .did, some (.raw _) => .err (.new "msgpack: unexpected code decoding map length")
  -- the message is emptied instead
  | .vc, none => .ok (.raw [])
  | .vc, some data => .ok data
  | .node, none => .panic
  | .node, some (.node n) => .ok (.node n)
  -- the two payloads share the key `d`, and nil decodes as a string
  | .node, some (.did none) => .ok (.node { id := "", did := "", key := [] })
  | .node, some (.did (some _)) =>
    .err (.new "msgpack: invalid code decoding string/bytes length")
  | .node, some (.raw _) => .err (.new "msgpack: unexpected code decoding map length")
  | .other _, _ => .err (.new "unknown tx data type")

/-- `Tx.Unmarshal`. The other kinds of object have no key for `Type`, which then is zero, an
unknown transaction type. -/
def unmarshalTx : Obj → Outcome Err Tx
  | .tx t => do return { t with data := some (← unmarshalData t.type t.data) }
  | _ => .err (.new "unknown tx data type")

/-- `msgpack.Unmarshal` into a `Block`. Whatever map stands under `ID` and `Parent`, a `BlockID` has
no field to decode it into. A transaction shares the keys `v`, `t` and `s` with a block; a set
shares `t`, which only decodes as a number when it is nil. -/
def unmarshalBlock : Obj → Outcome Err Block
  | .block b =>
    if b.txRoot = .undef then .err (.new "cid too short")
    else .ok { b with id := .undef, parent := .undef }
  | .tx t => .ok { version := t.version.toUInt32, createdAt := t.ts, signature := t.signature }
  | .set _ none => .ok {}
  | .set _ (some _) => .err (.new "msgpack: invalid code decoding int64")
  | .raw _ => .err (.new "msgpack")

/-- `msgpack.Unmarshal` into a `TxSet`. The key `t` of the other kinds is a number. -/
def unmarshalSet : Obj → Outcome Err TxSet
  | .set children tx =>
    if .undef ∈ children ∨ tx = some .undef then .err (.new "cid too short")
    else .ok { children, tx }
  | _ => .err (.new "msgpack: invalid code decoding bytes")

/-- `msgpack.Unmarshal` into a `w3cdid.Document`. Neither a transaction nor a set has a key in
common with a document, so both decode as the empty one; a block has the key `ID`, with a map
under it. -/
def unmarshalDocument : Obj → Outcome Err Document
  | .tx _ => .ok {}
  | .set _ _ => .ok {}
  | .block _ => .err (.new "msgpack: invalid code decoding string")
  | .raw _ => .err (.new "msgpack")

/-! ### Decoding what was encoded -/

/-- What is left of a block once it has been encoded. -/
def Block.bare (b : Block) : Block := { b with id := .undef, parent := .undef }

theorem unmarshalBlock_marshalBlock {b : Block} (h : b.txRoot ≠ .undef) :
    unmarshalBlock (marshalBlock b) = .ok b.bare := if_neg h

theorem unmarshalSet_marshalSet {n : TxSet} (hchildren : .undef ∉ n.children)
    (htx : n.tx ≠ some .undef) : unmarshalSet (marshalSet n) = .ok { n with cid := .undef } :=
  if_neg (not_or.mpr ⟨hchildren, htx⟩)

/-- A decoded block names neither itself nor its parent. -/
theorem links_of_unmarshalBlock {d : Obj} {b : Block} (h : unmarshalBlock d = .ok b) :
    b.id = .undef ∧ b.parent = .undef := by
  unfold unmarshalBlock at h
  split at h
  · split at h
    · exact absurd h (by simp)
    · obtain rfl := Outcome.ok.inj h
      exact ⟨rfl, rfl⟩
  · obtain rfl := Outcome.ok.inj h
    exact ⟨rfl, rfl⟩
  · obtain rfl := Outcome.ok.inj h
    exact ⟨rfl, rfl⟩
  · exact absurd h (by simp)
  · exact absurd h (by simp)

theorem unmarshalBlock_ne_panic (d : Obj) : unmarshalBlock d ≠ .panic := by
  unfold unmarshalBlock
  split <;> (try split) <;> simp

/-! #### Transactions -/

theorem unmarshalTx_eq_ok {d : Obj} {t : Tx} :
    unmarshalTx d = .ok t ↔ ∃ t₀ data, d = .tx t₀ ∧ unmarshalData t₀.type t₀.data = .ok data ∧
      t = { t₀ with data := some data } := by
  cases d with
  | tx t₀ =>
    simp only [unmarshalTx, Outcome.bind_eq_ok, Outcome.pure_eq, Outcome.ok.injEq, Obj.tx.injEq]
    constructor
    · rintro ⟨data, hdata, rfl⟩
      exact ⟨t₀, data, rfl, hdata, rfl⟩
    · rintro ⟨t₁, data, rfl, hdata, rfl⟩
      exact ⟨data, hdata, rfl⟩
  | block b => simp [unmarshalTx]
  | set children tx => simp [unmarshalTx]
  | raw d => simp [unmarshalTx]

/-- A payload of the type of the transaction is decoded as it is. -/
theorem unmarshalTx_of_wellTyped {t : Tx} (h : t.wellTyped = true) :
    unmarshalTx (.tx t) = .ok t := by
  obtain ⟨version, ts, sender, type, action, data, signature⟩ := t
  cases type <;> rcases data with _ | (document | n | d) <;> first | rfl | simp [Tx.wellTyped] at h

theorem wellTyped_of_unmarshalTx {d : Obj} {t : Tx} (h : unmarshalTx d = .ok t) :
    t.wellTyped = true := by
  obtain ⟨⟨version, ts, sender, type, action, data₀, signature⟩, data, -, hdata, rfl⟩ :=
    unmarshalTx_eq_ok.mp h
  unfold unmarshalData at hdata
  split at hdata <;> simp_all [Tx.wellTyped] <;> (subst hdata; rfl)

/-- A decoded DID transaction is the one that was encoded. -/
theorem eq_tx_of_unmarshalTx {d : Obj} {t : Tx} (h : unmarshalTx d = .ok t) (ht : t.type = .did) :
    d = .tx t := by
  obtain ⟨⟨version, ts, sender, type, action, data₀, signature⟩, data, rfl, hdata, rfl⟩ :=
    unmarshalTx_eq_ok.mp h
  obtain rfl : type = .did := ht
  rcases data₀ with _ | (document | n | d) <;> simp_all [unmarshalData]

/-- **The decoder panics** over a DID or node transaction without a payload, and over nothing
else. -/
theorem unmarshalTx_eq_panic {d : Obj} :
    unmarshalTx d = .panic ↔ ∃ t, d = .tx t ∧ t.hollow = true := by
  cases d with
  | tx t =>
    obtain ⟨version, ts, sender, type, action, data, signature⟩ := t
    cases type <;> rcases data with _ | ((_ | document) | n | d) <;>
      simp [unmarshalTx, unmarshalData, Tx.hollow]
  | block b => simp [unmarshalTx]
  | set children tx => simp [unmarshalTx]
  | raw d => simp [unmarshalTx]

theorem unmarshalSet_ne_panic (d : Obj) : unmarshalSet d ≠ .panic := by
  unfold unmarshalSet
  split <;> (try split) <;> simp

/-- The content hash of an object, as a CID. -/
class Hash where
  sum : Obj → Cid
  sum_ne_undef : ∀ o, (sum o).str ≠ []

/-- `storage.GenesisInfo`. -/
structure GenesisInfo where
  chainID : String
  block : Block
  txs : List Tx
  deriving DecidableEq, Repr

end Didem.Storage
