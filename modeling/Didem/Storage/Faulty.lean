import Didem.Storage.Ipfs

/-!
# A database that fails

`IPFSStorage` is modelled over a database that answers. The methods of `internal/storage/ipfs.go`
also have a branch for one that returns an error of its own, and here those branches are: a
`FaultyStorage` is an `IPFSStorage` with the keys that cannot be read and those that cannot be
written. The writes of a batch are made in memory, so a trial only fails where it reads through to
the database; `batch.Commit` is a decision of the runtime as before.

Without faults this is the other model, method by method (`markBlock_of_sound` and the lemmas after
it).
-/

set_option autoImplicit false

namespace Didem.Storage

open Lib

/-- `IPFSStorage`, and what its database does. -/
structure FaultyStorage extends IPFSStorage where
  readFails : Bytes → Bool := fun _ => false
  writeFails : Bytes → Bool := fun _ => false

namespace FaultyStorage

/-- The error of the database, neither `pebble.ErrNotFound` nor one of this package. -/
def databaseErr (text : String) : Err := .wrap (.new "database") text

/-- `metadataGet` returns an error: a key the batch of a trial has is not read from the database. -/
def getFails (key : Bytes) (s : FaultyStorage) : Bool :=
  s.readFails key && !(s.pfTipApply.getD []).any fun w => w.key = key

/-- `metadataSet` returns an error. -/
def setFails (key : Bytes) (s : FaultyStorage) : Bool := s.pfTipApply.isNone && s.writeFails key

/-- A method that reads a key first, and wraps the error of the database. -/
def reading {α : Type} (key : Bytes) (text : String) (get : IPFSStorage → Outcome Err α)
    (s : FaultyStorage) : Outcome Err α :=
  if s.getFails key then .err (databaseErr text) else get s.toIPFSStorage

/-- A method that uses the database only through a batch, or not at all. -/
def lifted {α : Type} (p : IPFSStorage → Outcome Err α × IPFSStorage) (s : FaultyStorage) :
    Outcome Err α × FaultyStorage :=
  ((p s.toIPFSStorage).1, { s with toIPFSStorage := (p s.toIPFSStorage).2 })

variable [CidText] [Hash] [SigLib]

def updateLastApplied (id : BlockID) (s : FaultyStorage) : Outcome Err Unit × FaultyStorage :=
  if s.setFails (typedKey .latestBlock []) then (.err (databaseErr "storing last block ref"), s)
  else lifted (IPFSStorage.updateLastApplied id) s

def getLastApplied : FaultyStorage → Outcome Err (Option Block) :=
  reading (typedKey .latestBlock []) "getting last block ref" IPFSStorage.getLastApplied

def getTxBlock (s : FaultyStorage) (id : TxID) : Outcome Err Block :=
  s.reading (typedKey .txBlock [id.string]) "looking up tx block" (·.getTxBlock id)

def lookupDID (s : FaultyStorage) (did : String) : Outcome Err (Option Document) :=
  s.reading (typedKey .did [did]) "finding did metadata key" (·.lookupDID did)

def node (s : FaultyStorage) (id : String) : Outcome Err Node :=
  s.reading (typedKey .nodes [id]) "looking up node key" (·.node id)

/-- `HasGenesisApplied` takes every error for a no. -/
def hasGenesisApplied (s : FaultyStorage) : Bool :=
  !s.getFails (typedKey .genesis []) && s.toIPFSStorage.hasGenesisApplied

/-- `MarkBlock`, with the three calls that can fail. -/
def markBlock (ω : Runtime) (id : BlockID) (state : BlockState) (s : FaultyStorage) :
    Outcome Err Unit × FaultyStorage :=
  let k := typedKey .blockState [id.string]
  if s.getFails k then (.err (databaseErr "looking up block state"), s)
  else if s.setFails k then (.err (databaseErr "setting block state"), s)
  else
    let cState := s.stateOf id
    let i := s.toIPFSStorage.metadataSet k (.state state)
    if cState = .validated ∧ state = .accepted then
      match i.indexBlock ω id with
      | (.ok (), i) =>
        if s.setFails (typedKey .latestBlock []) then
          (.err (databaseErr "setting block as last prefix"), { s with toIPFSStorage := i })
        else
          (.ok (), { s with toIPFSStorage := i.metadataSet (typedKey .latestBlock []) (.cid id) })
      | (r, i) => (r.mapErr (·.wrap "indexing block"), { s with toIPFSStorage := i })
    else (.ok (), { s with toIPFSStorage := i })

instance : Store FaultyStorage where
  startTest s := do return { s with toIPFSStorage := ← s.toIPFSStorage.startTest }
  completeTest := lifted IPFSStorage.completeTest
  putTx ω t := lifted (IPFSStorage.putTx ω t)
  getTx s := s.toIPFSStorage.getTx
  putBlock ω b := lifted (IPFSStorage.putBlock ω b)
  getBlock s := s.toIPFSStorage.getBlock
  allTx s := s.toIPFSStorage.allTx
  putSet ω txs := lifted (IPFSStorage.putSet ω txs)
  getSet s := s.toIPFSStorage.getSet
  getTxBlock := getTxBlock
  markBlock := markBlock
  updateLastApplied := updateLastApplied
  getLastApplied := getLastApplied
  lookupDID := lookupDID
  nodes s := s.toIPFSStorage.nodes
  node := node
  hasGenesisApplied := hasGenesisApplied
  applyGenesis ω g := lifted (IPFSStorage.applyGenesis ω g)
  applyTx id t := lifted (IPFSStorage.applyTx id t)

/-! ## Without faults -/

/-- The database answers. -/
def Sound (s : FaultyStorage) : Prop := ∀ key, s.readFails key = false ∧ s.writeFails key = false

section

variable {s : FaultyStorage} (hsound : s.Sound)
include hsound

omit [CidText] [Hash] [SigLib] in
theorem reading_of_sound {α : Type} (key : Bytes) (text : String)
    (get : IPFSStorage → Outcome Err α) : s.reading key text get = get s.toIPFSStorage := by
  simp [reading, getFails, (hsound key).1]

omit [Hash] [SigLib] in
theorem updateLastApplied_of_sound (id : BlockID) :
    s.updateLastApplied id = s.lifted (IPFSStorage.updateLastApplied id) := by
  simp [updateLastApplied, setFails, (hsound _).2]

omit [Hash] [SigLib] in
theorem markBlock_of_sound (ω : Runtime) (id : BlockID) (state : BlockState) :
    s.markBlock ω id state = s.lifted (IPFSStorage.markBlock ω id state) := by
  simp only [markBlock, lifted, IPFSStorage.markBlock, getFails, setFails, (hsound _).1,
    (hsound _).2, Bool.false_and, Bool.and_false, Bool.false_eq_true, if_false]
  split
  · generalize (s.toIPFSStorage.metadataSet _ _).indexBlock ω id = r
    obtain ⟨outcome, i⟩ := r
    cases outcome <;> rfl
  · rfl

end
end FaultyStorage
end Didem.Storage
