import Didem.Storage.Chain
import Mathlib.Algebra.BigOperators.Group.Finset.Basic
import Mathlib.Data.List.AList

/-!
# The `Store` interface

`pkg/storage/storage.go` and `pkg/storage/metadata.go`. The validator and the consensus engine
are written against this interface, and so is their model: a `Store` is a type of store states
with the operations below, and everything above it is generic in that type.

A reading operation takes the store and returns an `Outcome`; a writing one returns the store it
leaves as well, also when it fails. What the runtime decides and the caller cannot is an argument:
`Runtime` holds the order in which a `range` over a map visits it, the answers of the services a
store calls, and its coin. Nothing is assumed about that order beyond its being an order of the
entries.

The search through the transaction sets of a block is written twice in the source, in `MemStore`
and in `IPFSStorage`, word for word; `allTxLoop` is that loop over either store's `GetSet` and
`GetTx`.
-/

set_option autoImplicit false

namespace Didem.Storage

open Lib

/-- A `map[tx.TxID]*tx.Tx`. -/
abbrev TxMap := AList (fun _ : TxID => Tx)

abbrev TxEntry := Sigma (fun _ : TxID => Tx)

/-- What the runtime decides during one call. -/
structure Runtime where
  /-- The order a `range` over a map of transactions visits it in. -/
  order : List TxEntry → List TxEntry
  order_perm : ∀ l, (order l).Perm l
  /-- Whether storing and whether pinning an object succeeds. -/
  put : Cid → Bool
  pin : Cid → Bool
  /-- Whether a metadata batch commits. -/
  commit : Bool
  /-- `coinflip.Flip`, per object. -/
  flip : Cid → Bool

/-- `storage.Store` with the methods of `storage.MetadataProvider` it embeds. -/
class Store (S : Type) where
  startTest : S → Outcome Err S
  completeTest : S → Outcome Err Unit × S
  putTx : Runtime → Tx → S → Outcome Err Cid × S
  getTx : S → TxID → Outcome Err Tx
  putBlock : Runtime → Block → S → Outcome Err Cid × S
  getBlock : S → BlockID → Outcome Err Block
  allTx : S → Block → Outcome Err TxMap
  putSet : Runtime → TxSet → S → Outcome Err Cid × S
  getSet : S → Cid → Outcome Err TxSet
  getTxBlock : S → TxID → Outcome Err Block
  markBlock : Runtime → BlockID → BlockState → S → Outcome Err Unit × S
  updateLastApplied : BlockID → S → Outcome Err Unit × S
  /-- `none` is the nil block a store without one returns. -/
  getLastApplied : S → Outcome Err (Option Block)
  /-- The document is a pointer and may be nil without an error. -/
  lookupDID : S → String → Outcome Err (Option Document)
  nodes : S → Outcome Err (List String)
  node : S → String → Outcome Err Node
  hasGenesisApplied : S → Bool
  applyGenesis : Runtime → GenesisInfo → S → Outcome Err Unit × S
  applyTx : TxID → Tx → S → Outcome Err Unit × S

/-! ## The search through a block's transaction sets -/

/-- The loop of `allTxCids` and of `IPFSStorage.AllTx`; `fuel` bounds the number of pops. -/
def allTxLoop (getSet : Cid → Outcome Err TxSet) (getTx : TxID → Outcome Err Tx) :
    Nat → List Cid → List Cid → TxMap → Outcome Err TxMap
  | _, [], _, txSeen => .ok txSeen
  | 0, _ :: _, _, _ => .panic
  | fuel + 1, setCid :: queue, visited, txSeen =>
    if setCid ∈ visited then allTxLoop getSet getTx fuel queue visited txSeen
    else
      match getSet setCid with
      | .err e => .err (e.wrap "getting root trie")
      | .panic => .panic
      | .ok set =>
        match set.tx with
        | none => allTxLoop getSet getTx fuel (queue ++ set.children) (setCid :: visited) txSeen
        | some txid =>
          match getTx txid with
          | .err e => .err (e.wrap "getting root tx")
          | .panic => .panic
          | .ok t =>
            if (txSeen.insert txid t).keys.length > maxBlockTxCount then
              .err (.new "block containers too many tx")
            else
              allTxLoop getSet getTx fuel (queue ++ set.children) (setCid :: visited)
                (txSeen.insert txid t)

/-- The number of children of a stored set. -/
def setWidth (getSet : Cid → Outcome Err TxSet) (c : Cid) : Nat :=
  match getSet c with
  | .ok set => set.children.length
  | _ => 0

/-- `AllTx` over a store that holds the objects `stored`. Each set is expanded once, so there are
no more pops than one for the root and one for every child stored anywhere. -/
def allTxFrom (getSet : Cid → Outcome Err TxSet) (getTx : TxID → Outcome Err Tx)
    (stored : Finset Cid) (root : Cid) : Outcome Err TxMap :=
  allTxLoop getSet getTx (1 + ∑ c ∈ stored, setWidth getSet c) [root] [] ∅

section Fuel

variable {getSet : Cid → Outcome Err TxSet} {getTx : TxID → Outcome Err Tx} {stored : Finset Cid}

/-- Expanding a stored set takes its width out of what is left to push. -/
theorem sum_setWidth_visit {visited : List Cid} {c : Cid} {set : TxSet} (hc : c ∈ stored)
    (hvis : c ∉ visited) (hset : getSet c = .ok set) :
    ∑ d ∈ stored with d ∉ visited, setWidth getSet d =
      set.children.length + ∑ d ∈ stored with d ∉ c :: visited, setWidth getSet d := by
  have hfilter : {d ∈ stored | d ∉ c :: visited} = {d ∈ stored | d ∉ visited}.erase c := by
    ext d
    simp only [Finset.mem_filter, Finset.mem_erase, List.mem_cons, not_or]
    tauto
  have hwidth : setWidth getSet c = set.children.length := by simp [setWidth, hset]
  rw [hfilter, ← hwidth]
  exact (Finset.add_sum_erase _ _ (Finset.mem_filter.mpr ⟨hc, hvis⟩)).symm

/-- Fuel for the queue and for what the sets that are not visited push on it is left after one has
been. -/
theorem fuel_visit (hstored : ∀ c set, getSet c = .ok set → c ∈ stored) {fuel : Nat}
    {queue visited : List Cid} {c : Cid} {set : TxSet} (hvis : c ∉ visited)
    (hset : getSet c = .ok set)
    (hfuel : queue.length + 1 + ∑ d ∈ stored with d ∉ visited, setWidth getSet d ≤ fuel + 1) :
    (queue ++ set.children).length + ∑ d ∈ stored with d ∉ c :: visited, setWidth getSet d ≤
      fuel := by
  have hsum := sum_setWidth_visit (hstored c set hset) hvis hset
  rw [List.length_append]
  omega

/-- **The search ends**: a bound above what is left to pop is never met, so that every other such
bound gives the same. -/
theorem allTxLoop_of_le (hstored : ∀ c set, getSet c = .ok set → c ∈ stored) {fuel fuel' : Nat}
    {queue visited : List Cid} {txSeen : TxMap} (hle : fuel ≤ fuel')
    (hfuel : queue.length + ∑ d ∈ stored with d ∉ visited, setWidth getSet d ≤ fuel) :
    allTxLoop getSet getTx fuel' queue visited txSeen =
      allTxLoop getSet getTx fuel queue visited txSeen := by
  induction fuel generalizing fuel' queue visited txSeen with
  | zero =>
    cases queue with
    | nil => simp only [allTxLoop]
    | cons c queue => simp at hfuel
  | succ fuel ih =>
    obtain ⟨fuel', rfl⟩ := Nat.exists_eq_succ_of_ne_zero (Nat.ne_zero_of_lt hle)
    have hle := Nat.le_of_succ_le_succ hle
    cases queue with
    | nil => simp only [allTxLoop]
    | cons c queue =>
      rw [List.length_cons] at hfuel
      rw [allTxLoop, allTxLoop]
      by_cases hvis : c ∈ visited
      · rw [if_pos hvis, if_pos hvis]
        exact ih hle (by omega)
      · rw [if_neg hvis, if_neg hvis]
        cases hset : getSet c with
        | panic => rfl
        | err e => rfl
        | ok set =>
          have hnext := fuel_visit hstored hvis hset hfuel
          cases htx : set.tx with
          | none =>
            simp only [htx]
            exact ih hle hnext
          | some txid =>
            simp only [htx]
            cases getTx txid with
            | panic => rfl
            | err e => rfl
            | ok t =>
              simp only
              split
              · rfl
              · exact ih hle hnext

/-- `AllTx` with any bound that is large enough. -/
theorem allTxFrom_eq (hstored : ∀ c set, getSet c = .ok set → c ∈ stored) {fuel : Nat} {root : Cid}
    (hfuel : 1 + ∑ c ∈ stored, setWidth getSet c ≤ fuel) :
    allTxLoop getSet getTx fuel [root] [] ∅ = allTxFrom getSet getTx stored root :=
  allTxLoop_of_le hstored hfuel (by simp)

end Fuel

/-- Every transaction the search returns was read with `GetTx`. -/
theorem getTx_of_allTxLoop {getSet : Cid → Outcome Err TxSet} {getTx : TxID → Outcome Err Tx}
    {fuel : Nat} {queue visited : List Cid} {txSeen txs : TxMap}
    (hseen : ∀ id t, txSeen.lookup id = some t → getTx id = .ok t)
    (h : allTxLoop getSet getTx fuel queue visited txSeen = .ok txs) :
    ∀ id t, txs.lookup id = some t → getTx id = .ok t := by
  induction fuel generalizing queue visited txSeen with
  | zero =>
    cases queue with
    | nil =>
      rw [allTxLoop, Outcome.ok.injEq] at h
      rw [← h]; exact hseen
    | cons setCid queue => exact absurd h (by simp [allTxLoop])
  | succ fuel ih =>
    cases queue with
    | nil =>
      rw [allTxLoop, Outcome.ok.injEq] at h
      rw [← h]; exact hseen
    | cons setCid queue =>
      rw [allTxLoop] at h
      split at h
      · exact ih hseen h
      · split at h
        · exact absurd h (by simp)
        · exact absurd h (by simp)
        · split at h
          · exact ih hseen h
          · split at h
            · exact absurd h (by simp)
            · exact absurd h (by simp)
            · rename_i txid _ _ t ht
              split at h
              · exact absurd h (by simp)
              · -- the one write: the entry added is the one `getTx` just returned
                refine ih ?_ h
                intro id' t' hl
                by_cases hid : id' = txid
                · subst hid
                  rw [AList.lookup_insert, Option.some.injEq] at hl
                  rw [← hl]; exact ht
                · rw [AList.lookup_insert_ne hid] at hl
                  exact hseen id' t' hl

theorem getTx_of_allTxFrom {getSet : Cid → Outcome Err TxSet} {getTx : TxID → Outcome Err Tx}
    {stored : Finset Cid} {root : Cid} {txs : TxMap}
    (h : allTxFrom getSet getTx stored root = .ok txs) {id : TxID} {t : Tx}
    (hl : txs.lookup id = some t) : getTx id = .ok t :=
  getTx_of_allTxLoop (by simp) h id t hl

end Didem.Storage
