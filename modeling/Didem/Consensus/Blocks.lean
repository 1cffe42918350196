import Didem.Consensus.State
import Didem.Storage.TxSet

/-!
# Making a block

`blocks.go`. The transactions leave the mempool before anything can fail, and nothing puts them
back. Nothing checks them either: the proposer validates neither the transactions it takes nor the
block it makes of them.
-/

set_option autoImplicit false

namespace Didem.Consensus

open Lib Storage

variable {S M : Type} [Store S] [MemPool M] [CryptoLib]

/-- The loop that takes up to `n` transactions; a nil one ends it. -/
def takeTxs : Nat → Engine S M (List Tx)
  | 0 => return []
  | n + 1 => do
    match ← onPool MemPool.getTx with
    | none => return []
    | some t => return t :: (← takeTxs n)

/-- The loop that stores them. -/
def putTxs (ω : Env) : List Tx → Engine S M (List Cid)
  | [] => return []
  | t :: ts => do
    let c ← (onStore (Store.putTx ω.toRuntime t)).wrap (·.wrap "storing tx")
    return c :: (← putTxs ω ts)

/-- `makeBlock`; `none` when there is nothing to propose. -/
def makeBlock (ω : Env) : Engine S M (Option Block) := do
  let c ← .get
  match ω.nonce with
  | none => .lift (.err (.new "rand"))
  | some nonce =>
    let block : Block :=
      { version := blockVersion, parent := c.state.block, height := c.propsalState.height
        createdAt := ω.now, proposer := c.id, nonce := nonce }
    let n := min maxBlockTxCount (MemPool.len c.memPool)
    if n = 0 then return none
    else
      let txs ← takeTxs n
      let txCids ← putTxs ω txs
      let bloom ← .lift
        ((CryptoLib.makeBloom txCids).mapErr (·.wrap "creating block bloom filter"))
      let txSet ← (onStore (newTxSet (Store.putSet ω.toRuntime) txCids)).wrap
        (·.wrap "creating tx set")
      let txsCid ← (onStore (Store.putSet ω.toRuntime txSet)).wrap (·.wrap "storing tx set")
      return some { block with bloom := bloom, txRoot := txsCid }

/-! ## What it keeps

For a relation of the states before and after that is a preorder: what the calls on the mempool and
on the store keep is kept by the whole. -/

section

variable {R : Consensus S M → Consensus S M → Prop} [Std.Refl R] [IsTrans (Consensus S M) R]

omit [Store S] [CryptoLib] in
theorem takeTxs_within (hget : Proc.Within R (onPool MemPool.getTx)) (n : Nat) :
    Proc.Within R (takeTxs n) := by
  induction n with
  | zero => exact .pure _
  | succ n ih =>
    refine .bind hget fun t => ?_
    cases t with
    | none => exact .pure _
    | some t => exact .bind ih fun _ => .pure _

omit [MemPool M] [CryptoLib] in
theorem putTxs_within {ω : Env}
    (hput : ∀ t, Proc.Within R (onStore (Store.putTx ω.toRuntime t))) (txs : List Tx) :
    Proc.Within R (putTxs ω txs) := by
  induction txs with
  | nil => exact .pure _
  | cons t ts ih => exact .bind (.wrap (hput t)) fun _ => .bind ih fun _ => .pure _

theorem makeBlock_within {ω : Env} (hget : Proc.Within R (onPool MemPool.getTx))
    (hput : ∀ t, Proc.Within R (onStore (Store.putTx ω.toRuntime t)))
    (hnew : ∀ cids, Proc.Within R (onStore (newTxSet (Store.putSet ω.toRuntime) cids)))
    (hset : ∀ set, Proc.Within R (onStore (Store.putSet ω.toRuntime set))) :
    Proc.Within R (makeBlock ω) := by
  refine .bind .get fun c => ?_
  cases ω.nonce with
  | none => exact .lift _
  | some nonce =>
    simp only
    split
    · exact .pure _
    · refine .bind (takeTxs_within hget _) fun txs => .bind (putTxs_within hput txs) fun cids => ?_
      refine .bind (.lift _) fun bloom => .bind (.wrap (hnew cids)) fun set => ?_
      exact .bind (.wrap (hset set)) fun _ => .pure _

end

end Didem.Consensus
