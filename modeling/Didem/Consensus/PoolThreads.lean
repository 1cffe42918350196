import Didem.Consensus.MemPool
import Didem.Lib.Threads

/-!
# The mempool under several goroutines

`onTx` calls `AddTx` in a goroutine of its own for every message, while `makeBlock` calls `GetTx`
again and again. The mutex of `TxMemPool` is taken by `Len`, `Less`, `Swap`, `Push` and `Pop`, each
for itself; `heap.Push` and `heap.Pop` are made of many of them. So these five are the atomic steps
here, and a goroutine keeps the indices it has computed from one to the next.

An index out of range, or a nil transaction, ends the process: nothing moves after that.
-/

set_option autoImplicit false

namespace Didem

open Lib Storage

namespace TxMemPool

/-- What the goroutines share, and what `GetTx` has returned so far. -/
structure Shared where
  plist : List (Option Tx)
  returned : List (Option Tx) := []
  panicked : Bool := false
  deriving DecidableEq, Repr

/-- Where a goroutine is: before the step that is named. -/
inductive At where
  -- `AddTx`, that is `heap.Push`: `h.Push(x)`, then `h.Len()`, then `up`
  | add (t : Tx)
  | len
  | upLess (j : Nat)
  | upSwap (j : Nat)
  | added
  -- `GetTx`, to be called `k` more times: `m.Len()`, then `heap.Pop`
  | ready (k : Nat)
  | popLen (k : Nat)
  | popSwap (k n : Nat)
  | downChild (k n i : Nat)
  | downLess (k n i j : Nat)
  | downSwap (k n i j : Nat)
  | pop (k : Nat)
  deriving DecidableEq, Repr

/-- The head of the loop of `heap.up`. `h.Len() - 1` is -1 if the list was emptied meanwhile; that
is its own parent, as 0 is. -/
def At.upFrom (j : Nat) : At := if (j - 1) / 2 = j then .added else .upLess j

/-- The head of the loop of `heap.down`. -/
def At.downFrom (k n i : Nat) : At :=
  let j1 := 2 * i + 1
  if j1 ≥ n then .pop k
  else if j1 + 1 < n then .downChild k n i
  else .downLess k n i j1

namespace Shared

def die (s : Shared) (l : At) : Shared × At := ({ s with panicked := true }, l)

/-- `Less(i, j)`, and where its answer leads. -/
def less (s : Shared) (i j : Nat) (l : At) (k : Bool → At) : Shared × At :=
  match TxMemPool.less s.plist i j with
  | none => s.die l
  | some b => (s, k b)

/-- `Swap(i, j)`. -/
def swap (s : Shared) (i j : Nat) (l l' : At) : Shared × At :=
  if i < s.plist.length ∧ j < s.plist.length then
    ({ s with plist := TxMemPool.swap s.plist i j }, l')
  else s.die l

/-- One atomic step. -/
def act (s : Shared) : At → List (Shared × At)
  | .add t => [({ s with plist := s.plist ++ [some t] }, .len)]
  | .len => [(s, .upFrom (s.plist.length - 1))]
  | .upLess j => [s.less j ((j - 1) / 2) (.upLess j) fun b => if b then .upSwap j else .added]
  | .upSwap j => [s.swap ((j - 1) / 2) j (.upSwap j) (.upFrom ((j - 1) / 2))]
  | .added => []
  | .ready 0 => []
  | .ready (k + 1) => [(s, if s.plist.length > 0 then .popLen k else .ready k)]
  | .popLen k =>
    match s.plist.length with
    -- `Swap(0, -1)`
    | 0 => [s.die (.popLen k)]
    | n + 1 => [(s, .popSwap k n)]
  | .popSwap k n => [s.swap 0 n (.popSwap k n) (.downFrom k n 0)]
  | .downChild k n i =>
    let j1 := 2 * i + 1
    [s.less (j1 + 1) j1 (.downChild k n i) fun b => .downLess k n i (if b then j1 + 1 else j1)]
  | .downLess k n i j =>
    [s.less j i (.downLess k n i j) fun b => if b then .downSwap k n i j else .pop k]
  | .downSwap k n i j => [s.swap i j (.downSwap k n i j) (.downFrom k n j)]
  | .pop k =>
    match s.plist.length with
    | 0 => [s.die (.pop k)]
    | n + 1 =>
      [({ s with plist := s.plist.take n, returned := s.returned ++ [s.plist.getD n none] },
        .ready k)]

def next (s : Shared) (l : At) : List (Shared × At) := if s.panicked then [] else s.act l

end Shared

/-- No call is in progress in this goroutine. -/
def At.idle : At → Bool
  | .add _ | .added | .ready _ => true
  | _ => false

/-- The calls that are about to be made on a pool: one `AddTx` for each of `txs`, in a goroutine of
its own, and `g` calls of `GetTx` one after the other. -/
def calls (m : TxMemPool) (txs : List Tx) (g : Nat) : Conf Shared At :=
  ⟨{ plist := m.plist }, .ready g :: txs.map .add⟩

end TxMemPool
end Didem
