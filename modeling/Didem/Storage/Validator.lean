import Didem.Storage.Store

/-!
# The transaction validator

`pkg/storage/validator.go`. `TxValidator` holds one thing, its store, and `IsBlockValid` swaps
that field for a trial store while it works; here the trial store is the state threaded through
the loop and the real one is kept beside it, which is what the deferred function restores.

Two details of the source are kept because results depend on them. `isDIDTxValid` wraps the
*marshalling* error on its update branch, which is nil at that point, and `errors.Wrap` of nil is
nil. And it sets the signature of the transaction it was given to nil without putting it back, so
the model returns the transaction along with the verdict.
-/

set_option autoImplicit false

namespace Didem.Storage

open Lib

variable {S : Type} [Store S] [SigLib]

/-! ## `IsTxValid` -/

/-- `isDIDTxValid`. -/
def isDIDTxValid (s : S) (t : Tx) : Outcome Err Unit × Tx :=
  match t.data with
  | some (.did (some document)) =>
    let lookup := Store.lookupDID s document.id
    if lookup = .panic then (.panic, t)
    else
      let signature := t.signature
      let t := { t with signature := [] }
      match t.marshal with
      | .panic => (.panic, t)
      | .err e => (.err (e.wrap "marshalling tx for signature"), t)
      | .ok sigmsg =>
        -- the error of `t.Marshal()`, which the update branch wraps
        let err : Option Err := none
        match document.isValid with
        | .panic => (.panic, t)
        | .err _ => (.err .didInvalid, t)
        | .ok () =>
          match t.action with
          | .add =>
            if lookup ≠ .err .notFound then (.err .didAlreadyExists, t)
            else
              match document.signed signature sigmsg with
              | .panic => (.panic, t)
              | .err _ => (.err .didInvalidSignature, t)
              | .ok () => (.ok (), t)
          | .update | .revoke =>
            match lookup with
            | .ok none => (.panic, t)
            | .ok (some existingDid) =>
              match existingDid.signed signature sigmsg with
              | .panic => (.panic, t)
              | .err _ => (.err .didInvalidSignature, t)
              | .ok () => (.ok (), t)
            | _ => (.ofError (Err.wrapNil err "tx validation"), t)
          | .other _ => (.err .opNotSupported, t)
  -- a nil document is dereferenced; a payload of another type fails the type assertion
  | _ => (.panic, t)

/-- `isVCTxValid`: not implemented, accepts everything. -/
def isVCTxValid (_ : S) (_ : Tx) : Outcome Err Unit := .ok ()

/-- `isNodeTxValid`: no action is supported. -/
def isNodeTxValid (_ : S) (_ : Tx) : Outcome Err Unit := .err .opNotSupported

/-- `IsTxValid`, with the transaction as it leaves it. -/
def isTxValid (s : S) (t : Tx) : Outcome Err Unit × Tx :=
  if t.version ≠ version1 then (.err .txVersionNotSupported, t)
  else if t.ts = 0 then (.err .txMissingTimestamp, t)
  else if t.sender = "" then (.err .txMissingFrom, t)
  else if t.data = none then (.err .txMissingData, t)
  else
    match t.type with
    | .did => isDIDTxValid s t
    | .vc => (isVCTxValid s t, t)
    | .node => (isNodeTxValid s t, t)
    | .other _ => (.err .txUnsupportedType, t)

/-! ## `IsBlockValid` -/

/-- The novelty check of a new block: the transaction must not be in an indexed block. -/
def notInBlock (s : S) (id : TxID) : Outcome Err Unit :=
  match Store.getTxBlock s id with
  | .panic => .panic
  | .ok _ => .err (.new "tx already in previous block")
  | .err e => if e.is .notFound then .ok () else .err (e.wrap "checking for preexisting tx")

/-- One turn of the loop of `IsBlockValid`, on the trial store. -/
def tryTx (isNewBlock : Bool) (s : S) (id : TxID) (t : Tx) : Outcome Err Unit × S :=
  match isTxValid s t with
  | (.panic, _) => (.panic, s)
  | (.err e, _) => (.err (e.wrap "invalid tx in block"), s)
  | (.ok (), t) =>
    match if isNewBlock then notInBlock s id else .ok () with
    | .panic => (.panic, s)
    | .err e => (.err e, s)
    | .ok () =>
      match Store.applyTx id t s with
      | (.panic, s) => (.panic, s)
      | (.err e, s) => (.err (e.wrap "applying test tx"), s)
      | (.ok (), s) => (.ok (), s)

/-- The loop of `IsBlockValid`, over the transactions in the order the runtime visits them. -/
def tryTxs (isNewBlock : Bool) : List TxEntry → S → Outcome Err Unit × S
  | [], s => (.ok (), s)
  | e :: es, s =>
    match tryTx isNewBlock s e.1 e.2 with
    | (.ok (), s) => tryTxs isNewBlock es s
    | r => r

/-- What `IsBlockValid` does on the trial store: the loop, then the mark. -/
def tryBlock (ω : Runtime) (b : Block) (isNewBlock : Bool) (txs : TxMap) (s : S) :
    Outcome Err Unit :=
  match tryTxs isNewBlock (ω.order txs.entries) s with
  | (.ok (), s) => (Store.markBlock ω b.id .validated s).1.mapErr (·.wrap "marking block validated")
  | (r, _) => r

/-- `IsBlockValid`. The deferred function runs `CompleteTest` on the *restored* store, after the
trial and whatever its outcome; a panic there replaces the result. -/
def isBlockValid (ω : Runtime) (b : Block) (isNewBlock : Bool) (s : S) : Outcome Err Unit × S :=
  match Store.markBlock ω b.id .unvalidated s with
  | (.panic, s) => (.panic, s)
  | (.err e, s) => (.err (e.wrap "marking block unvalidated"), s)
  | (.ok (), s) =>
    match Store.allTx s b with
    | .panic => (.panic, s)
    | .err e => (.err (e.wrap "getting block txs"), s)
    | .ok txs =>
      match Store.startTest s with
      | .panic => (.panic, s)
      | .err e => (.err (e.wrap "failed to start test apply"), s)
      | .ok trial =>
        let verdict := tryBlock ω b isNewBlock txs trial
        match Store.completeTest s with
        | (.panic, s) => (.panic, s)
        | (_, s) => (verdict, s)

/-! ## `ApplyFromTip` -/

/-- The calls `ApplyFromTip` makes on a block, for the order they are made in. -/
inductive Applied where
  | validate (id : BlockID)
  | accept (id : BlockID)
  deriving DecidableEq, Repr

/-- The loop that fetches older blocks. `queue` holds the blocks fetched so far, newest last; the
result is `none` while the loop is still running when the fuel ends. -/
def fetchBack (s : S) (lastApplied : Block) :
    Nat → Block → List Block → Option (Outcome Err (List Block))
  | 0, _, _ => none
  | fuel + 1, currentTip, queue =>
    if currentTip.id ≠ lastApplied.id ∧ currentTip.id ≠ .undef then
      match Store.getBlock s currentTip.parent with
      | .panic => some .panic
      | .err e => some (.err (e.wrap "getting block"))
      | .ok b => fetchBack s lastApplied fuel b (queue ++ [b])
    else some (.ok queue)

/-- The loop that validates and imports the queue, and the calls it makes. `ω i` is the runtime
during the turn of index `i`. -/
def playForward (ω : Nat → Runtime) : Nat → List Block → S → Outcome Err Unit × S × List Applied
  | _, [], s => (.ok (), s, [])
  | i, b :: queue, s =>
    match isBlockValid (ω i) b true s with
    | (.panic, s) => (.panic, s, [.validate b.id])
    | (.err e, s) => (.err (e.wrap "validating block"), s, [.validate b.id])
    | (.ok (), s) =>
      match Store.markBlock (ω i) b.id .accepted s with
      | (.panic, s) => (.panic, s, [.validate b.id, .accept b.id])
      | (.err e, s) => (.err (e.wrap "indexing block"), s, [.validate b.id, .accept b.id])
      | (.ok (), s) =>
        let (r, s, calls) := playForward ω (i + 1) queue s
        (r, s, .validate b.id :: .accept b.id :: calls)

/-- `ApplyFromTip`, with the calls it makes; `none` while it is still fetching. -/
def applyFromTip (ω : Nat → Runtime) (fuel : Nat) (id : BlockID) (s : S) :
    Option (Outcome Err Unit × S × List Applied) :=
  match Store.getLastApplied s with
  | .panic => some (.panic, s, [])
  | .err e => some (.err (e.wrap "getting last applied block"), s, [])
  | .ok lastApplied =>
    match Store.getBlock s id with
    | .panic => some (.panic, s, [])
    | .err e => some (.err (e.wrap "getting tip block"), s, [])
    | .ok currentTip =>
      match lastApplied with
      -- the loop condition reads `lastApplied.ID`
      | none => some (.panic, s, [])
      | some lastApplied =>
        match fetchBack s lastApplied fuel currentTip [currentTip] with
        | none => none
        | some .panic => some (.panic, s, [])
        | some (.err e) => some (.err e, s, [])
        | some (.ok queue) => some (playForward ω 0 queue.reverse s)

end Didem.Storage
