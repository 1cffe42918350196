import Didem.Storage.Store
import Mathlib.Data.List.Sort

/-!
# Building a transaction set

`NewTxSet` of `pkg/storage/chain.go`: the transactions, sorted by their bytes, are stored as
leaves, and each level is paired up — its last node twice when it is odd — until one node is left.
The function only uses the store's `PutSet`, and takes it as an argument, because `IPFSStorage`
calls it on itself.
-/

set_option autoImplicit false

namespace Didem.Storage

open Lib

variable {S : Type} (putSet : TxSet → S → Outcome Err Cid × S)

/-- Stores a list of sets and gives each its identifier. -/
def putSets : List TxSet → S → Outcome Err (List TxSet) × S
  | [], s => (.ok [], s)
  | n :: ns, s =>
    match putSet n s with
    | (.panic, s) => (.panic, s)
    | (.err e, s) => (.err (e.wrap "storing root txset"), s)
    | (.ok c, s) =>
      let (r, s) := putSets ns s
      ((do return { n with cid := c } :: (← r)), s)

/-- The parents of a level of even length. -/
def pairUp : List TxSet → List TxSet
  | a :: b :: ns => { children := [a.cid, b.cid] } :: pairUp ns
  | _ => []

/-- A level made even by repeating its last node. -/
def evenUp (nodes : List TxSet) : List TxSet :=
  if nodes.length % 2 = 1 then nodes ++ nodes.getLast?.toList else nodes

/-- The loop that reduces a level to its root. `nodes[0]` of an empty level panics; `fuel` is
the number of leaves, more than there are levels. -/
def reduceSets : Nat → List TxSet → S → Outcome Err TxSet × S
  | _, [], s => (.panic, s)
  | _, [n], s => (.ok n, s)
  | 0, _ :: _ :: _, s => (.panic, s)
  | fuel + 1, a :: b :: ns, s =>
    match putSets putSet (pairUp (evenUp (a :: b :: ns))) s with
    | (.panic, s) => (.panic, s)
    | (.err e, s) => (.err e, s)
    | (.ok parents, s) => reduceSets fuel parents s

/-- `NewTxSet`. -/
def newTxSet (txs : List Cid) (s : S) : Outcome Err TxSet × S :=
  let txs := txs.insertionSort (·.str ≤ ·.str)
  if txs.length > maxBlockTxCount then (.err (.new "too many tx for set"), s)
  else
    match putSets putSet (txs.map fun t => { tx := some t }) s with
    | (.panic, s) => (.panic, s)
    | (.err e, s) => (.err e, s)
    | (.ok nodes, s) => reduceSets putSet txs.length nodes s

/-! ## The reduction ends -/

theorem length_pairUp : ∀ nodes : List TxSet, (pairUp nodes).length = nodes.length / 2
  | [] => rfl
  | [_] => by simp [pairUp]
  | _ :: _ :: ns => by rw [pairUp, List.length_cons, length_pairUp ns]; simp; omega

theorem length_evenUp_le (nodes : List TxSet) : (evenUp nodes).length ≤ nodes.length + 1 := by
  unfold evenUp
  split
  · cases nodes.getLast? <;> simp
  · omega

theorem length_le_length_evenUp (nodes : List TxSet) : nodes.length ≤ (evenUp nodes).length := by
  unfold evenUp
  split <;> simp

variable {putSet}

/-- What storing a list of sets that succeeds did first. -/
theorem putSets_cons_eq_ok {n : TxSet} {ns ns' : List TxSet} {s s' : S}
    (h : putSets putSet (n :: ns) s = (.ok ns', s')) :
    ∃ c s₁ rest, putSet n s = (.ok c, s₁) ∧ putSets putSet ns s₁ = (.ok rest, s') ∧
      ns' = { n with cid := c } :: rest := by
  rw [putSets] at h
  split at h
  · exact absurd h (by simp)
  · exact absurd h (by simp)
  · rename_i c s₁ hput
    cases hr : putSets putSet ns s₁ with
    | mk r s₂ =>
      simp only [hr, Prod.mk.injEq] at h
      obtain ⟨rest, rfl, hns⟩ := Outcome.bind_eq_ok.mp h.1
      rw [Outcome.pure_eq, Outcome.ok.injEq] at hns
      exact ⟨c, s₁, rest, hput, by rw [hr, h.2], hns.symm⟩

/-- Storing a list of sets keeps its length, when it succeeds. -/
theorem length_of_putSets {ns ns' : List TxSet} {s s' : S}
    (h : putSets putSet ns s = (.ok ns', s')) : ns'.length = ns.length := by
  induction ns generalizing s ns' with
  | nil => simp only [putSets, Prod.mk.injEq, Outcome.ok.injEq] at h; rw [← h.1]
  | cons n ns ih =>
    obtain ⟨c, s₁, rest, -, hrest, rfl⟩ := putSets_cons_eq_ok h
    rw [List.length_cons, List.length_cons, ih hrest]

/-- A level is its root, or is reduced through its parents. -/
theorem reduceSets_eq_ok {fuel : Nat} {nodes : List TxSet} {root : TxSet} {s s' : S}
    (h : reduceSets putSet fuel nodes s = (.ok root, s')) :
    (nodes = [root] ∧ s' = s) ∨ ∃ fuel' parents s₁, fuel = fuel' + 1 ∧
      putSets putSet (pairUp (evenUp nodes)) s = (.ok parents, s₁) ∧
      reduceSets putSet fuel' parents s₁ = (.ok root, s') := by
  rcases nodes with _ | ⟨a, _ | ⟨b, ns⟩⟩
  · exact absurd (Prod.ext_iff.mp h).1 (by simp [reduceSets])
  · simp only [reduceSets, Prod.mk.injEq, Outcome.ok.injEq] at h
    exact .inl ⟨by rw [h.1], h.2.symm⟩
  · cases fuel with
    | zero => exact absurd (Prod.ext_iff.mp h).1 (by simp [reduceSets])
    | succ fuel =>
      rw [reduceSets] at h
      split at h
      · exact absurd h (by simp)
      · exact absurd h (by simp)
      · rename_i parents s₁ hparents
        exact .inr ⟨fuel, parents, s₁, rfl, hparents, h⟩

/-- A set is built from its leaves. -/
theorem newTxSet_eq_ok {txs : List Cid} {root : TxSet} {s s' : S}
    (h : newTxSet putSet txs s = (.ok root, s')) :
    ∃ nodes s₁, putSets putSet
        ((txs.insertionSort (·.str ≤ ·.str)).map fun t => { tx := some t }) s = (.ok nodes, s₁) ∧
      reduceSets putSet (txs.insertionSort (·.str ≤ ·.str)).length nodes s₁ = (.ok root, s') := by
  unfold newTxSet at h
  simp only at h
  split at h
  · exact absurd h (by simp)
  · split at h
    · exact absurd h (by simp)
    · exact absurd h (by simp)
    · rename_i nodes s₁ hnodes
      exact ⟨nodes, s₁, hnodes, h⟩

theorem putSets_ne_panic (hput : ∀ n s, (putSet n s).1 ≠ .panic) (ns : List TxSet) (s : S) :
    (putSets putSet ns s).1 ≠ .panic := by
  induction ns generalizing s with
  | nil => simp [putSets]
  | cons n ns ih =>
    rw [putSets]
    split
    · rename_i s' h
      exact absurd (congrArg Prod.fst h) (hput n s)
    · simp
    · rename_i c s' _
      have := ih s'
      cases hr : (putSets putSet ns s').1 with
      | panic => exact absurd hr this
      | err e => simp [hr]
      | ok rest => simp [hr]

/-- **Building a set ends**: of a non-empty list there is always a root or an error. -/
theorem reduceSets_ne_panic (hput : ∀ n s, (putSet n s).1 ≠ .panic) {fuel : Nat}
    {nodes : List TxSet} (hne : nodes ≠ []) (hfuel : nodes.length ≤ fuel) (s : S) :
    (reduceSets putSet fuel nodes s).1 ≠ .panic := by
  induction fuel generalizing nodes s with
  | zero => exact absurd (List.length_eq_zero_iff.mp (Nat.le_zero.mp hfuel)) hne
  | succ fuel ih =>
    match nodes, hne with
    | [n], _ => simp [reduceSets]
    | a :: b :: ns, _ =>
      rw [reduceSets]
      cases hput' : putSets putSet (pairUp (evenUp (a :: b :: ns))) s with
      | mk r s' =>
        cases r with
        | panic => exact absurd (congrArg Prod.fst hput') (putSets_ne_panic hput _ s)
        | err e => simp
        | ok parents =>
          -- a level of two or more has at least one parent, and fewer parents than nodes
          have hlen : parents.length = (evenUp (a :: b :: ns)).length / 2 := by
            rw [length_of_putSets hput', length_pairUp]
          have hle := length_evenUp_le (a :: b :: ns)
          have hge := length_le_length_evenUp (a :: b :: ns)
          simp only [List.length_cons] at hle hge hfuel
          refine ih ?_ (by omega) s'
          intro hnil
          rw [hnil, List.length_nil] at hlen
          omega

theorem newTxSet_ne_panic (hput : ∀ n s, (putSet n s).1 ≠ .panic) {txs : List Cid}
    (hne : txs ≠ []) (s : S) : (newTxSet putSet txs s).1 ≠ .panic := by
  unfold newTxSet
  simp only
  split
  · simp
  · cases hput' : putSets putSet ((txs.insertionSort (·.str ≤ ·.str)).map fun t =>
        { tx := some t }) s with
    | mk r s' =>
      cases r with
      | panic => exact absurd (congrArg Prod.fst hput') (putSets_ne_panic hput _ s)
      | err e => simp
      | ok nodes =>
        have hlen := length_of_putSets hput'
        rw [List.length_map] at hlen
        refine reduceSets_ne_panic hput (fun hnil => hne ?_) (le_of_eq hlen) s'
        rw [hnil, List.length_nil, List.length_insertionSort] at hlen
        exact List.length_eq_zero_iff.mp hlen.symm

end Didem.Storage
