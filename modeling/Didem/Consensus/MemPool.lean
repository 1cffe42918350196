import Didem.Storage.Tx
import Didem.Lib.Outcome
import Mathlib.Data.List.GetD
import Mathlib.Data.List.Perm.Basic

/-!
# The mempool

`pkg/did/consensus/mempool.go`: the interface, and `TxMemPool`, which is a binary heap by
timestamp kept with the standard library's `container/heap`. The heap's two loops are the ones of
that package. A nil transaction may be pushed; it is only when it is compared that it does harm.
-/

set_option autoImplicit false

namespace Didem

open Lib Storage

class MemPool (M : Type) where
  addTx : Option Tx → Int → M → Outcome Err Unit × M
  getTx : M → Outcome Err (Option Tx) × M
  len : M → Nat

structure TxMemPool where
  plist : List (Option Tx) := []
  deriving DecidableEq, Repr

namespace TxMemPool

/-- `Less`; `none` when a nil transaction is dereferenced. -/
def less (l : List (Option Tx)) (i j : Nat) : Option Bool :=
  match (l.getD i none), (l.getD j none) with
  | some a, some b => some (a.ts < b.ts)
  | _, _ => none

def swap (l : List (Option Tx)) (i j : Nat) : List (Option Tx) :=
  (l.set i (l.getD j none)).set j (l.getD i none)

/-- `heap.up`. The parent of the root is the root: Go divides towards zero. -/
def up : Nat → Nat → List (Option Tx) → Option (List (Option Tx))
  | 0, _, l => some l
  | fuel + 1, j, l =>
    let i := (j - 1) / 2
    if i = j then some l
    else
      match less l j i with
      | none => none
      | some false => some l
      | some true => up fuel i (swap l i j)

/-- `heap.down` on the first `n` elements. -/
def down : Nat → Nat → Nat → List (Option Tx) → Option (List (Option Tx))
  | 0, _, _, l => some l
  | fuel + 1, i, n, l =>
    let j1 := 2 * i + 1
    if j1 ≥ n then some l
    else
      match if j1 + 1 < n then (less l (j1 + 1) j1).map (fun b => if b then j1 + 1 else j1)
            else some j1 with
      | none => none
      | some j =>
        match less l j i with
        | none => none
        | some false => some l
        | some true => down fuel j n (swap l i j)

def addTx (t : Option Tx) (m : TxMemPool) : Outcome Err Unit × TxMemPool :=
  let l := m.plist ++ [t]
  match up l.length (l.length - 1) l with
  | none => (.panic, { plist := l })
  | some l => (.ok (), { plist := l })

/-- `GetTx`, that is `heap.Pop`: the root is swapped to the end and taken off. -/
def getTx (m : TxMemPool) : Outcome Err (Option Tx) × TxMemPool :=
  match m.plist.length with
  | 0 => (.ok none, m)
  | n + 1 =>
    let l := swap m.plist 0 n
    match down n 0 n l with
    | none => (.panic, { plist := l })
    | some l => (.ok (l.getD n none), { plist := l.take n })

instance : MemPool TxMemPool where
  addTx t _ m := m.addTx t
  getTx := getTx
  len m := m.plist.length

/-! ## The heap keeps its entries -/

section

variable {l l' : List (Option Tx)} {i j n fuel : Nat}

theorem swap_eq (hi : i < l.length) (hj : j < l.length) : swap l i j = l.swap i j := by
  induction l generalizing i j with
  | nil => exact absurd hi (by simp)
  | cons a l ih =>
    cases i with
    | zero =>
      cases j with
      | zero => rfl
      | succ j => simp [swap, List.swap, List.getElem?_eq_getElem (Nat.lt_of_succ_lt_succ hj)]
    | succ i =>
      cases j with
      | zero => simp [swap, List.swap, List.getElem?_eq_getElem (Nat.lt_of_succ_lt_succ hi)]
      | succ j =>
        have := ih (Nat.lt_of_succ_lt_succ hi) (Nat.lt_of_succ_lt_succ hj)
        simpa [swap, List.swap] using this

theorem swap_perm (hi : i < l.length) (hj : j < l.length) : (swap l i j).Perm l := by
  rw [swap_eq hi hj]
  exact List.swap_perm l i j

theorem up_perm (hj : j < l.length) (h : up fuel j l = some l') : l'.Perm l := by
  induction fuel generalizing j l with
  | zero => rw [← Option.some.inj h]
  | succ fuel ih =>
    rw [up] at h
    split at h
    · rw [← Option.some.inj h]
    · split at h
      · exact absurd h (by simp)
      · rw [← Option.some.inj h]
      · have hi : (j - 1) / 2 < l.length := by omega
        exact (ih (by rwa [(swap_perm hi hj).length_eq]) h).trans (swap_perm hi hj)

/-- The smaller child is a child. -/
theorem child_lt (hn : ¬ 2 * i + 1 ≥ n)
    (h : (if 2 * i + 1 + 1 < n then
        (less l (2 * i + 1 + 1) (2 * i + 1)).map fun b => if b then 2 * i + 1 + 1 else 2 * i + 1
      else some (2 * i + 1)) = some j) : i < n ∧ i < j ∧ j < n := by
  split at h
  · obtain ⟨b, -, rfl⟩ := Option.map_eq_some_iff.mp h
    cases b <;> simp <;> omega
  · rw [← Option.some.inj h]
    omega

theorem down_perm (hn : n ≤ l.length) (h : down fuel i n l = some l') : l'.Perm l := by
  induction fuel generalizing i l with
  | zero => rw [← Option.some.inj h]
  | succ fuel ih =>
    rw [down] at h
    split at h
    · rw [← Option.some.inj h]
    · next hchild =>
      split at h
      · exact absurd h (by simp)
      · next j hj =>
        obtain ⟨hi, -, hj⟩ := child_lt hchild hj
        have hswap := swap_perm (l := l) (Nat.lt_of_lt_of_le hi hn) (Nat.lt_of_lt_of_le hj hn)
        split at h
        · exact absurd h (by simp)
        · rw [← Option.some.inj h]
        · exact (ih (by rwa [hswap.length_eq]) h).trans hswap

theorem exists_getD (hnil : none ∉ l) (hi : i < l.length) : ∃ t, l.getD i none = some t := by
  rw [List.getD_eq_getElem _ _ hi]
  exact Option.ne_none_iff_exists'.mp fun h => hnil (h ▸ List.getElem_mem hi)

theorem less_ne_none (hnil : none ∉ l) (hi : i < l.length) (hj : j < l.length) :
    less l i j ≠ none := by
  obtain ⟨a, ha⟩ := exists_getD hnil hi
  obtain ⟨b, hb⟩ := exists_getD hnil hj
  simp only [less, ha, hb]
  simp

/-- A heap without nil transactions is never dereferenced in vain. -/
theorem down_ne_none (hnil : none ∉ l) (hn : n ≤ l.length) : down fuel i n l ≠ none := by
  induction fuel generalizing i l with
  | zero => simp [down]
  | succ fuel ih =>
    rw [down]
    split
    · simp
    · next hchild =>
      split
      · next hnone =>
        split at hnone
        · exact absurd (Option.map_eq_none_iff.mp hnone)
            (less_ne_none hnil (by omega) (by omega))
        · exact absurd hnone (by simp)
      · next j hj =>
        obtain ⟨hi, -, hj⟩ := child_lt hchild hj
        have hswap := swap_perm (l := l) (Nat.lt_of_lt_of_le hi hn) (Nat.lt_of_lt_of_le hj hn)
        split
        · next hnone =>
          exact absurd hnone (less_ne_none hnil (by omega) (by omega))
        · simp
        · exact ih (fun h => hnil (hswap.mem_iff.mp h)) (by rwa [hswap.length_eq])

/-- So is a heap whose new entry is sifted up. -/
theorem up_ne_none (hnil : none ∉ l) (hj : j < l.length) : up fuel j l ≠ none := by
  induction fuel generalizing j l with
  | zero => simp [up]
  | succ fuel ih =>
    rw [up]
    split
    · simp
    · have hi : (j - 1) / 2 < l.length := by omega
      have hswap := swap_perm (l := l) hi hj
      split
      · next hnone => exact absurd hnone (less_ne_none hnil hj hi)
      · simp
      · exact ih (fun h => hnil (hswap.mem_iff.mp h)) (by rwa [hswap.length_eq])

end

variable {m m' : TxMemPool}

/-- What is added is in the heap, even if adding it panics. -/
theorem addTx_perm (t : Option Tx) (m : TxMemPool) :
    (m.addTx t).2.plist.Perm (m.plist ++ [t]) := by
  unfold addTx
  simp only
  split
  · exact .rfl
  · next l h => exact up_perm (by simp) h

/-- What is taken out was in the heap, and the rest still is. -/
theorem getTx_perm {x : Option Tx} (hne : m.plist ≠ []) (h : m.getTx = (.ok x, m')) :
    m.plist.Perm (x :: m'.plist) := by
  unfold getTx at h
  split at h
  · next hlen => exact absurd (List.length_eq_zero_iff.mp hlen) hne
  · next n hlen =>
    have hswap : (swap m.plist 0 n).Perm m.plist := swap_perm (by omega) (by omega)
    simp only at h
    split at h
    · exact absurd h (by simp)
    · next l hl =>
      simp only [Prod.mk.injEq, Outcome.ok.injEq] at h
      obtain ⟨rfl, rfl⟩ := h
      have hperm : l.Perm m.plist :=
        (down_perm (by rw [hswap.length_eq]; omega) hl).trans hswap
      have hn : n < l.length := by rw [hperm.length_eq]; omega
      have htake : l.take n ++ [l.getD n none] = l := by
        rw [List.getD_eq_getElem _ _ hn, List.take_append_getElem, List.take_of_length_le]
        exact Nat.le_of_eq (hperm.length_eq.trans hlen)
      calc m.plist
        _ |>.Perm l := hperm.symm
        _ = l.take n ++ [l.getD n none] := htake.symm
        _ |>.Perm (l.getD n none :: l.take n) := List.perm_append_singleton _ _

/-- Taking one out leaves one less, unless it panics. -/
theorem length_getTx (hne : m.plist ≠ []) (h : m.getTx.1 ≠ .panic) :
    m.getTx.2.plist.length < m.plist.length := by
  obtain ⟨x, m', hget⟩ : ∃ x m', m.getTx = (.ok x, m') := by
    unfold getTx at h ⊢
    split
    · exact ⟨_, _, rfl⟩
    · next n hlen =>
      simp only [hlen] at h ⊢
      split
      · next hnone => exact absurd rfl (hnone ▸ h)
      · exact ⟨_, _, rfl⟩
  rw [hget, (getTx_perm hne hget).length_eq]
  exact Nat.lt_succ_self _

theorem length_getTx_le (m : TxMemPool) : m.getTx.2.plist.length ≤ m.plist.length := by
  by_cases hne : m.plist = []
  · simp [getTx, hne]
  · by_cases h : m.getTx.1 = .panic
    · unfold getTx at h ⊢
      split
      · exact Nat.le_refl _
      · next n hlen =>
        simp only [hlen] at h ⊢
        split
        · simp [swap, hlen]
        · next l hl => simp [hl] at h
    · exact Nat.le_of_lt (length_getTx hne h)

/-- Without nil transactions there is always one to be taken out, until the heap is empty. -/
theorem exists_getTx (hnil : none ∉ m.plist) (hne : m.plist ≠ []) :
    ∃ t m', m.getTx = (.ok (some t), m') := by
  obtain ⟨x, m', h⟩ : ∃ x m', m.getTx = (.ok x, m') := by
    unfold getTx
    split
    · next hlen => exact absurd (List.length_eq_zero_iff.mp hlen) hne
    · next n hlen =>
      have hswap : (swap m.plist 0 n).Perm m.plist := swap_perm (by omega) (by omega)
      simp only
      split
      · next hnone =>
        refine absurd hnone (down_ne_none (fun h => hnil (hswap.mem_iff.mp h)) ?_)
        rw [hswap.length_eq]
        omega
      · exact ⟨_, _, rfl⟩
  cases x with
  | none => exact absurd ((getTx_perm hne h).mem_iff.mpr List.mem_cons_self) hnil
  | some t => exact ⟨t, m', h⟩

/-! ## Nil transactions -/

/-- A nil transaction is in the heap by itself or not at all: the next to come would be compared
with it. -/
def Lonely (m : TxMemPool) : Prop := none ∉ m.plist ∨ m.plist = [none]

/-- **Adding panics when there is something to compare, and either side of it is nil.** -/
theorem addTx_eq_panic (h : m.Lonely) {t : Option Tx} :
    (m.addTx t).1 = .panic ↔ m.plist = [none] ∨ t = none ∧ m.plist ≠ [] := by
  by_cases hempty : m.plist = []
  · simp [addTx, hempty, up]
  · have hlen : 0 < m.plist.length := List.length_pos_of_ne_nil hempty
    -- the first comparison is with the parent of the new entry, which is an old one
    have hparent : (m.plist.length - 1) / 2 ≠ m.plist.length := by omega
    cases t with
    | none =>
      have hless : less (m.plist ++ [none]) m.plist.length ((m.plist.length - 1) / 2) = none := by
        simp [less]
      simp [addTx, up, hparent, hless, hempty]
    | some t =>
      rcases h with hnil | hlone
      · have hup : up (m.plist ++ [some t]).length ((m.plist ++ [some t]).length - 1)
            (m.plist ++ [some t]) ≠ none := up_ne_none (by simp [hnil]) (by simp)
        have hne : m.plist ≠ [none] := fun h => hnil (by simp [h])
        obtain ⟨l, hl⟩ := Option.ne_none_iff_exists'.mp hup
        simp only [addTx, hl, hne]
        simp
      · simp [addTx, hlone, up, less]

/-- Added without a panic, it is again by itself or not there. -/
theorem Lonely.addTx (h : m.Lonely) {t : Option Tx} (hok : (m.addTx t).1 ≠ .panic) :
    (m.addTx t).2.Lonely := by
  rw [ne_eq, addTx_eq_panic h, not_or, not_and_or, not_not] at hok
  obtain ⟨hlone, hsome | hempty⟩ := hok
  · have hnil : none ∉ m.plist := h.resolve_right hlone
    refine .inl fun hmem => ?_
    rcases List.mem_append.mp ((addTx_perm t m).mem_iff.mp hmem) with hold | hnew
    · exact hnil hold
    · exact hsome (List.mem_singleton.mp hnew).symm
  · have hone : (m.addTx t).2.plist = [t] :=
      List.perm_singleton.mp (by simpa [hempty] using addTx_perm t m)
    cases t with
    | none => exact .inr hone
    | some t => exact .inl (by simp [hone])

/-- Taking one out brings no nil in. -/
theorem Lonely.getTx (h : m.Lonely) : m.getTx.2.Lonely := by
  rcases h with hnil | hlone
  · by_cases hempty : m.plist = []
    · simp [TxMemPool.getTx, hempty, Lonely]
    · obtain ⟨t, m', hget⟩ := exists_getTx hnil hempty
      rw [hget]
      refine .inl fun hmem => hnil ?_
      exact (getTx_perm hempty hget).mem_iff.mpr (List.mem_cons_of_mem _ hmem)
  · exact .inl (by simp [TxMemPool.getTx, hlone, down])

end TxMemPool
end Didem
