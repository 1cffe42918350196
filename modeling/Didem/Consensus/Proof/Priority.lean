import Didem.Consensus.MemPool
import Didem.Lib.Heap
import Mathlib.Algebra.Order.Group.Multiset

/-!
# The mempool is a priority queue

The list of a `TxMemPool` is in heap order by timestamp, and each of the two calls keeps it so:
`heap.up` and `heap.down` move one entry along one path, which is what the swap lemmas of
`Lib/Heap` are about. **`GetTx` therefore returns a transaction that no other in the pool
precedes**, and takes exactly that one out (`Heap.getTx`).

A transaction that is not nil is meant throughout; what a nil one does is in `Consensus/MemPool`.
-/

set_option autoImplicit false

namespace Didem

open Lib Lib.Heap Storage

namespace TxMemPool

section

variable {l l' : List (Option Tx)} {i j n fuel : Nat}

/-- What an entry is ordered by. -/
def key (l : List (Option Tx)) (k : Nat) : Int := ((l.getD k none).map Tx.ts).getD 0

theorem getD_swap (hi : i < l.length) (hj : j < l.length) (k : Nat) :
    (swap l i j).getD k none = l.getD (Equiv.swap i j k) none := by
  rw [Equiv.swap_apply_def]
  simp only [swap, List.getD_eq_getElem?_getD, List.getElem?_set, List.length_set]
  by_cases hkj : j = k
  · by_cases hki : k = i
    · simp [hkj, hki, hi]
    · simp [hkj, hki, hkj ▸ hj]
  · by_cases hki : i = k
    · simp [hkj, hki, hki ▸ hi]
    · simp [hkj, hki, Ne.symm hkj, Ne.symm hki]

theorem key_swap (hi : i < l.length) (hj : j < l.length) :
    key (swap l i j) = swapped i j (key l) := by
  funext k
  rw [key, getD_swap hi hj]
  rfl

theorem less_eq (hnil : none ∉ l) (hi : i < l.length) (hj : j < l.length) :
    less l i j = some (decide (key l i < key l j)) := by
  obtain ⟨a, ha⟩ := exists_getD hnil hi
  obtain ⟨b, hb⟩ := exists_getD hnil hj
  simp only [less, key, ha, hb]
  rfl

/-- The child `heap.down` compares with: no larger than the other one. -/
structure SmallerChild (l : List (Option Tx)) (n i j : Nat) : Prop where
  parent_eq : parent j = i
  pos : 0 < j
  lt : j < n
  le : ∀ k, 0 < k → k < n → parent k = i → key l j ≤ key l k

/-- The left child, if the right one is not there or not smaller. -/
theorem smallerChild_left (hleft : 2 * i + 1 < n)
    (hle : 2 * i + 1 + 1 < n → key l (2 * i + 1) ≤ key l (2 * i + 1 + 1)) :
    SmallerChild l n i (2 * i + 1) := by
  refine ⟨(parent_eq_iff (Nat.succ_pos _)).mpr (.inl rfl), Nat.succ_pos _, hleft, ?_⟩
  intro j hpos hj hparent
  rcases (parent_eq_iff hpos).mp hparent with rfl | rfl
  · exact le_refl _
  · exact hle hj

theorem smallerChild_right (hright : 2 * i + 1 + 1 < n)
    (hle : key l (2 * i + 1 + 1) ≤ key l (2 * i + 1)) : SmallerChild l n i (2 * i + 1 + 1) := by
  refine ⟨(parent_eq_iff (Nat.succ_pos _)).mpr (.inr rfl), Nat.succ_pos _, hright, ?_⟩
  intro j hpos hj hparent
  rcases (parent_eq_iff hpos).mp hparent with rfl | rfl
  · exact hle
  · exact le_refl _

theorem smallerChild_of_eq (hnil : none ∉ l) (hn : n ≤ l.length) (hchild : ¬ 2 * i + 1 ≥ n)
    (h : (if 2 * i + 1 + 1 < n then
        (less l (2 * i + 1 + 1) (2 * i + 1)).map fun b => if b then 2 * i + 1 + 1 else 2 * i + 1
      else some (2 * i + 1)) = some j) : SmallerChild l n i j := by
  have hleft : 2 * i + 1 < n := by omega
  split at h
  · next hright =>
    rw [less_eq hnil (Nat.lt_of_lt_of_le hright hn) (Nat.lt_of_lt_of_le hleft hn)] at h
    obtain ⟨b, hb, rfl⟩ := Option.map_eq_some_iff.mp h
    obtain rfl := Option.some.inj hb
    by_cases hlt : key l (2 * i + 1 + 1) < key l (2 * i + 1)
    · rw [decide_eq_true hlt]
      exact smallerChild_right hright (le_of_lt hlt)
    · rw [decide_eq_false hlt]
      exact smallerChild_left hleft fun _ => not_lt.mp hlt
  · next hlast =>
    obtain rfl := Option.some.inj h
    exact smallerChild_left hleft fun hright => absurd hright hlast

/-! ## The two loops -/

/-- `heap.up` puts the one entry that is out of place where it belongs. -/
theorem up_ordered (hnil : none ∉ l) (hj : j < l.length) (hfuel : j < fuel)
    (h : OrderedUp (key l) l.length j) (hup : up fuel j l = some l') :
    Ordered (key l') l'.length := by
  induction fuel generalizing j l with
  | zero => omega
  | succ fuel ih =>
    have hi : (j - 1) / 2 < l.length := by omega
    rw [up, less_eq hnil hj hi] at hup
    split at hup
    · next hroot =>
      rw [← Option.some.inj hup]
      exact h.done fun hpos => absurd hroot (Nat.ne_of_lt (parent_lt hpos))
    · next hroot =>
      have hpos : 0 < j := by omega
      by_cases hlt : key l j < key l ((j - 1) / 2)
      · have hswap := swap_perm hi hj
        simp only [hlt, decide_true] at hup
        refine ih (fun hmem => hnil (hswap.mem_iff.mp hmem)) (by rwa [hswap.length_eq])
          (by omega) ?_ hup
        rw [key_swap hi hj, hswap.length_eq]
        exact h.swap hpos hj hlt
      · simp only [hlt, decide_false] at hup
        rw [← Option.some.inj hup]
        exact h.done fun _ => not_lt.mp hlt

/-- So does `heap.down`, on the first `n` entries. -/
theorem down_ordered (hnil : none ∉ l) (hn : n ≤ l.length) (hfuel : n ≤ i + fuel)
    (h : OrderedDown (key l) n i) (hdown : down fuel i n l = some l') :
    Ordered (key l') n := by
  induction fuel generalizing i l with
  | zero =>
    rw [← Option.some.inj hdown]
    refine h.done fun k hpos hk hparent => ?_
    have := parent_lt hpos
    omega
  | succ fuel ih =>
    rw [down] at hdown
    split at hdown
    · next hleaf =>
      rw [← Option.some.inj hdown]
      refine h.done fun k hpos hk hparent => ?_
      have := (parent_eq_iff hpos).mp hparent
      omega
    · next hchild =>
      split at hdown
      · exact absurd hdown (by simp)
      · next j hj =>
        obtain ⟨hparent, hpos, hjn, hmin⟩ := smallerChild_of_eq hnil hn hchild hj
        have hi : i < n := (child_lt hchild hj).1
        have hi' : i < l.length := Nat.lt_of_lt_of_le hi hn
        have hj' : j < l.length := Nat.lt_of_lt_of_le hjn hn
        have hij : i < j := hparent ▸ parent_lt hpos
        rw [less_eq hnil hj' hi'] at hdown
        by_cases hlt : key l j < key l i
        · have hswap := swap_perm hi' hj'
          simp only [hlt, decide_true] at hdown
          refine ih (fun hmem => hnil (hswap.mem_iff.mp hmem)) (by rwa [hswap.length_eq])
            (by omega) ?_ hdown
          rw [key_swap hi' hj']
          exact h.swap hpos hjn hparent hmin hlt
        · simp only [hlt, decide_false] at hdown
          rw [← Option.some.inj hdown]
          exact h.done fun k hk hkn hki => (not_lt.mp hlt).trans (hmin k hk hkn hki)

/-- What lies beyond the first `n` entries stays where it is. -/
theorem down_getD (hn : n ≤ l.length) (h : down fuel i n l = some l') {k : Nat} (hk : n ≤ k) :
    l'.getD k none = l.getD k none := by
  induction fuel generalizing i l with
  | zero => rw [← Option.some.inj h]
  | succ fuel ih =>
    rw [down] at h
    split at h
    · rw [← Option.some.inj h]
    · next hchild =>
      split at h
      · exact absurd h (by simp)
      · next j hj =>
        obtain ⟨hi, -, hj⟩ := child_lt hchild hj
        have hi' : i < l.length := Nat.lt_of_lt_of_le hi hn
        have hj' : j < l.length := Nat.lt_of_lt_of_le hj hn
        split at h
        · exact absurd h (by simp)
        · rw [← Option.some.inj h]
        · rw [ih (by rwa [(swap_perm hi' hj').length_eq]) h, getD_swap hi' hj',
            Equiv.swap_apply_of_ne_of_ne (by omega) (by omega)]

end

/-! ## The two calls -/

variable {m m' : TxMemPool}

/-- A pool as it is between calls. -/
structure Heap (m : TxMemPool) : Prop where
  nil : none ∉ m.plist
  ordered : Ordered (key m.plist) m.plist.length

theorem Heap.empty : Heap {} where
  nil := by simp
  ordered := fun k _ hk => absurd hk (Nat.not_lt_zero k)

/-- **The first entry precedes every other.** -/
theorem Heap.ts_le (h : m.Heap) {t u : Tx} (ht : m.plist.getD 0 none = some t)
    (hu : some u ∈ m.plist) : t.ts ≤ u.ts := by
  obtain ⟨k, hk, hget⟩ := List.getElem_of_mem hu
  have hle := h.ordered.root_le hk
  have hkey : key m.plist k = u.ts := by
    rw [key, List.getD_eq_getElem _ _ hk, hget]
    rfl
  have hroot : key m.plist 0 = t.ts := by
    rw [key, ht]
    rfl
  rwa [hroot, hkey] at hle

/-- **`AddTx` keeps the heap**, and does not panic. -/
theorem Heap.addTx (h : m.Heap) (t : Tx) :
    ∃ m', m.addTx (some t) = (.ok (), m') ∧ m'.Heap ∧ m'.plist.Perm (some t :: m.plist) := by
  have hnil : none ∉ m.plist ++ [some t] := by simp [h.nil]
  have hlast : (m.plist ++ [some t]).length - 1 < (m.plist ++ [some t]).length := by simp
  have hup : up (m.plist ++ [some t]).length ((m.plist ++ [some t]).length - 1)
      (m.plist ++ [some t]) ≠ none := up_ne_none hnil hlast
  obtain ⟨l, hl⟩ := Option.ne_none_iff_exists'.mp hup
  have hadd : m.addTx (some t) = (.ok (), { plist := l }) := by
    simp only [TxMemPool.addTx, hl]
  have hperm : l.Perm (m.plist ++ [some t]) := up_perm hlast hl
  refine ⟨_, hadd, ⟨fun hmem => hnil (hperm.mem_iff.mp hmem), ?_⟩,
    hperm.trans (List.perm_append_singleton _ _)⟩
  refine up_ordered hnil hlast hlast ?_ hl
  have hlen : (m.plist ++ [some t]).length - 1 = m.plist.length := by simp
  rw [hlen, List.length_append, List.length_singleton]
  refine (h.ordered.congr fun k hk => ?_).push
  rw [key, List.getD_append _ _ _ _ hk]
  rfl

/-- What `GetTx` has done when it returns: the root went to the end, the rest was put in order. -/
theorem getTx_eq_ok {x : Option Tx} (hne : m.plist ≠ []) (h : m.getTx = (.ok x, m')) :
    ∃ n l, m.plist.length = n + 1 ∧ down n 0 n (swap m.plist 0 n) = some l ∧
      l.getD n none = x ∧ m'.plist = l.take n := by
  unfold TxMemPool.getTx at h
  split at h
  · next hlen => exact absurd (List.length_eq_zero_iff.mp hlen) hne
  · next n hlen =>
    simp only at h
    split at h
    · exact absurd h (by simp)
    · next l hl =>
      simp only [Prod.mk.injEq, Outcome.ok.injEq] at h
      exact ⟨n, l, hlen, hl, h.1, by rw [← h.2]⟩

/-- **`GetTx` takes out a first one**, and nothing else. -/
theorem Heap.getTx (h : m.Heap) (hne : m.plist ≠ []) :
    ∃ t m', m.getTx = (.ok (some t), m') ∧ m'.Heap ∧ m.plist.Perm (some t :: m'.plist) ∧
      ∀ u, some u ∈ m.plist → t.ts ≤ u.ts := by
  obtain ⟨t, m', hget⟩ := exists_getTx h.nil hne
  have hperm := getTx_perm hne hget
  obtain ⟨n, l, hlen, hl, ht, hrest⟩ := getTx_eq_ok hne hget
  have hpos : 0 < m.plist.length := by omega
  have hn : n < m.plist.length := by omega
  have hswap := swap_perm hpos hn
  have hle : n ≤ (swap m.plist 0 n).length := by
    rw [hswap.length_eq]
    omega
  refine ⟨t, m', hget, ⟨?_, ?_⟩, hperm, ?_⟩
  · exact fun hmem => h.nil (hperm.mem_iff.mpr (List.mem_cons_of_mem _ hmem))
  · have hroot : OrderedDown (key (swap m.plist 0 n)) n 0 := by
      rw [key_swap hpos hn]
      exact Ordered.pop (hlen ▸ h.ordered)
    have hordered : Ordered (key l) n :=
      down_ordered (fun hmem => h.nil (hswap.mem_iff.mp hmem)) hle (by omega) hroot hl
    have hlength : m'.plist.length = n := by
      have := hperm.length_eq
      rw [List.length_cons] at this
      omega
    rw [hlength, hrest]
    refine hordered.congr fun k hk => ?_
    simp only [key, List.getD_eq_getElem?_getD, List.getElem?_take, hk, if_true]
  · -- what `heap.down` leaves at the end is what was the root
    rw [down_getD hle hl (Nat.le_refl n), getD_swap hpos hn, Equiv.swap_apply_right] at ht
    exact fun u hu => h.ts_le ht hu

/-! ## Any sequence of calls -/

/-- A call on the mempool; the expiry `AddTx` is given is not looked at. -/
inductive Call where
  | addTx (t : Tx)
  | getTx
  deriving DecidableEq, Repr

/-- A pool, with the books of what has been added to it and returned by it. -/
structure Books where
  pool : TxMemPool := {}
  added : Multiset Tx := 0
  returned : Multiset Tx := 0
  panicked : Bool := false

/-- One call, from `NewTxMemPool` on. -/
def Books.step (b : Books) : Call → Books
  | .addTx t =>
    match b.pool.addTx (some t) with
    | (.ok (), m) => { b with pool := m, added := t ::ₘ b.added }
    | (_, m) => { b with pool := m, panicked := true }
  | .getTx =>
    match b.pool.getTx with
    | (.ok (some t), m) => { b with pool := m, returned := t ::ₘ b.returned }
    | (.ok none, m) => { b with pool := m }
    | (_, m) => { b with pool := m, panicked := true }

def Books.run (calls : List Call) : Books := calls.foldl Books.step {}

/-- What holds between calls. -/
structure Books.Balanced (b : Books) : Prop where
  heap : b.pool.Heap
  books : (b.pool.plist : Multiset (Option Tx)) + b.returned.map some = b.added.map some
  calm : b.panicked = false

theorem getTx_nil (h : m.plist = []) : m.getTx = (.ok none, m) := by
  simp [TxMemPool.getTx, h]

theorem Books.Balanced.step {b : Books} (h : b.Balanced) (call : Call) :
    (b.step call).Balanced := by
  cases call with
  | addTx t =>
    obtain ⟨m', hadd, hheap, hperm⟩ := h.heap.addTx t
    simp only [Books.step, hadd]
    refine ⟨hheap, ?_, h.calm⟩
    rw [Multiset.map_cons, ← h.books, ← Multiset.cons_add, Multiset.cons_coe]
    exact congrArg (· + b.returned.map some) (Multiset.coe_eq_coe.mpr hperm)
  | getTx =>
    by_cases hne : b.pool.plist = []
    · simp only [Books.step, getTx_nil hne]
      exact h
    · obtain ⟨t, m', hget, hheap, hperm, -⟩ := h.heap.getTx hne
      simp only [Books.step, hget]
      refine ⟨hheap, ?_, h.calm⟩
      rw [← h.books, Multiset.coe_eq_coe.mpr hperm, ← Multiset.cons_coe, Multiset.map_cons,
        Multiset.cons_add, Multiset.add_cons]

theorem Books.balanced_run (calls : List Call) : (Books.run calls).Balanced := by
  have hfold : ∀ b : Books, b.Balanced → (calls.foldl Books.step b).Balanced := by
    induction calls with
    | nil => exact fun _ h => h
    | cons call calls ih => exact fun b h => ih (b.step call) (h.step call)
  exact hfold {} ⟨.empty, rfl, rfl⟩

/-- **The mempool is a priority queue by timestamp.** After any calls it holds what was added and
not returned. The next `GetTx` returns nil if that is nothing, and otherwise takes out one that
nothing in the pool precedes, and only that one. -/
theorem priority_queue (calls : List Call) :
    let b := Books.run calls
    b.panicked = false ∧ b.returned ≤ b.added ∧
      (b.pool.plist : Multiset (Option Tx)) = (b.added - b.returned).map some ∧
      (b.pool.plist = [] → b.pool.getTx = (.ok none, b.pool)) ∧
      (b.pool.plist ≠ [] → ∃ t m', b.pool.getTx = (.ok (some t), m') ∧
        (∀ u, some u ∈ b.pool.plist → t.ts ≤ u.ts) ∧
        (b.pool.plist : Multiset (Option Tx)) = some t ::ₘ (m'.plist : Multiset (Option Tx))) := by
  intro b
  have hbal : b.Balanced := Books.balanced_run calls
  have hle : b.returned ≤ b.added := by
    rw [← Multiset.map_le_map_iff (Option.some_injective Tx), ← hbal.books]
    exact Multiset.le_add_left _ _
  refine ⟨hbal.calm, hle, ?_, getTx_nil, fun hne => ?_⟩
  · have hsplit : b.added.map some = (b.added - b.returned).map some + b.returned.map some := by
      rw [← Multiset.map_add, Multiset.sub_add_cancel hle]
    exact add_right_cancel (hbal.books.trans hsplit)
  · obtain ⟨t, m', hget, -, hperm, hmin⟩ := hbal.heap.getTx hne
    exact ⟨t, m', hget, hmin, Multiset.coe_eq_coe.mpr hperm⟩

end TxMemPool
end Didem
