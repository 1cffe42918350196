import Mathlib.Logic.Equiv.Basic
import Mathlib.Order.Lattice

/-!
# Binary heaps

The order of a binary heap, and what a swap along one edge of the tree does to it. A heap is the
function from positions to keys, so that nothing here depends on how the positions are kept; the
children of `i` are `2 * i + 1` and `2 * i + 2`.

An entry that is out of place moves along one path, and the two structures say what holds of the
rest meanwhile. `OrderedUp f n j` is a heap but for the entry at `j`, which may be too small for its
parent; `OrderedDown f n i` is one but for the entry at `i`, which may be too large for its
children. Both add what the neighbours of that entry owe **each other**, since a swap makes them
meet.
-/

set_option autoImplicit false

namespace Didem.Lib.Heap

/-- The parent of a position; the root is its own. -/
def parent (j : Nat) : Nat := (j - 1) / 2

theorem parent_lt {j : Nat} (h : 0 < j) : parent j < j := by
  unfold parent
  omega

/-- The positions below `i`. -/
theorem parent_eq_iff {i j : Nat} (h : 0 < j) :
    parent j = i ↔ j = 2 * i + 1 ∨ j = 2 * i + 2 := by
  unfold parent
  omega

variable {κ : Type*} [LinearOrder κ] {f : Nat → κ} {n i j : Nat}

/-- **Heap order** on the first `n` positions. -/
def Ordered (f : Nat → κ) (n : Nat) : Prop := ∀ k, 0 < k → k < n → f (parent k) ≤ f k

/-- A heap but for the entry at `j`, which may be too small for its parent. -/
structure OrderedUp (f : Nat → κ) (n j : Nat) : Prop where
  others : ∀ k, 0 < k → k < n → k ≠ j → f (parent k) ≤ f k
  around : ∀ k, 0 < j → k < n → 0 < k → parent k = j → f (parent j) ≤ f k

/-- A heap but for the entry at `i`, which may be too large for its children. -/
structure OrderedDown (f : Nat → κ) (n i : Nat) : Prop where
  others : ∀ k, 0 < k → k < n → parent k ≠ i → f (parent k) ≤ f k
  around : ∀ k, 0 < i → k < n → 0 < k → parent k = i → f (parent i) ≤ f k

/-- The keys after a swap of two positions. -/
def swapped (i j : Nat) (f : Nat → κ) : Nat → κ := fun k => f (Equiv.swap i j k)

omit [LinearOrder κ] in
@[simp] theorem swapped_left : swapped i j f i = f j := by simp [swapped]

omit [LinearOrder κ] in
@[simp] theorem swapped_right : swapped i j f j = f i := by simp [swapped]

omit [LinearOrder κ] in
theorem swapped_of_ne {k : Nat} (hi : k ≠ i) (hj : k ≠ j) : swapped i j f k = f k := by
  simp [swapped, Equiv.swap_apply_of_ne_of_ne hi hj]

/-- **The root is the least entry.** -/
theorem Ordered.root_le (h : Ordered f n) {k : Nat} (hk : k < n) : f 0 ≤ f k := by
  induction k using Nat.strongRecOn with
  | ind k ih =>
    by_cases hzero : k = 0
    · rw [hzero]
    · have hpos : 0 < k := Nat.pos_of_ne_zero hzero
      have hparent := parent_lt hpos
      exact (ih (parent k) hparent (Nat.lt_trans hparent hk)).trans (h k hpos hk)

theorem Ordered.congr {g : Nat → κ} (h : Ordered f n) (heq : ∀ k, k < n → g k = f k) :
    Ordered g n := by
  intro k hpos hk
  rw [heq k hk, heq (parent k) (Nat.lt_trans (parent_lt hpos) hk)]
  exact h k hpos hk

/-! ## Upwards -/

/-- A new last entry is the only one that may be out of place. -/
theorem Ordered.push (h : Ordered f n) : OrderedUp f (n + 1) n where
  others k hpos hk hne := h k hpos (by omega)
  around k _ hk hpos hparent := by
    have := parent_lt hpos
    omega

/-- The entry has found its place. -/
theorem OrderedUp.done (h : OrderedUp f n j) (hj : 0 < j → f (parent j) ≤ f j) : Ordered f n := by
  intro k hpos hk
  by_cases hkj : k = j
  · subst hkj
    exact hj hpos
  · exact h.others k hpos hk hkj

/-- **One step up**: too small for its parent, the entry changes places with it. -/
theorem OrderedUp.swap (h : OrderedUp f n j) (hpos : 0 < j) (hj : j < n)
    (hlt : f j < f (parent j)) : OrderedUp (swapped (parent j) j f) n (parent j) := by
  have hparent := parent_lt hpos
  -- what was above the parent stays above what was below it
  have habove : 0 < parent j → f (parent (parent j)) ≤ f (parent j) := fun hpp =>
    h.others (parent j) hpp (Nat.lt_trans hparent hj) (Nat.ne_of_lt hparent)
  constructor
  · intro k hk hkn hne
    by_cases hkj : k = j
    · subst hkj
      rw [swapped_left, swapped_right]
      exact le_of_lt hlt
    · rw [swapped_of_ne hne hkj]
      by_cases hp : parent k = parent j
      · -- the other child of the parent
        rw [hp, swapped_left]
        exact (le_of_lt hlt).trans (hp ▸ h.others k hk hkn hkj)
      · by_cases hpj : parent k = j
        · rw [hpj, swapped_right]
          exact h.around k hpos hkn hk hpj
        · rw [swapped_of_ne hp hpj]
          exact h.others k hk hkn hkj
  · intro k hpp hkn hk hkp
    have hgrand := parent_lt hpp
    rw [swapped_of_ne (Nat.ne_of_lt hgrand) (by omega)]
    by_cases hkj : k = j
    · subst hkj
      rw [swapped_right]
      exact habove hpp
    · have hne : k ≠ parent j := by
        have := parent_lt hk
        omega
      rw [swapped_of_ne hne hkj]
      exact (habove hpp).trans (hkp ▸ h.others k hk hkn hkj)

/-! ## Downwards -/

/-- The last entry in the place of the root is the only one that may be out of place. -/
theorem Ordered.pop (h : Ordered f (n + 1)) : OrderedDown (swapped 0 n f) n 0 where
  others k hpos hk hne := by
    have hparent := parent_lt hpos
    rw [swapped_of_ne hne (by omega), swapped_of_ne (Nat.ne_of_gt hpos) (Nat.ne_of_lt hk)]
    exact h k hpos (by omega)
  around k hpos := absurd hpos (Nat.lt_irrefl 0)

/-- The entry has found its place. -/
theorem OrderedDown.done (h : OrderedDown f n i)
    (hi : ∀ k, 0 < k → k < n → parent k = i → f i ≤ f k) : Ordered f n := by
  intro k hpos hk
  by_cases hki : parent k = i
  · rw [hki]
    exact hi k hpos hk hki
  · exact h.others k hpos hk hki

/-- **One step down**: too large for a child, the entry changes places with the smaller one. -/
theorem OrderedDown.swap (h : OrderedDown f n i) (hpos : 0 < j) (hj : j < n) (hji : parent j = i)
    (hmin : ∀ k, 0 < k → k < n → parent k = i → f j ≤ f k) (hlt : f j < f i) :
    OrderedDown (swapped i j f) n j := by
  have hij : i < j := hji ▸ parent_lt hpos
  constructor
  · intro k hk hkn hne
    by_cases hki : parent k = i
    · rw [hki, swapped_left]
      by_cases hkj : k = j
      · subst hkj
        rw [swapped_right]
        exact le_of_lt hlt
      · have hk' : k ≠ i := by
          have := parent_lt hk
          omega
        rw [swapped_of_ne hk' hkj]
        exact hmin k hk hkn hki
    · rw [swapped_of_ne hki hne]
      by_cases hk' : k = i
      · subst hk'
        rw [swapped_left]
        exact h.around j hk hj hpos hji
      · have hkj : k ≠ j := fun heq => hki (heq ▸ hji)
        rw [swapped_of_ne hk' hkj]
        exact h.others k hk hkn hki
  · intro k _ hkn hk hkj
    have hjk : j < k := hkj ▸ parent_lt hk
    rw [hji, swapped_left, swapped_of_ne (by omega) (by omega)]
    exact hkj ▸ h.others k hk hkn (by omega)

end Didem.Lib.Heap
