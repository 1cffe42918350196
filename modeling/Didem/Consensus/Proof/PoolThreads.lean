import Didem.Consensus.PoolThreads
import Didem.Consensus.Proof.Priority
import Didem.Storage.Sample

/-!
# What the mempool survives

Interleaved at the steps that hold the mutex, the calls of `AddTx` and `GetTx` lose nothing: every
transaction is still to be pushed, in the list, or returned, **in every interleaving**
(`books_of_reach`). The order and the indices are another matter. They are right as long as **no
goroutine makes a step while another one is inside a call**, which the mutex does not see to; a
single `GetTx` between the `Push` and the `Less` of an `AddTx` makes that `Less` read past the end,
whatever is in the pool (`overlap_panics`).

A goroutine that is alone computes what `addTx` and `getTx` of `Consensus/MemPool` do
(`solo_addTx`, `solo_getTx`).
-/

set_option autoImplicit false

namespace Didem

open Lib Lib.Heap Lib.Conf Storage

namespace TxMemPool

variable {s s' : Shared} {l l' : At}

/-! ## Nothing is lost -/

/-- What a goroutine has still to push. -/
def At.pending : At → Multiset (Option Tx)
  | .add t => {some t}
  | _ => 0

@[simp] theorem At.pending_upFrom (j : Nat) : (At.upFrom j).pending = 0 := by
  unfold At.upFrom
  split <;> rfl

@[simp] theorem At.pending_downFrom (k n i : Nat) : (At.downFrom k n i).pending = 0 := by
  simp only [At.downFrom]
  split
  · rfl
  · split <;> rfl

namespace Shared

/-- What is in the list or has left it through `GetTx`. -/
def books (s : Shared) : Multiset (Option Tx) := (s.plist : Multiset (Option Tx)) + s.returned

/-- `Less` changes nothing, whichever way it goes. -/
theorem less_cases {i j : Nat} {k : Bool → At} (h : (s', l') = s.less i j l k) :
    TxMemPool.less s.plist i j = none ∧ s' = { s with panicked := true } ∧ l' = l ∨
      ∃ b, TxMemPool.less s.plist i j = some b ∧ s' = s ∧ l' = k b := by
  unfold Shared.less at h
  split at h
  · next hless => exact .inl ⟨hless, Prod.mk.inj h⟩
  · next b hless => exact .inr ⟨b, hless, Prod.mk.inj h⟩

theorem swap_cases {i j : Nat} {l₁ : At} (h : (s', l') = s.swap i j l l₁) :
    ¬ (i < s.plist.length ∧ j < s.plist.length) ∧ s' = { s with panicked := true } ∧ l' = l ∨
      (i < s.plist.length ∧ j < s.plist.length) ∧
        s' = { s with plist := TxMemPool.swap s.plist i j } ∧ l' = l₁ := by
  unfold Shared.swap at h
  split at h
  · next hin => exact .inr ⟨hin, Prod.mk.inj h⟩
  · next hout => exact .inl ⟨hout, Prod.mk.inj h⟩

theorem books_swap {i j : Nat} (hi : i < s.plist.length) (hj : j < s.plist.length) :
    books { s with plist := TxMemPool.swap s.plist i j } = s.books :=
  congrArg (· + (s.returned : Multiset (Option Tx))) (Multiset.coe_eq_coe.mpr (swap_perm hi hj))

end Shared

/-- A comparison keeps the books. -/
theorem books_less {i j : Nat} {k : Bool → At} (h : (s', l') = s.less i j l k)
    (hl : l.pending = 0) (hk : ∀ b, (k b).pending = 0) :
    s'.books + l'.pending = s.books + l.pending := by
  rcases Shared.less_cases h with ⟨-, rfl, rfl⟩ | ⟨b, -, rfl, rfl⟩
  · rfl
  · rw [hl, hk b]

theorem books_swap {i j : Nat} {l₁ : At} (h : (s', l') = s.swap i j l l₁)
    (hl : l.pending = 0) (hl₁ : l₁.pending = 0) :
    s'.books + l'.pending = s.books + l.pending := by
  rcases Shared.swap_cases h with ⟨-, rfl, rfl⟩ | ⟨⟨hi, hj⟩, rfl, rfl⟩
  · rfl
  · rw [Shared.books_swap hi hj, hl, hl₁]

/-- **One step moves a transaction at most.** -/
theorem books_act (h : (s', l') ∈ s.act l) : s'.books + l'.pending = s.books + l.pending := by
  cases l with
  | add t =>
    obtain ⟨rfl, rfl⟩ := Prod.mk.inj (List.mem_singleton.mp h)
    simp only [Shared.books, At.pending, ← Multiset.coe_add, Multiset.coe_singleton, add_zero]
    exact add_right_comm _ _ _
  | len =>
    obtain ⟨rfl, rfl⟩ := Prod.mk.inj (List.mem_singleton.mp h)
    rw [At.pending_upFrom]
    rfl
  | upLess j =>
    exact books_less (List.mem_singleton.mp h) rfl (fun b => by cases b <;> rfl)
  | upSwap j => exact books_swap (List.mem_singleton.mp h) rfl (At.pending_upFrom _)
  | added => exact absurd h List.not_mem_nil
  | ready k =>
    cases k with
    | zero => exact absurd h List.not_mem_nil
    | succ k =>
      obtain ⟨rfl, rfl⟩ := Prod.mk.inj (List.mem_singleton.mp h)
      split <;> rfl
  | popLen k =>
    simp only [Shared.act] at h
    split at h
    · obtain ⟨rfl, rfl⟩ := Prod.mk.inj (List.mem_singleton.mp h)
      rfl
    · obtain ⟨rfl, rfl⟩ := Prod.mk.inj (List.mem_singleton.mp h)
      rfl
  | popSwap k n => exact books_swap (List.mem_singleton.mp h) rfl (At.pending_downFrom _ _ _)
  | downChild k n i => exact books_less (List.mem_singleton.mp h) rfl (fun _ => rfl)
  | downLess k n i j =>
    exact books_less (List.mem_singleton.mp h) rfl (fun b => by cases b <;> rfl)
  | downSwap k n i j => exact books_swap (List.mem_singleton.mp h) rfl (At.pending_downFrom _ _ _)
  | pop k =>
    simp only [Shared.act] at h
    split at h
    · obtain ⟨rfl, rfl⟩ := Prod.mk.inj (List.mem_singleton.mp h)
      rfl
    · next n hlen =>
      obtain ⟨rfl, rfl⟩ := Prod.mk.inj (List.mem_singleton.mp h)
      have hn : n < s.plist.length := by omega
      -- what `Pop` takes off the list is what it returns
      have hsplit : s.plist = s.plist.take n ++ [s.plist.getD n none] := by
        rw [List.getD_eq_getElem _ _ hn, List.take_append_getElem, List.take_of_length_le]
        exact Nat.le_of_eq hlen
      simp only [Shared.books, At.pending, add_zero]
      conv_rhs => rw [hsplit]
      simp only [← Multiset.coe_add]
      rw [add_assoc, add_comm (s.returned : Multiset (Option Tx))]

theorem mem_act (h : (s', l') ∈ s.next l) : s.panicked = false ∧ (s', l') ∈ s.act l := by
  unfold Shared.next at h
  split at h
  · exact absurd h List.not_mem_nil
  · next hcalm => exact ⟨Bool.eq_false_iff.mpr hcalm, h⟩

/-- **Nothing is lost or returned twice**, in any interleaving. -/
theorem books_of_reach {c c' : Conf Shared At} (h : Reach Shared.next c c') :
    c'.shared.books + total At.pending c'.threads =
      c.shared.books + total At.pending c.threads := by
  refine h.invariant
    (P := fun c' => c'.shared.books + total At.pending c'.threads =
      c.shared.books + total At.pending c.threads) rfl ?_
  intro s s' l l' pre post ih hnext
  have hbooks := books_act (mem_act hnext).2
  exact (add_total_move At.pending hbooks pre post).trans ih

/-! ## One call at a time -/

/-- What a goroutine knows of the list when it has it for itself. -/
def At.Knows : At → List (Option Tx) → Prop
  | .add _, l | .added, l | .ready _, l => Ordered (key l) l.length
  | .len, l => 0 < l.length ∧ OrderedUp (key l) l.length (l.length - 1)
  | .upLess j, l => 0 < j ∧ j < l.length ∧ OrderedUp (key l) l.length j
  | .upSwap j, l =>
    0 < j ∧ j < l.length ∧ OrderedUp (key l) l.length j ∧ key l j < key l (parent j)
  | .popLen _, l => 0 < l.length ∧ Ordered (key l) l.length
  | .popSwap _ n, l => l.length = n + 1 ∧ Ordered (key l) l.length
  | .downChild _ n i, l => l.length = n + 1 ∧ 2 * i + 1 + 1 < n ∧ OrderedDown (key l) n i
  | .downLess _ n i j, l => l.length = n + 1 ∧ OrderedDown (key l) n i ∧ SmallerChild l n i j
  | .downSwap _ n i j, l =>
    l.length = n + 1 ∧ OrderedDown (key l) n i ∧ SmallerChild l n i j ∧ key l j < key l i
  | .pop _, l => 0 < l.length ∧ Ordered (key l) (l.length - 1)

section Alone

variable {ts : List (Option Tx)} {i j k n : Nat}

theorem knows_upFrom (hj : j < ts.length) (h : OrderedUp (key ts) ts.length j) :
    (At.upFrom j).Knows ts := by
  unfold At.upFrom
  split
  · next hroot => exact h.done fun hpos => absurd hroot (Nat.ne_of_lt (parent_lt hpos))
  · exact ⟨by omega, hj, h⟩

theorem knows_downFrom (hlen : ts.length = n + 1) (h : OrderedDown (key ts) n i) :
    (At.downFrom k n i).Knows ts := by
  simp only [At.downFrom]
  split
  · next hleaf =>
    refine ⟨by omega, ?_⟩
    rw [hlen, Nat.add_sub_cancel]
    refine h.done fun j hpos hj hparent => ?_
    have := (parent_eq_iff hpos).mp hparent
    omega
  · next hchild =>
    split
    · next hboth => exact ⟨hlen, hboth, h⟩
    · next hone =>
      exact ⟨hlen, h, smallerChild_left (by omega) fun hboth => absurd hboth hone⟩

/-- The new entry is the one that may be out of place. -/
theorem knows_len (h : Ordered (key ts) ts.length) (t : Tx) : At.len.Knows (ts ++ [some t]) := by
  refine ⟨by simp, ?_⟩
  rw [List.length_append, List.length_singleton, Nat.add_sub_cancel]
  refine (h.congr fun k hk => ?_).push
  rw [key, List.getD_append _ _ _ _ hk]
  rfl

/-- Without its last entry, which `heap.down` has left out, the list is a heap. -/
theorem ordered_take (hlen : ts.length = n + 1) (h : Ordered (key ts) n) :
    Ordered (key (ts.take n)) (ts.take n).length := by
  rw [List.length_take, hlen, Nat.min_eq_left (Nat.le_succ n)]
  refine h.congr fun k hk => ?_
  simp only [key, List.getD_eq_getElem?_getD, List.getElem?_take, hk, if_true]

end Alone

/-- What holds of the shared state when the goroutine at `l` has it for itself. -/
structure Alone (l : At) (s : Shared) : Prop where
  calm : s.panicked = false
  nil : none ∉ s.plist
  knows : l.Knows s.plist

/-- In range and without nil, `Less` compares. -/
theorem less_alone {i j : Nat} {k : Bool → At} (h : (s', l') = s.less i j l k)
    (hnil : none ∉ s.plist) (hcalm : s.panicked = false) (hi : i < s.plist.length)
    (hj : j < s.plist.length)
    (hlt : key s.plist i < key s.plist j → (k true).Knows s.plist)
    (hle : key s.plist j ≤ key s.plist i → (k false).Knows s.plist) : Alone l' s' := by
  have hless := less_eq hnil hi hj
  rcases Shared.less_cases h with ⟨hnone, -, -⟩ | ⟨b, hsome, rfl, rfl⟩
  · rw [hless] at hnone
    cases hnone
  · rw [hless] at hsome
    refine ⟨hcalm, hnil, ?_⟩
    rw [← Option.some.inj hsome]
    by_cases hcase : key s'.plist i < key s'.plist j
    · rw [decide_eq_true hcase]
      exact hlt hcase
    · rw [decide_eq_false hcase]
      exact hle (not_lt.mp hcase)

theorem swap_alone {i j : Nat} {l₁ : At} (h : (s', l') = s.swap i j l l₁)
    (hnil : none ∉ s.plist) (hcalm : s.panicked = false) (hi : i < s.plist.length)
    (hj : j < s.plist.length)
    (hknows : l₁.Knows (TxMemPool.swap s.plist i j)) : Alone l' s' := by
  rcases Shared.swap_cases h with ⟨hout, -, -⟩ | ⟨-, rfl, rfl⟩
  · exact absurd ⟨hi, hj⟩ hout
  · exact ⟨hcalm, fun hmem => hnil ((swap_perm hi hj).mem_iff.mp hmem), hknows⟩

/-- **Each step of a call finds what it needs**, and leaves what the next one needs. -/
theorem Alone.step (h : Alone l s) (hnext : (s', l') ∈ s.next l) : Alone l' s' := by
  obtain ⟨hcalm, hact⟩ := mem_act hnext
  have hnil := h.nil
  have hknows := h.knows
  cases l with
  | add t =>
    obtain ⟨rfl, rfl⟩ := Prod.mk.inj (List.mem_singleton.mp hact)
    exact ⟨hcalm, by simp [hnil], knows_len hknows t⟩
  | len =>
    obtain ⟨rfl, rfl⟩ := Prod.mk.inj (List.mem_singleton.mp hact)
    obtain ⟨hpos, hup⟩ := hknows
    exact ⟨hcalm, hnil, knows_upFrom (Nat.sub_one_lt (Nat.ne_of_gt hpos)) hup⟩
  | upLess j =>
    obtain ⟨hpos, hj, hup⟩ := hknows
    have hi : parent j < s.plist.length := Nat.lt_trans (parent_lt hpos) hj
    refine less_alone (List.mem_singleton.mp hact) hnil hcalm hj hi ?_ ?_
    · exact fun hlt => ⟨hpos, hj, hup, hlt⟩
    · exact fun hle => hup.done fun _ => hle
  | upSwap j =>
    obtain ⟨hpos, hj, hup, hlt⟩ := hknows
    have hi : (j - 1) / 2 < s.plist.length := Nat.lt_trans (parent_lt hpos) hj
    refine swap_alone (List.mem_singleton.mp hact) hnil hcalm hi hj (knows_upFrom ?_ ?_)
    · rwa [(swap_perm hi hj).length_eq]
    · rw [(swap_perm hi hj).length_eq, key_swap hi hj]
      exact hup.swap hpos hj hlt
  | added => exact absurd hact List.not_mem_nil
  | ready k =>
    cases k with
    | zero => exact absurd hact List.not_mem_nil
    | succ k =>
      obtain ⟨rfl, rfl⟩ := Prod.mk.inj (List.mem_singleton.mp hact)
      split
      · next hpos => exact ⟨hcalm, hnil, hpos, hknows⟩
      · exact ⟨hcalm, hnil, hknows⟩
  | popLen k =>
    obtain ⟨hpos, hordered⟩ := hknows
    simp only [Shared.act] at hact
    split at hact
    · omega
    · next n hlen =>
      obtain ⟨rfl, rfl⟩ := Prod.mk.inj (List.mem_singleton.mp hact)
      exact ⟨hcalm, hnil, hlen, hordered⟩
  | popSwap k n =>
    obtain ⟨hlen, hordered⟩ := hknows
    have hi : 0 < s.plist.length := by omega
    have hn : n < s.plist.length := by omega
    refine swap_alone (List.mem_singleton.mp hact) hnil hcalm hi hn (knows_downFrom ?_ ?_)
    · rwa [(swap_perm hi hn).length_eq]
    · exact key_swap hi hn ▸ Ordered.pop (hlen ▸ hordered)
  | downChild k n i =>
    obtain ⟨hlen, hboth, hdown⟩ := hknows
    refine less_alone (List.mem_singleton.mp hact) hnil hcalm (by omega) (by omega) ?_ ?_
    · exact fun hlt => ⟨hlen, hdown, smallerChild_right hboth (le_of_lt hlt)⟩
    · exact fun hle => ⟨hlen, hdown, smallerChild_left (by omega) fun _ => hle⟩
  | downLess k n i j =>
    obtain ⟨hlen, hdown, hchild⟩ := hknows
    have hij : i < j := hchild.parent_eq ▸ parent_lt hchild.pos
    have hjn := hchild.lt
    refine less_alone (List.mem_singleton.mp hact) hnil hcalm (by omega) (by omega) ?_ ?_
    · exact fun hlt => ⟨hlen, hdown, hchild, hlt⟩
    · intro hle
      refine ⟨by omega, ?_⟩
      rw [hlen, Nat.add_sub_cancel]
      exact hdown.done fun k hk hkn hki => hle.trans (hchild.le k hk hkn hki)
  | downSwap k n i j =>
    obtain ⟨hlen, hdown, hchild, hlt⟩ := hknows
    have hij : i < j := hchild.parent_eq ▸ parent_lt hchild.pos
    have hjn := hchild.lt
    have hi : i < s.plist.length := by omega
    have hj : j < s.plist.length := by omega
    refine swap_alone (List.mem_singleton.mp hact) hnil hcalm hi hj (knows_downFrom ?_ ?_)
    · rwa [(swap_perm hi hj).length_eq]
    · exact key_swap hi hj ▸
        hdown.swap hchild.pos hchild.lt hchild.parent_eq hchild.le hlt
  | pop k =>
    obtain ⟨hpos, hordered⟩ := hknows
    simp only [Shared.act] at hact
    split at hact
    · omega
    · next n hlen =>
      obtain ⟨rfl, rfl⟩ := Prod.mk.inj (List.mem_singleton.mp hact)
      rw [hlen, Nat.succ_sub_one] at hordered
      exact ⟨hcalm, fun hmem => hnil (List.mem_of_mem_take hmem), ordered_take hlen hordered⟩

/-! ## A goroutine by itself -/

section Solo

variable {ts : List (Option Tx)} {i j k n fuel : Nat}

theorem solo_act (hcalm : s.panicked = false) (h : s.act l = [(s', l')]) :
    Solo Shared.next (s, l) (s', l') :=
  .single (by simp [Shared.next, hcalm, h])

theorem solo_swap {l₁ : At} (hcalm : s.panicked = false) (hact : s.act l = [s.swap i j l l₁])
    (hi : i < s.plist.length) (hj : j < s.plist.length) :
    Solo Shared.next (s, l) ({ s with plist := TxMemPool.swap s.plist i j }, l₁) :=
  solo_act hcalm (by rw [hact, Shared.swap, if_pos ⟨hi, hj⟩])

theorem solo_upLess {b : Bool} (hcalm : s.panicked = false)
    (h : less s.plist j ((j - 1) / 2) = some b) :
    Solo Shared.next (s, .upLess j) (s, if b then At.upSwap j else .added) :=
  solo_act hcalm (by simp only [Shared.act, Shared.less, h])

theorem solo_downChild {b : Bool} (hcalm : s.panicked = false)
    (h : less s.plist (2 * i + 1 + 1) (2 * i + 1) = some b) :
    Solo Shared.next (s, .downChild k n i)
      (s, .downLess k n i (if b then 2 * i + 1 + 1 else 2 * i + 1)) :=
  solo_act hcalm (by simp only [Shared.act, Shared.less, h])

theorem solo_downLess {b : Bool} (hcalm : s.panicked = false) (h : less s.plist j i = some b) :
    Solo Shared.next (s, .downLess k n i j) (s, if b then At.downSwap k n i j else .pop k) :=
  solo_act hcalm (by simp only [Shared.act, Shared.less, h])

/-- The loop of `heap.up`, step by step. -/
theorem solo_up (hcalm : s.panicked = false) (hj : j < s.plist.length) (hfuel : j < fuel)
    (h : up fuel j s.plist = some ts) :
    Solo Shared.next (s, .upFrom j) ({ s with plist := ts }, .added) := by
  induction fuel generalizing j s with
  | zero => omega
  | succ fuel ih =>
    rw [up] at h
    unfold At.upFrom
    split at h
    · next hroot =>
      rw [if_pos hroot, ← Option.some.inj h]
      exact .refl
    · next hroot =>
      rw [if_neg hroot]
      split at h
      · cases h
      · next hless =>
        rw [← Option.some.inj h]
        exact solo_upLess hcalm hless
      · next hless =>
        have hi : (j - 1) / 2 < s.plist.length := by omega
        have hswap := swap_perm hi hj
        calc Solo Shared.next (s, .upLess j) (s, .upSwap j) := solo_upLess hcalm hless
          Solo Shared.next _ (_, .upFrom ((j - 1) / 2)) := solo_swap hcalm rfl hi hj
          Solo Shared.next _ _ := ih hcalm (by rwa [hswap.length_eq]) (by omega) h

/-- Where the loop of `heap.down` gets to its comparison with the smaller child. -/
theorem solo_child (hcalm : s.panicked = false) (hchild : ¬ 2 * i + 1 ≥ n)
    (h : (if 2 * i + 1 + 1 < n then
        (less s.plist (2 * i + 1 + 1) (2 * i + 1)).map
          fun b => if b then 2 * i + 1 + 1 else 2 * i + 1
      else some (2 * i + 1)) = some j) :
    Solo Shared.next (s, .downFrom k n i) (s, .downLess k n i j) := by
  simp only [At.downFrom, if_neg hchild]
  split at h
  · next hboth =>
    obtain ⟨b, hless, rfl⟩ := Option.map_eq_some_iff.mp h
    rw [if_pos hboth]
    exact solo_downChild hcalm hless
  · next hone =>
    rw [if_neg hone, ← Option.some.inj h]
    exact .refl

/-- The loop of `heap.down`, step by step. -/
theorem solo_down (hcalm : s.panicked = false) (hn : n ≤ s.plist.length) (hfuel : n ≤ i + fuel)
    (h : down fuel i n s.plist = some ts) :
    Solo Shared.next (s, .downFrom k n i) ({ s with plist := ts }, .pop k) := by
  induction fuel generalizing i s with
  | zero =>
    rw [← Option.some.inj h, At.downFrom, if_pos (by omega)]
    exact .refl
  | succ fuel ih =>
    rw [down] at h
    split at h
    · next hleaf =>
      rw [← Option.some.inj h, At.downFrom, if_pos hleaf]
      exact .refl
    · next hchild =>
      split at h
      · cases h
      · next j hj =>
        refine (solo_child hcalm hchild hj).trans ?_
        split at h
        · cases h
        · next hless =>
          rw [← Option.some.inj h]
          exact solo_downLess hcalm hless
        · next hless =>
          obtain ⟨hi, hij, hjn⟩ := child_lt hchild hj
          have hi' : i < s.plist.length := Nat.lt_of_lt_of_le hi hn
          have hj' : j < s.plist.length := Nat.lt_of_lt_of_le hjn hn
          calc Solo Shared.next (s, .downLess k n i j) (s, .downSwap k n i j) :=
                solo_downLess hcalm hless
            Solo Shared.next _ (_, .downFrom k n j) := solo_swap hcalm rfl hi' hj'
            Solo Shared.next _ _ :=
                ih hcalm (by rwa [(swap_perm hi' hj').length_eq]) (by omega) h

/-- **An `AddTx` that is left alone is `addTx`.** -/
theorem solo_addTx {m' : TxMemPool} {t : Tx} (hcalm : s.panicked = false)
    (h : addTx (some t) ⟨s.plist⟩ = (.ok (), m')) :
    Solo Shared.next (s, .add t) ({ s with plist := m'.plist }, .added) := by
  unfold addTx at h
  simp only at h
  split at h
  · cases h
  · next ts hup =>
    obtain rfl := (Prod.mk.inj h).2
    let s₁ : Shared := { s with plist := s.plist ++ [some t] }
    have hlast : s₁.plist.length - 1 < s₁.plist.length := by simp [s₁]
    calc Solo Shared.next (s, .add t) (s₁, .len) := solo_act hcalm rfl
      Solo Shared.next _ (s₁, .upFrom (s₁.plist.length - 1)) := solo_act hcalm rfl
      Solo Shared.next _ _ := solo_up hcalm hlast hlast hup

/-- **A `GetTx` that is left alone is `getTx`.** -/
theorem solo_getTx {m' : TxMemPool} {x : Option Tx} (hcalm : s.panicked = false)
    (hne : s.plist ≠ []) (h : getTx ⟨s.plist⟩ = (.ok x, m')) :
    Solo Shared.next (s, .ready (k + 1))
      ({ s with plist := m'.plist, returned := s.returned ++ [x] }, .ready k) := by
  obtain ⟨n, ts, hlen, hdown, rfl, hm'⟩ := getTx_eq_ok hne h
  simp only at hlen hdown
  have hpos : 0 < s.plist.length := List.length_pos_of_ne_nil hne
  have hn : n < s.plist.length := by omega
  have hswap := swap_perm hpos hn
  have hlen' : ts.length = n + 1 := by
    rw [(down_perm (by rw [hswap.length_eq]; omega) hdown).length_eq, hswap.length_eq, hlen]
  let s₁ : Shared := { s with plist := TxMemPool.swap s.plist 0 n }
  let s₂ : Shared := { s with plist := ts }
  have hn₁ : n ≤ s₁.plist.length := by
    rw [hswap.length_eq]
    omega
  calc Solo Shared.next (s, .ready (k + 1)) (s, .popLen k) :=
        solo_act hcalm (by simp [Shared.act, hpos])
    Solo Shared.next _ (s, .popSwap k n) := solo_act hcalm (by simp [Shared.act, hlen])
    Solo Shared.next _ (s₁, .downFrom k n 0) := solo_swap hcalm rfl hpos hn
    Solo Shared.next _ (s₂, .pop k) := solo_down hcalm hn₁ (by omega) hdown
    Solo Shared.next _ _ := solo_act hcalm (by simp [Shared.act, s₂, hlen', hm'])

end Solo

/-! ## Runs -/

variable {m : TxMemPool}

/-- What holds between calls. -/
structure Between (s : Shared) : Prop where
  calm : s.panicked = false
  heap : Heap ⟨s.plist⟩

/-- An idle goroutine knows of the list what holds between calls. -/
theorem knows_of_idle (h : l.idle = true) :
    l.Knows s.plist = Ordered (key s.plist) s.plist.length := by
  cases l with
  | add t => rfl
  | added => rfl
  | ready k => rfl
  | _ => cases h

theorem alone_iff_between (h : l.idle = true) : Alone l s ↔ Between s := by
  constructor
  · intro ⟨hcalm, hnil, hknows⟩
    exact ⟨hcalm, hnil, knows_of_idle h ▸ hknows⟩
  · intro ⟨hcalm, hnil, hordered⟩
    exact ⟨hcalm, hnil, knows_of_idle h ▸ hordered⟩

theorem idle_calls (m : TxMemPool) (txs : List Tx) (g : Nat) :
    ∀ l ∈ (calls m txs g).threads, l.idle = true := by
  intro l hl
  rcases List.mem_cons.mp hl with rfl | hl
  · rfl
  · obtain ⟨t, -, rfl⟩ := List.mem_map.mp hl
    rfl

/-- What the calls are about: what is in the pool, and what is still to be pushed. -/
theorem books_calls (m : TxMemPool) (txs : List Tx) (g : Nat) :
    (calls m txs g).shared.books + total At.pending (calls m txs g).threads =
      (m.plist : Multiset (Option Tx)) + (txs.map some : List (Option Tx)) := by
  have hpending : total At.pending (txs.map At.add) = (txs.map some : List (Option Tx)) := by
    induction txs with
    | nil => rfl
    | cons t txs ih =>
      rw [List.map_cons, List.map_cons, ← Multiset.cons_coe, ← ih]
      exact Multiset.singleton_add (some t) _
  have hthreads : total At.pending (calls m txs g).threads = total At.pending (txs.map At.add) :=
    zero_add _
  rw [hthreads, hpending]
  exact congrArg (· + _) (add_zero _)

/-- **The mempool survives calls that are made one at a time.** No transaction is lost or returned
twice in any interleaving; and if no goroutine makes a step while another is inside a call, no index
is out of range and the list is in heap order whenever no call is in progress. -/
theorem calls_survive (hm : m.Heap) (txs : List Tx) (g : Nat) :
    (∀ c, Reach Shared.next (calls m txs g) c →
      c.shared.books + total At.pending c.threads =
        (m.plist : Multiset (Option Tx)) + (txs.map some : List (Option Tx))) ∧
    ∀ c, ReachAlone Shared.next (fun l => l.idle = true) (calls m txs g) c →
      c.shared.panicked = false ∧
        ((∀ l ∈ c.threads, l.idle = true) →
          Ordered (key c.shared.plist) c.shared.plist.length) := by
  constructor
  · intro c hreach
    exact (books_of_reach hreach).trans (books_calls m txs g)
  · intro c hreach
    have hstart : Between (calls m txs g).shared := ⟨rfl, hm⟩
    obtain ⟨hbusy, hquiet⟩ :=
      hreach.invariant (I := Between) (A := Alone) alone_iff_between Alone.step hstart
        (idle_calls m txs g)
    refine ⟨?_, fun hidle => (hquiet hidle).heap.ordered⟩
    by_cases hidle : ∀ l ∈ c.threads, l.idle = true
    · exact (hquiet hidle).calm
    · push Not at hidle
      obtain ⟨l, hl, hne⟩ := hidle
      exact (hbusy l hl (by simp [hne])).calm

/-- Any calls can be made one at a time: the `AddTx` first. -/
theorem exists_added (txs : List Tx) {pre : List At} (hpre : ∀ l ∈ pre, l.idle = true)
    (h : Between s) :
    ∃ s', Between s' ∧ ReachAlone Shared.next (fun l => l.idle = true)
      ⟨s, pre ++ txs.map .add⟩ ⟨s', pre ++ txs.map fun _ => .added⟩ := by
  induction txs generalizing s pre with
  | nil => exact ⟨s, h, .refl⟩
  | cons t txs ih =>
    obtain ⟨m', hadd, hheap, -⟩ := h.heap.addTx t
    have hothers : ∀ l ∈ pre ++ txs.map At.add, l.idle = true := by
      intro l hl
      rcases List.mem_append.mp hl with hl | hl
      · exact hpre l hl
      · obtain ⟨u, -, rfl⟩ := List.mem_map.mp hl
        rfl
    have hpre' : ∀ l ∈ pre ++ [At.added], l.idle = true := by
      intro l hl
      rcases List.mem_append.mp hl with hl | hl
      · exact hpre l hl
      · rw [List.mem_singleton.mp hl]
        rfl
    have hone : Between { s with plist := m'.plist } := ⟨h.calm, hheap⟩
    obtain ⟨s', hbetween, hrest⟩ := ih hpre' hone
    rw [List.append_assoc, List.append_assoc] at hrest
    exact ⟨s', hbetween, ((solo_addTx h.calm hadd).reachAlone pre _ hothers).trans hrest⟩

/-- Then the `GetTx`, one after the other. -/
theorem exists_gotten (g : Nat) (h : Between s) :
    ∃ s', Solo Shared.next (s, .ready g) (s', .ready 0) := by
  induction g generalizing s with
  | zero => exact ⟨s, .refl⟩
  | succ g ih =>
    by_cases hne : s.plist = []
    · have hnil : Solo Shared.next (s, .ready (g + 1)) (s, .ready g) :=
        solo_act h.calm (by simp [Shared.act, hne])
      obtain ⟨s', hrest⟩ := ih h
      exact ⟨s', hnil.trans hrest⟩
    · obtain ⟨t, m', hget, hheap, -, -⟩ := h.heap.getTx hne
      have hone : Between
          { s with plist := m'.plist, returned := s.returned ++ [some t] } := ⟨h.calm, hheap⟩
      obtain ⟨s', hrest⟩ := ih hone
      exact ⟨s', (solo_getTx h.calm hne hget).trans hrest⟩

/-- **Any calls can be made one at a time.** -/
theorem exists_reachAlone (hm : m.Heap) (txs : List Tx) (g : Nat) :
    ∃ c, ReachAlone Shared.next (fun l => l.idle = true) (calls m txs g) c ∧
      c.threads = .ready 0 :: txs.map fun _ => .added := by
  have hready : ∀ l ∈ [At.ready g], l.idle = true := by
    intro l hl
    rw [List.mem_singleton.mp hl]
    rfl
  have hstart : Between (calls m txs g).shared := ⟨rfl, hm⟩
  obtain ⟨s₁, hs₁, hadded⟩ := exists_added txs hready hstart
  have hrest : ∀ l ∈ txs.map fun _ => At.added, l.idle = true := by
    intro l hl
    obtain ⟨t, -, rfl⟩ := List.mem_map.mp hl
    rfl
  obtain ⟨s₂, hgotten⟩ := exists_gotten g hs₁
  exact ⟨_, hadded.trans (hgotten.reachAlone [] _ hrest), rfl⟩

/-- The mempool of a node that has heard of two transactions hears of two more and proposes. -/
theorem pending_calls_survive :
    ∃ c, ReachAlone Shared.next (fun l => l.idle = true)
        (calls (Books.run [.addTx (Sample.vcTx 5), .addTx (Sample.vcTx 3)]).pool
          [Sample.vcTx 4, Sample.vcTx 1] 3) c ∧
      c.shared.panicked = false ∧ Ordered (key c.shared.plist) c.shared.plist.length := by
  have hm := (Books.balanced_run [.addTx (Sample.vcTx 5), .addTx (Sample.vcTx 3)]).heap
  obtain ⟨c, hreach, hthreads⟩ := exists_reachAlone hm [Sample.vcTx 4, Sample.vcTx 1] 3
  obtain ⟨hcalm, hordered⟩ := (calls_survive hm _ _).2 c hreach
  exact ⟨c, hreach, hcalm, hordered (by rw [hthreads]; decide)⟩

/-! ## Calls that overlap -/

/-- **A `GetTx` inside an `AddTx` makes it read past the end**, whatever is in the pool: `Len` was
read before the list became shorter. -/
theorem overlap_panics (hnil : none ∉ m.plist) (hne : m.plist ≠ []) (t : Tx) :
    ∃ c, Reach Shared.next (calls m [t] 1) c ∧ c.shared.panicked = true := by
  let s₁ : Shared := { plist := m.plist ++ [some t] }
  have hlen : s₁.plist.length = m.plist.length + 1 := by simp [s₁]
  have hpos : 0 < m.plist.length := List.length_pos_of_ne_nil hne
  have hne₁ : s₁.plist ≠ [] := by simp [s₁]
  -- `AddTx` pushes, and computes the index of what it pushed
  have hpush : Solo Shared.next ({ plist := m.plist }, .add t) (s₁, .len) := solo_act rfl rfl
  have hindex : Solo Shared.next (s₁, .len) (s₁, .upLess m.plist.length) := by
    refine solo_act rfl ?_
    rw [Shared.act, hlen, Nat.add_sub_cancel, At.upFrom, if_neg (by omega)]
  -- `GetTx` runs from beginning to end
  obtain ⟨u, m', hget⟩ := exists_getTx (m := ⟨s₁.plist⟩) (by simp [s₁, hnil]) hne₁
  have hlen' : m'.plist.length = m.plist.length := by
    have := (getTx_perm (m := ⟨s₁.plist⟩) hne₁ hget).length_eq
    simp only [hlen, List.length_cons] at this
    omega
  let s₂ : Shared := { plist := m'.plist, returned := [some u] }
  have hget₁ : Solo Shared.next (s₁, .ready 1) (s₂, .ready 0) := solo_getTx rfl hne₁ hget
  -- and the index is that of nothing
  have hless : less s₂.plist m.plist.length ((m.plist.length - 1) / 2) = none := by
    simp [less, s₂, hlen']
  have hdie : Solo Shared.next (s₂, .upLess m.plist.length)
      ({ s₂ with panicked := true }, .upLess m.plist.length) :=
    solo_act rfl (by rw [Shared.act, Shared.less, hless]; rfl)
  exact ⟨_, ((hpush.trans hindex).reach [.ready 1] []).trans
    ((hget₁.reach [] [.upLess m.plist.length]).trans (hdie.reach [.ready 0] [])), rfl⟩

/-- One transaction waits. With `GetTx` inside an `AddTx` an index is out of range; of two `AddTx`
that both push before either looks at the length, the first never compares what it pushed, and an
earlier transaction stays below a later one. -/
theorem calls_do_not_survive :
    (∃ c, Reach Shared.next (calls ⟨[some (Sample.vcTx 5)]⟩ [Sample.vcTx 1] 1) c ∧
      c.shared.panicked = true) ∧
    ∃ c, Reach Shared.next (calls ⟨[some (Sample.vcTx 5)]⟩ [Sample.vcTx 1, Sample.vcTx 9] 0) c ∧
      c.shared.panicked = false ∧ (∀ l ∈ c.threads, l.idle = true) ∧
      ¬ Ordered (key c.shared.plist) c.shared.plist.length := by
  constructor
  · exact ⟨_, reach_of_follow
      [(1, 0), (1, 0), (0, 0), (0, 0), (0, 0), (0, 0), (1, 0)] rfl, rfl⟩
  · refine ⟨_, reach_of_follow [(1, 0), (2, 0), (1, 0), (2, 0), (1, 0), (2, 0)] rfl, rfl,
      by decide, ?_⟩
    intro hordered
    exact absurd (hordered 1 (by decide) (by decide)) (by decide)

end TxMemPool
end Didem
