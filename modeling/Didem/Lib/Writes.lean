import Mathlib.Data.Finmap
import Mathlib.Data.List.Sort

/-!
# Write logs over a finite map

An index is a finite map brought up to date by a log of writes, each setting or deleting one key.
What a key holds after a log depends on the writes to that key alone, and on their order only
when two of them disagree. Both halves of that are here: a log in which the writes to a key agree
leaves the same thing there in any order (`lookup_applyAll_perm`), and the last write wins
(`lookup_applyAll_concat`), so two writes that disagree can be told apart by exchanging them at
the end of the log.

`sortedList` lists a finite set, such as the keys of a map, in increasing order. It is
`Finset.sort` by insertion, which evaluates on closed terms.
-/

set_option autoImplicit false

namespace Didem.Lib

universe u v

/-- Inserting what is there already changes nothing. -/
theorem insert_eq_self {κ : Type u} {β : Type v} [DecidableEq κ] {m : Finmap (fun _ : κ => β)}
    {k : κ} {v : β} (h : m.lookup k = some v) : m.insert k v = m := by
  refine Finmap.ext_lookup fun k' => ?_
  by_cases hk : k' = k
  · rw [hk, Finmap.lookup_insert, h]
  · rw [Finmap.lookup_insert_of_ne _ hk]

/-- One write: `val = none` deletes the key. -/
structure Write (κ : Type u) (β : Type v) where
  key : κ
  val : Option β
  deriving DecidableEq, Repr

namespace Write

variable {κ : Type u} {β : Type v} [DecidableEq κ]

def apply (m : Finmap (fun _ : κ => β)) (w : Write κ β) : Finmap (fun _ : κ => β) :=
  match w.val with
  | some v => m.insert w.key v
  | none => m.erase w.key

/-- A log of writes, oldest first. -/
def applyAll (m : Finmap (fun _ : κ => β)) (ws : List (Write κ β)) : Finmap (fun _ : κ => β) :=
  ws.foldl apply m

@[simp] theorem applyAll_nil (m : Finmap (fun _ : κ => β)) : applyAll m [] = m := rfl

@[simp] theorem applyAll_cons (m : Finmap (fun _ : κ => β)) (w : Write κ β)
    (ws : List (Write κ β)) : applyAll m (w :: ws) = applyAll (apply m w) ws := rfl

theorem applyAll_append (m : Finmap (fun _ : κ => β)) (ws ws' : List (Write κ β)) :
    applyAll m (ws ++ ws') = applyAll (applyAll m ws) ws' := List.foldl_append

theorem lookup_apply_self (m : Finmap (fun _ : κ => β)) (w : Write κ β) :
    (apply m w).lookup w.key = w.val := by
  cases h : w.val with
  | none => simp [apply, h]
  | some v => simp [apply, h]

theorem lookup_apply_of_ne (m : Finmap (fun _ : κ => β)) {w : Write κ β} {k : κ}
    (h : k ≠ w.key) : (apply m w).lookup k = m.lookup k := by
  unfold apply
  cases w.val with
  | none => exact Finmap.lookup_erase_ne h
  | some v => exact Finmap.lookup_insert_of_ne m h

/-- A log that never writes `k` leaves it alone. -/
theorem lookup_applyAll_of_notMem {ws : List (Write κ β)} {k : κ} (h : ∀ w ∈ ws, w.key ≠ k)
    (m : Finmap (fun _ : κ => β)) : (applyAll m ws).lookup k = m.lookup k := by
  induction ws generalizing m with
  | nil => rfl
  | cons w ws ih =>
    rw [applyAll_cons, ih fun w' hw' => h w' (List.mem_cons_of_mem w hw')]
    exact lookup_apply_of_ne m (h w List.mem_cons_self).symm

/-- What a key holds after a log depends on that key alone. -/
theorem lookup_applyAll_congr {m m' : Finmap (fun _ : κ => β)} {k : κ}
    (h : m.lookup k = m'.lookup k) (ws : List (Write κ β)) :
    (applyAll m ws).lookup k = (applyAll m' ws).lookup k := by
  induction ws generalizing m m' with
  | nil => exact h
  | cons w ws ih =>
    refine ih ?_
    by_cases hk : k = w.key
    · rw [hk, lookup_apply_self, lookup_apply_self]
    · rw [lookup_apply_of_ne m hk, lookup_apply_of_ne m' hk, h]

/-- **The last write wins.** -/
theorem lookup_applyAll_concat (m : Finmap (fun _ : κ => β)) (ws : List (Write κ β))
    (w : Write κ β) : (applyAll m (ws ++ [w])).lookup w.key = w.val := by
  rw [applyAll_append, applyAll_cons, applyAll_nil]
  exact lookup_apply_self _ w

/-- A key that is written, and always the same way, holds what was written. -/
theorem lookup_applyAll_of_agree {ws : List (Write κ β)} {k : κ} {v : Option β}
    (hagree : ∀ w ∈ ws, w.key = k → w.val = v) (hmem : ∃ w ∈ ws, w.key = k)
    (m : Finmap (fun _ : κ => β)) : (applyAll m ws).lookup k = v := by
  -- from the end of the log: either its last write is to `k`, or it can be dropped
  induction ws using List.reverseRecOn generalizing m with
  | nil =>
    obtain ⟨w, hw, -⟩ := hmem
    exact absurd hw (by simp)
  | append_singleton ws w ih =>
    by_cases hk : w.key = k
    · rw [← hk, lookup_applyAll_concat]
      exact hagree w (by simp) hk
    · rw [applyAll_append, applyAll_cons, applyAll_nil, lookup_apply_of_ne _ (Ne.symm hk)]
      refine ih (fun w' hw' => hagree w' (List.mem_append_left _ hw')) ?_ m
      obtain ⟨w', hw', hk'⟩ := hmem
      rcases List.mem_append.mp hw' with hmem' | hlast
      · exact ⟨w', hmem', hk'⟩
      · rw [List.mem_singleton.mp hlast] at hk'
        exact absurd hk' hk

/-- **A key holds what was written to it last.** -/
theorem lookup_applyAll_eq_getLast (m : Finmap (fun _ : κ => β)) (ws : List (Write κ β)) (k : κ) :
    (applyAll m ws).lookup k =
      ((ws.filter fun w => w.key = k).getLast?).elim (m.lookup k) Write.val := by
  induction ws using List.reverseRecOn with
  | nil => rfl
  | append_singleton ws w ih =>
    by_cases hk : w.key = k
    · rw [← hk, lookup_applyAll_concat, List.filter_append]
      simp
    · rw [applyAll_append, applyAll_cons, applyAll_nil, lookup_apply_of_ne _ (Ne.symm hk), ih,
        List.filter_append]
      simp [hk]

/-- Two writes to one key that do not do the same. -/
def Conflict (w w' : Write κ β) : Prop := w.key = w'.key ∧ w.val ≠ w'.val

/-- **Agreeing writes commute**: a key whose writes agree holds the same after any order of the
log. -/
theorem lookup_applyAll_perm {ws ws' : List (Write κ β)} (hperm : ws.Perm ws') {k : κ}
    (hagree : ∀ w ∈ ws, ∀ w' ∈ ws, w.key = k → ¬ Conflict w w')
    (m : Finmap (fun _ : κ => β)) : (applyAll m ws).lookup k = (applyAll m ws').lookup k := by
  by_cases hmem : ∃ w ∈ ws, w.key = k
  · obtain ⟨w, hw, hk⟩ := hmem
    have hval : ∀ w' ∈ ws, w'.key = k → w'.val = w.val := by
      intro w' hw' hk'
      by_contra hne
      exact hagree w' hw' w hw hk' ⟨hk'.trans hk.symm, hne⟩
    rw [lookup_applyAll_of_agree hval ⟨w, hw, hk⟩,
      lookup_applyAll_of_agree (fun w' hw' => hval w' (hperm.mem_iff.mpr hw'))
        ⟨w, hperm.mem_iff.mp hw, hk⟩]
  · have hnone : ∀ w ∈ ws, w.key ≠ k := fun w hw hk => hmem ⟨w, hw, hk⟩
    rw [lookup_applyAll_of_notMem hnone,
      lookup_applyAll_of_notMem fun w hw => hnone w (hperm.mem_iff.mpr hw)]

/-! ## Logs of entries

A log is often the writes of a list of entries, each of which writes a few keys. Two entries
*clash* when they write a key differently. Whether the order of the entries matters, for the keys
in a given set `K`, is then decided by the clashes alone. -/

section Entries

variable {ε : Type*} (writes : ε → List (Write κ β)) (K : κ → Prop)

/-- Two entries write a key of `K` differently. -/
def Clash (e e' : ε) : Prop := ∃ w ∈ writes e, ∃ w' ∈ writes e', K w.key ∧ Conflict w w'

variable {writes K}

omit [DecidableEq κ] in
theorem Clash.symm {e e' : ε} (h : Clash writes K e e') : Clash writes K e' e := by
  obtain ⟨w, hw, w', hw', hK, hkey, hval⟩ := h
  exact ⟨w', hw', w, hw, hkey ▸ hK, hkey.symm, hval.symm⟩

/-- Entries without clashes leave the same in any order. -/
theorem lookup_flatMap_perm {es es' : List ε} (hperm : es.Perm es')
    (hself : ∀ e ∈ es, ¬ Clash writes K e e)
    (hclash : es.Pairwise fun e e' => ¬ Clash writes K e e') {k : κ} (hk : K k)
    (m : Finmap (fun _ : κ => β)) :
    (applyAll m (es.flatMap writes)).lookup k = (applyAll m (es'.flatMap writes)).lookup k := by
  have : Std.Symm fun e e' => ¬ Clash writes K e e' := ⟨fun _ _ h h' => h h'.symm⟩
  have hall := List.Pairwise.forall_of_forall hself hclash
  refine lookup_applyAll_perm (hperm.flatMap_right writes) ?_ m
  intro w hw w' hw' hkey hconf
  obtain ⟨e, he, hwe⟩ := List.mem_flatMap.mp hw
  obtain ⟨e', he', hwe'⟩ := List.mem_flatMap.mp hw'
  exact hall he he' ⟨w, hwe, w', hwe', hkey ▸ hk, hconf⟩

/-- What the last entry writes to a key stands there. -/
theorem lookup_flatMap_concat {es : List ε} {e : ε} (hself : ¬ Clash writes K e e)
    {w : Write κ β} (hw : w ∈ writes e) (hK : K w.key) (m : Finmap (fun _ : κ => β)) :
    (applyAll m ((es ++ [e]).flatMap writes)).lookup w.key = w.val := by
  rw [List.flatMap_append, applyAll_append, List.flatMap_singleton]
  refine lookup_applyAll_of_agree ?_ ⟨w, hw, rfl⟩ _
  intro w' hw' hkey
  by_contra hne
  exact hself ⟨w, hw, w', hw', hK, hkey.symm, Ne.symm hne⟩

/-- Entries that clash can be put in two orders that leave something different. -/
theorem exists_perm_lookup_ne {es : List ε} (hself : ∀ e ∈ es, ¬ Clash writes K e e)
    (hclash : ¬ es.Pairwise fun e e' => ¬ Clash writes K e e') :
    ∃ (es₁ es₂ : List ε) (k : κ), es₁.Perm es ∧ es₂.Perm es ∧ K k ∧ ∀ m : Finmap (fun _ : κ => β),
      (applyAll m (es₁.flatMap writes)).lookup k ≠ (applyAll m (es₂.flatMap writes)).lookup k := by
  rw [List.pairwise_iff_forall_sublist] at hclash
  push Not at hclash
  obtain ⟨e, e', hsub, w, hw, w', hw', hK, hkey, hval⟩ := hclash
  obtain ⟨rest, hrest⟩ := hsub.exists_perm_append
  have he : e ∈ es := hsub.subset (by simp)
  have he' : e' ∈ es := hsub.subset (by simp)
  -- the two clashing entries last, in either order
  refine ⟨rest ++ [e'] ++ [e], rest ++ [e] ++ [e'], w.key, ?_, ?_, hK, fun m => ?_⟩
  · refine List.Perm.trans ?_ hrest.symm
    rw [List.append_assoc]
    exact List.perm_append_comm.trans (List.Perm.append_right _ (List.Perm.swap e e' []))
  · refine List.Perm.trans ?_ hrest.symm
    rw [List.append_assoc]
    exact List.perm_append_comm
  · rw [lookup_flatMap_concat (hself e he) hw hK, hkey,
      lookup_flatMap_concat (hself e' he') hw' (hkey ▸ hK)]
    exact hval

end Entries
end Write

/-! ## Listing a finite set -/

section SortedList

variable {α : Type u} [LinearOrder α]

def sortedList (s : Finset α) : List α :=
  Quot.liftOn s.val (·.insertionSort (· ≤ ·)) fun l l' h =>
    List.Perm.eq_of_sortedLE List.sortedLE_insertionSort List.sortedLE_insertionSort
      ((List.perm_insertionSort _ l).trans (h.trans (List.perm_insertionSort _ l').symm))

theorem coe_sortedList (s : Finset α) : (sortedList s : Multiset α) = s.val := by
  obtain ⟨m, hm⟩ := s
  induction m using Quot.inductionOn with
  | h l => exact Multiset.coe_eq_coe.mpr (List.perm_insertionSort _ l)

@[simp] theorem mem_sortedList {s : Finset α} {a : α} : a ∈ sortedList s ↔ a ∈ s := by
  rw [← Multiset.mem_coe, coe_sortedList, Finset.mem_val]

theorem nodup_sortedList (s : Finset α) : (sortedList s).Nodup := by
  rw [← Multiset.coe_nodup, coe_sortedList]
  exact s.nodup

theorem pairwise_sortedList (s : Finset α) : (sortedList s).Pairwise (· < ·) := by
  have hle : (sortedList s).Pairwise (· ≤ ·) := by
    obtain ⟨m, hm⟩ := s
    induction m using Quot.inductionOn with
    | h l => exact List.pairwise_insertionSort _ l
  exact hle.imp₂ (fun a b h hne => lt_of_le_of_ne h hne) (nodup_sortedList s)

/-- A set has one list in increasing order. -/
theorem eq_sortedList {s : Finset α} {l : List α} (hl : l.Pairwise (· < ·))
    (hmem : ∀ a, a ∈ l ↔ a ∈ s) : l = sortedList s := by
  refine List.Perm.eq_of_pairwise (fun a b _ _ hab hba => absurd hab hba.asymm) hl
    (pairwise_sortedList s) ?_
  refine (List.perm_ext_iff_of_nodup (hl.imp ne_of_lt) (nodup_sortedList s)).mpr fun a => ?_
  rw [hmem, mem_sortedList]

end SortedList
end Didem.Lib
