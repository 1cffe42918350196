import Mathlib.Data.List.Basic
import Mathlib.Logic.Relation

/-!
# Hash trees

A hash tree is known by the digest of its root. What a digest stands for is a matter of two
relations: `leaf d a` says that `d` is the digest of the datum `a`, and `node d l r` that it is the
digest of the pair of digests `l` and `r`. They may come from a hash function, or from a store that
is asked for the object behind a digest; a tree over them is the same thing in both cases
(`HashTree`).

Digests **bind** when one cannot be read in two ways (`Binding`). Then a root has one sequence of
leaves whatever the shape and the height of the tree below it (`HashTree.unique`), and a walk down
from the root meets exactly the leaves (`HashTree.descendant`, `HashTree.exists_leaf`).

Trees are usually built level by level. `Covers` is what a level keeps: every digest of it is the
root of a tree over the data, and no datum is missing. Pairing the digests up keeps it, and so does
using one of them twice, because nothing in it counts.
-/

set_option autoImplicit false

namespace Didem.Lib

universe u v

variable {δ : Type u} {α : Type v}

/-- The digest is the root of a tree with these leaves, from left to right. -/
inductive HashTree (leaf : δ → α → Prop) (node : δ → δ → δ → Prop) : δ → List α → Prop
  | leaf {d : δ} {a : α} (h : leaf d a) : HashTree leaf node d [a]
  | node {d l r : δ} {ls rs : List α} (h : node d l r) (hl : HashTree leaf node l ls)
      (hr : HashTree leaf node r rs) : HashTree leaf node d (ls ++ rs)

/-- A digest cannot be read in two ways. -/
structure Binding (leaf : δ → α → Prop) (node : δ → δ → δ → Prop) : Prop where
  leaf_inj : ∀ {d : δ} {a b : α}, leaf d a → leaf d b → a = b
  node_inj : ∀ {d l r l' r' : δ}, node d l r → node d l' r' → l = l' ∧ r = r'
  leaf_node : ∀ {d : δ} {a : α} {l r : δ}, leaf d a → ¬ node d l r

/-- `e` is one of the two halves of `d`. -/
def Half (node : δ → δ → δ → Prop) (d e : δ) : Prop := ∃ o, node d e o ∨ node d o e

namespace HashTree

variable {leaf leaf' : δ → α → Prop} {node node' : δ → δ → δ → Prop}

/-- Relations that say more have the same trees. -/
theorem mono (hleaf : ∀ d a, leaf d a → leaf' d a) (hnode : ∀ d l r, node d l r → node' d l r)
    {d : δ} {as : List α} (h : HashTree leaf node d as) : HashTree leaf' node' d as := by
  induction h with
  | leaf h => exact .leaf (hleaf _ _ h)
  | node h _ _ ihl ihr => exact .node (hnode _ _ _ h) ihl ihr

variable (hbind : Binding leaf node)

include hbind

/-- **A root has one sequence of leaves.** -/
theorem unique {d : δ} {as bs : List α} (h : HashTree leaf node d as)
    (h' : HashTree leaf node d bs) : as = bs := by
  induction h generalizing bs with
  | leaf h =>
    cases h' with
    | leaf h' => rw [hbind.leaf_inj h h']
    | node h' _ _ => exact absurd h' (hbind.leaf_node h)
  | node h _ _ ihl ihr =>
    cases h' with
    | leaf h' => exact absurd h (hbind.leaf_node h')
    | node h' hl' hr' =>
      obtain ⟨rfl, rfl⟩ := hbind.node_inj h h'
      rw [ihl hl', ihr hr']

/-- A half of a tree is a tree over some of its leaves. -/
theorem half {d e : δ} {as : List α} (h : HashTree leaf node d as) (he : Half node d e) :
    ∃ bs, HashTree leaf node e bs ∧ bs ⊆ as := by
  obtain ⟨o, ho⟩ := he
  cases h with
  | leaf h => rcases ho with ho | ho <;> exact absurd ho (hbind.leaf_node h)
  | node h hl hr =>
    rcases ho with ho | ho
    · obtain ⟨rfl, rfl⟩ := hbind.node_inj h ho
      exact ⟨_, hl, List.subset_append_left _ _⟩
    · obtain ⟨rfl, rfl⟩ := hbind.node_inj h ho
      exact ⟨_, hr, List.subset_append_right _ _⟩

/-- **Everything below a root is a tree over some of its leaves.** -/
theorem descendant {d e : δ} {as : List α} (h : HashTree leaf node d as)
    (he : Relation.ReflTransGen (Half node) d e) :
    ∃ bs, HashTree leaf node e bs ∧ bs ⊆ as := by
  induction he with
  | refl => exact ⟨as, h, fun _ => id⟩
  | tail _ hstep ih =>
    obtain ⟨bs, hb, hsub⟩ := ih
    obtain ⟨cs, hc, hsub'⟩ := hb.half hbind hstep
    exact ⟨cs, hc, fun a ha => hsub (hsub' ha)⟩

omit hbind

/-- Every leaf is met on the way down. -/
theorem exists_leaf {d : δ} {as : List α} {a : α} (h : HashTree leaf node d as) (ha : a ∈ as) :
    ∃ e, Relation.ReflTransGen (Half node) d e ∧ leaf e a := by
  induction h with
  | leaf h =>
    obtain rfl := List.mem_singleton.mp ha
    exact ⟨_, .refl, h⟩
  | node h _ _ ihl ihr =>
    rcases List.mem_append.mp ha with ha | ha
    · obtain ⟨e, he, hleaf⟩ := ihl ha
      exact ⟨e, .head ⟨_, .inl h⟩ he, hleaf⟩
    · obtain ⟨e, he, hleaf⟩ := ihr ha
      exact ⟨e, .head ⟨_, .inr h⟩ he, hleaf⟩

end HashTree

/-! ## Levels -/

/-- The digests are roots of trees over the data, and every datum is in one of the trees. -/
structure Covers (leaf : δ → α → Prop) (node : δ → δ → δ → Prop) (ds : List δ) (as : List α) :
    Prop where
  tree : ∀ d ∈ ds, ∃ bs, HashTree leaf node d bs ∧ bs ⊆ as
  mem : ∀ a ∈ as, ∃ d ∈ ds, ∃ bs, HashTree leaf node d bs ∧ a ∈ bs

namespace Covers

variable {leaf leaf' : δ → α → Prop} {node node' : δ → δ → δ → Prop} {ds ps : List δ} {as : List α}

theorem mono (hleaf : ∀ d a, leaf d a → leaf' d a) (hnode : ∀ d l r, node d l r → node' d l r)
    (h : Covers leaf node ds as) : Covers leaf' node' ds as := by
  constructor
  · intro d hd
    obtain ⟨bs, hb, hsub⟩ := h.tree d hd
    exact ⟨bs, hb.mono hleaf hnode, hsub⟩
  · intro a ha
    obtain ⟨d, hd, bs, hb, hab⟩ := h.mem a ha
    exact ⟨d, hd, bs, hb.mono hleaf hnode, hab⟩

/-- The level of the leaves. -/
theorem leaves (htree : ∀ d ∈ ds, ∃ a ∈ as, leaf d a) (hmem : ∀ a ∈ as, ∃ d ∈ ds, leaf d a) :
    Covers leaf node ds as := by
  constructor
  · intro d hd
    obtain ⟨a, ha, hleaf⟩ := htree d hd
    exact ⟨[a], .leaf hleaf, by simpa using ha⟩
  · intro a ha
    obtain ⟨d, hd, hleaf⟩ := hmem a ha
    exact ⟨d, hd, [a], .leaf hleaf, List.mem_singleton_self a⟩

/-- **A level of parents covers what the level below does**: each is the parent of two of its
digests, and none of those is without one. -/
theorem parents (h : Covers leaf node ds as) (hpair : ∀ p ∈ ps, ∃ l ∈ ds, ∃ r ∈ ds, node p l r)
    (hall : ∀ d ∈ ds, ∃ p ∈ ps, ∃ e ∈ ds, node p d e ∨ node p e d) : Covers leaf node ps as := by
  constructor
  · intro p hp
    obtain ⟨l, hl, r, hr, hnode⟩ := hpair p hp
    obtain ⟨ls, hls, hlsub⟩ := h.tree l hl
    obtain ⟨rs, hrs, hrsub⟩ := h.tree r hr
    exact ⟨ls ++ rs, .node hnode hls hrs, List.append_subset.mpr ⟨hlsub, hrsub⟩⟩
  · intro a ha
    obtain ⟨d, hd, bs, hb, hab⟩ := h.mem a ha
    obtain ⟨p, hp, e, he, hnode⟩ := hall d hd
    obtain ⟨es, hes, -⟩ := h.tree e he
    rcases hnode with hnode | hnode
    · exact ⟨p, hp, bs ++ es, .node hnode hb hes, List.mem_append_left es hab⟩
    · exact ⟨p, hp, es ++ bs, .node hnode hes hb, List.mem_append_right es hab⟩

/-- **A level of one digest is a root of all the data.** -/
theorem root {d : δ} (hbind : Binding leaf node) (h : Covers leaf node [d] as) :
    ∃ bs, HashTree leaf node d bs ∧ ∀ a, a ∈ bs ↔ a ∈ as := by
  obtain ⟨bs, hb, hsub⟩ := h.tree d (List.mem_singleton_self d)
  refine ⟨bs, hb, fun a => ⟨fun ha => hsub ha, fun ha => ?_⟩⟩
  obtain ⟨d', hd', cs, hc, hac⟩ := h.mem a ha
  obtain rfl := List.mem_singleton.mp hd'
  rw [hb.unique hbind hc]
  exact hac

end Covers
end Didem.Lib
