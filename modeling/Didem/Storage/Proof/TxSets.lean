import Didem.Lib.Merkle
import Didem.Storage.Proof.Content

/-!
# Transaction sets are hash trees

`NewTxSet` stores a list of transaction CIDs as the leaves of a tree, level by level, and `AllTx`
reads them back by a breadth-first search with a set of visited CIDs. The two meet in the notion of
a hash tree: the root `NewTxSet` returns is the root of one over exactly the CIDs of the list
(`newTxSet_tree`), and the search returns exactly the leaves of the tree below the root it is given
(`allTxFrom_tree`).

Two readings of "the set `n` is at the CID `c`" are used. For what comes back, that `GetSet` returns
it; for what a root commits to, that `c` is its hash. Neither the nodes a level repeats to become
even nor the ones the search does not visit twice need any attention: a tree is not changed by where
it is used.
-/

set_option autoImplicit false

namespace Didem.Storage

open Lib

/-! ## Levels -/

theorem mem_pairUp : ∀ {ns : List TxSet} {n : TxSet}, n ∈ pairUp ns →
    ∃ a ∈ ns, ∃ b ∈ ns, n = { children := [a.cid, b.cid] }
  | [], n, h => absurd h (by simp [pairUp])
  | [_], n, h => absurd h (by simp [pairUp])
  | a :: b :: ns, n, h => by
    rw [pairUp] at h
    rcases List.mem_cons.mp h with rfl | h
    · exact ⟨a, by simp, b, by simp, rfl⟩
    · obtain ⟨a', ha', b', hb', rfl⟩ := mem_pairUp h
      exact ⟨a', by simp [ha'], b', by simp [hb'], rfl⟩

/-- In a level of even length every node has a parent. -/
theorem exists_mem_pairUp : ∀ {ns : List TxSet} {a : TxSet}, ns.length % 2 = 0 → a ∈ ns →
    ∃ b ∈ ns, { children := [a.cid, b.cid] } ∈ pairUp ns ∨
      { children := [b.cid, a.cid] } ∈ pairUp ns
  | [], a, _, h => absurd h (by simp)
  | [_], a, heven, _ => absurd heven (by simp)
  | x :: y :: ns, a, heven, h => by
    rw [pairUp]
    simp only [List.mem_cons] at h
    rcases h with rfl | rfl | h
    · exact ⟨y, by simp, .inl (by simp)⟩
    · exact ⟨x, by simp, .inr (by simp)⟩
    · obtain ⟨b, hb, hpair⟩ := exists_mem_pairUp (by simp at heven; omega) h
      exact ⟨b, by simp [hb], hpair.imp (List.mem_cons_of_mem _) (List.mem_cons_of_mem _)⟩

theorem mem_evenUp {ns : List TxSet} {n : TxSet} : n ∈ evenUp ns ↔ n ∈ ns := by
  unfold evenUp
  split
  · rw [List.mem_append]
    refine ⟨fun h => h.elim (fun h => h) fun h => ?_, .inl⟩
    exact List.mem_of_getLast? (Option.mem_toList.mp h)
  · rfl

theorem even_length_evenUp (ns : List TxSet) : (evenUp ns).length % 2 = 0 := by
  unfold evenUp
  split
  · rename_i hodd
    have hne : ns ≠ [] := by
      rintro rfl
      simp at hodd
    rw [List.getLast?_eq_some_getLast hne]
    simp
    omega
  · omega

/-! ## Building -/

section Build

variable {S : Type}

/-- What `PutSet` does to sets that are somewhere: it puts one more there and removes none. `D` are
the sets it works for. -/
structure Puts (putSet : TxSet → S → Outcome Err Cid × S) (Inv : S → Prop) (D : TxSet → Prop)
    (At : S → TxSet → Cid → Prop) : Prop where
  put : ∀ {n : TxSet} {s s' : S} {c : Cid}, Inv s → D n → putSet n s = (.ok c, s') → At s' n c
  inv : ∀ (n : TxSet) {s : S}, Inv s → Inv (putSet n s).2
  keep : ∀ (n : TxSet) {s : S}, Inv s → ∀ m c, At s m c → At (putSet n s).2 m c
  ne_undef : ∀ {n : TxSet} {s s' : S} {c : Cid}, putSet n s = (.ok c, s') → c ≠ .undef
  parent : ∀ {a b : Cid}, a ≠ .undef → b ≠ .undef → D { children := [a, b] }

/-- The leaf of a transaction is at this CID. -/
def LeafAt (At : TxSet → Cid → Prop) (c t : Cid) : Prop := At { tx := some t } c

/-- The parent of two nodes is at this CID. -/
def NodeAt (At : TxSet → Cid → Prop) (c a b : Cid) : Prop := At { children := [a, b] } c

/-- A CID of one set binds what it stands for. -/
theorem binding_of_unique {At : TxSet → Cid → Prop}
    (h : ∀ {n m : TxSet} {c : Cid}, At n c → At m c → n.children = m.children ∧ n.tx = m.tx) :
    Binding (LeafAt At) (NodeAt At) where
  leaf_inj ha hb := Option.some.inj (h ha hb).2
  node_inj ha hb := by simpa using (h ha hb).1
  leaf_node ha hb := by simpa using (h ha hb).2

variable {putSet : TxSet → S → Outcome Err Cid × S} {Inv : S → Prop} {D : TxSet → Prop}
  {At : S → TxSet → Cid → Prop}

/-- The sets `ns` are stored as `ns'`, each at the CID it was given. -/
structure StoredAs (At : TxSet → Cid → Prop) (ns ns' : List TxSet) : Prop where
  defined : ∀ n' ∈ ns', n'.cid ≠ .undef
  exists_stored : ∀ n ∈ ns, ∃ n' ∈ ns', At n n'.cid
  exists_set : ∀ n' ∈ ns', ∃ n ∈ ns, At n n'.cid

/-- Storing a level. -/
theorem putSets_storedAs (hputs : Puts putSet Inv D At) {ns ns' : List TxSet} {s s' : S}
    (hs : Inv s) (hD : ∀ n ∈ ns, D n) (h : putSets putSet ns s = (.ok ns', s')) :
    Inv s' ∧ (∀ m c, At s m c → At s' m c) ∧ StoredAs (At s') ns ns' := by
  induction ns generalizing s ns' with
  | nil =>
    simp only [putSets, Prod.mk.injEq, Outcome.ok.injEq] at h
    obtain ⟨rfl, rfl⟩ := h
    exact ⟨hs, fun _ _ h => h, by simp, by simp, by simp⟩
  | cons n ns ih =>
    rw [List.forall_mem_cons] at hD
    obtain ⟨c, s₁, rest, hput, hputs', rfl⟩ := putSets_cons_eq_ok h
    have hs₁ : Inv s₁ := by simpa [hput] using hputs.inv n hs
    have hkeep₁ : ∀ m c, At s m c → At s₁ m c := by simpa [hput] using hputs.keep n hs
    obtain ⟨hs', hkeep, hrest⟩ := ih hs₁ hD.2 hputs'
    have hn : At s' n c := hkeep n c (hputs.put hs hD.1 hput)
    refine ⟨hs', fun m c hm => hkeep m c (hkeep₁ m c hm), ?_, ?_, ?_⟩
    · rw [List.forall_mem_cons]
      exact ⟨hputs.ne_undef hput, hrest.defined⟩
    · rw [List.forall_mem_cons]
      refine ⟨⟨_, List.mem_cons_self, hn⟩, fun m hm => ?_⟩
      obtain ⟨m', hm', hat⟩ := hrest.exists_stored m hm
      exact ⟨m', List.mem_cons_of_mem _ hm', hat⟩
    · rw [List.forall_mem_cons]
      refine ⟨⟨n, List.mem_cons_self, hn⟩, fun m' hm' => ?_⟩
      obtain ⟨m, hm, hat⟩ := hrest.exists_set m' hm'
      exact ⟨m, List.mem_cons_of_mem _ hm, hat⟩

/-- A level of stored nodes that covers the transactions `l`. -/
structure Level (At : TxSet → Cid → Prop) (nodes : List TxSet) (l : List Cid) : Prop where
  defined : ∀ n ∈ nodes, n.cid ≠ .undef
  covers : Covers (LeafAt At) (NodeAt At) (nodes.map TxSet.cid) l

/-- **One level up**: the parents cover what the level below does. -/
theorem level_parents (hputs : Puts putSet Inv D At) {nodes parents : List TxSet} {s s' : S}
    {l : List Cid} (hs : Inv s) (hlevel : Level (At s) nodes l)
    (h : putSets putSet (pairUp (evenUp nodes)) s = (.ok parents, s')) :
    Inv s' ∧ (∀ m c, At s m c → At s' m c) ∧ Level (At s') parents l := by
  have hD : ∀ n ∈ pairUp (evenUp nodes), D n := by
    intro n hn
    obtain ⟨a, ha, b, hb, rfl⟩ := mem_pairUp hn
    exact hputs.parent (hlevel.defined a (mem_evenUp.mp ha)) (hlevel.defined b (mem_evenUp.mp hb))
  obtain ⟨hs', hkeep, hstored⟩ := putSets_storedAs hputs hs hD h
  have hcov := hlevel.covers.mono (fun c t h => hkeep _ _ h) fun c a b h => hkeep _ _ h
  refine ⟨hs', hkeep, hstored.defined, hcov.parents ?_ ?_⟩
  · intro c hc
    obtain ⟨p, hp, rfl⟩ := List.mem_map.mp hc
    obtain ⟨n, hn, hat⟩ := hstored.exists_set p hp
    obtain ⟨a, ha, b, hb, rfl⟩ := mem_pairUp hn
    exact ⟨a.cid, List.mem_map_of_mem (mem_evenUp.mp ha), b.cid,
      List.mem_map_of_mem (mem_evenUp.mp hb), hat⟩
  · intro d hd
    obtain ⟨a, ha, rfl⟩ := List.mem_map.mp hd
    obtain ⟨b, hb, hpair⟩ := exists_mem_pairUp (even_length_evenUp nodes) (mem_evenUp.mpr ha)
    rcases hpair with hpair | hpair
    · obtain ⟨p, hp, hat⟩ := hstored.exists_stored _ hpair
      exact ⟨p.cid, List.mem_map_of_mem hp, b.cid, List.mem_map_of_mem (mem_evenUp.mp hb), .inl hat⟩
    · obtain ⟨p, hp, hat⟩ := hstored.exists_stored _ hpair
      exact ⟨p.cid, List.mem_map_of_mem hp, b.cid, List.mem_map_of_mem (mem_evenUp.mp hb), .inr hat⟩

/-- All the way up, the root covers what the level it was started on does. -/
theorem reduceSets_level (hputs : Puts putSet Inv D At) {fuel : Nat} {nodes : List TxSet}
    {root : TxSet} {s s' : S} {l : List Cid} (hs : Inv s) (hlevel : Level (At s) nodes l)
    (h : reduceSets putSet fuel nodes s = (.ok root, s')) :
    Inv s' ∧ (∀ m c, At s m c → At s' m c) ∧ Level (At s') [root] l := by
  induction fuel using Nat.strong_induction_on generalizing nodes s with
  | _ fuel ih =>
    rcases reduceSets_eq_ok h with ⟨rfl, rfl⟩ | ⟨fuel', parents, s₁, rfl, hput, h⟩
    · exact ⟨hs, fun _ _ h => h, hlevel⟩
    · obtain ⟨hs₁, hkeep₁, hlevel₁⟩ := level_parents hputs hs hlevel hput
      obtain ⟨hs', hkeep, hroot⟩ := ih fuel' (Nat.lt_succ_self fuel') hs₁ hlevel₁ h
      exact ⟨hs', fun m c hm => hkeep m c (hkeep₁ m c hm), hroot⟩

/-- **`NewTxSet` builds a tree over exactly the transactions it is given.** -/
theorem newTxSet_tree (hputs : Puts putSet Inv D At)
    (hunique : ∀ {s : S} {n m : TxSet} {c : Cid}, At s n c → At s m c →
      n.children = m.children ∧ n.tx = m.tx)
    {l : List Cid} {root : TxSet} {s s' : S} (hs : Inv s) (hD : ∀ t ∈ l, D { tx := some t })
    (h : newTxSet putSet l s = (.ok root, s')) :
    Inv s' ∧ (∀ m c, At s m c → At s' m c) ∧
      ∃ ts, HashTree (LeafAt (At s')) (NodeAt (At s')) root.cid ts ∧ ∀ t, t ∈ ts ↔ t ∈ l := by
  have hperm : (l.insertionSort (·.str ≤ ·.str)).Perm l := List.perm_insertionSort _ l
  obtain ⟨nodes, s₁, hput, hreduce⟩ := newTxSet_eq_ok h
  have hleaves : ∀ n ∈ (l.insertionSort (·.str ≤ ·.str)).map (fun t => ({ tx := some t } : TxSet)),
      D n := by
    intro n hn
    obtain ⟨t, ht, rfl⟩ := List.mem_map.mp hn
    exact hD t (hperm.mem_iff.mp ht)
  obtain ⟨hs₁, hkeep₁, hstored⟩ := putSets_storedAs hputs hs hleaves hput
  have hlevel : Level (At s₁) nodes l := by
    refine ⟨hstored.defined, .leaves ?_ ?_⟩
    · intro d hd
      obtain ⟨n', hn', rfl⟩ := List.mem_map.mp hd
      obtain ⟨n, hn, hat⟩ := hstored.exists_set n' hn'
      obtain ⟨t, ht, rfl⟩ := List.mem_map.mp hn
      exact ⟨t, hperm.mem_iff.mp ht, hat⟩
    · intro t ht
      obtain ⟨n', hn', hat⟩ := hstored.exists_stored _
        (List.mem_map_of_mem (hperm.mem_iff.mpr ht))
      exact ⟨n'.cid, List.mem_map_of_mem hn', hat⟩
  obtain ⟨hs', hkeep, hroot⟩ := reduceSets_level hputs hs₁ hlevel hreduce
  exact ⟨hs', fun m c hm => hkeep m c (hkeep₁ m c hm),
    hroot.covers.root (binding_of_unique hunique)⟩

/-! ### What building a set does to the store -/

section Within

variable {R : S → S → Prop} [Std.Refl R] [IsTrans S R]

theorem putSets_within (hput : ∀ n s, R s (putSet n s).2) (ns : List TxSet) (s : S) :
    R s (putSets putSet ns s).2 := by
  induction ns generalizing s with
  | nil => exact Std.Refl.refl s
  | cons n ns ih =>
    have hn := hput n s
    rw [putSets]
    split
    · rename_i s₁ h; rw [h] at hn; exact hn
    · rename_i e s₁ h; rw [h] at hn; exact hn
    · rename_i c s₁ h; rw [h] at hn; exact IsTrans.trans _ _ _ hn (ih s₁)

theorem reduceSets_within (hput : ∀ n s, R s (putSet n s).2) (fuel : Nat) (nodes : List TxSet)
    (s : S) : R s (reduceSets putSet fuel nodes s).2 := by
  induction fuel generalizing nodes s with
  | zero => rcases nodes with _ | ⟨a, _ | ⟨b, ns⟩⟩ <;> exact Std.Refl.refl s
  | succ fuel ih =>
    rcases nodes with _ | ⟨a, _ | ⟨b, ns⟩⟩
    · exact Std.Refl.refl s
    · exact Std.Refl.refl s
    · have hlevel := putSets_within hput (pairUp (evenUp (a :: b :: ns))) s
      rw [reduceSets]
      split
      · rename_i s₁ h; rw [h] at hlevel; exact hlevel
      · rename_i e s₁ h; rw [h] at hlevel; exact hlevel
      · rename_i parents s₁ h; rw [h] at hlevel; exact IsTrans.trans _ _ _ hlevel (ih parents s₁)

/-- **Building a set is storing sets**: it does to the store what that may do. -/
theorem newTxSet_within (hput : ∀ n s, R s (putSet n s).2) (l : List Cid) (s : S) :
    R s (newTxSet putSet l s).2 := by
  unfold newTxSet
  simp only
  split
  · exact Std.Refl.refl s
  · have hleaves := putSets_within hput
      ((l.insertionSort (·.str ≤ ·.str)).map fun t => { tx := some t }) s
    split
    · rename_i s₁ h; rw [h] at hleaves; exact hleaves
    · rename_i e s₁ h; rw [h] at hleaves; exact hleaves
    · rename_i nodes s₁ h
      rw [h] at hleaves
      exact IsTrans.trans _ _ _ hleaves (reduceSets_within hput _ nodes s₁)

end Within
end Build

/-! ## Searching -/

section Search

variable {getSet : Cid → Outcome Err TxSet} {getTx : TxID → Outcome Err Tx} {root : Cid}
  {queue visited : List Cid} {txSeen : TxMap}

/-- A child of a stored set. -/
def IsChild (getSet : Cid → Outcome Err TxSet) (c d : Cid) : Prop :=
  ∃ set, getSet c = .ok set ∧ d ∈ set.children

/-- The transaction of a set that can be reached from the root. -/
def Found (getSet : Cid → Outcome Err TxSet) (root id : Cid) : Prop :=
  ∃ c set, Relation.ReflTransGen (IsChild getSet) root c ∧ getSet c = .ok set ∧ set.tx = some id

/-- What the search keeps: it only goes where it can get to, everything it has expanded has its
children expanded or queued, and it has collected the transactions of what it has expanded. -/
structure Searching (getSet : Cid → Outcome Err TxSet) (getTx : TxID → Outcome Err Tx) (root : Cid)
    (queue visited : List Cid) (txSeen : TxMap) : Prop where
  start : root ∈ visited ∨ root ∈ queue
  reach : ∀ c, c ∈ visited ∨ c ∈ queue → Relation.ReflTransGen (IsChild getSet) root c
  closed : ∀ c ∈ visited, ∀ d, IsChild getSet c d → d ∈ visited ∨ d ∈ queue
  seen : ∀ id t, txSeen.lookup id = some t ↔
    (∃ c ∈ visited, ∃ set, getSet c = .ok set ∧ set.tx = some id) ∧ getTx id = .ok t

theorem Searching.init (getSet : Cid → Outcome Err TxSet) (getTx : TxID → Outcome Err Tx)
    (root : Cid) : Searching getSet getTx root [root] [] ∅ where
  start := .inr (List.mem_singleton_self root)
  reach c h := by
    obtain rfl : c = root := by simpa using h
    exact .refl
  closed c h := absurd h (by simp)
  seen id t := by simp

/-- A CID that was expanded before is dropped from the queue. -/
theorem Searching.skip {c : Cid} (h : Searching getSet getTx root (c :: queue) visited txSeen)
    (hc : c ∈ visited) : Searching getSet getTx root queue visited txSeen where
  start := by
    rcases h.start with h | h
    · exact .inl h
    · rcases List.mem_cons.mp h with rfl | h
      · exact .inl hc
      · exact .inr h
  reach d hd := h.reach d (hd.imp_right (List.mem_cons_of_mem c))
  closed d hd e he := by
    rcases h.closed d hd e he with h | h
    · exact .inl h
    · rcases List.mem_cons.mp h with rfl | h
      · exact .inl hc
      · exact .inr h
  seen := h.seen

/-- A CID is expanded; `txSeen'` has its transaction as well, if it has one. -/
theorem Searching.expand {c : Cid} {set : TxSet} {txSeen' : TxMap}
    (h : Searching getSet getTx root (c :: queue) visited txSeen) (hset : getSet c = .ok set)
    (hseen : ∀ id t, txSeen'.lookup id = some t ↔
      (set.tx = some id ∧ getTx id = .ok t) ∨ txSeen.lookup id = some t) :
    Searching getSet getTx root (queue ++ set.children) (c :: visited) txSeen' where
  start := by
    rcases h.start with h | h
    · exact .inl (List.mem_cons_of_mem c h)
    · rcases List.mem_cons.mp h with rfl | h
      · exact .inl List.mem_cons_self
      · exact .inr (List.mem_append_left _ h)
  reach d hd := by
    have hc := h.reach c (.inr List.mem_cons_self)
    simp only [List.mem_cons, List.mem_append] at hd
    rcases hd with (rfl | hd) | hd | hd
    · exact hc
    · exact h.reach d (.inl hd)
    · exact h.reach d (.inr (List.mem_cons_of_mem c hd))
    · exact hc.tail ⟨set, hset, hd⟩
  closed d hd e he := by
    rcases List.mem_cons.mp hd with rfl | hd
    · obtain ⟨set', hset', he⟩ := he
      rw [hset, Outcome.ok.injEq] at hset'
      exact .inr (List.mem_append_right _ (hset' ▸ he))
    · rcases h.closed d hd e he with h | h
      · exact .inl (List.mem_cons_of_mem c h)
      · rcases List.mem_cons.mp h with rfl | h
        · exact .inl List.mem_cons_self
        · exact .inr (List.mem_append_left _ h)
  seen id t := by
    rw [hseen, h.seen]
    constructor
    · rintro (⟨htx, ht⟩ | ⟨⟨d, hd, set', hset', htx⟩, ht⟩)
      · exact ⟨⟨c, List.mem_cons_self, set, hset, htx⟩, ht⟩
      · exact ⟨⟨d, List.mem_cons_of_mem c hd, set', hset', htx⟩, ht⟩
    · rintro ⟨⟨d, hd, set', hset', htx⟩, ht⟩
      rcases List.mem_cons.mp hd with rfl | hd
      · rw [hset, Outcome.ok.injEq] at hset'
        exact .inl ⟨hset' ▸ htx, ht⟩
      · exact .inr ⟨⟨d, hd, set', hset', htx⟩, ht⟩

/-- A set with a transaction is expanded. -/
theorem Searching.expandTx {c : Cid} {set : TxSet} {id : TxID} {t : Tx}
    (h : Searching getSet getTx root (c :: queue) visited txSeen) (hset : getSet c = .ok set)
    (hid : set.tx = some id) (ht : getTx id = .ok t) :
    Searching getSet getTx root (queue ++ set.children) (c :: visited) (txSeen.insert id t) := by
  refine h.expand hset ?_
  intro id' t'
  by_cases hid' : id' = id
  · subst hid'
    rw [AList.lookup_insert, Option.some.injEq]
    constructor
    · rintro rfl
      exact .inl ⟨hid, ht⟩
    · rintro (⟨-, ht'⟩ | hold)
      · exact Outcome.ok.inj (ht.symm.trans ht')
      · exact Outcome.ok.inj (ht.symm.trans ((h.seen _ _).mp hold).2)
  · rw [AList.lookup_insert_ne hid', hid, Option.some.injEq]
    constructor
    · exact .inr
    · rintro (⟨rfl, -⟩ | hold)
      · exact absurd rfl hid'
      · exact hold

/-- **A search that is over has expanded everything that can be reached.** -/
theorem Searching.visited_of_reach (h : Searching getSet getTx root [] visited txSeen) {c : Cid}
    (hc : Relation.ReflTransGen (IsChild getSet) root c) : c ∈ visited := by
  induction hc with
  | refl => simpa using h.start
  | tail _ hstep ih => simpa using h.closed _ ih _ hstep

/-- What it has collected are the transactions that can be found. -/
theorem Searching.done (h : Searching getSet getTx root [] visited txSeen) (id : TxID) (t : Tx) :
    txSeen.lookup id = some t ↔ Found getSet root id ∧ getTx id = .ok t := by
  rw [h.seen]
  refine and_congr_left fun _ => ⟨?_, ?_⟩
  · rintro ⟨c, hc, set, hset, htx⟩
    exact ⟨c, set, h.reach c (.inl hc), hset, htx⟩
  · rintro ⟨c, set, hc, hset, htx⟩
    exact ⟨c, h.visited_of_reach hc, set, hset, htx⟩

/-- **The search succeeds** when everything it can get to is there and the transactions it finds are
among few enough that can be read, and it returns those it finds. -/
theorem allTxLoop_found {l : List Cid} (hlen : l.length ≤ maxBlockTxCount)
    (hset : ∀ c, Relation.ReflTransGen (IsChild getSet) root c →
      ∃ set, getSet c = .ok set ∧ ∀ id, set.tx = some id → id ∈ l)
    (htx : ∀ id ∈ l, ∃ t, getTx id = .ok t) {stored : Finset Cid}
    (hstored : ∀ c set, getSet c = .ok set → c ∈ stored) {fuel : Nat}
    (h : Searching getSet getTx root queue visited txSeen) (hseen : txSeen.keys ⊆ l)
    (hfuel : queue.length + ∑ d ∈ stored with d ∉ visited, setWidth getSet d ≤ fuel) :
    ∃ txs, allTxLoop getSet getTx fuel queue visited txSeen = .ok txs ∧
      ∀ id t, txs.lookup id = some t ↔ Found getSet root id ∧ getTx id = .ok t := by
  induction fuel generalizing queue visited txSeen with
  | zero =>
    cases queue with
    | nil => exact ⟨txSeen, rfl, h.done⟩
    | cons c queue => simp at hfuel
  | succ fuel ih =>
    cases queue with
    | nil => exact ⟨txSeen, rfl, h.done⟩
    | cons c queue =>
      rw [List.length_cons] at hfuel
      rw [allTxLoop]
      by_cases hc : c ∈ visited
      · rw [if_pos hc]
        exact ih (h.skip hc) hseen (by omega)
      · rw [if_neg hc]
        obtain ⟨set, hget, hmem⟩ := hset c (h.reach c (.inr List.mem_cons_self))
        have hnext := fuel_visit hstored hc hget hfuel
        simp only [hget]
        cases hid : set.tx with
        | none =>
          simp only
          exact ih (h.expand hget (by simp [hid])) hseen hnext
        | some id =>
          obtain ⟨t, ht⟩ := htx id (hmem id hid)
          have hsub : (txSeen.insert id t).keys ⊆ l := by
            intro id' hid'
            rcases AList.mem_insert txSeen |>.mp (AList.mem_keys.mp hid') with rfl | hold
            · exact hmem _ hid
            · exact hseen (AList.mem_keys.mpr hold)
          -- no more transactions than there are in the list
          have hcount : ¬ (txSeen.insert id t).keys.length > maxBlockTxCount := by
            have := (List.subperm_of_subset (AList.keys_nodup _) hsub).length_le
            omega
          simp only [ht, if_neg hcount]
          exact ih (h.expandTx hget hid ht) hsub hnext

/-! ### Below the root of a tree -/

/-- `GetSet` returns this set for this CID. -/
def ReadAs (getSet : Cid → Outcome Err TxSet) (n : TxSet) (c : Cid) : Prop :=
  getSet c = .ok { n with cid := .undef }

/-- A tree of sets that can be read. -/
abbrev ReadTree (getSet : Cid → Outcome Err TxSet) : Cid → List Cid → Prop :=
  HashTree (LeafAt (ReadAs getSet)) (NodeAt (ReadAs getSet))

theorem binding_readAs (getSet : Cid → Outcome Err TxSet) :
    Binding (LeafAt (ReadAs getSet)) (NodeAt (ReadAs getSet)) := by
  refine binding_of_unique ?_
  intro n m c hn hm
  simpa using Outcome.ok.inj (hn.symm.trans hm)

theorem isChild_of_half {c d : Cid} (h : Half (NodeAt (ReadAs getSet)) c d) :
    IsChild getSet c d := by
  obtain ⟨o, ho | ho⟩ := h
  · exact ⟨_, ho, by simp⟩
  · exact ⟨_, ho, by simp⟩

theorem half_of_isChild {c d : Cid} {ts : List Cid} (htree : ReadTree getSet c ts)
    (h : IsChild getSet c d) : Half (NodeAt (ReadAs getSet)) c d := by
  obtain ⟨set, hset, hd⟩ := h
  cases htree with
  | leaf hleaf =>
    obtain rfl := Outcome.ok.inj (hset.symm.trans hleaf)
    exact absurd hd (by simp)
  | node hnode _ _ =>
    obtain rfl := Outcome.ok.inj (hset.symm.trans hnode)
    simp only [List.mem_cons, List.not_mem_nil, or_false] at hd
    rcases hd with rfl | rfl
    · exact ⟨_, .inl hnode⟩
    · exact ⟨_, .inr hnode⟩

/-- What can be reached from the root of a tree is below it. -/
theorem half_of_reach {c : Cid} {ts : List Cid} (htree : ReadTree getSet root ts)
    (hc : Relation.ReflTransGen (IsChild getSet) root c) :
    Relation.ReflTransGen (Half (NodeAt (ReadAs getSet))) root c := by
  induction hc with
  | refl => exact .refl
  | tail _ hstep ih =>
    obtain ⟨ts', htree', -⟩ := htree.descendant (binding_readAs getSet) ih
    exact ih.tail (half_of_isChild htree' hstep)

/-- The root of a tree can be read, and if it is a leaf it is one of the leaves. -/
theorem getSet_of_tree {c : Cid} {ts : List Cid} (htree : ReadTree getSet c ts) :
    ∃ set, getSet c = .ok set ∧ ∀ id, set.tx = some id → id ∈ ts := by
  cases htree with
  | leaf hleaf => exact ⟨_, hleaf, fun id hid => by simpa using hid.symm⟩
  | node hnode _ _ => exact ⟨_, hnode, fun id hid => absurd hid (by simp)⟩

theorem found_iff_of_tree {ts : List Cid} (htree : ReadTree getSet root ts) (id : TxID) :
    Found getSet root id ↔ id ∈ ts := by
  constructor
  · rintro ⟨c, set, hc, hset, htx⟩
    obtain ⟨ts', htree', hsub⟩ :=
      htree.descendant (binding_readAs getSet) (half_of_reach htree hc)
    obtain ⟨set', hset', hmem⟩ := getSet_of_tree htree'
    obtain rfl := Outcome.ok.inj (hset.symm.trans hset')
    exact hsub (hmem id htx)
  · intro hid
    obtain ⟨c, hc, hleaf⟩ := htree.exists_leaf hid
    exact ⟨c, _, hc.lift (fun c => c) fun _ _ => isChild_of_half, hleaf, rfl⟩

/-- **The search returns the leaves of the tree below its root**, each with its transaction. -/
theorem allTxFrom_tree {ts l : List Cid} (htree : ReadTree getSet root ts)
    (hts : ∀ t, t ∈ ts ↔ t ∈ l) (hlen : l.length ≤ maxBlockTxCount)
    (htx : ∀ id ∈ l, ∃ t, getTx id = .ok t) {stored : Finset Cid}
    (hstored : ∀ c set, getSet c = .ok set → c ∈ stored) :
    ∃ txs, allTxFrom getSet getTx stored root = .ok txs ∧
      ∀ id t, txs.lookup id = some t ↔ id ∈ l ∧ getTx id = .ok t := by
  have hset : ∀ c, Relation.ReflTransGen (IsChild getSet) root c →
      ∃ set, getSet c = .ok set ∧ ∀ id, set.tx = some id → id ∈ l := by
    intro c hc
    obtain ⟨ts', htree', hsub⟩ :=
      htree.descendant (binding_readAs getSet) (half_of_reach htree hc)
    obtain ⟨set, hset, hmem⟩ := getSet_of_tree htree'
    exact ⟨set, hset, fun id hid => (hts id).mp (hsub (hmem id hid))⟩
  obtain ⟨txs, heq, hlookup⟩ := allTxLoop_found hlen hset htx hstored (.init getSet getTx root)
    (by intro id hid; exact absurd hid (by simp))
    (show _ ≤ 1 + ∑ c ∈ stored, setWidth getSet c by simp)
  refine ⟨txs, heq, fun id t => ?_⟩
  rw [hlookup, found_iff_of_tree htree, hts]

end Search

/-! ## The round trip -/

section RoundTrip

variable {S : Type} [Store S] {Inv : S → Prop}

/-- The sets that can be decoded again. -/
def Decodable (n : TxSet) : Prop := .undef ∉ n.children ∧ n.tx ≠ some .undef

instance : Std.Refl (Grows Inv) := ⟨Grows.refl⟩

instance : IsTrans S (Grows Inv) := ⟨fun _ _ _ => Grows.trans⟩

theorem ContentStore.puts (hstore : ContentStore S Inv) (ω : Runtime) :
    Puts (Store.putSet ω) Inv Decodable fun s : S => ReadAs (Store.getSet s) where
  put hs hD h := hstore.getSet_putSet hs h hD.1 hD.2
  inv n _ hs := (hstore.putSet ω n _ hs).1
  keep n _ hs _ _ h := (hstore.putSet ω n _ hs).2.getSet h
  ne_undef h := hstore.putSet_ne_undef h
  parent ha hb := ⟨by simp [ha.symm, hb.symm], by simp⟩

/-- Storing a level fails only if storing one of its nodes does. -/
theorem exists_putSets {S : Type} {putSet : TxSet → S → Outcome Err Cid × S}
    (hput : ∀ n s, ∃ c s', putSet n s = (.ok c, s')) (ns : List TxSet) (s : S) :
    ∃ ns' s', putSets putSet ns s = (.ok ns', s') := by
  induction ns generalizing s with
  | nil => exact ⟨[], s, rfl⟩
  | cons n ns ih =>
    obtain ⟨c, s₁, hn⟩ := hput n s
    obtain ⟨ns', s', hns⟩ := ih s₁
    exact ⟨{ n with cid := c } :: ns', s', by simp [putSets, hn, hns]⟩

/-- If sets can be stored, building one of a list that is not too long succeeds. -/
theorem exists_newTxSet {S : Type} {putSet : TxSet → S → Outcome Err Cid × S}
    (hput : ∀ n s, ∃ c s', putSet n s = (.ok c, s')) {l : List Cid} (hne : l ≠ [])
    (hlen : l.length ≤ maxBlockTxCount) (s : S) :
    ∃ root s', newTxSet putSet l s = (.ok root, s') := by
  have hreduce : ∀ (fuel : Nat) (nodes : List TxSet) (s : S) (e : Err) (s' : S),
      reduceSets putSet fuel nodes s ≠ (.err e, s') := by
    intro fuel
    induction fuel with
    | zero => intro nodes s e s'; rcases nodes with _ | ⟨a, _ | ⟨b, ns⟩⟩ <;> simp [reduceSets]
    | succ fuel ih =>
      intro nodes s e s'
      rcases nodes with _ | ⟨a, _ | ⟨b, ns⟩⟩
      · simp [reduceSets]
      · simp [reduceSets]
      · obtain ⟨parents, s₁, hparents⟩ := exists_putSets hput (pairUp (evenUp (a :: b :: ns))) s
        simp only [reduceSets, hparents]
        exact ih parents s₁ e s'
  have hpanic : (newTxSet putSet l s).1 ≠ .panic := by
    refine newTxSet_ne_panic (fun n s => ?_) hne s
    obtain ⟨c, s', h⟩ := hput n s
    simp [h]
  cases hroot : newTxSet putSet l s with
  | mk r s' =>
    cases r with
    | ok root => exact ⟨root, s', rfl⟩
    | panic => exact absurd (congrArg Prod.fst hroot) hpanic
    | err e =>
      obtain ⟨nodes, s₁, hnodes⟩ := exists_putSets hput
        ((l.insertionSort (·.str ≤ ·.str)).map fun t => { tx := some t }) s
      simp only [newTxSet, List.length_insertionSort, hnodes] at hroot
      rw [if_neg (by omega)] at hroot
      exact absurd hroot (hreduce _ nodes s₁ e s')

/-- What `NewTxSet` built can be read. -/
theorem newTxSet_readTree (hstore : ContentStore S Inv) {ω : Runtime} {l : List Cid} {s s' : S}
    {root : TxSet} (hs : Inv s) (hdef : ∀ c ∈ l, c ≠ .undef)
    (h : newTxSet (Store.putSet ω) l s = (.ok root, s')) :
    ∃ ts, ReadTree (Store.getSet s') root.cid ts ∧ ∀ t, t ∈ ts ↔ t ∈ l := by
  refine (newTxSet_tree (hstore.puts ω) ?_ hs (fun t ht => ⟨by simp, ?_⟩) h).2.2
  · intro s n m c hn hm
    simpa using Outcome.ok.inj (hn.symm.trans hm)
  · simpa using hdef t ht

/-- **The Merkle tree of a list holds the list**: built over CIDs of stored transactions, its root
is one under which `AllTx` finds exactly those, each with its transaction. -/
theorem allTx_newTxSet (hstore : ContentStore S Inv) (ω : Runtime) {l : List Cid} {s : S}
    (hs : Inv s) (hne : l ≠ []) (hlen : l.length ≤ maxBlockTxCount)
    (htx : ∀ c ∈ l, ∃ t, Store.getTx s c = .ok t) :
    ((∀ (n : TxSet) (s : S), ∃ c s', Store.putSet ω n s = (.ok c, s')) →
      ∃ root s', newTxSet (Store.putSet ω) l s = (.ok root, s')) ∧
    ∀ (root : TxSet) (s' : S), newTxSet (Store.putSet ω) l s = (.ok root, s') →
      ∀ b : Block, b.txRoot = root.cid → ∃ txs, Store.allTx s' b = .ok txs ∧
        (∀ c, c ∈ txs ↔ c ∈ l) ∧
        ∀ c t, txs.lookup c = some t ↔ c ∈ l ∧ Store.getTx s c = .ok t := by
  refine ⟨fun hput => exists_newTxSet hput hne hlen s, ?_⟩
  intro root s' h b hb
  obtain ⟨-, hkeeps⟩ : Inv s' ∧ Keeps s s' := by
    have hgrows := newTxSet_within (R := Grows Inv) (hstore.putSet ω) l s
    rw [h] at hgrows
    exact hgrows hs
  have hdef : ∀ c ∈ l, c ≠ .undef := by
    intro c hc
    obtain ⟨t, ht⟩ := htx c hc
    exact hstore.getTx_ne_undef hs ht
  obtain ⟨ts, htree, hts⟩ := newTxSet_readTree hstore hs hdef h
  have htx' : ∀ c ∈ l, ∃ t, Store.getTx s c = .ok t ∧ Store.getTx s' c = .ok t := by
    intro c hc
    obtain ⟨t, ht⟩ := htx c hc
    exact ⟨t, ht, hkeeps.getTx ht⟩
  obtain ⟨stored, hstored, hall⟩ := hstore.allTx_eq s' b
  obtain ⟨txs, heq, hlookup⟩ := allTxFrom_tree htree hts hlen
    (fun c hc => (htx' c hc).imp fun _ h => h.2) hstored
  have hlookup' : ∀ c t, txs.lookup c = some t ↔ c ∈ l ∧ Store.getTx s c = .ok t := by
    intro c t
    rw [hlookup]
    refine and_congr_right fun hc => ?_
    obtain ⟨t', ht, ht'⟩ := htx' c hc
    rw [ht, ht']
  refine ⟨txs, by rw [hall, hb, heq], fun c => ?_, hlookup'⟩
  rw [← AList.lookup_isSome, Option.isSome_iff_exists]
  constructor
  · rintro ⟨t, ht⟩
    exact ((hlookup' c t).mp ht).1
  · intro hc
    obtain ⟨t, ht, -⟩ := htx' c hc
    exact ⟨t, (hlookup' c t).mpr ⟨hc, ht⟩⟩

end RoundTrip

/-! ### Three entries, two transactions -/

section

open Storage.Sample.Exact

/-- A store with two transactions. -/
def twoTxs : MemStore := ((MemStore.putTx (Sample.vcTx 1) {}).2.putTx (Sample.vcTx 2)).2

/-- Their CIDs, one of them twice. -/
def repeatedCids : List Cid :=
  [Hash.sum (.tx (Sample.vcTx 2)), Hash.sum (.tx (Sample.vcTx 1)), Hash.sum (.tx (Sample.vcTx 2))]

theorem allTx_newTxSet_repeatedCids :
    ∃ root s', newTxSet (Store.putSet Sample.runtime) repeatedCids twoTxs = (.ok root, s') ∧
      ∃ txs, Store.allTx s' { txRoot := root.cid } = .ok txs ∧ ∀ c, c ∈ txs ↔ c ∈ repeatedCids := by
  have haddressed : Addressed twoTxs.objects :=
    (addressed_empty.insert (.tx (Sample.vcTx 1))).insert (.tx (Sample.vcTx 2))
  have hstored : ∀ c ∈ repeatedCids, ∃ t, Store.getTx twoTxs c = .ok t := by
    intro c hc
    simp only [repeatedCids, List.mem_cons, List.not_mem_nil, or_false] at hc
    rcases hc with rfl | rfl | rfl
    · exact ⟨Sample.vcTx 2, by decide⟩
    · exact ⟨Sample.vcTx 1, by decide⟩
    · exact ⟨Sample.vcTx 2, by decide⟩
  obtain ⟨hbuilt, hread⟩ := allTx_newTxSet (MemStore.contentStore sum_injective) Sample.runtime
    haddressed (l := repeatedCids) (by decide) (by decide) hstored
  obtain ⟨root, s', hroot⟩ := hbuilt fun n m => ⟨_, _, rfl⟩
  obtain ⟨txs, htxs, hkeys, -⟩ := hread root s' hroot { txRoot := root.cid } rfl
  exact ⟨root, s', hroot, txs, htxs, hkeys⟩

end

/-! ## The root as a commitment -/

section Canonical

variable [Hash] {S S' : Type} {putSet : TxSet → S → Outcome Err Cid × S}
  {putSet' : TxSet → S' → Outcome Err Cid × S'}

/-- `c` is the hash of the content of `n`. -/
def HashedAs (n : TxSet) (c : Cid) : Prop := c = Hash.sum (marshalSet n)

/-- The CID of a stored set is the hash of its content. -/
def ContentAddressed (putSet : TxSet → S → Outcome Err Cid × S) : Prop :=
  ∀ n s c s', putSet n s = (.ok c, s') → HashedAs n c

theorem MemStore.contentAddressed (ω : Runtime) :
    ContentAddressed (Store.putSet ω : TxSet → MemStore → _) := by
  intro n m c m' h
  exact (Outcome.ok.inj (congrArg Prod.fst h)).symm

theorem IPFSStorage.contentAddressed [CidText] [SigLib] (ω : Runtime) :
    ContentAddressed (Store.putSet ω : TxSet → IPFSStorage → _) := by
  intro n s c s' h
  exact (putRaw_eq_ok.mp (putSet_eq_ok h)).2.1

/-- A level is stored under CIDs that do not depend on the store. -/
theorem putSets_eq_map (hput : ContentAddressed putSet) {ns ns' : List TxSet} {s s' : S}
    (h : putSets putSet ns s = (.ok ns', s')) :
    ns' = ns.map fun n => { n with cid := Hash.sum (marshalSet n) } := by
  induction ns generalizing s ns' with
  | nil => exact (Outcome.ok.inj (congrArg Prod.fst h)).symm
  | cons n ns ih =>
    obtain ⟨c, s₁, rest, hc, hrest, rfl⟩ := putSets_cons_eq_ok h
    rw [hput n s c s₁ hc, ih hrest, List.map_cons]

/-- Nor does the root a level is reduced to. -/
theorem reduceSets_det (hput : ContentAddressed putSet) (hput' : ContentAddressed putSet')
    {fuel : Nat} {nodes : List TxSet} {root root' : TxSet} {s s₁ : S} {s' s₁' : S'}
    (h : reduceSets putSet fuel nodes s = (.ok root, s₁))
    (h' : reduceSets putSet' fuel nodes s' = (.ok root', s₁')) : root = root' := by
  induction fuel generalizing nodes s s' with
  | zero =>
    rcases reduceSets_eq_ok h with ⟨rfl, -⟩ | ⟨fuel', parents, s₂, hfuel, -⟩
    · exact Outcome.ok.inj (congrArg Prod.fst h')
    · exact absurd hfuel (Nat.succ_ne_zero fuel').symm
  | succ fuel ih =>
    rcases reduceSets_eq_ok h with ⟨rfl, -⟩ | ⟨fuel', parents, s₂, hfuel, hparents, hroot⟩
    · exact Outcome.ok.inj (congrArg Prod.fst h')
    rcases reduceSets_eq_ok h' with ⟨rfl, -⟩ | ⟨fuel'', parents', s₂', hfuel', hparents', hroot'⟩
    · exact (Outcome.ok.inj (congrArg Prod.fst h)).symm
    obtain rfl := Nat.succ.inj hfuel
    obtain rfl := Nat.succ.inj hfuel'
    rw [putSets_eq_map hput hparents] at hroot
    rw [putSets_eq_map hput' hparents'] at hroot'
    exact ih hroot hroot'

omit [Hash] in
/-- The order in which transactions are listed does not matter: they are sorted, and two different
CIDs are never equal in the order. -/
theorem insertionSort_eq_of_perm {l l' : List Cid} (h : l.Perm l') :
    l.insertionSort (·.str ≤ ·.str) = l'.insertionSort (·.str ≤ ·.str) := by
  have : Std.Total fun a b : Cid => a.str ≤ b.str := ⟨fun a b => List.le_total a.str b.str⟩
  have : IsTrans Cid fun a b => a.str ≤ b.str := ⟨fun _ _ _ => List.le_trans⟩
  have : Std.Antisymm fun a b : Cid => a.str ≤ b.str :=
    ⟨fun ⟨_⟩ ⟨_⟩ hab hba => congrArg Cid.mk (List.le_antisymm hab hba)⟩
  exact List.Perm.eq_of_pairwise' (List.pairwise_insertionSort _ l)
    (List.pairwise_insertionSort _ l')
    ((List.perm_insertionSort _ l).trans (h.trans (List.perm_insertionSort _ l').symm))

/-- The CID of a set is where the set is, whatever the store. -/
theorem ContentAddressed.puts (hput : ContentAddressed putSet) :
    Puts putSet (fun _ => True) (fun _ => True) fun _ => HashedAs where
  put _ _ h := hput _ _ _ _ h
  inv _ _ h := h
  keep _ _ _ _ _ h := h
  ne_undef h hc := Hash.sum_ne_undef _ (congrArg Cid.str ((hput _ _ _ _ h).symm.trans hc))
  parent _ _ := trivial

/-- **The root is a commitment to the transactions**: where sets can be stored every list has a
root, lists that differ in order only have the same one, and lists with the same root have the same
transactions. -/
theorem newTxSet_cid_canonical (hinj : Function.Injective (Hash.sum : Obj → Cid))
    (hput : ContentAddressed putSet) (hput' : ContentAddressed putSet') (l l' : List Cid)
    (hne : l ≠ []) (hlen : l.length ≤ maxBlockTxCount) (s : S) (s' : S') :
    ((∀ (n : TxSet) (s : S), ∃ c s₁, putSet n s = (.ok c, s₁)) →
      ∃ root s₁, newTxSet putSet l s = (.ok root, s₁)) ∧
    ∀ root s₁ root' s₁', newTxSet putSet l s = (.ok root, s₁) →
      newTxSet putSet' l' s' = (.ok root', s₁') →
      (l.Perm l' → root.cid = root'.cid) ∧ (root.cid = root'.cid → ∀ c, c ∈ l ↔ c ∈ l') := by
  refine ⟨fun hok => exists_newTxSet hok hne hlen s, ?_⟩
  intro root s₁ root' s₁' h h'
  constructor
  · intro hperm
    obtain ⟨nodes, s₂, hnodes, hroot⟩ := newTxSet_eq_ok h
    obtain ⟨nodes', s₂', hnodes', hroot'⟩ := newTxSet_eq_ok h'
    rw [putSets_eq_map hput hnodes, insertionSort_eq_of_perm hperm] at hroot
    rw [putSets_eq_map hput' hnodes'] at hroot'
    rw [reduceSets_det hput hput' hroot hroot']
  · intro hcid c
    have hunique : ∀ {n m : TxSet} {c : Cid}, HashedAs n c → HashedAs m c →
        n.children = m.children ∧ n.tx = m.tx := by
      intro n m c hn hm
      simpa [marshalSet] using hinj (hn.symm.trans hm)
    obtain ⟨-, -, ts, htree, hts⟩ := newTxSet_tree hput.puts hunique trivial (by simp) h
    obtain ⟨-, -, ts', htree', hts'⟩ := newTxSet_tree hput'.puts hunique trivial (by simp) h'
    -- one root, so one sequence of leaves
    rw [hcid] at htree
    have hbinding : Binding (LeafAt HashedAs) (NodeAt HashedAs) := binding_of_unique hunique
    rw [← hts, ← hts', htree.unique hbinding htree']

end Canonical

/-! ### One list in two orders, in two stores -/

section

open Storage.Sample.Exact

theorem newTxSet_cid_canonical_reverse :
    ∃ root root' s₁ s₁',
      newTxSet (Store.putSet Sample.runtime) repeatedCids twoTxs = (.ok root, s₁) ∧
      newTxSet (Store.putSet Sample.runtime) repeatedCids.reverse ({} : IPFSStorage) =
        (.ok root', s₁') ∧
      root.cid = root'.cid := by
  have hput : ∀ (n : TxSet) (s : IPFSStorage), ∃ c s₁,
      Store.putSet Sample.runtime n s = (.ok c, s₁) := fun _ _ => ⟨_, _, rfl⟩
  obtain ⟨hroot, hcanonical⟩ := newTxSet_cid_canonical sum_injective
    (MemStore.contentAddressed Sample.runtime) (IPFSStorage.contentAddressed Sample.runtime)
    repeatedCids repeatedCids.reverse (by decide) (by decide) twoTxs {}
  obtain ⟨root, s₁, h⟩ := hroot fun _ _ => ⟨_, _, rfl⟩
  obtain ⟨root', s₁', h'⟩ := exists_newTxSet hput (l := repeatedCids.reverse) (by decide)
    (by decide) {}
  exact ⟨root, root', s₁, s₁', h, h',
    (hcanonical root s₁ root' s₁' h h').1 (List.reverse_perm _).symm⟩

end
end Didem.Storage
