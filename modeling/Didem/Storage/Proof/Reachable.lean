import Didem.Storage.Proof.TxSets

/-!
# `AllTx` is reachability

A block names its transactions through a graph of stored sets, and nobody checks the shape of that
graph: a set may have a transaction and children, be a child twice or be its own descendant, or name
a child that is not there. `AllTx` walks it breadth first. This file says what it returns on any
such graph, and on which it does not return.

`Searching` (`TxSets`) is what holds of the queue, the visited sets and the collected transactions
at every turn; `Explored` is what has been found out about the visited ones, which only a search
that has not failed knows. At the end there is no queue, so what was visited is what can be reached,
and the two together say that everything below the root could be read (`AllReadable`).

A search that fails stops at once, and what stops it may be a **panic**: `Tx.Unmarshal` panics over
a DID or node transaction without a payload. Which of several faults it comes to first is a matter
of the order of the visits (`visitOrder`); it *stumbles* over such a transaction exactly if all it
visited before could be read (`Stumbles`).
-/

set_option autoImplicit false

namespace Didem.Storage

open Lib

section Search

variable {getSet : Cid → Outcome Err TxSet} {getTx : TxID → Outcome Err Tx} {root : Cid}
  {queue visited : List Cid} {txSeen txs : TxMap} {stored : Finset Cid} {fuel : Nat}

/-! ## What a search that succeeds has found out -/

/-- What is known of the visited sets: they were read, and so were their transactions, of which
there are not too many. -/
structure Explored (getSet : Cid → Outcome Err TxSet) (getTx : TxID → Outcome Err Tx)
    (visited : List Cid) (txSeen : TxMap) : Prop where
  read : ∀ c ∈ visited, ∃ set, getSet c = .ok set ∧ ∀ id, set.tx = some id → ∃ t, getTx id = .ok t
  few : txSeen.keys.length ≤ maxBlockTxCount

theorem Explored.init (getSet : Cid → Outcome Err TxSet) (getTx : TxID → Outcome Err Tx) :
    Explored getSet getTx [] ∅ where
  read _ hc := absurd hc List.not_mem_nil
  few := Nat.zero_le _

/-- One more set is read. -/
theorem Explored.visit {c : Cid} {set : TxSet} {txSeen' : TxMap}
    (h : Explored getSet getTx visited txSeen) (hset : getSet c = .ok set)
    (htx : ∀ id, set.tx = some id → ∃ t, getTx id = .ok t)
    (hfew : txSeen'.keys.length ≤ maxBlockTxCount) :
    Explored getSet getTx (c :: visited) txSeen' where
  read d hd := by
    rcases List.mem_cons.mp hd with rfl | hd
    · exact ⟨set, hset, htx⟩
    · exact h.read d hd
  few := hfew

/-- **A search that succeeds ends with an empty queue**, and has read all it visited. -/
theorem allTxLoop_explored (h : Searching getSet getTx root queue visited txSeen)
    (hx : Explored getSet getTx visited txSeen)
    (hok : allTxLoop getSet getTx fuel queue visited txSeen = .ok txs) :
    ∃ visited', Searching getSet getTx root [] visited' txs ∧
      Explored getSet getTx visited' txs := by
  induction fuel generalizing queue visited txSeen with
  | zero =>
    cases queue with
    | nil =>
      obtain rfl := Outcome.ok.inj hok
      exact ⟨visited, h, hx⟩
    | cons c queue => exact absurd hok (by simp [allTxLoop])
  | succ fuel ih =>
    cases queue with
    | nil =>
      obtain rfl := Outcome.ok.inj hok
      exact ⟨visited, h, hx⟩
    | cons c queue =>
      rw [allTxLoop] at hok
      by_cases hc : c ∈ visited
      · rw [if_pos hc] at hok
        exact ih (h.skip hc) hx hok
      · rw [if_neg hc] at hok
        cases hset : getSet c with
        | panic => exact absurd hok (by simp [hset])
        | err e => exact absurd hok (by simp [hset])
        | ok set =>
          simp only [hset] at hok
          cases hid : set.tx with
          | none =>
            simp only [hid] at hok
            exact ih (h.expand hset (by simp [hid])) (hx.visit hset (by simp [hid]) hx.few) hok
          | some id =>
            simp only [hid] at hok
            cases ht : getTx id with
            | panic => exact absurd hok (by simp [ht])
            | err e => exact absurd hok (by simp [ht])
            | ok t =>
              simp only [ht] at hok
              by_cases hcount : (txSeen.insert id t).keys.length > maxBlockTxCount
              · rw [if_pos hcount] at hok
                exact absurd hok (by simp)
              · rw [if_neg hcount] at hok
                refine ih (h.expandTx hset hid ht) (hx.visit hset ?_ (Nat.le_of_not_lt hcount)) hok
                intro id' hid'
                obtain rfl := Option.some.inj (hid.symm.trans hid')
                exact ⟨t, ht⟩

/-! ## Everything below the root -/

/-- Every set below the root can be read and so can every transaction of one, and there are not too
many transactions. -/
structure AllReadable (getSet : Cid → Outcome Err TxSet) (getTx : TxID → Outcome Err Tx)
    (root : Cid) :
    Prop where
  sets : ∀ c, Relation.ReflTransGen (IsChild getSet) root c → ∃ set, getSet c = .ok set
  txs : ∀ id, Found getSet root id → ∃ t, getTx id = .ok t
  few : ∃ ids : Finset TxID, (∀ id, id ∈ ids ↔ Found getSet root id) ∧ ids.card ≤ maxBlockTxCount

/-- What a search returns that is over: the transactions that were found. -/
theorem Searching.mem_done (h : Searching getSet getTx root [] visited txs)
    (hx : Explored getSet getTx visited txs) (id : TxID) : id ∈ txs ↔ Found getSet root id := by
  rw [← AList.lookup_isSome, Option.isSome_iff_exists]
  constructor
  · rintro ⟨t, ht⟩
    exact ((h.done id t).mp ht).1
  · intro hfound
    obtain ⟨c, set, hc, hset, hid⟩ := hfound
    obtain ⟨set', hset', hread⟩ := hx.read c (h.visited_of_reach hc)
    obtain rfl := Outcome.ok.inj (hset.symm.trans hset')
    obtain ⟨t, ht⟩ := hread id hid
    exact ⟨t, (h.done id t).mpr ⟨⟨c, set, hc, hset, hid⟩, ht⟩⟩

theorem Searching.allReadable (h : Searching getSet getTx root [] visited txs)
    (hx : Explored getSet getTx visited txs) : AllReadable getSet getTx root where
  sets c hc := by
    obtain ⟨set, hset, -⟩ := hx.read c (h.visited_of_reach hc)
    exact ⟨set, hset⟩
  txs id hid := by
    obtain ⟨t, ht⟩ := Option.isSome_iff_exists.mp
      (AList.lookup_isSome.mpr ((h.mem_done hx id).mpr hid))
    exact ⟨t, ((h.done id t).mp ht).2⟩
  few := by
    refine ⟨txs.keys.toFinset, fun id => ?_, ?_⟩
    · rw [List.mem_toFinset, ← AList.mem_keys, h.mem_done hx]
    · rw [List.toFinset_card_of_nodup txs.keys_nodup]
      exact hx.few

/-- A search succeeds where everything can be read. -/
theorem AllReadable.allTxFrom_eq_ok (h : AllReadable getSet getTx root)
    (hstored : ∀ c set, getSet c = .ok set → c ∈ stored) :
    ∃ txs, allTxFrom getSet getTx stored root = .ok txs := by
  obtain ⟨ids, hids, hcard⟩ := h.few
  have hset : ∀ c, Relation.ReflTransGen (IsChild getSet) root c →
      ∃ set, getSet c = .ok set ∧ ∀ id, set.tx = some id → id ∈ ids.toList := by
    intro c hc
    obtain ⟨set, hset⟩ := h.sets c hc
    refine ⟨set, hset, fun id hid => ?_⟩
    rw [Finset.mem_toList, hids]
    exact ⟨c, set, hc, hset, hid⟩
  have htx : ∀ id ∈ ids.toList, ∃ t, getTx id = .ok t := by
    intro id hid
    rw [Finset.mem_toList, hids] at hid
    exact h.txs id hid
  obtain ⟨txs, htxs, -⟩ := allTxLoop_found (l := ids.toList) (by rwa [Finset.length_toList])
    hset htx hstored
    (.init getSet getTx root) (by intro id hid; exact absurd hid (by simp))
    (show _ ≤ 1 + ∑ c ∈ stored, setWidth getSet c by simp)
  exact ⟨txs, htxs⟩

/-- What it is for `r` to be the answer of a search from the root: whatever fuel the search is given
above a bound, it ends with `r`; it succeeds exactly if everything below the root can be read, and
what it returns is what is there. -/
structure Answers (getSet : Cid → Outcome Err TxSet) (getTx : TxID → Outcome Err Tx)
    (stored : Finset Cid) (root : Cid) (r : Outcome Err TxMap) : Prop where
  ends : ∀ fuel, 1 + ∑ c ∈ stored, setWidth getSet c ≤ fuel →
    allTxLoop getSet getTx fuel [root] [] ∅ = r
  ok_iff : (∃ txs, r = .ok txs) ↔ AllReadable getSet getTx root
  keys : ∀ txs, r = .ok txs → ∀ id, id ∈ txs ↔ Found getSet root id
  lookup : ∀ txs, r = .ok txs → ∀ id t,
    txs.lookup id = some t ↔ Found getSet root id ∧ getTx id = .ok t

/-- **`AllTx` is reachability**, over any two getters. -/
theorem answers_allTxFrom (hstored : ∀ c set, getSet c = .ok set → c ∈ stored) :
    Answers getSet getTx stored root (allTxFrom getSet getTx stored root) := by
  have hdone : ∀ txs, allTxFrom getSet getTx stored root = .ok txs →
      ∃ visited, Searching getSet getTx root [] visited txs ∧ Explored getSet getTx visited txs :=
    fun txs h => allTxLoop_explored (.init getSet getTx root) (.init getSet getTx) h
  refine ⟨fun fuel hfuel => allTxFrom_eq hstored hfuel, ⟨?_, ?_⟩, ?_, ?_⟩
  · intro h
    obtain ⟨txs, htxs⟩ := h
    obtain ⟨visited, hs, hx⟩ := hdone txs htxs
    exact hs.allReadable hx
  · intro h
    exact h.allTxFrom_eq_ok hstored
  · intro txs htxs
    obtain ⟨visited, hs, hx⟩ := hdone txs htxs
    exact hs.mem_done hx
  · intro txs htxs
    obtain ⟨visited, hs, -⟩ := hdone txs htxs
    exact hs.done

/-! ## What a search stumbles over -/

/-- The children of the set, none where there is no set. -/
def childrenOf (getSet : Cid → Outcome Err TxSet) (c : Cid) : List Cid :=
  match getSet c with
  | .ok set => set.children
  | _ => []

/-- The transaction the set names. -/
def txOf (getSet : Cid → Outcome Err TxSet) (c : Cid) : Option TxID :=
  match getSet c with
  | .ok set => set.tx
  | _ => none

/-- The sets that are visited from a queue on, in their order. -/
def visitOrder (getSet : Cid → Outcome Err TxSet) : Nat → List Cid → List Cid → List Cid
  | _, [], _ => []
  | 0, _ :: _, _ => []
  | fuel + 1, c :: queue, visited =>
    if c ∈ visited then visitOrder getSet fuel queue visited
    else c :: visitOrder getSet fuel (queue ++ childrenOf getSet c) (c :: visited)

/-- The sets below the root, breadth first. -/
def breadthFirst (getSet : Cid → Outcome Err TxSet) (stored : Finset Cid) (root : Cid) : List Cid :=
  visitOrder getSet (1 + ∑ c ∈ stored, setWidth getSet c) [root] []

/-- The set can be read, and so can its transaction. -/
def ReadsSet (getSet : Cid → Outcome Err TxSet) (getTx : TxID → Outcome Err Tx) (c : Cid) : Prop :=
  ∃ set, getSet c = .ok set ∧ ∀ id, set.tx = some id → ∃ t, getTx id = .ok t

/-- Of the sets in this order, one names a transaction over which `GetTx` panics, and nothing
before it ends the search: the sets before it and their transactions can be read, and with those
that were seen already they are not too many. -/
def Stumbles (getSet : Cid → Outcome Err TxSet) (getTx : TxID → Outcome Err Tx)
    (seen : Finset TxID) (order : List Cid) : Prop :=
  ∃ before c after, order = before ++ c :: after ∧ (∀ d ∈ before, ReadsSet getSet getTx d) ∧
    (seen ∪ (before.filterMap (txOf getSet)).toFinset).card ≤ maxBlockTxCount ∧
    ∃ id, txOf getSet c = some id ∧ getTx id = .panic

theorem not_stumbles_nil (seen : Finset TxID) : ¬ Stumbles getSet getTx seen [] := by
  rintro ⟨before, c, after, h, -⟩
  exact absurd h (by simp)

theorem Stumbles.card_le {seen : Finset TxID} {order : List Cid}
    (h : Stumbles getSet getTx seen order) : seen.card ≤ maxBlockTxCount := by
  obtain ⟨before, c, after, -, -, hcard, -⟩ := h
  exact (Finset.card_le_card Finset.subset_union_left).trans hcard

/-- The first set is the one, or it is read. -/
theorem stumbles_cons {seen : Finset TxID} {c : Cid} {order : List Cid} :
    Stumbles getSet getTx seen (c :: order) ↔
      (seen.card ≤ maxBlockTxCount ∧ ∃ id, txOf getSet c = some id ∧ getTx id = .panic) ∨
        ReadsSet getSet getTx c ∧
          Stumbles getSet getTx (seen ∪ (txOf getSet c).toFinset) order := by
  have hids : ∀ before : List Cid, ((c :: before).filterMap (txOf getSet)).toFinset =
      (txOf getSet c).toFinset ∪ (before.filterMap (txOf getSet)).toFinset := by
    intro before
    cases h : txOf getSet c <;> simp [h]
  constructor
  · rintro ⟨before, d, after, horder, hread, hcard, hpanic⟩
    cases before with
    | nil =>
      obtain ⟨rfl, -⟩ := List.cons.inj horder
      exact .inl ⟨by simpa using hcard, hpanic⟩
    | cons c' before =>
      rw [List.cons_append, List.cons.injEq] at horder
      obtain ⟨rfl, horder⟩ := horder
      rw [List.forall_mem_cons] at hread
      rw [hids, ← Finset.union_assoc] at hcard
      exact .inr ⟨hread.1, before, d, after, horder, hread.2, hcard, hpanic⟩
  · rintro (⟨hcard, hpanic⟩ | ⟨hread, before, d, after, rfl, hbefore, hcard, hpanic⟩)
    · exact ⟨[], c, order, rfl, by simp, by simpa using hcard, hpanic⟩
    · refine ⟨c :: before, d, after, rfl, List.forall_mem_cons.mpr ⟨hread, hbefore⟩, ?_, hpanic⟩
      rw [hids, ← Finset.union_assoc]
      exact hcard

theorem toFinset_keys_insert (txSeen : TxMap) (id : TxID) (t : Tx) :
    (txSeen.insert id t).keys.toFinset = txSeen.keys.toFinset ∪ {id} := by
  ext id'
  simp only [List.mem_toFinset, ← AList.mem_keys, AList.mem_insert, Finset.mem_union,
    Finset.mem_singleton]
  exact or_comm

/-- **Where a search panics.** -/
theorem allTxLoop_eq_panic (hset : ∀ c, getSet c ≠ .panic)
    (hstored : ∀ c set, getSet c = .ok set → c ∈ stored)
    (hfew : txSeen.keys.length ≤ maxBlockTxCount)
    (hfuel : queue.length + ∑ d ∈ stored with d ∉ visited, setWidth getSet d ≤ fuel) :
    allTxLoop getSet getTx fuel queue visited txSeen = .panic ↔
      Stumbles getSet getTx txSeen.keys.toFinset (visitOrder getSet fuel queue visited) := by
  induction fuel generalizing queue visited txSeen with
  | zero =>
    cases queue with
    | nil => simp [allTxLoop, visitOrder, not_stumbles_nil]
    | cons c queue => simp at hfuel
  | succ fuel ih =>
    cases queue with
    | nil => simp [allTxLoop, visitOrder, not_stumbles_nil]
    | cons c queue =>
      rw [List.length_cons] at hfuel
      rw [allTxLoop, visitOrder]
      by_cases hc : c ∈ visited
      · rw [if_pos hc, if_pos hc]
        exact ih hfew (by omega)
      · rw [if_neg hc, if_neg hc, stumbles_cons]
        cases hget : getSet c with
        | panic => exact absurd hget (hset c)
        | err e => simp [txOf, ReadsSet, hget]
        | ok set =>
          have hnext := fuel_visit hstored hc hget hfuel
          have hchildren : childrenOf getSet c = set.children := by simp [childrenOf, hget]
          have htx : txOf getSet c = set.tx := by simp [txOf, hget]
          rw [hchildren, htx]
          cases hid : set.tx with
          | none => simp [ReadsSet, hget, hid, ih hfew hnext]
          | some id =>
            cases ht : getTx id with
            | panic =>
              have hcard := (List.toFinset_card_le txSeen.keys).trans hfew
              simp [hid, ht, hcard]
            | err e => simp [ReadsSet, hget, hid, ht]
            | ok t =>
              have hread : ReadsSet getSet getTx c := ⟨set, hget, fun id' hid' => by
                obtain rfl := Option.some.inj (hid.symm.trans hid')
                exact ⟨t, ht⟩⟩
              simp only [hid, Option.some.injEq, exists_eq_left', ht, reduceCtorEq, and_false, false_or,
                hread, true_and, Option.toFinset_some]
              rw [← toFinset_keys_insert txSeen id t]
              split
              · next hcount =>
                -- the limit ends the search, and every other way over it as well
                refine iff_of_false (by simp) fun h => ?_
                have hcard := h.card_le
                rw [List.toFinset_card_of_nodup (AList.keys_nodup _)] at hcard
                omega
              · next hcount => exact ih (Nat.le_of_not_lt hcount) hnext

theorem allTxFrom_eq_panic (hset : ∀ c, getSet c ≠ .panic)
    (hstored : ∀ c set, getSet c = .ok set → c ∈ stored) :
    allTxFrom getSet getTx stored root = .panic ↔
      Stumbles getSet getTx ∅ (breadthFirst getSet stored root) :=
  allTxLoop_eq_panic hset hstored (show (∅ : TxMap).keys.length ≤ _ from Nat.zero_le _) (by simp)

end Search

/-! ## The two stores -/

namespace MemStore

theorem getTx_eq_panic {m : MemStore} {id : TxID} :
    m.getTx id = .panic ↔ ∃ t, m.objects.lookup id = some (.tx t) ∧ t.hollow = true := by
  unfold getTx getObj
  cases m.objects.lookup id with
  | none => simp
  | some d => simp [Outcome.mapErr_eq_panic, unmarshalTx_eq_panic]

/-- `AllTx` comes to a transaction over which `Tx.Unmarshal` panics. -/
def Stumbles (m : MemStore) (b : Block) : Prop :=
  Storage.Stumbles m.getSet m.getTx ∅ (breadthFirst m.getSet m.objects.keys b.txRoot)

theorem allTx_eq_panic {m : MemStore} {b : Block} : m.allTx b = .panic ↔ m.Stumbles b :=
  allTxFrom_eq_panic m.getSet_ne_panic fun _ _ => mem_keys_of_getSet

theorem stumbles_congr {m m' : MemStore} (h : m'.objects = m.objects) :
    m'.Stumbles = m.Stumbles := by
  funext b
  rw [← propext allTx_eq_panic, ← propext allTx_eq_panic, allTx_congr h]

end MemStore

namespace IPFSStorage

/-- `AllTx` comes to a transaction over which `Tx.Unmarshal` panics. -/
def Stumbles (s : IPFSStorage) (b : Block) : Prop :=
  Storage.Stumbles s.getSet s.getTx ∅ (breadthFirst s.getSet s.objects.keys b.txRoot)

theorem allTx_eq_panic {s : IPFSStorage} {b : Block} : s.allTx b = .panic ↔ s.Stumbles b :=
  allTxFrom_eq_panic s.getSet_ne_panic fun _ _ => mem_keys_of_getSet

theorem allTx_eq_ok_iff (s : IPFSStorage) (b : Block) :
    (∃ txs, s.allTx b = .ok txs) ↔ AllReadable s.getSet s.getTx b.txRoot :=
  (answers_allTxFrom fun _ _ => mem_keys_of_getSet).ok_iff

theorem stumbles_congr {s s' : IPFSStorage} (h : s'.objects = s.objects) :
    s'.Stumbles = s.Stumbles := by
  funext b
  rw [← propext allTx_eq_panic, ← propext allTx_eq_panic, allTx_congr h]

end IPFSStorage

/-- **On any stored graph `AllTx` ends, succeeds exactly if all below the root can be read and is
not too much, and returns exactly what the reachable sets name. It ends by returning exactly if it
does not stumble over a transaction without a payload.** -/
theorem allTx_answers (b : Block) :
    (∀ m : MemStore, Answers m.getSet m.getTx m.objects.keys b.txRoot (m.allTx b) ∧
      (m.allTx b ≠ .panic ↔ ¬ m.Stumbles b)) ∧
    ∀ s : IPFSStorage, Answers s.getSet s.getTx s.objects.keys b.txRoot (s.allTx b) ∧
      (s.allTx b ≠ .panic ↔ ¬ s.Stumbles b) := by
  constructor
  · intro m
    exact ⟨answers_allTxFrom fun _ _ => MemStore.mem_keys_of_getSet,
      not_congr MemStore.allTx_eq_panic⟩
  · intro s
    exact ⟨answers_allTxFrom fun _ _ => IPFSStorage.mem_keys_of_getSet,
      not_congr IPFSStorage.allTx_eq_panic⟩

section

open Storage.Sample

/-- A DID transaction without a payload. -/
def hollowTx : Tx := { didTx 1 .add "did:a:b" [] with data := none }

/-- A set names it, and neither store gets over it. -/
theorem allTx_panics :
    (putBlockOf 1 hollowTx {}).allTx (blockOf 1 hollowTx) = .panic ∧
      ({ objects := (putBlockOf 1 hollowTx {}).objects } : IPFSStorage).allTx
        (blockOf 1 hollowTx) = .panic := by
  decide +kernel

end
end Didem.Storage
