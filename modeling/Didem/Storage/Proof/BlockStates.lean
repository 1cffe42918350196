import Didem.Lib.Run
import Didem.Storage.Proof.Content
import Didem.Storage.Proof.Indexed
import Didem.Storage.Proof.MapOrder

/-!
# The recorded state of a block

Both stores record for every block whether it is unvalidated, validated or accepted, and index the
transactions of a block when it goes from the second to the third. The states are meant to be passed
through in this order and once.

What the calls do to the record does not depend on the store (`Records`): a validation resets its
block to unvalidated *before it has looked at anything*, a mark writes what it is asked to write.
So **the record moves forward in exactly the runs in which no call is made too late**
(`onlyForward_iff`): a block that is validated has no state yet, and a block that is marked
validated has not been accepted. The engine makes no such check. A proposal may name any block, an
accepted one included.

On a `MemStore` the blocks that come out of the store have no identifier, so what the engine and
`ApplyFromTip` reset is the state of `Undef`; there it is `ApplyFromTip` itself that accepts the
block without an identifier and resets it when it is called again.
-/

set_option autoImplicit false

namespace Didem.Storage

open Lib

/-- The place of a state in the order. -/
def BlockState.rank : BlockState → Nat
  | .unvalidated => 0
  | .validated => 1
  | .accepted => 2

/-- A call that has to do with the state of a block. -/
inductive BlockCall where
  | validate (ω : Runtime) (b : Block) (isNewBlock : Bool)
  | markValidated (ω : Runtime) (id : BlockID)
  | accept (ω : Runtime) (id : BlockID)

namespace BlockCall

/-- The store a call leaves, however it ends. -/
def run {S : Type} [Store S] [SigLib] (s : S) : BlockCall → S
  | .validate ω b isNewBlock => (isBlockValid ω b isNewBlock s).2
  | .markValidated ω id => (Store.markBlock ω id .validated s).2
  | .accept ω id => (Store.markBlock ω id .accepted s).2

/-! ## The record by itself -/

/-- What a call does to the recorded states. -/
def record (st : BlockID → BlockState) : BlockCall → BlockID → BlockState
  | .validate _ b _ => Function.update st b.id .unvalidated
  | .markValidated _ id => Function.update st id .validated
  | .accept _ id => Function.update st id .accepted

/-- The call is not too late: what it writes has not been passed yet. -/
def InTime (st : BlockID → BlockState) : BlockCall → Prop
  | .validate _ b _ => st b.id = .unvalidated
  | .markValidated _ id => st id ≠ .accepted
  | .accept _ _ => True

/-- The states move forward exactly on calls in time. -/
theorem forall_rank_le_record {st : BlockID → BlockState} {c : BlockCall} :
    (∀ id, (st id).rank ≤ (c.record st id).rank) ↔ c.InTime st := by
  -- only the entry that is written matters
  have hupdate : ∀ (id : BlockID) (new : BlockState),
      (∀ i, (st i).rank ≤ (Function.update st id new i).rank) ↔ (st id).rank ≤ new.rank := by
    intro id new
    constructor
    · intro h
      simpa using h id
    · intro h i
      by_cases hi : i = id
      · rw [hi, Function.update_self]
        exact h
      · rw [Function.update_of_ne hi]
  cases c with
  | validate ω b isNewBlock =>
    rw [record, hupdate, InTime]
    cases st b.id <;> simp [BlockState.rank]
  | markValidated ω id =>
    rw [record, hupdate, InTime]
    cases st id <;> simp [BlockState.rank]
  | accept ω id =>
    rw [record, hupdate, InTime]
    cases st id <;> simp [BlockState.rank]

end BlockCall

/-! ## Stores that keep it -/

section

variable {S : Type} [Store S] [SigLib]

/-- **What a store does with the calls**: it keeps the record, and its indexes change only when a
validated block is accepted. -/
structure Records (stateOf : S → BlockID → BlockState) (SameIndex : S → S → Prop) : Prop where
  stateOf_run : ∀ (s : S) (c : BlockCall), stateOf (c.run s) = c.record (stateOf s)
  sameIndex_run : ∀ (s : S) (c : BlockCall),
    (∀ ω id, c = .accept ω id → stateOf s id ≠ .validated) → SameIndex s (c.run s)

/-- **In a run of calls the states only move forward**: no later state of the run has less to say of
a block than an earlier one, and once a block is accepted no call but the acceptance of another one
changes the indexes. -/
structure OnlyForward (stateOf : S → BlockID → BlockState) (SameIndex : S → S → Prop) (s : S)
    (cs : List BlockCall) : Prop where
  forward : ∀ cs₁ cs₂ cs₃, cs = cs₁ ++ cs₂ ++ cs₃ → ∀ id,
    (stateOf (cs₁.foldl BlockCall.run s) id).rank ≤
      (stateOf ((cs₁ ++ cs₂).foldl BlockCall.run s) id).rank
  once : ∀ cs₁ cs₂ c cs₃ id, cs = cs₁ ++ cs₂ ++ c :: cs₃ →
    stateOf (cs₁.foldl BlockCall.run s) id = .accepted →
    (∀ ω id', c = .accept ω id' → id' = id) →
    SameIndex ((cs₁ ++ cs₂).foldl BlockCall.run s) (c.run ((cs₁ ++ cs₂).foldl BlockCall.run s))

variable {stateOf : S → BlockID → BlockState} {SameIndex : S → S → Prop}

/-- Along calls in time, a block is never further back than it was. -/
theorem Records.rank_le_foldl (hrec : Records stateOf SameIndex) {s : S} {cs : List BlockCall}
    (h : Along BlockCall.run (fun s c => c.InTime (stateOf s)) s cs) (id : BlockID) :
    (stateOf s id).rank ≤ (stateOf (cs.foldl BlockCall.run s) id).rank := by
  refine Along.invariant (P := fun s' => (stateOf s id).rank ≤ (stateOf s' id).rank) ?_ le_rfl h
  intro s' c hs' hc
  have hstep := BlockCall.forall_rank_le_record.mpr hc id
  rw [← hrec.stateOf_run] at hstep
  exact hs'.trans hstep

/-- **A run moves forward exactly when none of its calls is too late.** -/
theorem Records.onlyForward_iff (hrec : Records stateOf SameIndex) {s : S} {cs : List BlockCall} :
    OnlyForward stateOf SameIndex s cs ↔
      Along BlockCall.run (fun s c => c.InTime (stateOf s)) s cs := by
  constructor
  · intro h
    refine Along.of_forall_split ?_
    rintro cs₁ c cs₂ rfl
    refine BlockCall.forall_rank_le_record.mp fun id => ?_
    have hstep := h.forward cs₁ [c] cs₂ (by simp) id
    rw [List.foldl_concat, hrec.stateOf_run] at hstep
    exact hstep
  · intro h
    have hforward : ∀ cs₁ cs₂ cs₃, cs = cs₁ ++ cs₂ ++ cs₃ → ∀ id,
        (stateOf (cs₁.foldl BlockCall.run s) id).rank ≤
          (stateOf ((cs₁ ++ cs₂).foldl BlockCall.run s) id).rank := by
      rintro cs₁ cs₂ cs₃ rfl id
      rw [List.foldl_append]
      exact hrec.rank_le_foldl (Along.append.mp (Along.append.mp h).1).2 id
    refine ⟨hforward, ?_⟩
    intro cs₁ cs₂ c cs₃ id hcs haccepted hc
    -- still accepted when the call comes, so its acceptance is not one from validated
    have hrank := hforward cs₁ cs₂ (c :: cs₃) hcs id
    refine hrec.sameIndex_run _ c ?_
    intro ω id' hcall hvalidated
    rw [hc ω id' hcall] at hvalidated
    rw [haccepted, hvalidated] at hrank
    exact absurd hrank (by decide)

end

/-! ## `MemStore` -/

namespace MemStore

/-- A mark records the state of its block and of no other. -/
theorem stateOf_markBlock (ω : Runtime) (b : BlockID) (st : BlockState) (m : MemStore) :
    (m.markBlock ω b st).2.stateOf = Function.update m.stateOf b st := by
  obtain ⟨txbIndex, dids, nodes, h⟩ := markBlock_writes ω b st m
  funext id
  rw [h, stateOf]
  by_cases hid : id = b
  · rw [hid, Finmap.lookup_insert, Function.update_self]
    rfl
  · rw [Finmap.lookup_insert_of_ne _ hid, Function.update_of_ne hid]
    rfl

theorem stateOf_unmarked (b : BlockID) (m : MemStore) :
    (m.unmarked b).stateOf = Function.update m.stateOf b .unvalidated := by
  funext id
  by_cases hid : id = b
  · rw [hid, Function.update_self]
    simp [stateOf, unmarked]
  · rw [Function.update_of_ne hid]
    simp [stateOf, unmarked, Finmap.lookup_insert_of_ne _ hid]

theorem records [Hash] [SigLib] : Records MemStore.stateOf MemStore.SameIndex where
  stateOf_run m c := by
    cases c with
    | validate ω b isNewBlock =>
      rw [BlockCall.run, snd_isBlockValid]
      exact stateOf_unmarked b.id m
    | markValidated ω id => exact stateOf_markBlock ω id .validated m
    | accept ω id => exact stateOf_markBlock ω id .accepted m
  sameIndex_run m c h := by
    cases c with
    | validate ω b isNewBlock =>
      rw [BlockCall.run, snd_isBlockValid]
      exact ⟨rfl, rfl, rfl⟩
    | markValidated ω id =>
      rw [BlockCall.run, markBlock_validated]
      exact ⟨rfl, rfl, rfl⟩
    | accept ω id =>
      have hmark : m.markBlock ω id .accepted =
          (.ok (), { m with bState := m.bState.insert id .accepted }) :=
        markBlock_of_not_indexing ω (fun hindexing => h ω id rfl hindexing.1)
      rw [BlockCall.run, show Store.markBlock ω id .accepted m = _ from hmark]
      exact ⟨rfl, rfl, rfl⟩

end MemStore

/-! ## `IPFSStorage` -/

namespace IPFSStorage

/-- The indexes are the same, the DID history included. -/
def SameEntries (s s' : IPFSStorage) : Prop :=
  ∀ key : Bytes, key.head? ≠ some MetadataKeyType.blockState.byte →
    s.view.lookup key = s'.view.lookup key

variable [CidText]

/-- Marks other than the acceptance of a validated block leave the indexes alone. -/
theorem sameEntries_markBlock {ω : Runtime} {b : BlockID} {st : BlockState} {s : IPFSStorage}
    (h : st = .accepted → s.stateOf b ≠ .validated) : SameEntries s (s.markBlock ω b st).2 := by
  intro key hkey
  obtain ⟨ws, hws, hview⟩ := view_markBlock ω b st s
  have hnil : ws = [] := List.eq_nil_iff_forall_not_mem.mpr fun w hw =>
    h (hws w hw).1.2 (hws w hw).1.1
  rw [hview, hnil, Write.applyAll_nil, Finmap.lookup_insert_of_ne]
  rintro rfl
  exact hkey (head_typedKey .blockState _)

variable [Hash] [SigLib]

/-- A validation marks its block unvalidated, and has no other effect on the store. -/
theorem snd_isBlockValid (ω : Runtime) (b : Block) (isNewBlock : Bool) (s : IPFSStorage) :
    (isBlockValid ω b isNewBlock s).2 = (s.markBlock ω b.id .unvalidated).2 := by
  rw [isBlockValid_eq, markBlock_of_not_indexing ω (by simp)]

theorem records : Records IPFSStorage.stateOf IPFSStorage.SameEntries where
  stateOf_run s c := by
    cases c with
    | validate ω b isNewBlock =>
      rw [BlockCall.run, snd_isBlockValid]
      exact stateOf_markBlock ω b.id .unvalidated s
    | markValidated ω id => exact stateOf_markBlock ω id .validated s
    | accept ω id => exact stateOf_markBlock ω id .accepted s
  sameIndex_run s c h := by
    cases c with
    | validate ω b isNewBlock =>
      rw [BlockCall.run, snd_isBlockValid]
      exact sameEntries_markBlock (by simp)
    | markValidated ω id => exact sameEntries_markBlock (by simp)
    | accept ω id => exact sameEntries_markBlock fun _ => h ω id rfl

end IPFSStorage

/-! ## Both stores -/

/-- **The recorded states move forward in exactly the runs in which every validation is of a block
without a state and no accepted block is marked validated.** -/
theorem onlyForward_iff_inTime [CidText] [Hash] [SigLib] (cs : List BlockCall) :
    (∀ m : MemStore, OnlyForward MemStore.stateOf MemStore.SameIndex m cs ↔
      Along BlockCall.run (fun m c => c.InTime (MemStore.stateOf m)) m cs) ∧
    ∀ s : IPFSStorage, OnlyForward IPFSStorage.stateOf IPFSStorage.SameEntries s cs ↔
      Along BlockCall.run (fun s c => c.InTime (IPFSStorage.stateOf s)) s cs :=
  ⟨fun _ => MemStore.records.onlyForward_iff, fun _ => IPFSStorage.records.onlyForward_iff⟩

section

open Storage.Sample

/-- An `IPFSStorage` with a block of one transaction, and the block as it comes out of it. -/
def oneBlock : IPFSStorage := { objects := (putBlockOf 1 (vcTx 1) {}).objects }

def theBlock : Block := { blockOf 1 (vcTx 1) with id := blockId 1 (vcTx 1) }

/-- Validated once and then accepted. -/
theorem oneBlock_onlyForward :
    OnlyForward IPFSStorage.stateOf IPFSStorage.SameEntries oneBlock
      [.validate runtime theBlock true, .accept runtime theBlock.id] :=
  ((onlyForward_iff_inTime _).2 oneBlock).mpr
    ⟨(by decide : oneBlock.stateOf theBlock.id = .unvalidated), trivial, trivial⟩

/-- A `MemStore` with two blocks, the first of which is the last applied. -/
def twoBlocks : MemStore :=
  ((putBlockOf 2 (vcTx 2) (putBlockOf 1 (vcTx 1) {})).updateLastApplied (blockId 1 (vcTx 1))).2

/-- **Validated again, an accepted block is unvalidated.** On an `IPFSStorage` a proposal that names
the block is enough. On a `MemStore` `ApplyFromTip` leaves the block it takes from the store, which
has no identifier, accepted, and resets it when it is called again. -/
theorem accepted_block_reset :
    (Store.getBlock oneBlock theBlock.id = .ok theBlock ∧
      (BlockCall.run oneBlock (.accept runtime theBlock.id)).stateOf theBlock.id = .accepted ∧
      ¬ OnlyForward IPFSStorage.stateOf IPFSStorage.SameEntries oneBlock
        [.accept runtime theBlock.id, .validate runtime theBlock true]) ∧
    (applyFromTip (fun _ => runtime) 1 (blockId 2 (vcTx 2)) twoBlocks).map
        (fun r => (r.1, r.2.1.stateOf .undef, r.2.2)) =
      some (.ok (), .accepted, [.validate .undef, .accept .undef]) ∧
    Store.getBlock twoBlocks (blockId 2 (vcTx 2)) = .ok (blockOf 2 (vcTx 2)) ∧
    ¬ OnlyForward MemStore.stateOf MemStore.SameIndex twoBlocks
      [.validate runtime (blockOf 2 (vcTx 2)) true, .accept runtime .undef,
        .validate runtime (blockOf 2 (vcTx 2)) true] := by
  refine ⟨⟨by decide, by decide, fun h => ?_⟩, by decide, by decide, fun h => ?_⟩
  · exact absurd (h.forward [_] [_] [] rfl theBlock.id) (by decide)
  · exact absurd (h.forward [_, _] [_] [] rfl .undef) (by decide)

end
end Didem.Storage
