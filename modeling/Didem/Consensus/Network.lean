import Didem.Consensus.Node
import Didem.Storage.MemStore

/-!
# Registered nodes and the network

A run of one node is a run of its step function. A run of the network is a run of all of them, one
at a time, in which a node takes in only what the others sent: signatures cannot be forged, so a
consensus message that names a sender was sent by it. Beyond that anything may happen. Messages are
lost, delayed, reordered and repeated, ticks and timeouts come at any time, and so does content.
-/

set_option autoImplicit false

namespace Didem

open Lib Storage

section

variable {S : Type} [Store S]

/-- The nodes registered in a store: the ones it lists, and the only ones it knows. -/
def Registered (reg : Finset String) (s : S) : Prop :=
  (∃ nodes, Store.nodes s = .ok nodes ∧ nodes.Nodup ∧ nodes.toFinset = reg) ∧
    ∀ id n, Store.node s id = .ok n → id ∈ reg

end

/-- In a `MemStore` these are the keys of its index. -/
theorem registered_memStore [Hash] (m : MemStore) : Registered m.nodes.keys m := by
  refine ⟨⟨sortedList m.nodes.keys, rfl, nodup_sortedList _, ?_⟩, ?_⟩
  · ext id
    rw [List.mem_toFinset, mem_sortedList]
  · intro id n hn
    rw [Finmap.mem_keys, ← Finmap.lookup_isSome]
    cases hl : m.nodes.lookup id with
    | some c => rfl
    | none =>
      have hnode : m.node id = .ok n := hn
      simp [MemStore.node, hl] at hnode

namespace Consensus

variable {S M : Type} [Store S] [CryptoLib] [SigLib]

/-! ## What reaches a handler -/

/-- A message that passes the checks of `onMsg` names a node the store knows. -/
theorem onMsg_eq_ok {c : Consensus S M} {msg : Msg} {k : Call}
    (h : c.onMsg msg = .ok (some k)) :
    (∃ n, Store.node c.store msg.sender = .ok n) ∧
      (msg.type = .consensus ∧ onConsensusMsg msg msg.sender = .ok (some k) ∨ k = .tx msg.tx) := by
  unfold onMsg at h
  split at h
  · exact absurd h (by simp)
  · obtain ⟨n, hn, h⟩ := Outcome.bind_eq_ok.mp h
    obtain ⟨signData, -, h⟩ := Outcome.bind_eq_ok.mp h
    refine ⟨⟨n, hn⟩, ?_⟩
    split at h
    · exact absurd h (by simp)
    · split at h
      · exact absurd h (by simp)
      · split at h
        · split at h
          · next htype => exact .inl ⟨htype, h⟩
          · exact .inr (by simpa using h.symm)
          · exact absurd h (by simp)
          · exact absurd h (by simp)
        · exact absurd h (by simp)

/-- A vote is handled as the message it came in, under the sender it names. -/
theorem vote_of_onMsg {c : Consensus S M} {msg m : Msg} {sender : String}
    (h : c.onMsg msg = .ok (some (.vote m sender))) :
    m = msg ∧ sender = msg.sender ∧ msg.type = .consensus ∧
      ∃ n, Store.node c.store msg.sender = .ok n := by
  obtain ⟨hnode, ⟨htype, hcall⟩ | hcall⟩ := onMsg_eq_ok h
  · unfold onConsensusMsg at hcall
    split at hcall
    · exact absurd hcall (by simp)
    · split at hcall
      case h_3 =>
        simp only [Outcome.ok.injEq, Option.some.injEq, Call.vote.injEq] at hcall
        exact ⟨hcall.1.symm, hcall.2.symm, htype, hnode⟩
      all_goals exact absurd hcall (by simp)
  · exact absurd hcall (by simp)

/-- An announcement is handled under the sender it names. -/
theorem block_of_onMsg {c : Consensus S M} {msg : Msg} {b : ConsensusMsgBlock} {sender : String}
    (h : c.onMsg msg = .ok (some (.block (some b) sender))) :
    sender = msg.sender ∧ msg.type = .consensus ∧ msg.announcement? = some b := by
  obtain ⟨-, ⟨htype, hcall⟩ | hcall⟩ := onMsg_eq_ok h
  · unfold onConsensusMsg at hcall
    split at hcall
    · exact absurd hcall (by simp)
    · next hbody =>
      split at hcall
      case h_4 =>
        simp only [Outcome.ok.injEq, Option.some.injEq, Call.block.injEq] at hcall
        exact ⟨hcall.2.symm, htype, by simp [Msg.announcement?, hbody, hcall.1]⟩
      all_goals exact absurd hcall (by simp)
  · exact absurd hcall (by simp)

/-- What is not a node's own doing came in a message. -/
theorem onMsg_of_calls {c : Consensus S M} {input : Input S} {k : Call} (hown : input.isOwn = true)
    (hcall : c.calls input = some k) (hlocal : k.isLocal = false) :
    ∃ msg, input = .recv msg ∧ c.onMsg msg = .ok (some k) := by
  cases input with
  | call k' =>
    obtain rfl : k' = k := Option.some.inj hcall
    exact absurd (hlocal.symm.trans hown) Bool.false_ne_true
  | store s => exact absurd hcall (by simp [calls])
  | recv msg =>
    refine ⟨msg, rfl, ?_⟩
    simp only [calls] at hcall
    split at hcall
    · next k' hk => rw [hk, hcall]
    · exact absurd hcall (by simp)

/-! ## Runs of one node -/

/-- The input comes over the network or is the node's own, and the registered nodes are these. -/
def Networked (reg : Finset String) (c : Consensus S M) (i : Env × Input S) : Prop :=
  Registered reg c.store ∧ i.2.isOwn = true

/-- The same over a `MemStore`, as a check. -/
def NetworkedMem (reg : Finset String) (c : Consensus MemStore M) (i : Env × Input MemStore) :
    Prop :=
  c.store.nodes.keys = reg ∧ i.2.isOwn = true

instance (reg : Finset String) (c : Consensus MemStore M) (i : Env × Input MemStore) :
    Decidable (NetworkedMem reg c i) := inferInstanceAs (Decidable (_ ∧ _))

omit [CryptoLib] [SigLib] in
theorem NetworkedMem.networked [Hash] {reg : Finset String} {c : Consensus MemStore M}
    {i : Env × Input MemStore} (h : NetworkedMem reg c i) : Networked reg c i :=
  ⟨h.1 ▸ registered_memStore c.store, h.2⟩

/-- So a vote that is handled is one a registered node is named for. -/
theorem registered_of_networked {reg : Finset String} {c : Consensus S M} {i : Env × Input S}
    (h : Networked reg c i) {msg : Msg} {sender : String}
    (hcall : c.calls i.2 = some (.vote msg sender)) : sender = msg.sender ∧ msg.sender ∈ reg := by
  obtain ⟨m, -, hm⟩ := onMsg_of_calls h.2 hcall rfl
  obtain ⟨rfl, hsender, -, n, hn⟩ := vote_of_onMsg hm
  exact ⟨hsender, h.1.2 _ n hn⟩

end Consensus

/-! ## Runs of the network -/

/-- Every node that takes part, by its name. -/
abbrev World (S M : Type) := String → Consensus S M

namespace World

variable {S M : Type}

/-- Every node as `NewConsensus` returns it. -/
def boot (chain : Bytes) (signingKeys : String → Option Bytes) (memPools : String → M)
    (stores : String → S) (lastApplied : String → Option Block) : World S M :=
  fun id => .boot chain id (signingKeys id) (memPools id) (stores id) (lastApplied id)

/-- What can happen next: a consensus message is from another node, which sent it; the transport
fills in the key. -/
def Delivers (w : World S M) (i : String × Env × Input S) : Prop :=
  match i.2.2 with
  | .call k => k.isLocal = true
  | .recv msg => msg.type = .consensus →
    msg.sender ≠ i.1 ∧ .sent (msg.withKey none) ∈ (w msg.sender).trace
  | .store _ => True

instance (w : World S M) : (i : String × Env × Input S) → Decidable (w.Delivers i)
  | (_, _, .call k) => inferInstanceAs (Decidable (k.isLocal = true))
  | (id, _, .recv msg) => inferInstanceAs (Decidable (msg.type = .consensus →
      msg.sender ≠ id ∧ .sent (msg.withKey none) ∈ (w msg.sender).trace))
  | (_, _, .store _) => inferInstanceAs (Decidable True)

theorem Delivers.isOwn {w : World S M} {i : String × Env × Input S} (h : w.Delivers i) :
    i.2.2.isOwn = true := by
  obtain ⟨id, ω, input⟩ := i
  cases input with
  | call k => exact h
  | recv msg => rfl
  | store s => rfl

variable [Store S] [Validator S] [MemPool M] [CryptoLib] [CidText] [SigLib]

def step (w : World S M) (i : String × Env × Input S) : World S M :=
  Function.update w i.1 ((w i.1).step i.2)

end World
end Didem
