import Didem.Consensus.Network
import Didem.Consensus.Proof.Simulation
import Didem.Consensus.Sample

/-!
# The two readings of a node's key

A node is registered with the bytes of a key. `onMsg` takes them for multibase text and what that
encodes for a curve point; `sendBlock` takes them for the point. **No bytes are both**, so the keys
under which precommits are accepted are keys `sendBlock` cannot read: it fails in every state whose
precommits were collected under the keys that are registered there.
-/

set_option autoImplicit false

namespace Didem

open Lib Storage

namespace Consensus

section

variable [SigLib]

/-- The key `onMsg` verifies a signature with. -/
def onMsgKey (key : Bytes) : Option Bytes :=
  (SigLib.multibaseDecode key).bind SigLib.blsPublicKey

/-- The key `sendBlock` adds to the aggregate. -/
def sendBlockKey (key : Bytes) : Option Bytes := SigLib.blsPublicKey key

/-- A multibase text is not itself the encoding of a point. -/
def TextIsNoPoint : Prop :=
  ∀ key raw, SigLib.multibaseDecode key = some raw → SigLib.blsPublicKey key = none

theorem sendBlockKey_of_onMsgKey (hlib : TextIsNoPoint) {key pk : Bytes}
    (h : onMsgKey key = some pk) : sendBlockKey key = none := by
  obtain ⟨raw, hraw, -⟩ := Option.bind_eq_some_iff.mp h
  exact hlib key raw hraw

/-- What `sendBlock` fails with at a key it cannot read. -/
def keyError : Err := .wrap (.new "bls12-381 point") "unmarshalling node key"

variable {S M : Type} [Store S]

/-- **The loop of `sendBlock`** gets through exactly if it can read every key. -/
theorem collectVotes_cases {s : S} {l : List (Sigma fun _ : String => Msg)}
    (hreg : ∀ e ∈ l, ∃ n, Store.node s e.1 = .ok n) :
    ((∃ r, collectVotes s l = .ok r) ∧
      ∀ e ∈ l, ∀ n, Store.node s e.1 = .ok n → sendBlockKey n.key ≠ none) ∨
    collectVotes s l = .err keyError ∧
      ∃ e ∈ l, ∃ n, Store.node s e.1 = .ok n ∧ sendBlockKey n.key = none := by
  induction l with
  | nil => exact .inl ⟨⟨_, rfl⟩, fun e he => absurd he List.not_mem_nil⟩
  | cons e l ih =>
    obtain ⟨p, vote⟩ := e
    obtain ⟨n, hn⟩ := hreg _ List.mem_cons_self
    cases hkey : SigLib.blsPublicKey n.key with
    | none =>
      refine .inr ⟨?_, _, List.mem_cons_self, n, hn, hkey⟩
      simp [collectVotes, hn, hkey, Outcome.mapErr, keyError]
    | some pk =>
      rcases ih fun e he => hreg e (List.mem_cons_of_mem _ he) with ⟨⟨r, hr⟩, hall⟩ | ⟨hr, hsome⟩
      · refine .inl ⟨⟨(pk :: r.1, vote.signature :: r.2), ?_⟩, ?_⟩
        · simp [collectVotes, hn, hkey, hr, Outcome.mapErr]
        · intro e he n' hn'
          rcases List.mem_cons.mp he with rfl | he
          · obtain rfl := Outcome.ok.inj (hn.symm.trans hn')
            exact fun hnone => absurd (hkey.symm.trans hnone) (by simp)
          · exact hall e he n' hn'
      · obtain ⟨e, he, hbad⟩ := hsome
        refine .inr ⟨?_, e, List.mem_cons_of_mem _ he, hbad⟩
        simp [collectVotes, hn, hkey, hr, Outcome.mapErr]

end

section

variable {S M : Type} [Store S] [SigLib] [CidText] [CryptoLib]

/-- The precommits as `sendBlock` goes through them. -/
def precommits (c : Consensus S M) : List (Sigma fun _ : String => Msg) :=
  (c.propsalState.preCommits.map AList.entries).getD []

/-- `sendBlock` gets past the loop over the voters. -/
def ReadsVoters (c : Consensus S M) : Prop := ∃ r, collectVotes c.store c.precommits = .ok r

omit [SigLib] [CidText] [CryptoLib] in
/-- Every voter is still registered. -/
def VotersRegistered (c : Consensus S M) : Prop :=
  ∀ e ∈ c.precommits, ∃ n, Store.node c.store e.1 = .ok n

/-- `sendBlock` returns the error of its loop, having done nothing. -/
theorem run_sendBlock_of_err (ω : Env) {c : Consensus S M} {e : Err}
    (h : collectVotes c.store c.precommits = .err e) : (sendBlock ω).run c = (.err e, c) := by
  simp only [sendBlock, Proc.run_bind, Proc.run_get, Proc.run_lift]
  rw [show collectVotes c.store ((c.propsalState.preCommits.map AList.entries).getD []) = _ from h]

/-! ## What the precommits were accepted under -/

variable [Validator S] [MemPool M]

/-- The keys that are registered are these. -/
def Registers (keys : String → Bytes) (s : S) : Prop :=
  ∀ p n, Store.node s p = .ok n → n.key = keys p

/-- Every precommit held is of a node whose key `onMsg` can read. -/
def Accepted (keys : String → Bytes) (k : Core) : Prop :=
  ∀ book, k.propsalState.preCommits = some book → ∀ p ∈ book, (onMsgKey (keys p)).isSome

omit [CidText] [MemPool M] [Validator S] in
/-- A message that `onMsg` hands on was sent by a node whose key it could read. -/
theorem onMsgKey_of_onMsg {keys : String → Bytes} {c : Consensus S M}
    (hreg : Registers keys c.store) {msg : Msg} {call : Call}
    (h : c.onMsg msg = .ok (some call)) : (onMsgKey (keys msg.sender)).isSome := by
  unfold onMsg at h
  split at h
  · cases h
  · obtain ⟨n, hn, h⟩ := Outcome.bind_eq_ok.mp h
    obtain ⟨signData, -, h⟩ := Outcome.bind_eq_ok.mp h
    rw [← hreg _ n hn, onMsgKey]
    cases hraw : SigLib.multibaseDecode n.key with
    | none => simp [hraw] at h
    | some raw =>
      cases hpk : SigLib.blsPublicKey raw with
      | none => simp [hraw, hpk] at h
      | some pk => simp [hpk]

omit [Validator S] [MemPool M] [Store S] [CryptoLib] [CidText] in
theorem Accepted.apply {keys : String → Bytes} {k : Core} {call : Call} {move : Move}
    (h : Accepted keys k)
    (hcall : ∀ msg sender, call = .vote msg sender → (onMsgKey (keys msg.sender)).isSome)
    (hof : move.Of call) : Accepted keys (k.apply move) := by
  intro book hbook p hp
  rcases k.preCommits_apply move with hsame | hempty | ⟨msg, sender, told, rfl⟩
  · exact h book (hsame.symm.trans hbook) p hp
  · obtain rfl := Option.some.inj (hempty.symm.trans hbook)
    exact absurd hp (AList.notMem_empty p)
  · rw [Core.preCommits_apply_preCommit] at hbook
    obtain rfl := Option.some.inj hbook
    rcases (AList.mem_insert _).mp hp with rfl | hold
    · exact hcall msg sender hof
    · cases hbook : k.propsalState.preCommits with
      | none => simp [hbook] at hold
      | some old => exact h old hbook p (by simpa [hbook] using hold)

/-- **One step**: what it enters it has verified. -/
theorem Accepted.step {keys : String → Bytes} {c : Consensus S M} {i : Env × Input S}
    (h : Accepted keys c.core) (hown : i.2.isOwn = true) (hreg : Registers keys c.store) :
    Accepted keys (c.step i).core := by
  refine step_invariant (I := Accepted keys)
    (G := fun _ call => ∀ msg sender, call = .vote msg sender →
      (onMsgKey (keys msg.sender)).isSome)
    (fun k call move hk hcall _ hof => hk.apply hcall hof) c i h ?_
  intro call hcall msg sender hvote
  subst hvote
  -- a vote from the network, which `onMsg` has let through
  obtain ⟨m, -, hmsg⟩ := onMsg_of_calls hown hcall rfl
  obtain ⟨rfl, -⟩ := vote_of_onMsg hmsg
  exact onMsgKey_of_onMsg hreg hmsg

/-- A run of a node's own inputs under these keys. -/
def UnderKeys (keys : String → Bytes) (c : Consensus S M) (is : List (Env × Input S)) : Prop :=
  Along step (fun c i => i.2.isOwn = true ∧ Registers keys c.store) c is

theorem accepted_of_run {keys : String → Bytes} {c : Consensus S M} {is : List (Env × Input S)}
    (hempty : votes c.propsalState.preCommits = 0) (h : UnderKeys keys c is) :
    Accepted keys (is.foldl step c).core := by
  refine Along.invariant (P := fun c : Consensus S M => Accepted keys c.core)
    (fun c i hc hi => hc.step hi.1 hi.2) ?_ h
  intro book hbook p hp
  have hbook : c.propsalState.preCommits = some book := hbook
  rw [hbook] at hempty
  have hnil : book.keys = [] := List.length_eq_zero_iff.mp hempty
  rw [AList.mem_keys, hnil] at hp
  exact absurd hp List.not_mem_nil

/-! ## The two readings -/

omit [CidText] [CryptoLib] [Validator S] [MemPool M] in
theorem readsVoters_iff {c : Consensus S M} (hreg : c.VotersRegistered) :
    c.ReadsVoters ↔ ∀ e ∈ c.precommits, ∀ n, Store.node c.store e.1 = .ok n →
      sendBlockKey n.key ≠ none := by
  rcases collectVotes_cases hreg with ⟨hok, hall⟩ | ⟨herr, e, he, n, hn, hbad⟩
  · exact ⟨fun _ => hall, fun _ => hok⟩
  · constructor
    · rintro ⟨r, hr⟩
      rw [herr] at hr
      cases hr
    · intro hall
      exact absurd hbad (hall e he n hn)

omit [Validator S] [MemPool M] in
theorem run_sendBlock_of_not_readsVoters (ω : Env) {c : Consensus S M} (hreg : c.VotersRegistered)
    (h : ¬ c.ReadsVoters) : (sendBlock ω).run c = (.err keyError, c) := by
  rcases collectVotes_cases hreg with ⟨hok, -⟩ | ⟨herr, -⟩
  · exact absurd hok h
  · exact run_sendBlock_of_err ω herr

/-- **The two readings agree on no key a vote can be accepted under.** Of one key, they agree
exactly if `onMsg` cannot read it. In a state whose voters are registered, `sendBlock` gets past the
keys exactly if each of them is the encoding of a point, and otherwise returns the error of the
first that is not. And so, as long as nobody's key changes, it returns that error in every state a
node reaches with precommits above the threshold. -/
theorem keys_read_alike_iff (hlib : TextIsNoPoint) :
    (∀ key : Bytes, (∀ pk, onMsgKey key = some pk → sendBlockKey key = some pk) ↔
      onMsgKey key = none) ∧
    (∀ (ω : Env) (c : Consensus S M), c.VotersRegistered →
      (c.ReadsVoters ↔ ∀ e ∈ c.precommits, ∀ n, Store.node c.store e.1 = .ok n →
        sendBlockKey n.key ≠ none) ∧
      (¬ c.ReadsVoters → (sendBlock ω).run c = (.err keyError, c))) ∧
    ∀ (ω : Env) (keys : String → Bytes) (chain : Bytes) (id : String) (signingKey : Option Bytes)
      (memPool : M) (store : S) (lastApplied : Option Block) (is : List (Env × Input S)),
      let c₀ := boot chain id signingKey memPool store lastApplied
      let c := is.foldl step c₀
      UnderKeys keys c₀ is → Registers keys c.store → c.VotersRegistered →
      c.propsalState.f < votes c.propsalState.preCommits →
      (sendBlock ω).run c = (.err keyError, c) := by
  refine ⟨fun key => ⟨fun h => ?_, fun h pk hpk => ?_⟩, fun ω c hreg => ?_, ?_⟩
  · by_contra hsome
    obtain ⟨pk, hpk⟩ := Option.ne_none_iff_exists'.mp hsome
    exact absurd ((h pk hpk).symm.trans (sendBlockKey_of_onMsgKey hlib hpk)) (by simp)
  · exact absurd (h.symm.trans hpk) (by simp)
  · exact ⟨readsVoters_iff hreg, run_sendBlock_of_not_readsVoters ω hreg⟩
  · intro ω keys chain id signingKey memPool store lastApplied is c₀ c hrun hkeys hreg hvotes
    have haccepted : Accepted keys c.core := accepted_of_run rfl hrun
    refine run_sendBlock_of_not_readsVoters ω hreg fun hreads => ?_
    -- there is a voter, and its key was read by `onMsg`
    cases hbook : c.propsalState.preCommits with
    | none =>
      rw [hbook] at hvotes
      exact absurd hvotes (Nat.not_lt_zero _)
    | some book =>
      rw [hbook] at hvotes
      have hlen : 0 < book.entries.length := by
        have : book.keys.length = book.entries.length := List.length_map _
        exact this ▸ Nat.lt_of_le_of_lt (Nat.zero_le _) hvotes
      obtain ⟨e, he⟩ := List.exists_mem_of_length_pos hlen
      have hmem : e ∈ c.precommits := by simpa [precommits, hbook] using he
      have hp : e.1 ∈ book := List.mem_keys_of_mem he
      obtain ⟨n, hn⟩ := hreg e hmem
      obtain ⟨pk, hpk⟩ := Option.isSome_iff_exists.mp (haccepted book hbook e.1 hp)
      rw [← hkeys e.1 n hn] at hpk
      exact (readsVoters_iff hreg).mp hreads e hmem n hn (sendBlockKey_of_onMsgKey hlib hpk)

end
section

open Storage.Sample Sample

theorem sample_textIsNoPoint : TextIsNoPoint := by
  intro key raw h
  simp only [SigLib.multibaseDecode] at h
  split at h
  · rfl
  · cases h

/-- What the sample nodes are registered with. -/
theorem genesisStore_registers : Registers (fun p => 0 :: point p) genesisStore := by
  have hall : ∀ p ∈ nodes, Store.node genesisStore p =
      .ok { id := p, did := "", key := 0 :: point p } := by decide +kernel
  intro p n hn
  have hp : p ∈ nodes := by
    have hkeys : genesisStore.nodes.keys = nodes := by decide +kernel
    rw [← hkeys, Finmap.mem_keys]
    by_contra hnone
    have hnot : Store.node genesisStore p = .err .notFound := by
      show MemStore.node genesisStore p = _
      rw [MemStore.node, Finmap.lookup_eq_none.mpr hnone]
    rw [hnot] at hn
    cases hn
  obtain rfl := Outcome.ok.inj ((hall p hp).symm.trans hn)
  rfl

/-- The node `p` is elected, has nothing to propose, and both others vote for that. -/
def leaderRun : List (Env × Input MemStore) :=
  [call beacon,
   recv (vote "a" .preVote 1 1 Cid.undef.string), recv (vote "b" .preVote 1 1 Cid.undef.string),
   recv (vote "a" .preCommit 1 1 Cid.undef.string),
   recv (vote "b" .preCommit 1 1 Cid.undef.string)]

def certifiedLeader : Consensus MemStore TxMemPool := leaderRun.foldl step (node "p")

/-- **The proposer of three has both precommits** and cannot read the keys they were accepted
under. -/
theorem certifiedLeader_cannot_announce :
    certifiedLeader.propsalState.amProposer = true ∧
      certifiedLeader.propsalState.f < votes certifiedLeader.propsalState.preCommits ∧
      onMsgKey (0 :: point "a") = some (point "a") ∧ sendBlockKey (0 :: point "a") = none ∧
      ((sendBlock env).run certifiedLeader).1 = .err keyError := by
  decide +kernel

/-- It is the same in every run under these keys. -/
theorem certifiedLeader_fails :
    certifiedLeader.propsalState.f < votes certifiedLeader.propsalState.preCommits ∧
      (sendBlock env).run certifiedLeader = (.err keyError, certifiedLeader) := by
  have hvotes :
      certifiedLeader.propsalState.f < votes certifiedLeader.propsalState.preCommits := by
    decide +kernel
  have hstore : certifiedLeader.store = genesisStore := by decide +kernel
  have hrun : UnderKeys (fun p => 0 :: point p) (node "p") leaderRun := by
    have hall : Along step
        (fun (c : Consensus MemStore TxMemPool) i => i.2.isOwn = true ∧ c.store = genesisStore)
        (node "p") leaderRun := by decide +kernel
    exact hall.mono fun c i hi => ⟨hi.1, hi.2 ▸ genesisStore_registers⟩
  have hreg : certifiedLeader.VotersRegistered := by
    intro e he
    have hvoters : e.1 ∈ certifiedLeader.precommits.map Sigma.fst := List.mem_map_of_mem he
    have hnames : certifiedLeader.precommits.map Sigma.fst = ["b", "a"] := by decide +kernel
    rw [hstore]
    rw [hnames] at hvoters
    have hab : e.1 = "b" ∨ e.1 = "a" := by simpa using hvoters
    rcases hab with h | h
    · exact ⟨{ id := "b", did := "", key := 0 :: point "b" }, by rw [h]; decide +kernel⟩
    · exact ⟨{ id := "a", did := "", key := 0 :: point "a" }, by rw [h]; decide +kernel⟩
  exact ⟨hvotes, (keys_read_alike_iff sample_textIsNoPoint).2.2 env _ _ _ _ _ _ _ leaderRun hrun
    (hstore ▸ genesisStore_registers) hreg hvotes⟩

end

end Consensus
end Didem
