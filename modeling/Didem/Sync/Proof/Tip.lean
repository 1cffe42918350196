import Didem.Consensus.Proof.Restart
import Didem.Consensus.Sample
import Didem.Storage.Proof.CatchUp
import Didem.Sync.Handler

/-!
# The engine at the tip

The tip of a node is kept twice: the store knows the last applied block, the engine has the block
and the height it works on, and it reads the store for them once, in `NewConsensus`. **`Start`
writes to the store and never to the engine** (`start_of_ok`), so after it the engine stands where
it stood before (`engine_stands_iff`). A node that is behind brings its store up to the agreed tip
and then takes part at its old height, and tells its peers the old block.

On an `IPFSStorage` this does not show, for a bad reason: blocks come back without their parents, so
`Start` fails whenever there is something to apply (`ipfs_engine_stands`).
-/

set_option autoImplicit false

namespace Didem.Sync

open Lib Storage Consensus

/-- The block a peer names by this text. The text of `Undef` is none of a CID. -/
def namedBy [CidText] (tip : String) : Cid :=
  match CidText.parse tip with
  | none => .undef
  | some c => c

/-! ## What `Start` does to the engine -/

section

variable {S M : Type} [Store S] [CidText] [SigLib]

omit [Store S] [CidText] [SigLib] in
theorem launch_of_ok {ω : Session} {tip tip' : String} {c c' : Consensus S M}
    (h : launch ω tip c = (.ok tip', c')) : tip' = tip ∧ c' = c := by
  obtain ⟨hfst, rfl⟩ := Prod.mk.inj h
  obtain ⟨_, -, hret⟩ := Outcome.bind_eq_ok.mp hfst
  exact ⟨(Outcome.ok.inj hret).symm, rfl⟩

theorem syncTo_of_ok {ω : Session} {tip tip' : String} {c c' : Consensus S M}
    (h : syncTo ω tip c = some (.ok tip', c')) :
    tip' = tip ∧ ((tip = c.state.block.string ∧ c' = c) ∨
      ∃ bcid store calls, CidText.parse tip = some bcid ∧
        applyFromTip ω.runtime ω.fuel bcid c.store = some (.ok (), store, calls) ∧
        c' = { c with store := store }) := by
  unfold syncTo at h
  split at h
  · next hmatch =>
    obtain ⟨rfl, rfl⟩ := launch_of_ok (Option.some.inj h)
    exact ⟨rfl, .inl ⟨hmatch, rfl⟩⟩
  · split at h
    · exact absurd h (by simp)
    · next bcid hparse =>
      split at h
      · exact absurd h (by simp)
      · next store calls happly =>
        obtain ⟨rfl, rfl⟩ := launch_of_ok (Option.some.inj h)
        exact ⟨rfl, .inr ⟨bcid, store, calls, hparse, happly, rfl⟩⟩
      · exact absurd h (by simp)
      · exact absurd h (by simp)

/-- **A `Start` that returns nil found the engine's block to be the tip, or applied the blocks to
the store under it.** Peers are unanimous only where one is asked, on a chain for tests. -/
theorem start_of_ok {ω : Session} {attempts : List Attempt} {tip : String} {c c' : Consensus S M}
    (h : start ω attempts c = some (.ok tip, c')) :
    requiredPeers c.chain = 1 ∧ ((tip = c.state.block.string ∧ c' = c) ∨
      ∃ bcid store calls, CidText.parse tip = some bcid ∧
        applyFromTip ω.runtime ω.fuel bcid c.store = some (.ok (), store, calls) ∧
        c' = { c with store := store }) := by
  induction attempts with
  | nil => exact absurd h (by simp [start])
  | cons a attempts ih =>
    unfold start at h
    split at h
    · exact absurd h (by simp)
    · split at h
      · exact absurd h (by simp)
      · exact absurd h (by simp)
      · split at h
        · exact ih h
        · next hagreed =>
          have hone : requiredPeers c.chain = 1 := by omega
          obtain ⟨rfl, hsync⟩ := syncTo_of_ok h
          exact ⟨hone, hsync⟩

/-! ## Standing on a tip -/

omit [CidText] [SigLib] in
/-- The height of the chain at a tip: that of the block, and zero before the first. -/
def tipHeight (s : S) (tip : Cid) : Option UInt64 :=
  if tip = .undef then some 0
  else
    match Store.getBlock s tip with
    | .ok b => some b.height
    | _ => none

variable [MemPool M] [CryptoLib]

/-- **The engine stands on the tip**: its block and height are the tip's, the round it opens next is
one above it, a block it makes then has the tip for a parent, and peers are told the tip. -/
structure StandsOn (tip : Cid) (h : UInt64) (c : Consensus S M) : Prop where
  block : c.state.block = tip
  height : c.state.height = h
  expects : ∀ ω inc, ((startRound ω inc).run c).2.propsalState.height = h + 1
  proposes : ∀ ω inc b c', (makeBlock ω).run (c.openRound inc) = (.ok (some b), c') →
    b.height = h + 1 ∧ b.parent = tip
  answers : handleTipReq c.chain c = some { tip := tip.string, chainId := c.chain }

omit [CidText] [SigLib] in
theorem block_of_makeBlock {ω : Env} {c c' : Consensus S M} {b : Block}
    (h : (makeBlock ω).run c = (.ok (some b), c')) :
    b.height = c.propsalState.height ∧ b.parent = c.state.block := by
  obtain ⟨_, _, hget, h⟩ := Proc.bind_eq_ok.mp h
  obtain ⟨hc, rfl⟩ := Prod.mk.inj hget
  obtain rfl := Outcome.ok.inj hc
  cases hnonce : ω.nonce with
  | none => exact absurd h (by simp [hnonce])
  | some nonce =>
    simp only [hnonce] at h
    split at h
    · exact absurd h (by simp)
    · -- five calls that may fail; the block was set out before the first
      obtain ⟨txs, _, -, h⟩ := Proc.bind_eq_ok.mp h
      obtain ⟨txCids, _, -, h⟩ := Proc.bind_eq_ok.mp h
      obtain ⟨bloom, _, -, h⟩ := Proc.bind_eq_ok.mp h
      obtain ⟨txSet, _, -, h⟩ := Proc.bind_eq_ok.mp h
      obtain ⟨txsCid, _, -, h⟩ := Proc.bind_eq_ok.mp h
      obtain rfl := Option.some.inj (Outcome.ok.inj (Prod.mk.inj h).1)
      exact ⟨rfl, rfl⟩

omit [SigLib] in
/-- The rest follows from the block and the height. -/
theorem standsOn_iff {tip : Cid} {h : UInt64} {c : Consensus S M} :
    StandsOn tip h c ↔ c.state.block = tip ∧ c.state.height = h := by
  refine ⟨fun h => ⟨h.block, h.height⟩, ?_⟩
  rintro ⟨rfl, rfl⟩
  refine ⟨rfl, rfl, ?_, ?_, ?_⟩
  · intro ω inc
    obtain ⟨f, block, step, told, -, hcore⟩ := startRound_restarts ω inc c
    exact congrArg (fun k => k.propsalState.height) hcore
  · intro ω inc b c' h
    exact block_of_makeBlock h
  · exact if_neg (fun h => h rfl)

/-- `Start` does not touch the engine, so it stands where `NewConsensus` put it. -/
theorem standsOn_of_start {ω : Session} {attempts : List Attempt} {tip : String}
    {c c' : Consensus S M} (hstart : start ω attempts c = some (.ok tip, c')) {T : Cid}
    {h : UInt64} : StandsOn T h c' ↔ c.state.block = T ∧ c.state.height = h := by
  obtain ⟨-, ⟨-, rfl⟩ | ⟨bcid, store, calls, -, -, rfl⟩⟩ := start_of_ok hstart
  · exact standsOn_iff
  · exact standsOn_iff

omit [CidText] [SigLib] [MemPool M] [CryptoLib] in
theorem tip_of_newConsensus {ω : Runtime} {id : String} {opts : Options} {memPool : M} {s s' : S}
    {c : Consensus S M} (h : (newConsensus ω id opts memPool).run s = (.ok c, s')) :
    ∃ b, Store.getLastApplied s' = .ok b ∧ c.state.block = (startTip b).block ∧
      c.state.height = (startTip b).height := by
  obtain ⟨-, b, hb, rfl⟩ := newConsensus_eq_ok.mp h
  refine ⟨b, hb, ?_⟩
  cases b with
  | none => exact ⟨rfl, rfl⟩
  | some b => exact ⟨rfl, rfl⟩

/-- **After `Start` the engine stands on the agreed tip exactly if it did before**: if the last
applied block that `NewConsensus` found in the store is the tip. -/
theorem engine_stands_iff {ω₀ : Runtime} {id : String} {opts : Options} {memPool : M} {s s' : S}
    {c : Consensus S M} (hnew : (newConsensus ω₀ id opts memPool).run s = (.ok c, s')) (s₁ : S)
    {ω : Session} {attempts : List Attempt} {tip : String} {c' : Consensus S M}
    (hstart : start ω attempts { c with store := s₁ } = some (.ok tip, c')) :
    (∃ h, tipHeight s₁ (namedBy tip) = some h ∧ StandsOn (namedBy tip) h c') ↔
      ∃ b, Store.getLastApplied s' = .ok b ∧ (startTip b).block = namedBy tip ∧
        tipHeight s₁ (namedBy tip) = some (startTip b).height := by
  obtain ⟨b, hb, hblock, hheight⟩ := tip_of_newConsensus hnew
  constructor
  · rintro ⟨h, hh, hstands⟩
    obtain ⟨hT, rfl⟩ := (standsOn_of_start hstart).mp hstands
    exact ⟨b, hb, hblock.symm.trans hT, hh.trans (congrArg some hheight)⟩
  · rintro ⟨b', hb', hT, hh⟩
    obtain rfl := Outcome.ok.inj (hb.symm.trans hb')
    exact ⟨_, hh, (standsOn_of_start hstart).mpr ⟨hblock.trans hT, hheight⟩⟩

end

section

open Didem.Sample Didem.Storage.Sample

/-- The options of a chain for tests. -/
def testChain : Options where
  genesis := some { chainID := "test", block := {}, txs := [] }

/-- One peer is connected and answers with this tip. -/
def told (tip : String) : Attempt where
  polls := [[⟨"b", []⟩]]
  shuffle peers := peers
  shuffle_perm _ := .rfl
  answer _ _ := some ⟨tip, stringBytes "test"⟩
  inTime := true

def session : Session := ⟨fun _ => runtime, 1, .ok ()⟩

/-- A store with two blocks, the first of which is the last applied. -/
def behind : MemStore := { twoBlocks with genesisApplied := true }

/-- The node that is started over it. -/
def late : Consensus MemStore TxMemPool := startedNode testChain behind

def secondBlock : Cid := blockId 2 (vcTx 2)

/-- **The store is brought to the second block and the engine is not**: a peer names the second
block, it is applied, and the engine starts at the height of the first and on no block. -/
theorem stale_engine :
    (newConsensus runtime "a" testChain {}).run behind = (.ok late, behind) ∧
    (start session [told secondBlock.string] late).map (fun r => (r.1, r.2.state.tip)) =
      some (.ok secondBlock.string, ⟨1, .undef, .undef⟩) ∧
    namedBy secondBlock.string = secondBlock ∧ tipHeight behind secondBlock = some 2 ∧
    ∀ c' : Consensus MemStore TxMemPool,
      start session [told secondBlock.string] late = some (.ok secondBlock.string, c') →
      ¬ StandsOn secondBlock 2 c' := by
  refine ⟨by decide, by decide, by decide, by decide, ?_⟩
  intro c' h hstands
  exact absurd ((standsOn_of_start h).mp hstands).1 (by decide)

/-- The same with a genesis block and a node in it. -/
def rootedChain : Options where
  genesis := some { rootedGenesis [nodeTx 1 "a"] with chainID := "test" }

/-- The first start of a node, over an empty database. -/
def fresh : Consensus IPFSStorage TxMemPool := startedNode rootedChain {}

/-- Its peer is at the genesis block as well. -/
theorem fresh_engine_stands :
    fresh.state.block ≠ .undef ∧
    (newConsensus runtime "a" rootedChain {}).run ({} : IPFSStorage) = (.ok fresh, fresh.store) ∧
    start session [told fresh.state.block.string] fresh =
      some (.ok fresh.state.block.string, fresh) ∧
    ∃ h, tipHeight fresh.store (namedBy fresh.state.block.string) = some h ∧
      StandsOn (namedBy fresh.state.block.string) h fresh := by
  have hnew : (newConsensus runtime "a" rootedChain {}).run ({} : IPFSStorage) =
      (.ok fresh, fresh.store) := by decide +kernel
  have hstart : start session [told fresh.state.block.string] fresh =
      some (.ok fresh.state.block.string, fresh) := by decide +kernel
  refine ⟨by decide +kernel, hnew, hstart, (engine_stands_iff hnew fresh.store hstart).mpr ?_⟩
  have hnamed : namedBy fresh.state.block.string = fresh.state.block := by decide +kernel
  have hheight : tipHeight fresh.store fresh.state.block = some fresh.state.height := by
    decide +kernel
  obtain ⟨b, hb, hblock, hheight'⟩ := tip_of_newConsensus hnew
  rw [hnamed]
  exact ⟨b, hb, hblock.symm, hheight.trans (congrArg some hheight')⟩

end

/-! ## On an `IPFSStorage`

A block comes out of it without its parent, so catching up gets nowhere from any tip but the last
applied block. What is left of the runs that return nil are those that had nothing to apply. -/

section Ipfs

variable [CidText] [Hash] [SigLib]

omit [CidText] [Hash] [SigLib] in
theorem id_of_getBlock {s : IPFSStorage} {T : BlockID} {b : Block} (h : s.getBlock T = .ok b) :
    b.id = T := by
  obtain ⟨_, _, -, -, rfl⟩ := IPFSStorage.getBlock_eq_ok.mp h
  rfl

omit [CidText] [Hash] [SigLib] in
/-- `GetLastApplied`: no entry and no block, or the block of the entry. -/
theorem getLastApplied_cases {s : IPFSStorage} {b : Option Block} (h : s.getLastApplied = .ok b) :
    (s.latest = none ∧ b = none) ∨
      ∃ b', b = some b' ∧ s.lastApplied = some b'.id ∧ b'.id ≠ .undef ∧
        s.getBlock b'.id = .ok b' := by
  unfold IPFSStorage.getLastApplied at h
  split at h
  · next hnone => exact .inl ⟨hnone, (Outcome.ok.inj h).symm⟩
  · next d hd =>
    split at h
    · exact absurd h (by simp)
    · next bid hbid =>
      obtain ⟨b', hb', hret⟩ := Outcome.bind_eq_ok.mp h
      have hid : b'.id = bid := id_of_getBlock hb'
      have hne : bid ≠ .undef := by
        rintro rfl
        unfold castCid at hbid
        split at hbid
        · split at hbid
          · exact absurd hbid (by simp)
          · next c hc => exact hc (Option.some.inj hbid)
        · exact absurd hbid (by simp)
      refine .inr ⟨b', (Outcome.ok.inj hret).symm, ?_, hid ▸ hne, hid ▸ hb'⟩
      show s.latest.bind castCid = some b'.id
      rw [IPFSStorage.latest, hd, hid]
      exact hbid

theorem lastApplied_of_applyFromTip {s s' : IPFSStorage} (hs : Addressed s.objects)
    {ω : Nat → Runtime} {fuel : Nat} {T : BlockID} {calls : List Applied}
    (h : applyFromTip ω fuel T s = some (.ok (), s', calls)) : s.lastApplied = some T := by
  obtain ⟨last, currentTip, queue, hlast, htip, hqueue, -⟩ := applyFromTip_eq_ok h
  have hundef : s.objects.lookup .undef = none := hs.lookup_undef
  obtain ⟨d, b, hd, hb, rfl⟩ := IPFSStorage.getBlock_eq_ok.mp htip
  have hT : T ≠ .undef := by
    rintro rfl
    exact absurd (hd.symm.trans hundef) (by simp)
  have hlast : s.lastApplied = some last.id := by
    obtain ⟨-, h⟩ | ⟨b', h, hlast, -, -⟩ := getLastApplied_cases hlast
    · exact absurd h (by simp)
    · rw [hlast, Option.some.inj h]
  by_cases hid : T = last.id
  · rw [hlast, hid]
  · -- the walk goes on to the parent, and there is none
    cases fuel with
    | zero => exact absurd hqueue (by simp [fetchBack])
    | succ fuel =>
      have hparent : Store.getBlock s b.parent = .err (.new "block was not found locally") := by
        rw [(links_of_unmarshalBlock hb).2]
        show s.getBlock .undef = _
        rw [IPFSStorage.getBlock, IPFSStorage.getRaw, hundef]
        rfl
      rw [fetchBack, if_pos ⟨hid, hT⟩, hparent] at hqueue
      exact absurd hqueue (by simp)

/-- **On an `IPFSStorage` the engine stands on the agreed tip after every `Start` that returns
nil**, whatever content has arrived since it was made. -/
theorem ipfs_engine_stands [CryptoLib] {M : Type} [MemPool M]
    (hnamed : ∀ c : Cid, namedBy c.string = c) {ω₀ : Runtime} {id : String} {opts : Options}
    {memPool : M} {s s' s₁ : IPFSStorage} {c c' : Consensus IPFSStorage M}
    (hnew : (newConsensus ω₀ id opts memPool).run s = (.ok c, s')) (hs₁ : s'.Fetched s₁)
    {ω : Session} {attempts : List Attempt} {tip : String}
    (hstart : start ω attempts { c with store := s₁ } = some (.ok tip, c')) :
    ∃ h, tipHeight s₁ (namedBy tip) = some h ∧ StandsOn (namedBy tip) h c' := by
  obtain ⟨hmeta, hext, haddr⟩ := hs₁
  have hlast : s₁.lastApplied = s'.lastApplied := by
    rw [IPFSStorage.lastApplied, IPFSStorage.lastApplied, IPFSStorage.latest, IPFSStorage.latest,
      IPFSStorage.metadataGet, hmeta.view]
    rfl
  obtain ⟨b, hb, hblock, hheight⟩ := tip_of_newConsensus hnew
  have hfound := getLastApplied_cases hb
  have hT : (startTip b).block = namedBy tip := by
    obtain ⟨-, ⟨htip, -⟩ | ⟨bcid, store, calls, hparse, happly, -⟩⟩ := start_of_ok hstart
    · rw [htip, hnamed]
      exact hblock.symm
    · have hbcid := hlast.symm.trans (lastApplied_of_applyFromTip haddr happly)
      have hname : namedBy tip = bcid := by rw [namedBy, hparse]
      obtain ⟨hnone, -⟩ | ⟨b', rfl, hb', -, -⟩ := hfound
      · exact absurd hbcid (by simp [IPFSStorage.lastApplied, hnone])
      · rw [hname]
        exact Option.some.inj (hb'.symm.trans hbcid)
  refine ⟨_, ?_, (standsOn_of_start hstart).mpr ⟨hblock.trans hT, hheight⟩⟩
  rw [← hT]
  obtain ⟨-, rfl⟩ | ⟨b', rfl, -, hne, hget⟩ := hfound
  · rfl
  · have hget : Store.getBlock s₁ b'.id = .ok b' :=
      (IPFSStorage.keeps_of_extends hext).getBlock hget
    show tipHeight s₁ b'.id = some b'.height
    rw [tipHeight, if_neg hne, hget]

end Ipfs
end Didem.Sync
