import Didem.Storage.Sample

/-!
# Catching up replays one block too many

`ApplyFromTip` should apply the blocks after the last applied one, each once. Its backward walk
puts a block into the queue *before* it tests whether to stop there, so the block the walk stops
at — the last applied one, or one without an identifier — is always in the queue, and since the
queue is played in reverse it is the first block that is validated. With no last applied block
the walk's condition dereferences nil.

There is therefore no store and no chain on which the calls are the ones they should be. The
result is stated for an arbitrary store; it uses nothing about the blocks.
-/

set_option autoImplicit false

namespace Didem.Storage

open Lib

section

variable {S : Type} [Store S]

/-- The walk stops at the last applied block or at one without an identifier, and that block is
the last of the queue. -/
theorem getLast_of_fetchBack {s : S} {lastApplied : Block} {fuel : Nat} {currentTip : Block}
    {queue queue' : List Block} (htip : queue.getLast? = some currentTip)
    (h : fetchBack s lastApplied fuel currentTip queue = some (.ok queue')) :
    ∃ b, queue'.getLast? = some b ∧ (b.id = lastApplied.id ∨ b.id = .undef) := by
  induction fuel generalizing currentTip queue with
  | zero => exact absurd h (by simp [fetchBack])
  | succ fuel ih =>
    rw [fetchBack] at h
    split at h
    · split at h
      · exact absurd h (by simp)
      · exact absurd h (by simp)
      · exact ih List.getLast?_concat h
    · rename_i hstop
      rw [Option.some.injEq, Outcome.ok.injEq] at h
      exact ⟨currentTip, h ▸ htip, by tauto⟩

variable [SigLib]

/-- The first call made on a queue is the validation of its first block. -/
theorem calls_of_playForward (ω : Nat → Runtime) (i : Nat) (b : Block) (queue : List Block)
    (s : S) : ∃ rest, (playForward ω i (b :: queue) s).2.2 = .validate b.id :: rest := by
  rw [playForward]
  split
  · exact ⟨[], rfl⟩
  · exact ⟨[], rfl⟩
  · split
    · exact ⟨_, rfl⟩
    · exact ⟨_, rfl⟩
    · exact ⟨_, rfl⟩

/-- When `ApplyFromTip` returns nil there was a last applied block, the walk back from the tip came
to an end, and all of the queue was played. -/
theorem applyFromTip_eq_ok {ω : Nat → Runtime} {fuel : Nat} {id : BlockID} {s s' : S}
    {calls : List Applied} (h : applyFromTip ω fuel id s = some (.ok (), s', calls)) :
    ∃ lastApplied currentTip queue, Store.getLastApplied s = .ok (some lastApplied) ∧
      Store.getBlock s id = .ok currentTip ∧
      fetchBack s lastApplied fuel currentTip [currentTip] = some (.ok queue) ∧
      playForward ω 0 queue.reverse s = (.ok (), s', calls) := by
  unfold applyFromTip at h
  split at h
  · exact absurd h (by simp)
  · exact absurd h (by simp)
  · rename_i lastApplied hlast
    split at h
    · exact absurd h (by simp)
    · exact absurd h (by simp)
    · rename_i currentTip htip
      split at h
      · exact absurd h (by simp)
      · rename_i lastApplied
        split at h
        · exact absurd h (by simp)
        · exact absurd h (by simp)
        · exact absurd h (by simp)
        · rename_i queue hqueue
          exact ⟨lastApplied, currentTip, queue, hlast, htip, hqueue, Option.some.inj h⟩

/-- **When `ApplyFromTip` returns nil there was a last applied block, and the first block it
validated is that one again, or one without an identifier.** -/
theorem first_call_of_applyFromTip {ω : Nat → Runtime} {fuel : Nat} {id : BlockID} {s s' : S}
    {calls : List Applied} (h : applyFromTip ω fuel id s = some (.ok (), s', calls)) :
    ∃ lastApplied, Store.getLastApplied s = .ok (some lastApplied) ∧
      ∃ b rest, calls = .validate b :: rest ∧ (b = lastApplied.id ∨ b = .undef) := by
  obtain ⟨lastApplied, currentTip, queue, hlast, -, hqueue, hplay⟩ := applyFromTip_eq_ok h
  obtain ⟨b, hb, hid⟩ := getLast_of_fetchBack (by simp) hqueue
  obtain ⟨init, rfl⟩ := List.getLast?_eq_some_iff.mp hb
  rw [List.reverse_append, List.reverse_singleton, List.singleton_append] at hplay
  obtain ⟨rest, hrest⟩ := calls_of_playForward ω 0 b init.reverse s
  rw [hplay] at hrest
  exact ⟨lastApplied, hlast, b.id, rest, hrest, hid⟩

/-- The calls that apply the blocks `bs`, each once and in order. -/
def appliesExactly (bs : List BlockID) : List Applied :=
  bs.flatMap fun b => [.validate b, .accept b]

/-- **Catching up never applies exactly the missing blocks**: on no store, from no tip, for no
list of blocks (the empty one included) that leaves out the last applied block. -/
theorem applyFromTip_ne_appliesExactly (ω : Nat → Runtime) (fuel : Nat) (id : BlockID) (s s' : S)
    (bs : List BlockID) (hdefined : .undef ∉ bs)
    (hmissing : ∀ b0, Store.getLastApplied s = .ok (some b0) → b0.id ∉ bs) :
    applyFromTip ω fuel id s ≠ some (.ok (), s', appliesExactly bs) := by
  intro h
  obtain ⟨b0, hlast, b, rest, hcalls, hb⟩ := first_call_of_applyFromTip h
  cases bs with
  | nil => exact absurd hcalls (by simp [appliesExactly])
  | cons b1 bs =>
    have hb1 : b1 = b := by simpa [appliesExactly] using (List.cons.inj hcalls).1
    subst hb1
    rcases hb with hb0 | hundef
    · exact hmissing b0 hlast (hb0 ▸ List.mem_cons_self)
    · exact hdefined (hundef ▸ List.mem_cons_self)

end

/-! ## Catching up a small store -/

section

open Storage.Sample

/-- A store that has accepted a first block and holds a second one. -/
def startedStore : MemStore :=
  let s := putBlockOf 2 (vcTx 2) (putBlockOf 1 (vcTx 1) {})
  let s := (s.markBlock runtime (blockId 1 (vcTx 1)) .validated).2
  let s := (s.markBlock runtime (blockId 1 (vcTx 1)) .accepted).2
  (s.updateLastApplied (blockId 1 (vcTx 1))).2

/-- From the first block to the second: the one call that is missing is not the one made. -/
theorem startedStore_ne_appliesExactly :
    applyFromTip (fun _ => runtime) 2 (blockId 2 (vcTx 2)) startedStore ≠
      some (.ok (), startedStore, appliesExactly [blockId 2 (vcTx 2)]) := by
  refine applyFromTip_ne_appliesExactly _ _ _ _ _ _ (by decide) ?_
  intro b0 hlast
  have hb0 : Store.getLastApplied startedStore = .ok (some (blockOf 1 (vcTx 1))) := by decide
  rw [hb0, Outcome.ok.injEq, Option.some.injEq] at hlast
  rw [← hlast]
  decide

/-- **Asked to catch up to the block it is at, the store validates that block again and fails**:
its transaction is already in a block. -/
theorem applyFromTip_startedStore_fails :
    startedStore.lastBlock = blockId 1 (vcTx 1) ∧
    (applyFromTip (fun _ => runtime) 2 (blockId 1 (vcTx 1)) startedStore).map
        (fun r => (r.1, r.2.2)) =
      some (.err (.wrap (.new "tx already in previous block") "validating block"),
        [.validate .undef]) := by
  decide

end
end Didem.Storage
