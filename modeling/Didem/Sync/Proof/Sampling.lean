import Didem.Sync.Handler

/-!
# Whom `Start` asks, and when it is satisfied

One attempt of `Start` waits for peers, draws a sample of them, asks it for the tip and looks at the
map of the answers (`attemptTip`). Two tests in it do not count what they are meant to count.

* The map has one entry for each **tip**, and its size is compared with the number of **peers**
  asked. The two can only be one at a time when one peer is asked, so a sample of ten is never
  unanimous (`acceptsUnanimous_iff`).
* The peers of all polls so far are kept in one list, and its length is compared with the number of
  peers needed. A peer of an earlier poll is in it again if it is still connected, and still in it
  if it is not (`sample_independent_iff`).
-/

set_option autoImplicit false

namespace Didem.Sync

open Lib Storage Consensus

/-! ## One attempt -/

/-- The peers an attempt asks, once there are enough. -/
def sampled (chainID : Bytes) (a : Attempt) : Option (List Peer) :=
  (waitPeers (requiredPeers chainID) a.polls []).map fun peers =>
    (a.shuffle peers).take (requiredPeers chainID)

/-- The tip the map of the answers is read as, if any. -/
def agreedTip (chainID : Bytes) (tips : Tips) : Option String :=
  if tips.keys.length ≠ requiredPeers chainID ∨ tips.keys.length ≠ 1 then none
  else some (tips.keys.getLastD "")

/-- What one attempt comes to: a tip to proceed with, another attempt, or an error; `none` while it
is waiting for peers. -/
def attemptTip (chainID : Bytes) (a : Attempt) : Option (Outcome Err (Option String)) :=
  (sampled chainID a).map fun peers =>
    match askForTip chainID a peers with
    | .ok tips => .ok (agreedTip chainID tips)
    | .err e => .err (e.wrap "requesting tips")
    | .panic => .panic

/-- `Start`, attempt by attempt. -/
theorem start_cons {S M : Type} [Store S] [CidText] [SigLib] (ω : Session) (a : Attempt)
    (attempts : List Attempt) (c : Consensus S M) :
    start ω (a :: attempts) c =
      match attemptTip c.chain a with
      | none => none
      | some (.ok (some tip)) => syncTo ω tip c
      | some (.ok none) => start ω attempts c
      | some (.err e) => some (.err e, c)
      | some .panic => some (.panic, c) := by
  simp only [start, attemptTip, sampled, Option.map_map]
  cases waitPeers (requiredPeers c.chain) a.polls [] with
  | none => rfl
  | some peers =>
    simp only [Option.map_some, Function.comp]
    cases askForTip c.chain a ((a.shuffle peers).take (requiredPeers c.chain)) with
    | err e => rfl
    | panic => rfl
    | ok tips =>
      simp only [agreedTip]
      split <;> rfl

theorem requiredPeers_pos (chainID : Bytes) : 0 < requiredPeers chainID := by
  unfold requiredPeers
  split
  · exact Nat.one_pos
  · exact Nat.succ_pos 9

theorem requiredPeers_eq_one_iff {chainID : Bytes} :
    requiredPeers chainID = 1 ↔ (stringBytes "test").isPrefixOf chainID = true := by
  unfold requiredPeers
  split
  · next h => exact iff_of_true rfl h
  · next h => exact iff_of_false (by simp [tipSetPeerCountStartThreshold]) h

theorem le_length_of_waitPeers {n : Nat} {polls : List (List Peer)} {peers peers' : List Peer}
    (h : waitPeers n polls peers = some peers') : n ≤ peers'.length := by
  induction polls generalizing peers with
  | nil => exact absurd h (by simp [waitPeers])
  | cons poll polls ih =>
    simp only [waitPeers] at h
    split at h
    · exact ih h
    · next hle =>
      rw [← Option.some.inj h]
      exact Nat.le_of_not_lt hle

theorem length_sampled {chainID : Bytes} {a : Attempt} {peers : List Peer}
    (h : sampled chainID a = some peers) : peers.length = requiredPeers chainID := by
  obtain ⟨all, hall, rfl⟩ := Option.map_eq_some_iff.mp h
  rw [List.length_take, (a.shuffle_perm all).length_eq]
  exact Nat.min_eq_left (le_length_of_waitPeers hall)

/-! ## A unanimous tip -/

/-- **A unanimous tip is accepted, and only such a tip**: an attempt whose questions are answered in
time proceeds with a tip exactly if every peer it asked answered that tip. -/
def AcceptsUnanimous (chainID : Bytes) : Prop :=
  ∀ (a : Attempt) (peers : List Peer) (tip : String), a.inTime = true →
    sampled chainID a = some peers →
    (attemptTip chainID a = some (.ok (some tip)) ↔
      ∀ i p, peers[i]? = some p → reqTip chainID (a.answer i p) = .ok tip)

/-- A map is not both of size one and of a larger size. -/
theorem agreedTip_eq_none {chainID : Bytes} (h : requiredPeers chainID ≠ 1) (tips : Tips) :
    agreedTip chainID tips = none := by
  unfold agreedTip
  rw [if_pos (by omega)]

/-- **Where more than one is asked, no answers will do.** -/
theorem attemptTip_ne {chainID : Bytes} (h : requiredPeers chainID ≠ 1) (a : Attempt)
    (tip : String) : attemptTip chainID a ≠ some (.ok (some tip)) := by
  intro htip
  obtain ⟨peers, -, hask⟩ := Option.map_eq_some_iff.mp htip
  split at hask
  · rw [agreedTip_eq_none h] at hask
    exact absurd hask (by simp)
  · exact absurd hask (by simp)
  · exact absurd hask (by simp)

theorem acceptsUnanimous_of_one {chainID : Bytes} (h : requiredPeers chainID = 1) :
    AcceptsUnanimous chainID := by
  intro a peers tip hin hsampled
  have hlen := length_sampled hsampled
  rw [h] at hlen
  obtain ⟨p, rfl⟩ := List.length_eq_one_iff.mp hlen
  have hattempt : attemptTip chainID a = some (.ok (some tip)) ↔
      reqTip chainID (a.answer 0 p) = .ok tip := by
    simp only [attemptTip, hsampled, Option.map_some, Option.some.injEq, askForTip,
      List.mapIdx_cons, List.mapIdx_nil, hin]
    cases hreq : reqTip chainID (a.answer 0 p) with
    | ok t =>
      simp [countTips, agreedTip, h]
    | err e => simp [countTips]
    | panic => simp [countTips]
  rw [hattempt]
  constructor
  · intro hreq i p' hp'
    cases i with
    | zero => simpa [← Option.some.inj hp'] using hreq
    | succ i => exact absurd hp' (by simp)
  · exact fun hall => hall 0 p rfl

/-- Peers without tags. -/
def plainPeers (n : Nat) : List Peer := (List.range n).map fun i => { id := toString i, tags := [] }

/-- Ten peers that answer one tip. -/
def unanimous (chainID : Bytes) : Attempt where
  polls := [plainPeers 10]
  shuffle := fun peers => peers
  shuffle_perm := fun _ => .rfl
  answer _ _ := some { tip := "t", chainId := chainID }
  inTime := true

theorem exists_sampled_unanimous (chainID : Bytes) :
    ∃ peers, sampled chainID (unanimous chainID) = some peers := by
  have hle : requiredPeers chainID ≤ 10 := by
    unfold requiredPeers
    split
    · omega
    · exact Nat.le_refl 10
  have hlen : ∀ peers : List Peer, peers.length = 10 → ¬ peers.length < requiredPeers chainID := by
    intro peers hlen
    omega
  simp only [sampled, unanimous, waitPeers]
  rw [if_neg (hlen _ (by decide))]
  exact ⟨_, rfl⟩

/-- **`Start` accepts a unanimous tip on the chains for tests, and on no other.** -/
theorem acceptsUnanimous_iff (chainID : Bytes) :
    AcceptsUnanimous chainID ↔ (stringBytes "test").isPrefixOf chainID = true := by
  rw [← requiredPeers_eq_one_iff]
  refine ⟨fun h => ?_, acceptsUnanimous_of_one⟩
  by_contra hone
  obtain ⟨peers, hpeers⟩ := exists_sampled_unanimous chainID
  refine attemptTip_ne hone (unanimous chainID) "t" ((h _ peers "t" rfl hpeers).mpr ?_)
  intro i p _
  simp [unanimous, reqTip]

/-- Ten peers of a chain that is not for tests answer one tip, and are asked again. -/
theorem unanimous_not_accepted :
    (∃ peers, sampled [9] (unanimous [9]) = some peers ∧ peers.length = 10 ∧
      ∀ i p, peers[i]? = some p → reqTip [9] ((unanimous [9]).answer i p) = .ok "t") ∧
    attemptTip [9] (unanimous [9]) = some (.ok none) := by
  refine ⟨?_, by decide +kernel⟩
  obtain ⟨peers, hpeers⟩ := exists_sampled_unanimous [9]
  exact ⟨peers, hpeers, length_sampled hpeers, fun i p _ => rfl⟩

/-! ## Independent peers -/

/-- **The sample is of independent peers**: no two are the same, and each is connected in the last
poll, without the tag of peers that do not speak the protocol. -/
structure Independent (last peers : List Peer) : Prop where
  distinct : (peers.map Peer.id).Nodup
  connected : ∀ p ∈ peers, ∃ p' ∈ last, p'.id = p.id ∧ "drand" ∉ p'.tags
  untagged : ∀ p ∈ peers, "drand" ∉ p.tags

/-- What a poll adds to the list. -/
def candidates (poll : List Peer) : List Peer := poll.filter fun p => "drand" ∉ p.tags

theorem mem_candidates {p : Peer} {poll : List Peer} :
    p ∈ candidates poll ↔ p ∈ poll ∧ "drand" ∉ p.tags := by
  simp [candidates]

/-- The loop goes on with everything it has seen. -/
theorem waitPeers_append {n : Nat} {earlier polls : List (List Peer)} {peers : List Peer}
    (h : waitPeers n earlier peers = none) :
    waitPeers n (earlier ++ polls) peers =
      waitPeers n polls (peers ++ earlier.flatMap candidates) := by
  induction earlier generalizing peers with
  | nil => simp
  | cons poll earlier ih =>
    simp only [waitPeers, List.cons_append] at h ⊢
    split at h
    · next hlt =>
      rw [if_pos hlt, ih h, List.flatMap_cons, List.append_assoc]
      rfl
    · exact absurd h (by simp)

theorem length_lt_of_waitPeers {n : Nat} {earlier : List (List Peer)} {peers : List Peer}
    (hlt : peers.length < n) (h : waitPeers n earlier peers = none) :
    (peers ++ earlier.flatMap candidates).length < n := by
  induction earlier generalizing peers with
  | nil => simpa using hlt
  | cons poll earlier ih =>
    simp only [waitPeers] at h
    split at h
    · next hlt' =>
      rw [List.flatMap_cons, ← List.append_assoc]
      exact ih hlt' h
    · exact absurd h (by simp)

/-- The attempt in which these peers are drawn in this order. -/
def arranged (polls : List (List Peer)) (peers order : List Peer) (h : order.Perm peers) :
    Attempt where
  polls := polls
  shuffle l := if l = peers then order else l
  shuffle_perm l := by
    split
    · next heq => exact heq ▸ h
    · exact .rfl
  answer _ _ := none
  inTime := true

theorem sampled_arranged {chainID : Bytes} {polls : List (List Peer)} {peers order : List Peer}
    (h : order.Perm peers) (hwait : waitPeers (requiredPeers chainID) polls [] = some peers) :
    sampled chainID (arranged polls peers order h) =
      some (order.take (requiredPeers chainID)) := by
  simp only [sampled, arranged, hwait, Option.map_some, if_true]

/-- A sample of one poll is fine. -/
theorem independent_take {last order : List Peer} {n : Nat} (hdup : (last.map Peer.id).Nodup)
    (h : order.Perm (candidates last)) : Independent last (order.take n) := by
  have hmem : ∀ p ∈ order.take n, p ∈ last ∧ "drand" ∉ p.tags := fun p hp =>
    mem_candidates.mp (h.mem_iff.mp (List.mem_of_mem_take hp))
  constructor
  · have hcands : ((candidates last).map Peer.id).Nodup :=
      hdup.sublist (List.filter_sublist.map Peer.id)
    exact ((h.map Peer.id).nodup_iff.mpr hcands).sublist ((List.take_sublist n order).map Peer.id)
  · exact fun p hp => ⟨p, (hmem p hp).1, rfl, (hmem p hp).2⟩
  · exact fun p hp => (hmem p hp).2

/-- A peer of an earlier poll is drawn: either it is gone, or it is drawn twice. -/
theorem not_independent_of_mem {chainID : Bytes} {polls : List (List Peer)}
    {last old : List Peer} {q : Peer} (hq : q ∈ old) (hlt : old.length < requiredPeers chainID)
    (hwait : waitPeers (requiredPeers chainID) polls [] = some (old ++ candidates last)) :
    ∃ a : Attempt, a.polls = polls ∧
      ∃ peers, sampled chainID a = some peers ∧ ¬ Independent last peers := by
  have hold : 0 < old.length := List.length_pos_of_mem hq
  obtain ⟨n, hn⟩ : ∃ n, requiredPeers chainID = n + 2 := ⟨requiredPeers chainID - 2, by omega⟩
  by_cases hback : ∃ q' ∈ last, q'.id = q.id ∧ "drand" ∉ q'.tags
  · obtain ⟨q', hq', hid, htag⟩ := hback
    have hcand : q' ∈ candidates last := mem_candidates.mpr ⟨hq', htag⟩
    have hperm : (q :: q' :: (old.erase q ++ (candidates last).erase q')).Perm
        (old ++ candidates last) :=
      calc q :: q' :: (old.erase q ++ (candidates last).erase q')
        _ |>.Perm (q :: (old.erase q ++ q' :: (candidates last).erase q')) :=
          List.perm_middle.symm.cons q
        _ |>.Perm (old ++ candidates last) :=
          (List.perm_cons_erase hq).symm.append (List.perm_cons_erase hcand).symm
    refine ⟨arranged polls _ _ hperm, rfl, _, sampled_arranged hperm hwait, fun h => ?_⟩
    have hnodup := h.distinct
    rw [hn] at hnodup
    simp only [List.take_succ_cons, List.map_cons, List.nodup_cons, List.mem_cons] at hnodup
    exact hnodup.1 (.inl hid.symm)
  · have hmem : q ∈ old ++ candidates last := List.mem_append_left _ hq
    have hperm := (List.perm_cons_erase hmem).symm
    refine ⟨arranged polls _ _ hperm, rfl, _, sampled_arranged hperm hwait, fun h => ?_⟩
    exact hback (h.connected q (by rw [hn]; exact List.mem_cons_self))

/-- **The sample is of independent peers, however it is drawn, exactly if no poll before the last
one added anyone.** -/
theorem sample_independent_iff (chainID : Bytes) (earlier : List (List Peer))
    (last peers : List Peer) (hdup : ∀ poll ∈ earlier ++ [last], (poll.map Peer.id).Nodup)
    (hwait : waitPeers (requiredPeers chainID) earlier [] = none)
    (hdone : waitPeers (requiredPeers chainID) (earlier ++ [last]) [] = some peers) :
    (∀ a : Attempt, a.polls = earlier ++ [last] →
        ∀ sample, sampled chainID a = some sample → Independent last sample) ↔
      ∀ poll ∈ earlier, ∀ p ∈ poll, "drand" ∈ p.tags := by
  have hlt := length_lt_of_waitPeers (requiredPeers_pos chainID) hwait
  have hpeers : peers = earlier.flatMap candidates ++ candidates last := by
    rw [waitPeers_append hwait, waitPeers] at hdone
    split at hdone
    · exact absurd hdone (by simp [waitPeers])
    · exact (Option.some.inj hdone).symm
  subst hpeers
  constructor
  · intro hall poll hpoll q hq
    by_contra htag
    have hold : q ∈ earlier.flatMap candidates :=
      List.mem_flatMap.mpr ⟨poll, hpoll, mem_candidates.mpr ⟨hq, htag⟩⟩
    obtain ⟨a, ha, sample, hsample, hnot⟩ := not_independent_of_mem hold hlt hdone
    exact hnot (hall a ha sample hsample)
  · intro hnone a ha sample hsample
    have hold : earlier.flatMap candidates = [] := by
      refine List.flatMap_eq_nil_iff.mpr fun poll hpoll => ?_
      refine List.filter_eq_nil_iff.mpr fun p hp => ?_
      simp [hnone poll hpoll p hp]
    rw [sampled, ha, hdone, hold] at hsample
    obtain rfl := Option.some.inj hsample
    exact independent_take (hdup last (List.mem_append_right _ (List.mem_singleton_self last)))
      (a.shuffle_perm _)

/-- Ten peers in the first poll are asked once each. -/
theorem firstPoll_independent :
    ∃ sample, sampled [9] (unanimous [9]) = some sample ∧ Independent (plainPeers 10) sample := by
  obtain ⟨sample, hsample⟩ := exists_sampled_unanimous [9]
  refine ⟨sample, hsample, (sample_independent_iff [9] [] (plainPeers 10) (plainPeers 10)
    (by decide +kernel) rfl (by decide +kernel)).mpr ?_ (unanimous [9]) rfl sample hsample⟩
  exact fun _ h => absurd h List.not_mem_nil

/-- **Five peers seen in two polls make ten**, and each is asked twice. -/
theorem fivePeers_asked_twice :
    waitPeers (requiredPeers [9]) [plainPeers 5] [] = none ∧
      ∃ a : Attempt, a.polls = [plainPeers 5, plainPeers 5] ∧
        sampled [9] a = some (plainPeers 5 ++ plainPeers 5) ∧
        ¬ Independent (plainPeers 5) (plainPeers 5 ++ plainPeers 5) := by
  refine ⟨by decide, arranged _ (plainPeers 5 ++ plainPeers 5) _ .rfl, rfl, by decide +kernel,
    fun h => ?_⟩
  exact absurd h.distinct (by decide +kernel)

end Didem.Sync
