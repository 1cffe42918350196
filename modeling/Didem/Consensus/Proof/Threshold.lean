import Didem.Consensus.Proof.Crash

/-!
# The threshold of a proposer

A proposer takes itself out of the list of nodes, computes its threshold `f` from what is left, and
counts votes against it. **Two quorums meet in more than a third** of the other nodes, whatever
their number: truncation before the doubling costs less than the `+ 1` and the strict comparison
give back.

They give back too much. Of three other nodes all three are not *more* than the threshold, which is
three; with four nodes registered no vote of any kind is ever carried, be it unanimous. With any
other number from three up it is.
-/

set_option autoImplicit false

namespace Didem

open Lib Storage

/-! ## The removal loop -/

namespace Consensus

/-- Entries that are not the node's own are passed over. -/
theorem removeSelfList_skip (id : String) {i n : Nat} {l : List String} (skipped left : Nat)
    (h : ∀ j < skipped, l.getD (i + j) "" ≠ id) :
    removeSelfList id (skipped + left) i l n = removeSelfList id left (i + skipped) l n := by
  induction skipped generalizing i with
  | zero => rw [Nat.zero_add, Nat.add_zero]
  | succ skipped ih =>
    have hhead : l.getD i "" ≠ id := h 0 (Nat.succ_pos _)
    have htail : ∀ j < skipped, l.getD (i + 1 + j) "" ≠ id := by
      intro j hj
      rw [Nat.add_assoc, Nat.add_comm 1 j]
      exact h (j + 1) (Nat.succ_lt_succ hj)
    rw [Nat.add_right_comm, removeSelfList, if_neg hhead, ih htail]
    congr 1
    omega

/-- **The loop leaves exactly the other nodes.** It shrinks the slice it ranges over; the last entry
takes the place of the node's own, and the range, which was evaluated before, comes to it a second
time where it no longer counts. -/
theorem removeSelfList_perm {id : String} {nodes : List String} (hnodup : nodes.Nodup)
    (hid : id ∈ nodes) :
    ∃ rest, removeSelfList id nodes.length 0 nodes nodes.length = .ok rest ∧
      rest.Perm (nodes.erase id) := by
  obtain ⟨pre, post, rfl⟩ := List.append_of_mem hid
  have hpre : id ∉ pre := fun h =>
    (List.nodup_append.mp hnodup).2.2 id h id List.mem_cons_self rfl
  have hpost : id ∉ post := (List.nodup_cons.mp (List.nodup_append.mp hnodup).2.1).1
  have herase : (pre ++ id :: post).erase id = pre ++ post := by
    rw [List.erase_append_right _ hpre, List.erase_cons_head]
  have hlen : (pre ++ id :: post).length = pre.length + (post.length + 1) := by simp
  -- the entry that takes the place of the node's own
  obtain ⟨z, hz⟩ : ∃ z, (pre ++ id :: post).getD ((pre ++ id :: post).length - 1) "" = z := ⟨_, rfl⟩
  have hset : (pre ++ id :: post).set pre.length z = pre ++ z :: post := by simp
  have hbefore : ∀ j < pre.length, (pre ++ id :: post).getD (0 + j) "" ≠ id := by
    intro j hj heq
    rw [Nat.zero_add, List.getD_append _ _ _ _ hj, List.getD_eq_getElem _ _ hj] at heq
    exact hpre (heq ▸ List.getElem_mem hj)
  have hafter : ∀ j < post.length, (pre ++ z :: post).getD (pre.length + 1 + j) "" ≠ id := by
    intro j hj heq
    rw [List.getD_append_right _ _ _ _ (by omega),
      show pre.length + 1 + j - pre.length = j + 1 by omega, List.getD_cons_succ,
      List.getD_eq_getElem _ _ hj] at heq
    exact hpost (heq ▸ List.getElem_mem hj)
  have hown : (pre ++ id :: post).getD pre.length "" = id := by simp
  refine ⟨(pre ++ z :: post).take (pre.length + post.length), ?_, ?_⟩
  · rw [hlen, removeSelfList_skip id pre.length (post.length + 1) hbefore, Nat.zero_add,
      removeSelfList, if_pos hown, if_pos (by omega), ← hlen, hz, hset]
    rw [show post.length = post.length + 0 from rfl, removeSelfList_skip id post.length 0 hafter]
    simp [removeSelfList]
  · rw [herase, List.take_append, List.take_of_length_le (by omega), Nat.add_sub_cancel_left]
    refine List.Perm.append_left pre ?_
    rcases List.eq_nil_or_concat post with rfl | ⟨init, last, rfl⟩
    · exact .refl _
    · have hlast : z = last := by
        rw [← hz]
        simp
      have htake : (last :: (init ++ [last])).take (init ++ [last]).length = last :: init := by
        rw [List.length_append, List.length_singleton, List.take_succ_cons, List.take_left']
        rfl
      rw [List.concat_eq_append, hlast, htake]
      exact (List.perm_append_singleton last init).symm

/-- The number `f` is computed from. -/
theorem removeSelf_of_mem {id : String} {nodes : List String} (hnodup : nodes.Nodup)
    (hid : id ∈ nodes) :
    removeSelf id nodes.length 0 nodes nodes.length = .ok (nodes.length - 1) := by
  obtain ⟨rest, hrest, hperm⟩ := removeSelfList_perm hnodup hid
  rw [removeSelf, hrest, ← List.length_erase_of_mem hid, ← hperm.length_eq]
  rfl

/-- **Quorum intersection.** For every list of nodes without duplicates that contains the proposer:
the loop leaves the other nodes and no more, `f` is computed from their number, and any two sets of
them that exceed `f` have more than a third of them in common. -/
theorem quorums_share_third (nodes : List String) (id : String) (hnodup : nodes.Nodup)
    (hid : id ∈ nodes) :
    ∃ rest, removeSelfList id nodes.length 0 nodes nodes.length = .ok rest ∧
      rest.Perm (nodes.erase id) ∧ rest.length = nodes.length - 1 ∧
      removeSelf id nodes.length 0 nodes nodes.length = .ok rest.length ∧
      ∀ Q₁ Q₂ : Finset String, Q₁ ⊆ rest.toFinset → Q₂ ⊆ rest.toFinset →
        twoThirds rest.length < Q₁.card → twoThirds rest.length < Q₂.card →
        nodes.length - 1 < 3 * (Q₁ ∩ Q₂).card := by
  obtain ⟨rest, hrest, hperm⟩ := removeSelfList_perm hnodup hid
  have hlen : rest.length = nodes.length - 1 := by
    rw [hperm.length_eq, List.length_erase_of_mem hid]
  have hcard : rest.toFinset.card = rest.length :=
    List.toFinset_card_of_nodup (hperm.nodup_iff.mpr (hnodup.erase id))
  refine ⟨rest, hrest, hperm, hlen, hlen ▸ removeSelf_of_mem hnodup hid, ?_⟩
  intro Q₁ Q₂ h₁ h₂ hc₁ hc₂
  rw [← hlen, ← hcard]
  exact card_lt_three_mul_card_inter h₁ h₂ (hcard ▸ hc₁) (hcard ▸ hc₂)

/-- Six nodes with the proposer in the middle: four of the five others are a quorum, and two such
quorums have at least three of them in common. -/
theorem quorums_share_third_of_six :
    removeSelfList "c" 6 0 ["a", "b", "c", "d", "e", "g"] 6 = .ok ["a", "b", "g", "d", "e"] ∧
      5 < 3 * (({"a", "b", "d", "e"} : Finset String) ∩ {"b", "d", "e", "g"}).card := by
  obtain ⟨rest, hrest, -, -, -, hshare⟩ := quorums_share_third ["a", "b", "c", "d", "e", "g"] "c"
    (by decide) (by decide)
  have hlist : removeSelfList "c" 6 0 ["a", "b", "c", "d", "e", "g"] 6 =
      .ok ["a", "b", "g", "d", "e"] := by decide
  obtain rfl := Outcome.ok.inj (hlist.symm.trans hrest)
  exact ⟨hlist, hshare {"a", "b", "d", "e"} {"b", "d", "e", "g"} (by decide) (by decide)
    (by decide) (by decide)⟩

/-! ## A vote that is counted -/

section

variable {S M : Type}

/-- The node is up, and the maps of evidence are made. -/
def Listening (c : Consensus S M) : Prop :=
  c.crashed = false ∧ c.propsalState.preVotesEvidence ≠ none ∧
    c.propsalState.preCommitsEvidence ≠ none

def KeepsListening (c c' : Consensus S M) : Prop := Listening c → Listening c'

instance : Std.Refl (KeepsListening (S := S) (M := M)) := ⟨fun _ h => h⟩

instance : IsTrans (Consensus S M) KeepsListening := ⟨fun _ _ _ hab hbc h => hbc (hab h)⟩

theorem Listening.not_noEvidenceBook {c : Consensus S M} (h : Listening c) (t : VoteType) :
    ¬ c.propsalState.NoEvidenceBook t := by
  rintro (⟨-, hnone⟩ | ⟨-, hnone⟩)
  · exact h.2.1 hnone
  · exact h.2.2 hnone

variable [CryptoLib]

theorem sendMsg_keepsListening (ω : Env) (wrapper : ConsensusMsg) :
    Proc.Within KeepsListening (sendMsg ω wrapper : Engine S M Unit) := by
  intro c h
  obtain ⟨sent, hsent, -⟩ := sendMsg_told ω wrapper c
  rw [hsent]
  exact h

theorem sendEvidence_keepsListening (ω : Env) (vote : ConsensusMsgVote) :
    Proc.Within KeepsListening (sendEvidence ω vote : Engine S M Unit) := by
  refine .bind (.bind .get fun c => ?_) fun _ => sendMsg_keepsListening ω _
  split
  · split
    · exact .lift _
    · exact .modify fun _ h => ⟨h.1, Option.some_ne_none _, h.2.2⟩
  · split
    · exact .lift _
    · exact .modify fun _ h => ⟨h.1, h.2.1, Option.some_ne_none _⟩
  · exact .pure _

variable [CidText]

theorem onVote_keepsListening (ω : Env) (msg : Msg) (sender : String) :
    Proc.Within KeepsListening (onVote ω msg sender : Engine S M Unit) := by
  refine .bind .get fun c => ?_
  split
  · exact .lift _
  · split
    · exact .pure _
    · split
      · exact .lift _
      · next vote _ =>
        split
        · exact .pure _
        · refine .bind ?_ fun _ => ?_
          · refine (countVote_sameEvidence ω vote.type msg).mono fun c c' hsame h => ?_
            exact ⟨hsame.1.trans h.1, hsame.2.1 ▸ h.2.1, hsame.2.2 ▸ h.2.2⟩
          · split
            · exact .logged (sendEvidence_keepsListening ω vote)
            · exact .pure _

/-- A vote that passes the checks is counted, and what evidence of it goes out after that adds to
the trace only. -/
theorem onVote_counted (ω : Env) {msg : Msg} {sender : String} {vote : ConsensusMsgVote}
    {c : Consensus S M} (hvote : msg.vote? = some vote) (hsender : sender ≠ c.state.proposer)
    (hcurrent : c.propsalState.Current vote) :
    ∃ told, ((onVote ω msg sender).run c).2.core =
      ((countVote ω vote.type msg).run c).2.core.tell told := by
  obtain ⟨body, hbody, hvote⟩ := Option.bind_eq_some_iff.mp hvote
  obtain ⟨hheight, hblock, hround⟩ := hcurrent
  simp only [onVote, Proc.run_bind, Proc.run_get, hbody, hvote, if_neg hsender, hheight, hblock,
    hround, ne_eq, not_true_eq_false, or_self, if_false]
  cases (countVote ω vote.type msg : Engine S M Unit).run c with
  | mk r c' =>
    cases r with
    | panic => exact ⟨[], rfl⟩
    | err e => exact ⟨[], rfl⟩
    | ok u =>
      simp only
      split
      · rw [Proc.run_logged_snd]
        obtain ⟨told, htold, -⟩ := sendEvidence_talk ω vote c'
        exact ⟨told, htold⟩
      · exact ⟨[], rfl⟩

end

/-! ## A ballot as a tally -/

end Consensus

namespace Core

/-- The round is the same one, and the block voted on and the threshold are. -/
structure SameRound (k₀ k : Core) : Prop where
  proposer : k.state.proposer = k₀.state.proposer
  height : k.propsalState.height = k₀.propsalState.height
  round : k.propsalState.round = k₀.propsalState.round
  block : k.propsalState.block = k₀.propsalState.block
  f : k.propsalState.f = k₀.propsalState.f

theorem SameRound.counted [CidText] {k₀ k : Core} (h : SameRound k₀ k) (t : VoteType) (msg : Msg) :
    k.Counted t msg ↔ k₀.Counted t msg := by
  unfold Counted
  rw [h.height, h.round, h.block]

theorem SameRound.trans {k₀ k k' : Core} (h : SameRound k₀ k) (h' : SameRound k k') :
    SameRound k₀ k' :=
  ⟨h'.proposer.trans h.proposer, h'.height.trans h.height, h'.round.trans h.round,
    h'.block.trans h.block, h'.f.trans h.f⟩

theorem sameRound_preVote (k : Core) (msg : Msg) (sender : String) (vote : Option Msg)
    (told : List Msg) : SameRound k (k.apply (.preVote msg sender vote told)) := by
  constructor <;> simp only [apply, next] <;> split <;> rfl

theorem sameRound_preCommit (k : Core) (msg : Msg) (sender : String) (told : List Msg) :
    SameRound k (k.apply (.preCommit msg sender told)) := by
  constructor <;> simp only [apply, next] <;> split <;> rfl

/-- The ballot on prevotes, as far as the tally says. The one on precommits has not begun. -/
structure Prevoting (k₀ : Core) (τ : Tally String) (k : Core) : Prop where
  same : SameRound k₀ k
  book : ∃ b, k.propsalState.preVotes = some b ∧ b.keys.toFinset = τ.voters
  step : k.propsalState.step = if τ.closed then .precommit else .prevote
  once : τ.closed = false → k.propsalState.pcOnce = false
  later : k.propsalState.preCommits = k₀.propsalState.preCommits ∧
    k.propsalState.sbOnce = k₀.propsalState.sbOnce

/-- The ballot on precommits. -/
structure Precommitting (k₀ : Core) (τ : Tally String) (k : Core) : Prop where
  same : SameRound k₀ k
  book : ∃ b, k.propsalState.preCommits = some b ∧ b.keys.toFinset = τ.voters
  step : k.propsalState.step = if τ.closed then .block else .precommit
  once : τ.closed = false → k.propsalState.sbOnce = false

theorem toFinset_keys_enter {book : Option VoteBook} {b : VoteBook} (hb : book = some b)
    (msg : Msg) : (enter book msg).keys.toFinset = insert msg.sender b.keys.toFinset := by
  subst hb
  ext x
  by_cases hx : x = msg.sender
  · simp [enter, hx]
  · simp [enter, hx, List.mem_erase_of_ne]

/-- The length of a book is the number of voters in it. -/
theorem length_keys_enter {book : Option VoteBook} {b : VoteBook} (hb : book = some b)
    (msg : Msg) : (enter book msg).keys.length = (insert msg.sender b.keys.toFinset).card := by
  rw [← toFinset_keys_enter hb, List.toFinset_card_of_nodup (AList.keys_nodup _)]

/-- **A prevote is one more vote of the tally.** -/
theorem Prevoting.count {k₀ k : Core} {τ : Tally String} (h : Prevoting k₀ τ k)
    (hopen : τ.closed = false) (msg : Msg) (sender : String) (vote : Option Msg)
    (told : List Msg) :
    Prevoting k₀ (τ.count k₀.propsalState.f msg.sender)
      (k.apply (.preVote msg sender vote told)) := by
  obtain ⟨b, hb, hvoters⟩ := h.book
  have hlocks : k.Locks msg ↔ k₀.propsalState.f < (insert msg.sender τ.voters).card := by
    rw [Locks, length_keys_enter hb, hvoters, h.same.f, h.once hopen]
    exact and_iff_left rfl
  have hkeys : (enter k.propsalState.preVotes msg).keys.toFinset = insert msg.sender τ.voters := by
    rw [toFinset_keys_enter hb, hvoters]
  have hstep : k.propsalState.step = .prevote := by rw [h.step, hopen]; rfl
  rw [Tally.count, if_neg (by simp [hopen])]
  have hsame := h.same.trans (sameRound_preVote k msg sender vote told)
  by_cases hpass : k.Locks msg
  · rw [decide_eq_true (hlocks.mp hpass)]
    refine ⟨hsame, ?_, ?_, fun hn => Bool.noConfusion hn, ?_⟩ <;>
      simp only [apply, next, if_pos hpass]
    · exact ⟨_, rfl, hkeys⟩
    · rfl
    · exact h.later
  · rw [decide_eq_false (hlocks.not.mp hpass)]
    refine ⟨hsame, ?_, ?_, fun _ => ?_, ?_⟩ <;> simp only [apply, next, if_neg hpass]
    · exact ⟨_, rfl, hkeys⟩
    · exact hstep
    · exact h.once hopen
    · exact h.later

/-- **And so is a precommit.** -/
theorem Precommitting.count {k₀ k : Core} {τ : Tally String} (h : Precommitting k₀ τ k)
    (hopen : τ.closed = false) (msg : Msg) (sender : String) (told : List Msg) :
    Precommitting k₀ (τ.count k₀.propsalState.f msg.sender)
      (k.apply (.preCommit msg sender told)) := by
  obtain ⟨b, hb, hvoters⟩ := h.book
  have hcertifies : k.Certifies msg ↔ k₀.propsalState.f < (insert msg.sender τ.voters).card := by
    rw [Certifies, length_keys_enter hb, hvoters, h.same.f, h.once hopen]
    exact and_iff_left rfl
  have hkeys : (enter k.propsalState.preCommits msg).keys.toFinset =
      insert msg.sender τ.voters := by
    rw [toFinset_keys_enter hb, hvoters]
  have hstep : k.propsalState.step = .precommit := by rw [h.step, hopen]; rfl
  rw [Tally.count, if_neg (by simp [hopen])]
  have hsame := h.same.trans (sameRound_preCommit k msg sender told)
  by_cases hpass : k.Certifies msg
  · rw [decide_eq_true (hcertifies.mp hpass)]
    refine ⟨hsame, ?_, ?_, fun hn => Bool.noConfusion hn⟩ <;> simp only [apply, next, if_pos hpass]
    · exact ⟨_, rfl, hkeys⟩
    · rfl
  · rw [decide_eq_false (hcertifies.not.mp hpass)]
    refine ⟨hsame, ?_, ?_, fun _ => ?_⟩ <;> simp only [apply, next, if_neg hpass]
    · exact ⟨_, rfl, hkeys⟩
    · exact hstep
    · exact h.once hopen

theorem Prevoting.tell {k₀ k : Core} {τ : Tally String} (h : Prevoting k₀ τ k) (told : List Msg) :
    Prevoting k₀ τ (k.tell told) :=
  ⟨⟨h.same.proposer, h.same.height, h.same.round, h.same.block, h.same.f⟩, h.book, h.step, h.once,
    h.later⟩

theorem Precommitting.tell {k₀ k : Core} {τ : Tally String} (h : Precommitting k₀ τ k)
    (told : List Msg) : Precommitting k₀ τ (k.tell told) :=
  ⟨⟨h.same.proposer, h.same.height, h.same.round, h.same.block, h.same.f⟩, h.book, h.step, h.once⟩

end Core

/-! ## The proposer's two ballots -/

namespace Consensus

section

variable {S M : Type} [Store S] [Validator S] [MemPool M] [CryptoLib] [CidText] [SigLib]

/-- The vote is handed to `onVote`. -/
def deliver (c : Consensus S M) (d : Env × Msg) : Consensus S M :=
  c.step (d.1, .call (.vote d.2 d.2.sender))

variable (hlib : CryptoLib.Returns)

include hlib

theorem deliver_counted {c : Consensus S M} (d : Env × Msg) {vote : ConsensusMsgVote}
    (hready : Listening c) (hvote : d.2.vote? = some vote) (hsender : d.2.sender ≠ c.state.proposer)
    (hcurrent : c.propsalState.Current vote) (hbook : ¬ c.propsalState.NoVoteBook vote.type) :
    Listening (c.deliver d) ∧ ∃ told, (c.deliver d).core =
      ((countVote d.1 vote.type d.2).run c).2.core.tell told := by
  obtain ⟨body, hbody, hvote'⟩ := Option.bind_eq_some_iff.mp hvote
  have hreturns : ¬ (onVote d.1 d.2 d.2.sender : Engine S M Unit).Panics c := by
    rw [onVote_panics hlib, hbody]
    simp [hvote', State.FatalVote, hbook, hready.not_noEvidenceBook]
  have hstep : c.deliver d = ((onVote d.1 d.2 d.2.sender).run c).2 := by
    show (if c.crashed then c else c.run (onVote d.1 d.2 d.2.sender)) = _
    rw [if_neg (by simp [hready.1]), run_of_not_panics hreturns]
  rw [hstep]
  exact ⟨onVote_keepsListening d.1 d.2 d.2.sender c hready,
    onVote_counted d.1 hvote hsender hcurrent⟩

/-- One delivery of the first ballot. -/
theorem deliver_prevote {k₀ : Core} {c : Consensus S M} {τ : Tally String} (d : Env × Msg)
    (hready : Listening c) (h : k₀.Prevoting τ c.core) (hmsg : k₀.Counted .preVote d.2)
    (hsender : d.2.sender ≠ k₀.state.proposer) :
    Listening (c.deliver d) ∧
      k₀.Prevoting (τ.count k₀.propsalState.f d.2.sender) (c.deliver d).core := by
  obtain ⟨vote, hvote, htype, hheight, hround, hblock⟩ := (h.same.counted _ _).mpr hmsg
  obtain ⟨b, hb, -⟩ := h.book
  have hmade : c.propsalState.preVotes ≠ none := fun hn => nomatch hb.symm.trans hn
  have hbook : ¬ c.propsalState.NoVoteBook vote.type := by
    simp [State.NoVoteBook, htype, hmade]
  obtain ⟨hready', told, htold⟩ := deliver_counted hlib d hready hvote
    (h.same.proposer ▸ hsender) ⟨hheight, hblock, hround⟩ hbook
  refine ⟨hready', ?_⟩
  rw [htold, htype, countVote]
  refine Core.Prevoting.tell ?_ told
  cases hclosed : τ.closed with
  | false =>
    have hstep : c.propsalState.step = .prevote := h.step.trans (by simp [hclosed])
    obtain ⟨own, -, hrun⟩ := onPreVote_counted d.1 d.2 hstep hmade
    rw [hrun d.2.sender]
    exact h.count hclosed d.2 d.2.sender own []
  | true =>
    have hstep : c.propsalState.step = .precommit := h.step.trans (by simp [hclosed])
    rw [onPreVote_ignored d.1 d.2 (by simp [hstep]), Tally.count, if_pos hclosed]
    exact h

/-- One delivery of the second. -/
theorem deliver_precommit {k₀ : Core} {c : Consensus S M} {τ : Tally String} (d : Env × Msg)
    (hready : Listening c) (h : k₀.Precommitting τ c.core) (hmsg : k₀.Counted .preCommit d.2)
    (hsender : d.2.sender ≠ k₀.state.proposer) :
    Listening (c.deliver d) ∧
      k₀.Precommitting (τ.count k₀.propsalState.f d.2.sender) (c.deliver d).core := by
  obtain ⟨vote, hvote, htype, hheight, hround, hblock⟩ := (h.same.counted _ _).mpr hmsg
  obtain ⟨b, hb, -⟩ := h.book
  have hmade : c.propsalState.preCommits ≠ none := fun hn => nomatch hb.symm.trans hn
  have hbook : ¬ c.propsalState.NoVoteBook vote.type := by
    simp [State.NoVoteBook, htype, hmade]
  obtain ⟨hready', told, htold⟩ := deliver_counted hlib d hready hvote
    (h.same.proposer ▸ hsender) ⟨hheight, hblock, hround⟩ hbook
  refine ⟨hready', ?_⟩
  rw [htold, htype, countVote]
  refine Core.Precommitting.tell ?_ told
  cases hclosed : τ.closed with
  | false =>
    have hstep : c.propsalState.step = .precommit := h.step.trans (by simp [hclosed])
    rw [onPreCommit_counted d.2 hstep hmade d.2.sender]
    exact h.count hclosed d.2 d.2.sender []
  | true =>
    have hstep : c.propsalState.step = .block := h.step.trans (by simp [hclosed])
    rw [onPreCommit_ignored d.2 (by simp [hstep]), Tally.count, if_pos hclosed]
    exact h

theorem deliver_prevotes {k₀ : Core} {c : Consensus S M} {τ : Tally String}
    (ds : List (Env × Msg)) (hready : Listening c) (h : k₀.Prevoting τ c.core)
    (hds : ∀ d ∈ ds, k₀.Counted .preVote d.2 ∧ d.2.sender ≠ k₀.state.proposer) :
    Listening (ds.foldl deliver c) ∧
      k₀.Prevoting ((ds.map (·.2.sender)).foldl (Tally.count k₀.propsalState.f) τ)
        (ds.foldl deliver c).core := by
  induction ds generalizing c τ with
  | nil => exact ⟨hready, h⟩
  | cons d ds ih =>
    obtain ⟨hmsg, hsender⟩ := hds d List.mem_cons_self
    obtain ⟨hready', h'⟩ := deliver_prevote hlib d hready h hmsg hsender
    exact ih hready' h' fun d' hd' => hds d' (List.mem_cons_of_mem d hd')

theorem deliver_precommits {k₀ : Core} {c : Consensus S M} {τ : Tally String}
    (ds : List (Env × Msg)) (hready : Listening c) (h : k₀.Precommitting τ c.core)
    (hds : ∀ d ∈ ds, k₀.Counted .preCommit d.2 ∧ d.2.sender ≠ k₀.state.proposer) :
    Listening (ds.foldl deliver c) ∧
      k₀.Precommitting ((ds.map (·.2.sender)).foldl (Tally.count k₀.propsalState.f) τ)
        (ds.foldl deliver c).core := by
  induction ds generalizing c τ with
  | nil => exact ⟨hready, h⟩
  | cons d ds ih =>
    obtain ⟨hmsg, hsender⟩ := hds d List.mem_cons_self
    obtain ⟨hready', h'⟩ := deliver_precommit hlib d hready h hmsg hsender
    exact ih hready' h' fun d' hd' => hds d' (List.mem_cons_of_mem d hd')

end

/-! ## The proposer of a round -/

section

variable {S M : Type}

/-- The node leads a round: it is its proposer, its `startRound` returned nil with these nodes
registered, and not enough votes of others have come in to carry anything. -/
structure LeadsRound (reg : Finset String) (c : Consensus S M) : Prop where
  ready : Listening c
  own : c.state.proposer = c.id
  mem : c.id ∈ reg
  amProposer : c.propsalState.amProposer = true
  step : c.propsalState.step = .prevote
  f : c.propsalState.f = twoThirds (reg.card - 1)
  preVotes : ∃ b, c.propsalState.preVotes = some b ∧ b.keys.toFinset ⊆ reg.erase c.id ∧
    b.keys.length ≤ c.propsalState.f
  preCommits : ∃ b, c.propsalState.preCommits = some b ∧ b.keys.toFinset ⊆ reg.erase c.id ∧
    b.keys.length ≤ c.propsalState.f
  once : c.propsalState.pcOnce = false ∧ c.propsalState.sbOnce = false

/-- Another block, store, mempool and trace, and nothing else. -/
def Builds (c c' : Consensus S M) : Prop :=
  c'.crashed = c.crashed ∧ c'.id = c.id ∧ c'.state = c.state ∧
    ∃ block, c'.propsalState = { c.propsalState with block := block }

instance : Std.Refl (Builds (S := S) (M := M)) := ⟨fun _ => ⟨rfl, rfl, rfl, _, rfl⟩⟩

theorem Builds.trans {a b c : Consensus S M} (hab : Builds a b) (hbc : Builds b c) :
    Builds a c := by
  obtain ⟨hcrash, hid, hstate, block, hp⟩ := hab
  obtain ⟨hcrash', hid', hstate', block', hp'⟩ := hbc
  refine ⟨hcrash'.trans hcrash, hid'.trans hid, hstate'.trans hstate, block', ?_⟩
  rw [hp', hp]

instance : IsTrans (Consensus S M) Builds := ⟨fun _ _ _ => Builds.trans⟩

variable [CryptoLib]

theorem sendMsg_builds (ω : Env) (wrapper : ConsensusMsg) :
    Proc.Within Builds (sendMsg ω wrapper : Engine S M Unit) := by
  intro c
  obtain ⟨sent, hsent, -⟩ := sendMsg_told ω wrapper c
  rw [hsent]
  exact ⟨rfl, rfl, rfl, _, rfl⟩

variable [Store S] [MemPool M]

theorem buildBlock_builds (ω : Env) : Proc.Within Builds (buildBlock ω : Engine S M Unit) := by
  have hstore {α : Type} (p : Proc Err S α) : Proc.Within Builds (onStore p : Engine S M α) :=
    fun c => ⟨rfl, rfl, rfl, _, rfl⟩
  have hmake : Proc.Within Builds (makeBlock ω : Engine S M (Option Block)) :=
    makeBlock_within (fun c => ⟨rfl, rfl, rfl, _, rfl⟩) (fun _ => hstore _) (fun _ => hstore _)
      fun _ => hstore _
  exact buildBlock_within hmake (fun _ => hstore _) fun block c => ⟨rfl, rfl, rfl, block, rfl⟩

/-- What a proposer has done that got to the end of `lead`. -/
theorem lead_eq_ok [CidText] {ω : Env} {c c' : Consensus S M}
    (h : (lead ω).run c = (.ok (), c')) :
    ∃ nodes n block, Store.nodes c.store = .ok nodes ∧
      removeSelf c.id nodes.length 0 nodes nodes.length = .ok n ∧
      c'.crashed = c.crashed ∧ c'.id = c.id ∧ c'.state = c.state ∧
      c'.propsalState =
        { c.propsalState with block := block, f := twoThirds n, step := .prevote } := by
  rw [lead, Proc.bind_eq_ok] at h
  obtain ⟨_, c₁, hnew, h⟩ := h
  simp only [Proc.bind_eq_ok, Proc.run_get, Proc.run_lift, Proc.run_modify, Prod.mk.injEq] at h
  obtain ⟨_, _, ⟨heq, rfl⟩, nodes, _, ⟨hnodes, rfl⟩, n, _, ⟨hn, rfl⟩, _, c₂, ⟨-, hc₂⟩, _, c₃,
    hbuild, _, c₄, hsend, -, rfl⟩ := h
  obtain rfl := Outcome.ok.inj heq
  -- the store is still the one the round began with
  have hstore : c₁.store = c.store :=
    (Proc.Within.wrap (.bind .get fun _ => sendMsg_aside ω _)).of_run hnew |>.store
  obtain ⟨hcrash₁, hid₁, hstate₁, block₁, hp₁⟩ : Builds c c₁ :=
    (Proc.Within.wrap (.bind .get fun _ => sendMsg_builds ω _)).of_run hnew
  obtain ⟨hcrash₄, hid₄, hstate₄, block₄, hp₄⟩ : Builds c₂ c₄ :=
    ((buildBlock_builds ω).of_run hbuild).trans
      ((Proc.Within.wrap (.bind .get fun _ => sendMsg_builds ω _)).of_run hsend)
  subst hc₂
  refine ⟨nodes, n, block₄, hstore ▸ Outcome.mapErr_eq_ok.mp hnodes, hid₁ ▸ hn,
    hcrash₄.trans hcrash₁, hid₄.trans hid₁, hstate₄.trans hstate₁, ?_⟩
  simp only [setStep, update, hp₄, hp₁]

/-- **A proposer whose `startRound` returned nil leads the round.** -/
theorem leads_of_startRound [CidText] {reg : Finset String} {c₀ c : Consensus S M} {ω : Env}
    {inc : Bool} (hup : c₀.crashed = false) (hown : c₀.state.proposer = c₀.id) (hmem : c₀.id ∈ reg)
    (hreg : Registered reg c₀.store) (h : (startRound ω inc).run c₀ = (.ok (), c)) :
    LeadsRound reg c := by
  obtain ⟨⟨nodes, hnodes, hnodup, rfl⟩, -⟩ := hreg
  have ham : (c₀.openRound inc).propsalState.amProposer = true := by simp [openRound, hown]
  have hlead : (lead ω).run (c₀.openRound inc) = (.ok (), c) := by
    simpa only [startRound, Proc.run_bind, Proc.run_modify, Proc.run_get, ham, if_true] using h
  obtain ⟨nodes', n, block, hnodes', hn, hcrash, hid, hstate, hp⟩ := lead_eq_ok hlead
  obtain rfl : nodes = nodes' := Outcome.ok.inj (hnodes.symm.trans hnodes')
  have hcount := removeSelf_of_mem hnodup (List.mem_toFinset.mp hmem)
  obtain rfl : n = nodes.length - 1 := Outcome.ok.inj (hn.symm.trans hcount)
  refine
    { ready := ⟨hcrash.trans hup, ?_, ?_⟩
      own := ?_
      mem := hid ▸ hmem
      amProposer := by rw [hp, ham]
      step := by rw [hp]
      f := by rw [hp, List.toFinset_card_of_nodup hnodup]
      preVotes := ⟨∅, by rw [hp]; rfl, by simp, by simp⟩
      preCommits := ⟨∅, by rw [hp]; rfl, by simp, by simp⟩
      once := by rw [hp]; exact ⟨rfl, rfl⟩ }
  · rw [hp]
    exact Option.some_ne_none _
  · rw [hp]
    exact Option.some_ne_none _
  · rw [hid]
    exact (congrArg State.proposer hstate).trans hown

end

/-! ## Unanimity -/

section

variable {S M : Type}

theorem LeadsRound.sender_ne {reg : Finset String} {c : Consensus S M} (hleads : LeadsRound reg c)
    {ds : List (Env × Msg)} (hds : (ds.map (·.2.sender)).toFinset = reg.erase c.id)
    {d : Env × Msg} (hd : d ∈ ds) : d.2.sender ≠ c.core.state.proposer := by
  have hmem : d.2.sender ∈ reg.erase c.id :=
    hds ▸ List.mem_toFinset.mpr (List.mem_map_of_mem hd)
  intro heq
  exact Finset.ne_of_mem_erase hmem (heq.trans hleads.own)

/-- **When all the others have voted the count is closed, except among four.** The votes `b` that
had come in before change nothing about that. -/
theorem LeadsRound.closed_iff {reg : Finset String} {c : Consensus S M}
    (hleads : LeadsRound reg c) (hthree : 3 ≤ reg.card) {ds : List (Env × Msg)}
    (hds : (ds.map (·.2.sender)).toFinset = reg.erase c.id) {b : VoteBook}
    (hsub : b.keys.toFinset ⊆ reg.erase c.id) (hle : b.keys.length ≤ c.propsalState.f) :
    ((ds.map (·.2.sender)).foldl (Tally.count c.propsalState.f)
      ⟨b.keys.toFinset, false⟩).closed = true ↔ reg.card ≠ 4 := by
  have hcard : b.keys.toFinset.card = b.keys.length := List.toFinset_card_of_nodup b.keys_nodup
  rw [Tally.closed_foldl_count _ rfl (hcard ▸ hle), hds, Finset.union_eq_right.mpr hsub, hleads.f,
    Finset.card_erase_of_mem hleads.mem, twoThirds_lt_self_iff]
  omega

variable [Store S] [Validator S] [MemPool M] [CryptoLib] [CidText] [SigLib]

/-- **Unanimity carries, unless four nodes are registered.** The proposer of three or more nodes is
in the step for prevotes; matching prevotes and then matching precommits of all the others come in,
in any order and with any repetitions. The step becomes `precommit` after the first and `block`
after the second, and with four nodes it does not. -/
theorem unanimity_carries_iff (hlib : CryptoLib.Returns) (reg : Finset String)
    (c : Consensus S M) (hleads : LeadsRound reg c) (hthree : 3 ≤ reg.card)
    (prevotes precommits : List (Env × Msg))
    (hprevotes : (prevotes.map (·.2.sender)).toFinset = reg.erase c.id ∧
      ∀ d ∈ prevotes, c.core.Counted .preVote d.2)
    (hprecommits : (precommits.map (·.2.sender)).toFinset = reg.erase c.id ∧
      ∀ d ∈ precommits, c.core.Counted .preCommit d.2) :
    ((prevotes.foldl deliver c).propsalState.step = .precommit ∧
      (precommits.foldl deliver (prevotes.foldl deliver c)).propsalState.step = .block) ↔
      reg.card ≠ 4 := by
  obtain ⟨b, hb, hsub, hle⟩ := hleads.preVotes
  obtain ⟨b', hb', hsub', hle'⟩ := hleads.preCommits
  -- the first ballot
  have hstart : c.core.Prevoting ⟨b.keys.toFinset, false⟩ c.core :=
    ⟨⟨rfl, rfl, rfl, rfl, rfl⟩, ⟨b, hb, rfl⟩, hleads.step, fun _ => hleads.once.1, rfl, rfl⟩
  obtain ⟨hready, hpoll⟩ := deliver_prevotes hlib prevotes hleads.ready hstart
    fun d hd => ⟨hprevotes.2 d hd, hleads.sender_ne hprevotes.1 hd⟩
  have hclosed := hleads.closed_iff hthree hprevotes.1 hsub hle
  by_cases hfour : reg.card = 4
  · refine iff_of_false (fun h => ?_) (not_not.mpr hfour)
    have hstep : (prevotes.foldl deliver c).propsalState.step = .prevote :=
      hpoll.step.trans (if_neg (mt hclosed.mp (not_not.mpr hfour)))
    exact absurd (h.1.symm.trans hstep) (by decide)
  · refine iff_of_true ?_ hfour
    have hstep : (prevotes.foldl deliver c).propsalState.step = .precommit :=
      hpoll.step.trans (if_pos (hclosed.mpr hfour))
    refine ⟨hstep, ?_⟩
    -- the second ballot begins where the first one ended
    have hnext : c.core.Precommitting ⟨b'.keys.toFinset, false⟩ (prevotes.foldl deliver c).core :=
      ⟨hpoll.same, ⟨b', hpoll.later.1.trans hb', rfl⟩, hstep, fun _ => hpoll.later.2.trans
        hleads.once.2⟩
    obtain ⟨-, hpoll'⟩ := deliver_precommits hlib precommits hready hnext
      fun d hd => ⟨hprecommits.2 d hd, hleads.sender_ne hprecommits.1 hd⟩
    have hclosed' := hleads.closed_iff hthree hprecommits.1 hsub' hle'
    exact hpoll'.step.trans (if_pos (hclosed'.mpr hfour))

end

section

open Storage.Sample Sample

/-- A store with a fourth node. -/
def storeOfFour : MemStore :=
  (Store.applyGenesis runtime { genesis with txs := genesis.txs ++ [nodeTx 4 "d"] } {}).2

/-- The node `p` of four, elected. -/
def leaderOfFour : Consensus MemStore TxMemPool :=
  step (.boot [9] "p" (some (point "p")) {} storeOfFour none) (call (.beacon 3))

/-- Votes for no block in the first round. -/
def votesOf (t : VoteType) (ids : List String) : List (Env × Msg) :=
  ids.map fun id => (env, vote id t 1 1 Cid.undef.string)

/-- **Four nodes, and all vote alike.** The proposer never leaves the step for prevotes. -/
theorem four_stuck :
    leaderOfFour.state.proposer = "p" ∧ leaderOfFour.propsalState.step = .prevote ∧
      Store.nodes leaderOfFour.store = .ok ["a", "b", "d", "p"] ∧
      (∀ d ∈ votesOf .preVote ["a", "b", "d"], leaderOfFour.core.Counted .preVote d.2) ∧
      ((votesOf .preVote ["a", "b", "d"]).foldl deliver leaderOfFour).propsalState.step =
        .prevote ∧
      ((votesOf .preCommit ["a", "b", "d"]).foldl deliver
        ((votesOf .preVote ["a", "b", "d"]).foldl deliver leaderOfFour)).propsalState.step =
        .prevote := by
  decide +kernel

/-- The node `p` of three, elected. -/
def leaderOfThree : Consensus MemStore TxMemPool := step (node "p") (call beacon)

theorem leaderOfThree_leads : LeadsRound nodes leaderOfThree := by
  have hkeys : genesisStore.nodes.keys = nodes := by decide +kernel
  have hstart : (startRound env false).run { (node "p").setStep .propose with
      state := { (node "p").state with proposer := "p" } } = (.ok (), leaderOfThree) :=
    Prod.ext (by decide +kernel) rfl
  exact leads_of_startRound rfl rfl (by decide) (hkeys ▸ registered_memStore genesisStore) hstart

/-- Of three nodes the two others are enough, also when one of them votes twice. -/
theorem three_carry :
    ((votesOf .preVote ["b", "a", "b"]).foldl deliver leaderOfThree).propsalState.step =
        .precommit ∧
      ((votesOf .preCommit ["a", "b"]).foldl deliver
        ((votesOf .preVote ["b", "a", "b"]).foldl deliver leaderOfThree)).propsalState.step =
        .block :=
  (unanimity_carries_iff sample_returns nodes leaderOfThree leaderOfThree_leads (by decide)
    (votesOf .preVote ["b", "a", "b"]) (votesOf .preCommit ["a", "b"])
    ⟨by decide, by decide +kernel⟩ ⟨by decide, by decide +kernel⟩).mpr (by decide)

end
end Consensus
end Didem
