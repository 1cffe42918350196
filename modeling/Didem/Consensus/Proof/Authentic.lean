import Didem.Consensus.P2P
import Didem.Consensus.Proof.Simulation
import Didem.Consensus.Sample

/-!
# What is signed and what is verified

Both ends of a message put the sender's id in front of the encoding of the message without its
signature: `sendMsg` to sign, `onMsg` to verify. In between the message was encoded, decoded and
**given the key of the envelope it came in**. The encoding has the key in it, the tag that was to
leave out an empty one being misspelt, so the two ends agree about the bytes exactly if `pubsub` put
no key into the envelope.
-/

set_option autoImplicit false

namespace Didem

open Lib Storage

namespace Consensus

section

variable [CryptoLib]

/-- The bytes a signature of this message is about. -/
def signedBytes (msg : Msg) : Outcome Err Bytes := do
  let signData ← signatureData msg
  return CryptoLib.peerBytes msg.sender ++ signData

variable {S M : Type}

/-- **What `sendMsg` signs.** The message has no key, and its signature is one of its bytes. -/
theorem sendMsg_signs {ω : Env} {wrapper : ConsensusMsg} {c : Consensus S M} {m : Msg}
    (hsent : ((sendMsg ω wrapper).run c).2 = c.record (.sent m)) :
    m.sender = c.id ∧ m.key = none ∧ ∃ sk signed, c.signingKey = some sk ∧
      signedBytes m = .ok signed ∧ CryptoLib.sign sk signed = .ok m.signature := by
  -- a message went out, so every call before succeeded
  have hok : (sendMsg ω wrapper).run c = (.ok (), c.record (.sent m)) := by
    obtain ⟨sent, htold, hm⟩ := sendMsg_told ω wrapper c
    cases sent with
    | none =>
      have hlen := congrArg (fun c => c.trace.length) (htold.symm.trans hsent)
      simp [tell, record] at hlen
    | some m' => exact Prod.ext (hm m' rfl).2.2 hsent
  simp only [sendMsg, Proc.run_bind, Proc.run_get] at hok
  cases hkey : c.signingKey with
  | none =>
    rw [hkey] at hok
    have hlen := congrArg (fun r => r.2.trace.length) hok
    simp [record] at hlen
  | some sk =>
    simp only [hkey, Proc.bind_eq_ok, Proc.run_lift, Prod.mk.injEq, Outcome.mapErr_eq_ok] at hok
    obtain ⟨signData, _, ⟨hdata, rfl⟩, sig, _, ⟨hsig, rfl⟩, hok⟩ := hok
    split at hok
    · obtain rfl : _ = m := by
        have htrace := congrArg (fun r => r.2.trace) hok
        exact Effect.sent.inj (List.cons.inj htrace).1
      -- the signature that was added since is no part of what was signed
      exact ⟨rfl, rfl, sk, _, rfl, Outcome.bind_eq_ok.mpr ⟨signData, hdata, rfl⟩, hsig⟩
    · exact absurd (congrArg Prod.fst hok) (by simp)

omit [CryptoLib] in
theorem onConsensusMsg_ne_err (msg : Msg) (sender : String) (e : Err) :
    onConsensusMsg msg sender ≠ .err e := by
  unfold onConsensusMsg
  split
  · simp
  · split <;> simp

/-- **What `onMsg` verifies.** A message is turned away for its signature only if the signature does
not verify, against the key registered for its sender, for the bytes it is about. -/
theorem onMsg_invalid [Store S] [SigLib] {c : Consensus S M} {msg : Msg} {data : Bytes}
    (hdata : signedBytes msg = .ok data)
    (hnode : Store.node c.store msg.sender ≠ .err (.new "invalid signature"))
    (h : c.onMsg msg = .err (.new "invalid signature")) :
    ∃ n raw pk, Store.node c.store msg.sender = .ok n ∧
      SigLib.multibaseDecode n.key = some raw ∧ SigLib.blsPublicKey raw = some pk ∧
      SigLib.blsVerify pk msg.signature data = false := by
  obtain ⟨signData, hsign, hdata⟩ := Outcome.bind_eq_ok.mp hdata
  obtain rfl := Outcome.ok.inj hdata
  unfold onMsg at h
  split at h
  · exact absurd h (by simp)
  · cases hn : Store.node c.store msg.sender with
    | panic => simp [hn] at h
    | err e => exact absurd (by simpa [hn] using h) hnode
    | ok n =>
      simp only [hn, hsign, Outcome.ok_bind] at h
      cases hraw : SigLib.multibaseDecode n.key with
      | none => simp [hraw] at h
      | some raw =>
        cases hpk : SigLib.blsPublicKey raw with
        | none => simp [hraw, hpk] at h
        | some pk =>
          refine ⟨n, raw, pk, rfl, hraw, hpk, Bool.eq_false_iff.mpr fun hverify => ?_⟩
          simp only [hraw, hpk, hverify, if_true] at h
          split at h
          · exact onConsensusMsg_ne_err _ _ _ h
          all_goals exact absurd h (by simp)

/-- The bytes of a message and of the message with a key differ, unless there is no key. -/
theorem signedBytes_withKey [MsgDecoder] (hcodec : MsgDecoder.Faithful) {m : Msg}
    (hkey : m.key = none) (key : Option Bytes) :
    signedBytes (m.withKey key) = signedBytes m ↔ key = none := by
  constructor
  · intro h
    obtain ⟨data, hdata⟩ := hcodec.marshals { m with signature := [] }
    have hm : signedBytes m = .ok (CryptoLib.peerBytes m.sender ++ data) :=
      Outcome.bind_eq_ok.mpr ⟨data, hdata, rfl⟩
    obtain ⟨data', hdata', heq⟩ := Outcome.bind_eq_ok.mp (h.trans hm)
    obtain rfl : data' = data := List.append_cancel_left (Outcome.ok.inj heq)
    have hsame := hcodec.injective (hdata'.trans hdata.symm)
    exact (congrArg Msg.key hsame).trans hkey
  · intro h
    rw [h, Msg.withKey, ← hkey]

/-- **Both ends agree exactly on messages that come without a key.** Let a node send a message with
`sendMsg`, let it be published and reach another node in an envelope with this key. The bytes whose
signature `onMsg` verifies there are those that were signed, and the message is not turned away for
its signature, if and only if the key is nil. The key registered for the sender, if any is, belongs
to its signing key. -/
theorem authenticated_iff {S' M' : Type} [Store S'] [SigLib] [MsgDecoder]
    (hcodec : MsgDecoder.Faithful) (ω : Env) (wrapper : ConsensusMsg) (c : Consensus S M)
    (r : Consensus S' M') (m : Msg) (key : Option Bytes)
    (hsent : ((sendMsg ω wrapper).run c).2 = c.record (.sent m))
    (hother : CryptoLib.peerBytes r.id ≠ CryptoLib.peerBytes c.id)
    (hnode : Store.node r.store c.id ≠ .err (.new "invalid signature"))
    (hcorrect : ∀ n raw pk sk data sig, Store.node r.store c.id = .ok n →
      SigLib.multibaseDecode n.key = some raw → SigLib.blsPublicKey raw = some pk →
      c.signingKey = some sk → CryptoLib.sign sk data = .ok sig →
      SigLib.blsVerify pk sig data = true) :
    ∃ e msg sk signed verified, P2P.publish c.id m key = .ok e ∧ P2P.msgs r.id e = some msg ∧
      c.signingKey = some sk ∧ signedBytes m = .ok signed ∧
      CryptoLib.sign sk signed = .ok m.signature ∧ signedBytes msg = .ok verified ∧
      ((verified = signed ∧ r.onMsg msg ≠ .err (.new "invalid signature")) ↔ key = none) := by
  obtain ⟨hsender, hkey, sk, signed, hsk, hsigned, hsig⟩ := sendMsg_signs hsent
  obtain ⟨e, he, hmsg⟩ := P2P.msgs_of_publish hcodec hother m key
  obtain ⟨data, hdata⟩ := hcodec.marshals { m.withKey key with signature := [] }
  have hverified : signedBytes (m.withKey key) = .ok (CryptoLib.peerBytes m.sender ++ data) :=
    Outcome.bind_eq_ok.mpr ⟨data, hdata, rfl⟩
  refine ⟨e, m.withKey key, sk, signed, _, he, hmsg, hsk, hsigned, hsig, hverified, ?_⟩
  constructor
  · rintro ⟨heq, -⟩
    rw [← signedBytes_withKey hcodec hkey, hverified, heq, hsigned]
  · intro hnone
    have hsame : signedBytes (m.withKey key) = signedBytes m :=
      (signedBytes_withKey hcodec hkey key).mpr hnone
    refine ⟨Outcome.ok.inj (hverified.symm.trans (hsame.trans hsigned)), fun hinvalid => ?_⟩
    -- the signature is checked for the bytes that were signed, against the key that goes with it
    rw [hsigned] at hsame
    obtain ⟨n, raw, pk, hn, hraw, hpk, hfails⟩ := onMsg_invalid hsame
      (show Store.node r.store m.sender ≠ _ from hsender ▸ hnode) hinvalid
    have hverifies := hcorrect n raw pk sk signed m.signature (hsender ▸ hn) hraw hpk hsk hsig
    exact absurd (hfails.symm.trans hverifies) Bool.false_ne_true

end

section

open Storage.Sample Sample

local instance (priority := 2000) authenticLib : CryptoLib := Exact.exactLib

open Classical in
/-- The decoder of the exact encoding. -/
noncomputable local instance exactDecoder : MsgDecoder where
  unmarshalMsg data := if h : ∃ m : Msg, Code.put m [] = data then some h.choose else none

theorem exactDecoder_faithful : MsgDecoder.Faithful where
  marshals m := ⟨_, rfl⟩
  decodes m data h := by
    obtain rfl := Outcome.ok.inj h
    have hex : ∃ m' : Msg, Code.put m' [] = Code.put m [] := ⟨m, rfl⟩
    exact (dif_pos hex).trans (congrArg some (Code.put_nil_injective hex.choose_spec))

def voteBody : ConsensusMsg :=
  { type := .vote, vote := some ⟨.preVote, 1, 1, Cid.undef.string, 7, "a"⟩ }

/-- The vote the node `a` sends and signs. -/
def exactVote : Msg :=
  match ((sendMsg env voteBody).run (node "a")).2.trace with
  | .sent m :: _ => m
  | _ => newRound "a" 0 0

/-- **The key breaks the signature.** The vote of `a` reaches `b` in an envelope with a key, and is
turned away. -/
theorem keyed_vote_rejected :
    ((sendMsg env voteBody).run (node "a")).2 = (node "a").record (.sent exactVote) ∧
      (∃ e, P2P.publish "a" exactVote (some [1]) = .ok e ∧
        P2P.msgs "b" e = some (exactVote.withKey (some [1]))) ∧
      signedBytes (exactVote.withKey (some [1])) ≠ signedBytes exactVote ∧
      (node "b").onMsg (exactVote.withKey (some [1])) = .err (.new "invalid signature") := by
  refine ⟨rfl, P2P.msgs_of_publish exactDecoder_faithful (by decide) _ _, ?_, by decide +kernel⟩
  decide +kernel

/-- What is registered for `a` goes with its signing key. -/
theorem registered_key_a (n : Node) (raw pk sk data sig : Bytes)
    (hn : Store.node (node "b").store "a" = .ok n) (hraw : SigLib.multibaseDecode n.key = some raw)
    (hpk : SigLib.blsPublicKey raw = some pk) (hsk : (node "a").signingKey = some sk)
    (hsig : CryptoLib.sign sk data = .ok sig) : SigLib.blsVerify pk sig data = true := by
  have hnode : Store.node (node "b").store "a" =
      .ok { id := "a", did := "", key := 0 :: point "a" } := by decide +kernel
  obtain rfl := Outcome.ok.inj (hnode.symm.trans hn)
  obtain rfl : point "a" = raw := Option.some.inj hraw
  have hpoint : SigLib.blsPublicKey (point "a") = some (point "a") := by decide
  obtain rfl : point "a" = pk := Option.some.inj (hpoint.symm.trans hpk)
  obtain rfl : point "a" = sk := Option.some.inj hsk
  obtain rfl : point "a" ++ data = sig := Outcome.ok.inj hsig
  exact decide_eq_true rfl

/-- Without one it is not. -/
theorem unkeyed_vote_accepted :
    ∃ e, P2P.publish "a" exactVote none = .ok e ∧ ∃ msg, P2P.msgs "b" e = some msg ∧
      (node "b").onMsg msg ≠ .err (.new "invalid signature") := by
  obtain ⟨e, msg, _, _, _, he, hmsg, _, _, _, _, hiff⟩ :=
    authenticated_iff exactDecoder_faithful env voteBody (node "a") (node "b") exactVote none rfl
      (by decide) (by decide +kernel) registered_key_a
  exact ⟨e, he, msg, hmsg, (hiff.mpr rfl).2⟩

end
end Consensus
end Didem
