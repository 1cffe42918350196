import Didem.Consensus.Sample
import Didem.Stream.Proof.RoundTrip
import Didem.Sync.Exchange

/-!
# An answer is the peer's tip, or none

`Handler` takes it that a request is answered or fails. Here is why it may: **a message that is read
short is never taken for another one.** The length of a small frame is in the first of its four
bytes, so it is read right however few of them come, if the bytes left in the buffer are zeros; they
are those of the length of the request, which is small too. The data is the beginning of the
message, or starts with a zero (`read_of_small`). The rest is up to protobuf (`ProtoLib.Lawful`): a
beginning of a message is refused, unless it ends with a field, and the chain is the last field of
both messages.
-/

set_option autoImplicit false

namespace Didem

open Lib Storage

/-! ## Small frames -/

namespace Stream

theorem write_of_small {m : Bytes} (hm : m.length < 256) :
    RW.write m = UInt8.ofNat m.length :: (List.replicate 3 0 ++ m) := by
  have h₁ : m.length / 2 ^ 8 = 0 := by omega
  have h₂ : m.length / 2 ^ 16 = 0 := by omega
  have h₃ : m.length / 2 ^ 24 = 0 := by omega
  rw [RW.write, putUint32, h₁, h₂, h₃]
  rfl

/-- The beginning of what comes after the first byte of a length. -/
theorem blank_of_append {h rest m : Bytes} (happ : List.replicate 3 0 ++ m = h ++ rest)
    (hlen : h.length ≤ 3) : Blank h := by
  have htake := congrArg (List.take h.length) happ
  rw [List.take_append_of_le_length (by simpa using hlen), List.take_left] at htake
  intro x hx
  rw [← htake] at hx
  exact List.eq_of_mem_replicate (List.mem_of_mem_take hx)

/-- The data is read off what the length has left. -/
theorem data_of_append {h d rest m : Bytes} (happ : List.replicate 3 0 ++ m = h ++ (d ++ rest))
    (hlen : h.length ≤ 3) (hd : d ≠ []) :
    (∃ j, 0 < j ∧ d = m.take j) ∨ ∃ rest, d = 0 :: rest := by
  have hdrop := congrArg (List.drop h.length) happ
  rw [List.drop_append_of_le_length (by simpa using hlen), List.drop_left, List.drop_replicate]
    at hdrop
  cases hleft : 3 - h.length with
  | zero =>
    rw [hleft, List.replicate_zero, List.nil_append] at hdrop
    exact .inl ⟨d.length, List.length_pos_of_ne_nil hd, by rw [hdrop, List.take_left]⟩
  | succ k =>
    obtain ⟨x, d, rfl⟩ := List.exists_cons_of_ne_nil hd
    rw [hleft, List.replicate_succ, List.cons_append, List.cons_append] at hdrop
    exact .inr ⟨d, by rw [(List.cons.inj hdrop).1]⟩

/-- A buffer with no more than the first byte of a length in it. -/
theorem blank_grow_of_drop (alloc : Alloc) {buf : Bytes} (h : Blank (buf.drop 1)) :
    Blank ((grow alloc 4 buf).drop 1) := by
  unfold grow
  split
  · exact h
  · exact (Blank.replicate _).drop 1

/-- Such is the buffer after a small frame was written. -/
theorem blank_wrote (alloc : Alloc) {m : Bytes} (hm : m.length < 256) (wire : Bytes)
    (chunks : Nat → Nat) :
    Blank (((RW.new wire chunks).wrote alloc (RW.write m)).buf.drop 1) := by
  have hzeros : Blank (List.replicate 3 0 ++ (grow alloc 4 []).drop 4) :=
    Blank.append.mpr ⟨.replicate 3, (blank_grow_nil alloc 4).drop 4⟩
  rw [write_of_small hm]
  exact hzeros

/-- **One `Read` of a small frame**, however it comes: the beginning of the message, or something
that starts with a zero. -/
theorem read_of_small (alloc : Alloc) {m : Bytes} (hne : m ≠ []) (hm : m.length < 256)
    {c : RW} (hbuf : Blank (c.buf.drop 1)) (hc : c.rd.content = RW.write m) :
    ∃ d, (c.read alloc).1 = .ok d ∧
      ((∃ j, 0 < j ∧ d = m.take j) ∨ ∃ rest, d = 0 :: rest) := by
  rw [write_of_small hm] at hc
  obtain ⟨h, hhne, hh4, hhead, happ⟩ :=
    @Reader.read_eq bufioSize 4 (by decide) c.rd (by rw [hc]; simp)
  obtain ⟨b, h, rfl⟩ := List.exists_cons_of_ne_nil hhne
  generalize hrd₁ : (c.rd.read bufioSize 4).2 = rd₁ at happ
  rw [hc, List.cons_append] at happ
  obtain ⟨rfl, hrest⟩ := List.cons.inj happ
  have hh3 : h.length ≤ 3 := by
    rw [List.length_cons] at hh4
    omega
  -- the length is right, whatever part of it has come
  have hlen : uint32 (overwrite (UInt8.ofNat m.length :: h) (grow alloc 4 c.buf)) = m.length := by
    have hold : Blank ((grow alloc 4 c.buf).drop (h.length + 1)) := by
      rw [Nat.add_comm, ← List.drop_drop]
      exact (blank_grow_of_drop alloc hbuf).drop _
    have hblank : Blank (h ++ (grow alloc 4 c.buf).drop (h.length + 1)) :=
      Blank.append.mpr ⟨blank_of_append hrest hh3, hold⟩
    refine (hblank.uint32_cons _).trans ?_
    rw [UInt8.toNat_ofNat']
    omega
  have hpos : 0 < m.length := List.length_pos_of_ne_nil hne
  have hcontent : rd₁.content ≠ [] := by
    intro hnil
    have hsum := congrArg List.length hrest
    rw [hnil, List.append_nil, List.length_append, List.length_replicate] at hsum
    omega
  obtain ⟨d, hdne, -, hdata, happ'⟩ := @Reader.read_eq bufioSize m.length hpos rd₁ hcontent
  have hread := RW.read_of_reads alloc (Prod.ext hhead hrd₁) hlen (Prod.ext hdata rfl)
  refine ⟨d, congrArg Prod.fst hread, ?_⟩
  exact data_of_append (hrest.trans (congrArg (h ++ ·) happ')) hh3 hdne

theorem content_new (w : Bytes) (chunks : Nat → Nat) : (RW.new w chunks).rd.content = w := rfl

/-- One `Read` of a frame that is not split, whatever is in the buffer. -/
theorem read_of_unsplit (alloc : Alloc) {m : Bytes} (hm : m.length < 2 ^ 32) {chunks : Nat → Nat}
    (h : Unsplit [m] chunks) {c : RW} (hc : c.rd = (RW.new (RW.write m) chunks).rd) :
    (c.read alloc).1 = .ok m := by
  have hwire : wire [m] = RW.write m := List.append_nil _
  have hcontent : c.rd.content = putUint32 m.length ++ (m ++ []) := by
    rw [hc, content_new, List.append_nil, RW.write]
  have hserves : Reader.Serves bufioSize [4, m.length] c.rd.buffered.length
      c.rd.transport.rest.length c.rd.transport.chunks := by
    rw [Unsplit, hwire] at h
    rw [hc]
    exact h
  obtain ⟨c', hread, -⟩ := RW.read_of_serves alloc hm hcontent hserves
  rw [hread]

end Stream

/-! ## The format -/

namespace Sync

open Didem.Stream

/-- What the two ends count on: a message is read back, a number of a field is never zero, and of
the fields of a message that is cut short the last is missing, if it is not refused. -/
structure ProtoLib.Lawful [ProtoLib] : Prop where
  request {chainID b : Bytes} (h : marshalRequest chainID = .ok b) :
    unmarshalRequest b = .ok (some chainID)
  request_ne_nil {chainID b : Bytes} (h : marshalRequest chainID = .ok b) : b ≠ []
  request_cut {chainID b : Bytes} {j : Nat} (h : marshalRequest chainID = .ok b) (hpos : 0 < j)
    (hj : j < b.length) (r : Option Bytes) : unmarshalRequest (b.take j) ≠ .ok r
  request_zero (rest : Bytes) (r : Option Bytes) : unmarshalRequest (0 :: rest) ≠ .ok r
  response {r : TipResponse} {b : Bytes} (h : marshalResponse r = .ok b) :
    unmarshalResponse b = .ok r
  response_ne_nil {r : TipResponse} {b : Bytes} (h : marshalResponse r = .ok b)
    (hchain : r.chainId ≠ []) : b ≠ []
  response_cut {r r' : TipResponse} {b : Bytes} {j : Nat} (h : marshalResponse r = .ok b)
    (hpos : 0 < j) (hj : j < b.length) (hr : unmarshalResponse (b.take j) = .ok r') :
    r'.chainId = []
  response_zero (rest : Bytes) (r : TipResponse) : unmarshalResponse (0 :: rest) ≠ .ok r

/-! ## The exchange -/

section

variable [ProtoLib]

/-- **A request is understood as it is or not at all**, however much of it has come. -/
theorem unmarshalRequest_of_read (hproto : ProtoLib.Lawful) {chainID b d : Bytes}
    (hb : ProtoLib.marshalRequest chainID = .ok b)
    (hd : (∃ j, 0 < j ∧ d = b.take j) ∨ ∃ rest, d = 0 :: rest) {r : Option Bytes}
    (hr : ProtoLib.unmarshalRequest d = .ok r) : r = some chainID := by
  rcases hd with ⟨j, hpos, rfl⟩ | ⟨rest, rfl⟩
  · by_cases hj : j < b.length
    · exact absurd hr (hproto.request_cut hb hpos hj r)
    · rw [List.take_of_length_le (by omega), hproto.request hb] at hr
      exact (Outcome.ok.inj hr).symm
  · exact absurd hr (hproto.request_zero rest r)

/-- **A response is understood as it is, or without its chain, or not at all.** -/
theorem unmarshalResponse_of_read (hproto : ProtoLib.Lawful) {r : TipResponse} {b d : Bytes}
    (hb : ProtoLib.marshalResponse r = .ok b)
    (hd : (∃ j, 0 < j ∧ d = b.take j) ∨ ∃ rest, d = 0 :: rest) {r' : TipResponse}
    (hr : ProtoLib.unmarshalResponse d = .ok r') : r'.chainId = [] ∨ r' = r := by
  rcases hd with ⟨j, hpos, rfl⟩ | ⟨rest, rfl⟩
  · by_cases hj : j < b.length
    · exact .inl (hproto.response_cut hb hpos hj hr)
    · rw [List.take_of_length_le (by omega), hproto.response hb] at hr
      exact .inr (Outcome.ok.inj hr).symm
  · exact absurd hr (hproto.response_zero rest r')

variable {S M : Type} [CidText] {chainID : Bytes} {c : Consensus S M}

theorem handle_of_read {alloc : Alloc} {s : RW} {d : Bytes} (hread : (s.read alloc).1 = .ok d)
    (h : ProtoLib.unmarshalRequest d = .ok (some chainID)) :
    handle alloc c s = writeResponse (handleTipReq chainID c) := by
  simp only [handle, hread, h]

theorem handle_of_refused {alloc : Alloc} {s : RW} {d : Bytes} (hread : (s.read alloc).1 = .ok d)
    (h : ∀ r, ProtoLib.unmarshalRequest d ≠ .ok r) : handle alloc c s = [] := by
  cases hr : ProtoLib.unmarshalRequest d with
  | ok r => exact absurd hr (h r)
  | err e => simp only [handle, hread, hr]
  | panic => simp only [handle, hread, hr]

/-- What the peer reads, if anything, is the request. -/
theorem handle_request (hproto : ProtoLib.Lawful) {b : Bytes}
    (hb : ProtoLib.marshalRequest chainID = .ok b) (hsmall : b.length < 256) (alloc : Alloc)
    (chunks : Nat → Nat) :
    handle alloc c (RW.new (RW.write b) chunks) = [] ∨
      handle alloc c (RW.new (RW.write b) chunks) = writeResponse (handleTipReq chainID c) := by
  obtain ⟨d, hread, hd⟩ := read_of_small alloc (hproto.request_ne_nil hb) hsmall
    (c := RW.new (RW.write b) chunks) (List.forall_mem_nil _) (content_new _ _)
  by_cases hrefused : ∀ r, ProtoLib.unmarshalRequest d ≠ .ok r
  · exact .inl (handle_of_refused hread hrefused)
  · push Not at hrefused
    obtain ⟨r, hr⟩ := hrefused
    obtain rfl := unmarshalRequest_of_read hproto hb hd hr
    exact .inr (handle_of_read hread hr)

/-- What it writes, if anything, is its tip. -/
theorem writeResponse_handleTipReq :
    writeResponse (handleTipReq chainID c) = [] ∨ chainID = c.chain ∧
      ∃ b, ProtoLib.marshalResponse { tip := c.state.block.string, chainId := chainID } = .ok b ∧
        writeResponse (handleTipReq chainID c) = RW.write b := by
  by_cases hchain : chainID = c.chain
  · subst hchain
    cases hb : ProtoLib.marshalResponse { tip := c.state.block.string, chainId := c.chain } with
    | ok b => exact .inr ⟨rfl, b, rfl, by simp [handleTipReq, writeResponse, hb]⟩
    | err e => exact .inl (by simp [handleTipReq, writeResponse, hb])
    | panic => exact .inl (by simp [handleTipReq, writeResponse, hb])
  · exact .inl (by simp [handleTipReq, writeResponse, hchain])

omit [CidText] in
theorem read_of_reqTipOver {l : Link} {peer : Bytes → Bytes} {tip : String}
    (h : reqTipOver l peer chainID = .ok tip) :
    ∃ b br, ProtoLib.marshalRequest chainID = .ok b ∧
      (((RW.new (peer (RW.write b)) l.chunks).wrote l.alloc (RW.write b)).read l.alloc).1 = .ok br ∧
        takeResponse chainID br = .ok tip := by
  unfold reqTipOver at h
  split at h
  · obtain ⟨b, hb, h⟩ := Outcome.bind_eq_ok.mp h
    obtain ⟨br, hbr, htake⟩ := Outcome.bind_eq_ok.mp h
    exact ⟨b, br, Outcome.mapErr_eq_ok.mp hb, Outcome.mapErr_eq_ok.mp hbr, htake⟩
  · cases h

omit [CidText] in
theorem reqTipOver_of_read {l : Link} {peer : Bytes → Bytes} {b w br : Bytes}
    (hopens : l.opens = true) (hb : ProtoLib.marshalRequest chainID = .ok b)
    (hpeer : peer (RW.write b) = w)
    (hread : (((RW.new w l.chunks).wrote l.alloc (RW.write b)).read l.alloc).1 = .ok br) :
    reqTipOver l peer chainID = takeResponse chainID br := by
  subst hpeer
  simp only [reqTipOver, hopens, if_true, hb, Outcome.mapErr, Outcome.ok_bind, hread]

omit [CidText] in
/-- What is taken for an answer is one, and about this chain. -/
theorem takeResponse_eq_ok {br : Bytes} {tip : String} :
    takeResponse chainID br = .ok tip ↔
      ProtoLib.unmarshalResponse br = .ok { tip, chainId := chainID } := by
  unfold takeResponse
  cases hr : ProtoLib.unmarshalResponse br with
  | err e => simp [Outcome.mapErr]
  | panic => simp [Outcome.mapErr]
  | ok r =>
    obtain ⟨tip', chainId⟩ := r
    simp only [Outcome.mapErr, Outcome.ok_bind, reqTip, Outcome.ok.injEq, TipResponse.mk.injEq]
    split
    · rename_i hne
      simp [hne]
    · rename_i heq
      simp [not_not.mp heq]

omit [ProtoLib] [CidText] in
/-- Where there is no answer, the stream ends. -/
theorem read_nil (alloc : Alloc) (frame : Bytes) (chunks : Nat → Nat) :
    (((RW.new [] chunks).wrote alloc frame).read alloc).1 = .err (.new "EOF") := rfl

/-- A tip that comes back is the one of the peer. What the peer reads is the request or refused, and
what it wrote is read back as far as it was read: whole, or refused, or without its chain. -/
theorem tip_of_exchange (hproto : ProtoLib.Lawful) {l : Link} (hne : chainID ≠ [])
    (hreq : ∀ b, ProtoLib.marshalRequest chainID = .ok b → b.length < 256)
    (hresp : ∀ b, ProtoLib.marshalResponse { tip := c.state.block.string, chainId := chainID } =
      .ok b → b.length < 256)
    {tip : String} (h : exchange l chainID c = .ok tip) :
    reqTip chainID (handleTipReq chainID c) = .ok tip := by
  obtain ⟨b, br, hb, hread, htake⟩ := read_of_reqTipOver h
  rw [takeResponse_eq_ok] at htake
  rcases handle_request hproto hb (hreq b hb) l.allocPeer l.chunksPeer with hnone | hsome
  · rw [hnone, read_nil] at hread
    cases hread
  rw [hsome] at hread
  rcases @writeResponse_handleTipReq _ S M _ chainID c with hnone | ⟨hchain, b', hb', hwrite⟩
  · rw [hnone, read_nil] at hread
    cases hread
  rw [hwrite] at hread
  obtain ⟨d, hd, hform⟩ := read_of_small l.alloc (hproto.response_ne_nil hb' hne)
    (hresp b' hb') (blank_wrote l.alloc (hreq b hb) (RW.write b') l.chunks)
    (content_new (RW.write b') l.chunks)
  obtain rfl := Outcome.ok.inj (hd.symm.trans hread)
  rcases unmarshalResponse_of_read hproto hb' hform htake with hempty | heq
  · exact absurd hempty hne
  · obtain ⟨rfl, -⟩ := TipResponse.mk.inj heq
    simp [handleTipReq, hchain, reqTip]

/-- On a stream that opens and splits nothing the tip comes back. -/
theorem exchange_of_unsplit (hproto : ProtoLib.Lawful) {l : Link} {b b' : Bytes}
    (hb : ProtoLib.marshalRequest chainID = .ok b)
    (hb' : ProtoLib.marshalResponse { tip := c.state.block.string, chainId := chainID } = .ok b')
    (hlen : b.length < 256) (hlen' : b'.length < 256) (hopens : l.opens = true)
    (hsplit : Unsplit [b] l.chunksPeer) (hsplit' : Unsplit [b'] l.chunks) {tip : String}
    (htip : reqTip chainID (handleTipReq chainID c) = .ok tip) :
    exchange l chainID c = .ok tip := by
  have hchain : chainID = c.chain := by
    by_contra hchain
    simp [handleTipReq, hchain, reqTip] at htip
  obtain rfl : c.state.block.string = tip := by simpa [handleTipReq, hchain, reqTip] using htip
  have hasked := read_of_unsplit l.allocPeer (by omega) hsplit
    (c := RW.new (RW.write b) l.chunksPeer) rfl
  have hwrite : writeResponse (handleTipReq chainID c) = RW.write b' := by
    subst hchain
    simp [handleTipReq, writeResponse, hb']
  have hread := read_of_unsplit l.alloc (by omega) hsplit'
    (c := (RW.new (RW.write b') l.chunks).wrote l.alloc (RW.write b)) rfl
  have hpeer : handle l.allocPeer c (RW.new (RW.write b) l.chunksPeer) = RW.write b' :=
    (handle_of_read hasked (hproto.request hb)).trans hwrite
  rw [exchange, reqTipOver_of_read hopens hb hpeer hread]
  exact takeResponse_eq_ok.mpr (hproto.response hb')

/-- **A request is answered as `handleTipReq` says, or fails.** Let the format be lawful, the chain
have a name and the two messages be small. However the stream splits what is written to it: a tip
that `ReqTip` returns is the one of the peer, on the same chain. And where the messages can be
encoded, the stream opens and nothing is split, the tip is returned. -/
theorem exchange_refines (hproto : ProtoLib.Lawful) (l : Link) (chainID : Bytes)
    (c : Consensus S M) (hne : chainID ≠ [])
    (hreq : ∀ b, ProtoLib.marshalRequest chainID = .ok b → b.length < 256)
    (hresp : ∀ b, ProtoLib.marshalResponse { tip := c.state.block.string, chainId := chainID } =
      .ok b → b.length < 256) :
    (∀ tip, exchange l chainID c = .ok tip → reqTip chainID (handleTipReq chainID c) = .ok tip) ∧
      ∀ b b', ProtoLib.marshalRequest chainID = .ok b →
        ProtoLib.marshalResponse { tip := c.state.block.string, chainId := chainID } = .ok b' →
        l.opens = true → Unsplit [b] l.chunksPeer → Unsplit [b'] l.chunks →
        ∀ tip, reqTip chainID (handleTipReq chainID c) = .ok tip →
          exchange l chainID c = .ok tip := by
  constructor
  · intro tip htip
    exact tip_of_exchange hproto hne hreq hresp htip
  · intro b b' hb hb' hopens hsplit hsplit' tip htip
    exact exchange_of_unsplit hproto hb hb' (hreq b hb) (hresp b' hb') hopens hsplit hsplit' htip

end

section

open Storage.Sample Didem.Sample

/-- A field with the number of its bytes and one before them, if that is a byte. -/
def putField (d : Bytes) : Outcome Err Bytes :=
  if d.length < 255 then .ok (UInt8.ofNat (d.length + 1) :: d) else .err (.new "too long")

def getField : Bytes → Option (Bytes × Bytes)
  | [] => none
  | n :: d =>
    if n = 0 ∨ d.length < n.toNat - 1 then none else some (d.take (n.toNat - 1), d.drop (n.toNat - 1))

theorem putField_eq_ok {d b : Bytes} (h : putField d = .ok b) :
    ∃ n : UInt8, n.toNat = d.length + 1 ∧ b = n :: d := by
  unfold putField at h
  split at h
  · refine ⟨_, ?_, (Outcome.ok.inj h).symm⟩
    rw [UInt8.toNat_ofNat']
    omega
  · cases h

theorem ne_zero_of_toNat {n : UInt8} {k : Nat} (h : n.toNat = k + 1) : n ≠ 0 := by
  rintro rfl
  cases h

theorem getField_putField {d b : Bytes} (h : putField d = .ok b) (rest : Bytes) :
    getField (b ++ rest) = some (d, rest) := by
  obtain ⟨n, hn, rfl⟩ := putField_eq_ok h
  simp [getField, hn, ne_zero_of_toNat hn]

theorem getField_take {d b : Bytes} (h : putField d = .ok b) {j : Nat} (hj : j < b.length) :
    getField (b.take j) = none := by
  obtain ⟨n, hn, rfl⟩ := putField_eq_ok h
  cases j with
  | zero => rfl
  | succ j =>
    rw [List.length_cons] at hj
    simp [getField, hn]
    omega

/-- A format of such fields, in place of protobuf. The last field may be missing. -/
local instance fieldProto : ProtoLib where
  marshalRequest := putField
  unmarshalRequest b :=
    match getField b with
    | some (d, []) => .ok (some d)
    | _ => .err (.new "unmarshal")
  marshalResponse r := do return (← putField (stringBytes r.tip)) ++ (← putField r.chainId)
  unmarshalResponse b :=
    match getField b with
    | none => .err (.new "unmarshal")
    | some (tip, rest) =>
      let tip := (String.fromUTF8? ⟨tip.toArray⟩).getD ""
      match rest, getField rest with
      | [], _ => .ok { tip, chainId := [] }
      | _, some (chainId, []) => .ok { tip, chainId }
      | _, _ => .err (.new "unmarshal")

theorem fromUTF8_stringBytes (s : String) :
    (String.fromUTF8? ⟨(stringBytes s).toArray⟩).getD "" = s := by
  have hbytes : (⟨(stringBytes s).toArray⟩ : ByteArray) = s.toUTF8 := by simp [stringBytes]
  rw [hbytes, String.fromUTF8?, dif_pos (show s.toUTF8.IsValidUTF8 from s.isValidUTF8)]
  rfl

theorem marshalResponse_eq_ok {r : TipResponse} {b : Bytes}
    (h : ProtoLib.marshalResponse r = .ok b) :
    ∃ f g, putField (stringBytes r.tip) = .ok f ∧ putField r.chainId = .ok g ∧ b = f ++ g := by
  obtain ⟨f, hf, h⟩ := Outcome.bind_eq_ok.mp h
  obtain ⟨g, hg, h⟩ := Outcome.bind_eq_ok.mp h
  exact ⟨f, g, hf, hg, (Outcome.ok.inj h).symm⟩

theorem unmarshalResponse_append {d f : Bytes} (hf : putField d = .ok f) (rest : Bytes) :
    ProtoLib.unmarshalResponse (f ++ rest) =
      match rest, getField rest with
      | [], _ => .ok { tip := (String.fromUTF8? ⟨d.toArray⟩).getD "", chainId := [] }
      | _, some (chainId, []) =>
        .ok { tip := (String.fromUTF8? ⟨d.toArray⟩).getD "", chainId }
      | _, _ => .err (.new "unmarshal") := by
  simp only [ProtoLib.unmarshalResponse, getField_putField hf]

theorem length_of_putField {d b : Bytes} (h : putField d = .ok b) : b.length = d.length + 1 := by
  obtain ⟨n, -, rfl⟩ := putField_eq_ok h
  rfl

theorem ne_nil_of_putField {d b : Bytes} (h : putField d = .ok b) : b ≠ [] :=
  List.ne_nil_of_length_pos (by rw [length_of_putField h]; omega)

theorem fieldProto_lawful : ProtoLib.Lawful where
  request h := by
    have hget := getField_putField h []
    rw [List.append_nil] at hget
    simp only [ProtoLib.unmarshalRequest, hget]
  request_ne_nil h := ne_nil_of_putField h
  request_cut h _ hj r := by simp [ProtoLib.unmarshalRequest, getField_take h hj]
  request_zero rest r := by simp [ProtoLib.unmarshalRequest, getField]
  response {r b} h := by
    obtain ⟨f, g, hf, hg, rfl⟩ := marshalResponse_eq_ok h
    obtain ⟨n, -, hn⟩ := putField_eq_ok hg
    have hget := getField_putField hg []
    rw [List.append_nil, hn] at hget
    rw [unmarshalResponse_append hf, hn]
    simp only [hget, fromUTF8_stringBytes]
  response_ne_nil h _ := by
    obtain ⟨f, g, hf, hg, rfl⟩ := marshalResponse_eq_ok h
    simp [ne_nil_of_putField hf]
  response_cut {r r' b j} h hpos hj hr := by
    obtain ⟨f, g, hf, hg, rfl⟩ := marshalResponse_eq_ok h
    rw [List.length_append] at hj
    by_cases hshort : j < f.length
    · rw [List.take_append_of_le_length (Nat.le_of_lt hshort)] at hr
      simp [ProtoLib.unmarshalResponse, getField_take hf hshort] at hr
    · have hcut := getField_take hg (show j - f.length < g.length by omega)
      rw [List.take_append, List.take_of_length_le (by omega), unmarshalResponse_append hf,
        hcut] at hr
      split at hr
      · rw [← Outcome.ok.inj hr]
      · rename_i heq _
        cases heq
      · cases hr
  response_zero rest r := by simp [ProtoLib.unmarshalResponse, getField]

/-- A stream that passes a request on as it is, and answers in pieces of this size. -/
def pieces (size : Nat) : Link := ⟨true, fun _ n => n, fun _ => size, fun _ n => n, fun _ => 4096⟩

/-- The node `a` is asked for its tip, and answers. If there is an answer where it is read byte by
byte, it is the same. -/
theorem wholeLink_answers :
    exchange (pieces 4096) [9] (node "a") = .ok (node "a").state.block.string ∧
      ∀ tip, exchange (pieces 1) [9] (node "a") = .ok tip →
        tip = (node "a").state.block.string := by
  have hreq : ∀ b, ProtoLib.marshalRequest [9] = .ok b → b.length < 256 := by
    intro b hb
    rw [length_of_putField hb]
    decide
  have hresp : ∀ b, ProtoLib.marshalResponse
      { tip := (node "a").state.block.string, chainId := [9] } = .ok b → b.length < 256 := by
    intro b hb
    obtain ⟨f, g, hf, hg, rfl⟩ := marshalResponse_eq_ok hb
    rw [List.length_append, length_of_putField hf, length_of_putField hg]
    decide +kernel
  have hwhole := exchange_refines fieldProto_lawful (pieces 4096) [9] (node "a") (by decide) hreq
    hresp
  have hpieces := exchange_refines fieldProto_lawful (pieces 1) [9] (node "a") (by decide) hreq
    hresp
  refine ⟨hwhole.2 _ _ rfl rfl rfl (by decide +kernel) (by decide +kernel) _ rfl, ?_⟩
  intro tip htip
  exact (Outcome.ok.inj (hpieces.1 tip htip)).symm

end

end Sync
end Didem
