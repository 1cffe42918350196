import Didem.Comm.Session
import Didem.Stream.Proof.RoundTrip

/-!
# No message is ever delivered

A session has to get past three checks of a signature, and **each of them clears the signature first
and then verifies what it cleared**: `hd` is the hello and not a copy of it. No scheme accepts an
empty signature (`RejectsEmpty`), so no check can be passed (`checkSignature_ne_ok`), no hello is
accepted and nothing reaches an inbox (`never_delivers`).

An honest session does not come that far. The server compares the keys its resolver returns with
those of the hello, which are decoded: they were held in interfaces, and are keys no more
(`matches_of_decoded`). So it finds that the sender is somebody else (`honest_session_refused`).
-/

set_option autoImplicit false

namespace Didem.Comm

open Lib Storage Didem.Stream

section

variable [CommLib]

/-! ## An honest hello -/

/-- Decoding gives back what was encoded, but for the keys. -/
def CommLib.RoundTrips : Prop :=
  ∀ {m : Message} {b : Bytes}, CommLib.marshal m = .ok b → ∀ heap,
    ∃ m', CommLib.unmarshal heap b = .ok m' ∧ m'.keyless = m.keyless ∧ m'.Foreign

omit [CommLib] in
/-- A key is not found among what was decoded. -/
theorem hasKey_of_foreign {k : PublicKey} (hk : k.type.signs = true) (ppks : List PublicKey)
    (hforeign : ∀ k' ∈ ppks, k'.type.signs = false) : hasKey k ppks = .ok false := by
  induction ppks with
  | nil => rfl
  | cons k' ppks ih =>
    obtain ⟨hk', hforeign⟩ := List.forall_mem_cons.mp hforeign
    have hne : k'.type ≠ k.type := fun heq => by simp [heq, hk] at hk'
    rw [hasKey, PublicKey.eq, if_pos hne, ih hforeign]
    rfl

omit [CommLib] in
/-- **No identity matches itself after it has been sent.** -/
theorem matches_of_decoded {pi p : PublicIdentity} {k : PublicKey} {ks : List PublicKey}
    (hkeys : pi.publicKeys = k :: ks) (hk : k.type.signs = true)
    (hforeign : ∀ k ∈ p.publicKeys, k.type.signs = false) : pi.matches p = .ok false := by
  unfold PublicIdentity.matches
  split
  · rfl
  · rw [hkeys, hasKeys, hasKey_of_foreign hk _ hforeign]
    rfl

/-- A hello that was sent is an encoded message between the parties of the email, with nothing in
it. -/
theorem frame_of_sendHello {c : ClientHandler} {ω : Side} {frame : Bytes}
    (h : c.sendHello ω = .ok frame) :
    ∃ hello b, CommLib.marshal hello = .ok b ∧ frame = RW.write b ∧
      hello.sender = c.email.sender ∧ hello.recipients = c.email.recipients ∧
      hello.body = [] ∧ hello.attachments = [] := by
  obtain ⟨hello, hnew, hwrite⟩ := Outcome.bind_eq_ok.mp h
  obtain ⟨signed, hsigned, hencode⟩ := Outcome.bind_eq_ok.mp hwrite
  obtain ⟨b, hb, hframe⟩ := Outcome.bind_eq_ok.mp hencode
  have hnew := Outcome.mapErr_eq_ok.mp hnew
  unfold newHello at hnew
  split at hnew
  · exact absurd hnew (by simp)
  · obtain rfl := Outcome.ok.inj hnew
    obtain ⟨_, -, hsigned⟩ := Outcome.bind_eq_ok.mp (Outcome.mapErr_eq_ok.mp hsigned)
    obtain ⟨_, -, hsigned⟩ := Outcome.bind_eq_ok.mp hsigned
    obtain ⟨_, -, hsigned⟩ := Outcome.bind_eq_ok.mp hsigned
    obtain rfl := Outcome.ok.inj hsigned
    exact ⟨_, b, Outcome.mapErr_eq_ok.mp hb, (Outcome.ok.inj hframe).symm, rfl, rfl, rfl, rfl⟩

/-- What a server makes of a hello that arrived as it was sent. -/
theorem validateClientHello_of_decoded {resolver : Resolver} {idStore : IdentityStore}
    {sender rcpt : PublicIdentity} {k : PublicKey} {ks : List PublicKey}
    {identity : Option PrivateKey} {hello decoded : Message} (hsender : hello.sender = some sender)
    (hrcpt : hello.recipients.head? = some (some rcpt)) (hbody : hello.body = [])
    (hattachments : hello.attachments = []) (hkeys : sender.publicKeys = k :: ks)
    (hk : k.type.signs = true) (hresolve : resolver sender.id = .ok (some sender))
    (hfind : idStore rcpt.id = .ok identity) (hsame : decoded.keyless = hello.keyless)
    (hforeign : decoded.Foreign) :
    ServerHandler.validateClientHello resolver idStore decoded =
      .err (.new "public identity mismatch") := by
  have hbody' : decoded.body = [] := (congrArg Message.body hsame).trans hbody
  have hattachments' : decoded.attachments = [] :=
    (congrArg Message.attachments hsame).trans hattachments
  obtain ⟨sender', hsender', hsid⟩ : ∃ pi, decoded.sender = some pi ∧ pi.id = sender.id := by
    have hmap : decoded.sender.map PublicIdentity.keyless =
        hello.sender.map PublicIdentity.keyless := congrArg Message.sender hsame
    rw [hsender] at hmap
    obtain ⟨pi, hpi, hsame⟩ := Option.map_eq_some_iff.mp hmap
    have hid : pi.keyless.id = sender.keyless.id := congrArg PublicIdentity.id hsame
    exact ⟨pi, hpi, hid⟩
  obtain ⟨rcpt', hto, hid⟩ : ∃ pi, decoded.to0 = .ok pi ∧ pi.id = rcpt.id := by
    have hmap : decoded.recipients.map (Option.map PublicIdentity.keyless) =
        hello.recipients.map (Option.map PublicIdentity.keyless) :=
      congrArg Message.recipients hsame
    have hhead := congrArg List.head? hmap
    rw [List.head?_map, List.head?_map, hrcpt] at hhead
    obtain ⟨p, hp, hpe⟩ := Option.map_eq_some_iff.mp hhead
    obtain ⟨pi, rfl, hpi⟩ := Option.map_eq_some_iff.mp hpe
    have hid : pi.keyless.id = rcpt.keyless.id := congrArg PublicIdentity.id hpi
    exact ⟨pi, by rw [Message.to0, hp]; rfl, hid⟩
  have hmatch := matches_of_decoded hkeys hk (hforeign sender' (.inl hsender'))
  unfold ServerHandler.validateClientHello
  rw [if_neg (not_not.mpr hbody'), if_neg (not_not.mpr hattachments'), hto]
  simp only [Outcome.ok_bind, hid, hfind, hsender', deref, hsid, hresolve, hmatch, Outcome.mapErr]
  rfl

theorem readMessage_of_read {ω : Side} (reading : Err → Err) (parsing : String) {rw : RW}
    {b : Bytes} {decoded : Message} (hread : (rw.read ω.alloc).1 = .ok b)
    (hdecode : CommLib.unmarshal ω.heap b = .ok decoded) :
    ((readMessage ω reading parsing).run rw).1 = .ok decoded := by
  rw [← run_readFrame] at hread
  unfold readMessage
  rw [Proc.fst_bind_of_ok _ (Proc.fst_wrap_of_ok _ hread), Proc.run_lift, hdecode]
  rfl

/-- A frame that arrives is read and decoded. -/
theorem readClientHello_of_arrives {ω : Side} {chunks : Nat → Nat} {b : Bytes} {decoded : Message}
    (harrives : Arrives ω.alloc [b] chunks) (hdecode : CommLib.unmarshal ω.heap b = .ok decoded) :
    ((ServerHandler.readClientHello ω).run (RW.new (RW.write b) chunks)).1 = .ok decoded := by
  have hread := read_of_arrives harrives
  rw [show wire [b] = RW.write b from List.append_nil _] at hread
  exact readMessage_of_read _ _ hread hdecode

/-- **How an honest session ends**: the hello arrives, and the server refuses the sender's
identity. -/
theorem honest_session_refused (hlib : CommLib.RoundTrips) {ω : Net} {c : ClientHandler}
    {s : ServerHandler} {resolver : Resolver} {idStore : IdentityStore}
    {sender rcpt : PublicIdentity} {k : PublicKey} {ks : List PublicKey}
    {identity : Option PrivateKey} {frame : Bytes} (hresolver : s.resolver = some resolver)
    (hstore : s.idStore = some idStore) (hsender : c.email.sender = some sender)
    (hrcpt : c.email.recipients.head? = some (some rcpt)) (hkeys : sender.publicKeys = k :: ks)
    (hk : k.type.signs = true) (hresolve : resolver sender.id = .ok (some sender))
    (hfind : idStore rcpt.id = .ok identity) (hsent : c.sendHello ω.client = .ok frame)
    (harrives : ∀ b, frame = RW.write b → Arrives ω.server.alloc [b] ω.toServer) :
    (session ω c s).server =
      .err (.wrap (.new "public identity mismatch") "validating client hello") := by
  obtain ⟨hello, b, hb, rfl, hs, hr, hbody, hattachments⟩ := frame_of_sendHello hsent
  obtain ⟨decoded, hdecode, hsame, hforeign⟩ := hlib hb ω.server.heap
  have hread := readClientHello_of_arrives (harrives b rfl) hdecode
  have hvalid := validateClientHello_of_decoded (hs.trans hsender) (hr ▸ hrcpt) hbody hattachments
    hkeys hk hresolve hfind hsame hforeign
  have hgreet : ((s.greet ω.server).run (RW.new (RW.write b) ω.toServer)).1 =
      .err (.wrap (.new "public identity mismatch") "validating client hello") := by
    simp only [ServerHandler.greet, hresolver, hstore]
    refine (Proc.fst_bind_of_ok _ (Proc.fst_wrap_of_ok _ hread)).trans ?_
    rw [Proc.run_bind, Proc.run_lift, hvalid]
    rfl
  show (goOn ω c s _ ((s.greet ω.server).run (RW.new (sentBy _) ω.toServer)).1 _).server = _
  rw [hsent, show sentBy (.ok (RW.write b)) = RW.write b from rfl, hgreet]
  rfl

/-! ## Signatures -/

/-- No scheme takes an empty signature for one: an Ed25519 signature has 64 bytes and an ECDSA one
is an ASN.1 sequence. -/
structure CommLib.RejectsEmpty : Prop where
  ecdsa : ∀ pk h, CommLib.ecdsaVerify pk h [] ≠ .ok true
  ed25519 : ∀ pk b, CommLib.ed25519Verify pk b [] ≠ .ok true

theorem verify_eq_ok {pk : PublicKey} {b sig : Bytes} (h : verify pk b sig = .ok ()) :
    CommLib.ed25519Verify pk.key b sig = .ok true ∨
      CommLib.ecdsaVerify pk.key (CommLib.sha3Sum512 b) sig = .ok true := by
  obtain ⟨valid, hvalid, h⟩ := Outcome.bind_eq_ok.mp h
  cases valid with
  | false => exact absurd h (by simp)
  | true =>
    cases htype : pk.type with
    | ecdsa =>
      simp only [htype] at hvalid
      exact .inr hvalid
    | ed25519 =>
      simp only [htype] at hvalid
      exact .inl hvalid
    | rsa =>
      simp only [htype] at hvalid
      obtain ⟨_, -, hret⟩ := Outcome.bind_eq_ok.mp hvalid
      exact absurd hret (by simp)
    | other name pointer =>
      simp only [htype] at hvalid
      exact absurd hvalid (by simp)

section

variable (hlib : CommLib.RejectsEmpty)

include hlib

theorem verify_empty_ne_ok (pk : PublicKey) (b : Bytes) : verify pk b [] ≠ .ok () := by
  intro h
  cases verify_eq_ok h with
  | inl h => exact hlib.ed25519 _ _ h
  | inr h => exact hlib.ecdsa _ _ h

theorem hasMatchingSignature_empty_ne_true (b : Bytes) (pks : List PublicKey) :
    hasMatchingSignature b [] pks ≠ .ok true := by
  induction pks with
  | nil => simp [hasMatchingSignature]
  | cons pk pks ih =>
    unfold hasMatchingSignature
    split
    · next hok => exact absurd hok (verify_empty_ne_ok hlib pk b)
    · exact ih
    · simp

/-- **The check that is made last can not be passed**, by any message and under any keys. -/
theorem checkSignature_ne_ok (m : Message) (keys : Outcome Err (List PublicKey))
    (missing : String) : checkSignature m keys missing ≠ .ok () := by
  intro h
  obtain ⟨b, -, h⟩ := Outcome.bind_eq_ok.mp h
  obtain ⟨pks, -, h⟩ := Outcome.bind_eq_ok.mp h
  obtain ⟨found, hfound, h⟩ := Outcome.bind_eq_ok.mp h
  cases found with
  | true => exact hasMatchingSignature_empty_ne_true hlib b pks hfound
  | false => exact absurd h (by simp)

/-! ## The two hellos -/

theorem validateClientHello_ne_ok (resolver : Resolver) (idStore : IdentityStore)
    (clientHello : Message) (identity : Option PrivateKey) :
    ServerHandler.validateClientHello resolver idStore clientHello ≠ .ok identity := by
  intro h
  unfold ServerHandler.validateClientHello at h
  split at h
  · exact absurd h (by simp)
  · split at h
    · exact absurd h (by simp)
    · obtain ⟨rcpt, -, h⟩ := Outcome.bind_eq_ok.mp h
      obtain ⟨pi, -, h⟩ := Outcome.bind_eq_ok.mp h
      obtain ⟨sender, -, h⟩ := Outcome.bind_eq_ok.mp h
      obtain ⟨pk, -, h⟩ := Outcome.bind_eq_ok.mp h
      obtain ⟨known, -, h⟩ := Outcome.bind_eq_ok.mp h
      obtain ⟨same, -, h⟩ := Outcome.bind_eq_ok.mp h
      cases same with
      | false => exact absurd h (by simp)
      | true =>
        obtain ⟨_, hcheck, -⟩ := Outcome.bind_eq_ok.mp h
        exact checkSignature_ne_ok hlib _ _ _ hcheck

theorem validateServerHello_ne_ok (c : ClientHandler) (ω : Side) (h : Message) :
    c.validateServerHello ω h ≠ .ok () := by
  intro hok
  unfold ClientHandler.validateServerHello at hok
  simp only at hok
  split at hok
  · exact absurd hok (by simp)
  · split at hok
    · exact absurd hok (by simp)
    · obtain ⟨rcpt, -, hok⟩ := Outcome.bind_eq_ok.mp hok
      split at hok
      · exact absurd hok (by simp)
      · obtain ⟨sender, -, hok⟩ := Outcome.bind_eq_ok.mp hok
        obtain ⟨recipient, -, hok⟩ := Outcome.bind_eq_ok.mp hok
        split at hok
        · exact absurd hok (by simp)
        · obtain ⟨same, -, hok⟩ := Outcome.bind_eq_ok.mp hok
          cases same with
          | false => exact absurd hok (by simp)
          | true =>
            obtain ⟨me, -, hok⟩ := Outcome.bind_eq_ok.mp hok
            split at hok
            · exact absurd hok (by simp)
            · split at hok
              · exact absurd hok (by simp)
              · exact absurd hok (by simp)
              · exact checkSignature_ne_ok hlib _ _ _ hok

theorem greet_ne_ok (s : ServerHandler) (ω : Side) (rw : RW) (g : Message × Bytes) :
    ((s.greet ω).run rw).1 ≠ .ok g := by
  intro hfst
  have h : (s.greet ω).run rw = (.ok g, ((s.greet ω).run rw).2) := Prod.ext hfst rfl
  generalize ((s.greet ω).run rw).2 = rw' at h
  unfold ServerHandler.greet at h
  split at h
  · exact absurd h (by simp)
  · exact absurd h (by simp)
  · next resolver idStore hresolver hstore =>
    obtain ⟨clientHello, _, -, h⟩ := Proc.bind_eq_ok.mp h
    obtain ⟨identity, _, hvalid, -⟩ := Proc.bind_eq_ok.mp h
    have hvalid := Outcome.mapErr_eq_ok.mp (Prod.mk.inj hvalid).1
    exact validateClientHello_ne_ok hlib _ _ _ _ hvalid

/-! ## Sessions -/

/-- **No hello is accepted on either side, and nothing is ever put into an inbox**: not in any
session, whoever takes part in it and whatever the keys are. -/
theorem never_delivers :
    (∀ resolver idStore clientHello identity,
      ServerHandler.validateClientHello resolver idStore clientHello ≠ .ok identity) ∧
    (∀ (c : ClientHandler) ω h, c.validateServerHello ω h ≠ .ok ()) ∧
    ∀ ω c s, (session ω c s).inbox = [] := by
  refine ⟨validateClientHello_ne_ok hlib, validateServerHello_ne_ok hlib, ?_⟩
  intro ω c s
  show (goOn ω c s _ ((s.greet ω.server).run _).1 _).inbox = []
  cases hgreet : ((s.greet ω.server).run (RW.new (sentBy (c.sendHello ω.client)) ω.toServer)).1 with
  | err e => rfl
  | panic => rfl
  | ok g => exact absurd hgreet (greet_ne_ok hlib s ω.server _ g)

end
end

/-! ## A small session -/

section Sample

/-- The identity of a key of this type. -/
def identityOf (t : KeyType) (id : String) (key : Bytes) : PublicIdentity := ⟨id, [⟨t, key, 0⟩]⟩

/-- From `a` to `b`. -/
def note (t : KeyType) : Message where
  createdTime := 1
  sender := some (identityOf t "a" [1])
  recipients := [some (identityOf t "b" [2])]
  body := [("subject", "test")]

/-- The hello the client makes for it. -/
def helloOf (t : KeyType) : Message := { note t with nonce := [7], body := [] }

/-- What can be encoded: for each type of key the hello, the hello with its signature, and the
message. -/
def table : List Message :=
  [helloOf .ed25519, { helloOf .ed25519 with signature := [0, 1, 0] }, note .ed25519,
    helloOf .ecdsa, { helloOf .ecdsa with signature := [0, 1, 3] }, note .ecdsa]

/-- What a key comes back as. -/
def PublicKey.decoded (k : PublicKey) : PublicKey :=
  { k with
    type :=
      match k.type with
      | .ed25519 => .other "[]uint8" false
      | _ => .other "map[string]interface {}" false }

def PublicIdentity.decoded (pi : PublicIdentity) : PublicIdentity :=
  { pi with publicKeys := pi.publicKeys.map PublicKey.decoded }

/-- A message is encoded by its place in the table. -/
local instance tableLib : CommLib :=
  { Sample.plainCommLib with
    marshal := fun m =>
      match table.findIdx? (· = m) with
      | some i => .ok [UInt8.ofNat i]
      | none => .err (.new "msgpack")
    unmarshal := fun _ b =>
      match table[(b.headD 255).toNat]? with
      | some m =>
        .ok { m with
          sender := m.sender.map PublicIdentity.decoded
          recipients := m.recipients.map (Option.map PublicIdentity.decoded) }
      | none => .err (.new "msgpack") }

theorem tableLib_rejectsEmpty : CommLib.RejectsEmpty where
  ecdsa pk h := by simp [CommLib.ecdsaVerify]
  ed25519 pk b := by simp [CommLib.ed25519Verify]

def side : Side := ⟨fun _ _ => 64, 100, some [7], [], 1000000000⟩

/-- Everything arrives in one piece. -/
def wholeNet : Net := ⟨side, side, fun _ => 100, fun _ => 100⟩

/-- Both identities are known. -/
def knowsBoth (t : KeyType) : Resolver := fun id =>
  if id = "a" then .ok (some (identityOf t "a" [1]))
  else if id = "b" then .ok (some (identityOf t "b" [2]))
  else .err (.new "not found")

def noteClient (t : KeyType) : ClientHandler :=
  ⟨note t, some ⟨t, [1]⟩, some (identityOf t "b" [2]), knowsBoth t⟩

/-- The server of `b`. -/
def noteServer (t : KeyType) : ServerHandler where
  resolver := some (knowsBoth t)
  idStore := some fun id => if id = "b" then .ok (some ⟨t, [2]⟩) else .err (.new "not found")
  addToInbox _ := .ok ()

/-- The server finds that the sender is somebody else, and the client is left without an answer. -/
def mistaken : Ended where
  client := .err (.wrap (.new "EOF") "reading server hello")
  server := .err (.wrap (.new "public identity mismatch") "validating client hello")

/-- **An honest session** ends like that, with Ed25519 keys as with ECDSA keys. -/
theorem note_not_delivered :
    session wholeNet (noteClient .ed25519) (noteServer .ed25519) = mistaken ∧
      session wholeNet (noteClient .ecdsa) (noteServer .ecdsa) = mistaken := by
  decide

/-- The same from the general result. -/
theorem note_never_delivered :
    (session wholeNet (noteClient .ed25519) (noteServer .ed25519)).inbox = [] :=
  (never_delivers tableLib_rejectsEmpty).2.2 wholeNet _ _

end Sample
end Didem.Comm
