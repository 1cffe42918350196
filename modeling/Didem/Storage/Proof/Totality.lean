import Didem.Storage.Proof.Reachable
import Didem.Storage.Proof.Replay

/-!
# Where the validation of a transaction panics

A validating node runs `IsTxValid` on what strangers send, so it has to return. It mostly does.
What follows is the exact list of the exceptions, each a dereference or a library call without its
check in front: a DID payload **without a document**; a document with an identifier that does not
parse as a URL, where the check comes to it before it finds another fault; a verification method
with an Ed25519 key that is **not 32 bytes** long, where the loop of `Signed` comes to it before it
finds a key that verifies; and a DID the store answers for with a nil document.

Both loops stop early, so *where* the fault stands matters as much as that it is there
(`Outcome.Reaches`).
-/

set_option autoImplicit false

namespace Didem.Storage

open Lib

section

variable [SigLib]

/-! ## `Document.IsValid` -/

/-- `url.Parse` returns a nil URL. -/
def Unparsable (u : String) : Prop := SigLib.urlOpaque u = none

/-- The text parses, and has an identifier and a method. -/
def Complete (u : String) : Prop :=
  ∃ opaquePart, SigLib.urlOpaque u = some opaquePart ∧
    (splitColon opaquePart).2.getD "" ≠ "" ∧ (splitColon opaquePart).1 ≠ ""

theorem urlIncomplete_eq_panic {u : String} : urlIncomplete u = .panic ↔ Unparsable u := by
  unfold urlIncomplete urlId urlMethod Unparsable
  cases SigLib.urlOpaque u with
  | none => simp
  | some opaquePart =>
    simp only [Outcome.ok_bind]
    split <;> simp

theorem urlIncomplete_eq_false {u : String} : urlIncomplete u = .ok false ↔ Complete u := by
  unfold urlIncomplete urlId urlMethod Complete
  cases SigLib.urlOpaque u with
  | none => simp
  | some opaquePart =>
    simp only [Outcome.ok_bind]
    split
    · next hid => simp [hid]
    · next hid => simp [hid]

namespace VerificationMethod

/-- The check passes. -/
def WellFormed (v : VerificationMethod) : Prop :=
  v.type ≠ .other "" ∧ Complete v.id ∧ Complete v.controller

/-- The check comes to a text that is not a URL. -/
def Traps (v : VerificationMethod) : Prop :=
  v.type ≠ .other "" ∧ (Unparsable v.id ∨ Complete v.id ∧ Unparsable v.controller)

/-- What follows the check of one URL is reached when the URL is complete. -/
theorem check_eq_panic {u : String} {rest : Outcome Err Unit} :
    (do if ← urlIncomplete u then .err errInvalid else rest) = .panic ↔
      Unparsable u ∨ Complete u ∧ rest = .panic := by
  rw [Outcome.bind_eq_panic, urlIncomplete_eq_panic]
  refine or_congr Iff.rfl ⟨?_, ?_⟩
  · rintro ⟨incomplete, hu, hrest⟩
    cases incomplete with
    | true => exact absurd hrest (by simp)
    | false => exact ⟨urlIncomplete_eq_false.mp hu, by simpa using hrest⟩
  · rintro ⟨hu, hrest⟩
    exact ⟨false, urlIncomplete_eq_false.mpr hu, by simpa using hrest⟩

theorem check_eq_ok {u : String} {rest : Outcome Err Unit} :
    (do if ← urlIncomplete u then .err errInvalid else rest) = .ok () ↔
      Complete u ∧ rest = .ok () := by
  rw [Outcome.bind_eq_ok]
  constructor
  · rintro ⟨incomplete, hu, hrest⟩
    cases incomplete with
    | true => exact absurd hrest (by simp)
    | false => exact ⟨urlIncomplete_eq_false.mp hu, by simpa using hrest⟩
  · rintro ⟨hu, hrest⟩
    exact ⟨false, urlIncomplete_eq_false.mpr hu, by simpa using hrest⟩

theorem isValid_eq_panic {v : VerificationMethod} : v.isValid = .panic ↔ v.Traps := by
  unfold isValid Traps
  split
  · next htype => simp [htype]
  · next htype => simp [htype, check_eq_panic]

theorem isValid_eq_ok {v : VerificationMethod} : v.isValid = .ok () ↔ v.WellFormed := by
  unfold isValid WellFormed
  split
  · next htype => simp [htype]
  · next htype => simp [htype, check_eq_ok]

end VerificationMethod

namespace Document

/-- What `IsValid` accepts. -/
def WellFormed (d : Document) : Prop :=
  d.id ≠ "" ∧ Complete d.id ∧ (∀ v ∈ d.methods, v.WellFormed) ∧
    ∀ s ∈ d.service, s.id ≠ "" ∧ s.type ≠ "" ∧ s.serviceEndpoint ≠ ""

/-- `IsValid` comes to an identifier, of the document or of one of its methods, that is no URL. -/
def Malformed (d : Document) : Prop :=
  d.id ≠ "" ∧ (Unparsable d.id ∨ Complete d.id ∧
    Outcome.Reaches VerificationMethod.WellFormed VerificationMethod.Traps d.methods)

omit [SigLib] in
theorem service_isValid_eq_ok {s : Service} :
    s.isValid = .ok () ↔ s.id ≠ "" ∧ s.type ≠ "" ∧ s.serviceEndpoint ≠ "" := by
  unfold Service.isValid
  split
  · next h => simp only [reduceCtorEq, false_iff]; tauto
  · next h => simp only [true_iff]; tauto

omit [SigLib] in
theorem services_ne_panic (services : List Service) : services.forM Service.isValid ≠ .panic := by
  induction services with
  | nil => exact fun h => nomatch h
  | cons s services ih =>
    show (s.isValid >>= fun _ => services.forM Service.isValid) ≠ .panic
    cases hs : s.isValid with
    | ok u => exact ih
    | err e => exact fun h => nomatch h
    | panic =>
      unfold Service.isValid at hs
      split at hs <;> exact nomatch hs

theorem isValid_eq_panic {d : Document} : d.isValid = .panic ↔ d.Malformed := by
  unfold isValid Malformed
  split
  · next hid => simp [hid]
  · next hid =>
    rw [VerificationMethod.check_eq_panic, Outcome.bind_eq_panic, Outcome.forM_eq_panic,
      Outcome.Reaches.congr (fun _ => VerificationMethod.isValid_eq_ok)
        (fun _ => VerificationMethod.isValid_eq_panic)]
    simp only [services_ne_panic, and_false, exists_false, or_false, ne_eq, hid, not_false_eq_true,
      true_and]

theorem isValid_eq_ok {d : Document} : d.isValid = .ok () ↔ d.WellFormed := by
  unfold isValid WellFormed
  split
  · next hid => simp [hid]
  · next hid =>
    have hmethods : d.methods.forM VerificationMethod.isValid = .ok ⟨⟩ ↔
        ∀ v ∈ d.methods, v.WellFormed :=
      Outcome.forM_eq_ok.trans (forall₂_congr fun v _ => VerificationMethod.isValid_eq_ok)
    have hservices : d.service.forM Service.isValid = .ok ⟨⟩ ↔
        ∀ s ∈ d.service, s.id ≠ "" ∧ s.type ≠ "" ∧ s.serviceEndpoint ≠ "" :=
      Outcome.forM_eq_ok.trans (forall₂_congr fun s _ => service_isValid_eq_ok)
    rw [VerificationMethod.check_eq_ok, Outcome.bind_eq_ok, ← hmethods, ← hservices]
    exact ⟨fun ⟨hu, _, hm, hs⟩ => ⟨hid, hu, hm, hs⟩, fun ⟨_, hu, hm, hs⟩ => ⟨hu, _, hm, hs⟩⟩

end Document

/-! ## `Document.Signed` -/

namespace VerificationMethod

/-- The signature verifies under the method. -/
def Verifies (sig msg : Bytes) (vm : VerificationMethod) : Prop :=
  ∃ validator, validators vm.type = some validator ∧ validator vm sig msg = .ok true

/-- An Ed25519 method whose key decodes, and not to 32 bytes. -/
def BadKey (vm : VerificationMethod) : Prop :=
  vm.type = .ed25519VerificationKey2018 ∧
    ∃ pk, decodeMultibase vm.publicKeyMultibase = some pk ∧ pk.length ≠ 32

end VerificationMethod

theorem validator_eq_panic {vm : VerificationMethod} {sig msg : Bytes}
    {validator : VerificationMethod → Bytes → Bytes → Outcome Err Bool}
    (hval : validators vm.type = some validator) : validator vm sig msg = .panic ↔ vm.BadKey := by
  unfold VerificationMethod.BadKey
  cases htype : vm.type with
  | ed25519VerificationKey2018 =>
    rw [htype, validators, Option.some.injEq] at hval
    subst hval
    unfold validateEd25519
    cases decodeMultibase vm.publicKeyMultibase with
    | none => simp
    | some pk => by_cases hlen : pk.length = 32 <;> simp [hlen]
  | bls12381G2Key2020 =>
    rw [htype, validators, Option.some.injEq] at hval
    subst hval
    unfold validateBls12381
    repeat' split
    all_goals simp
  | ecdsaSecp256k1VerificationKey2019 =>
    rw [htype, validators, Option.some.injEq] at hval
    subst hval
    unfold validateEcdsaSecp256k1
    simp only []
    repeat' split
    all_goals simp
  | other name =>
    rw [htype, validators] at hval
    exact nomatch hval

/-- **The loop of `Signed` panics when it comes to a bad Ed25519 key before one that verifies.** -/
theorem signedLoop_eq_panic {sig msg : Bytes} {vms : List VerificationMethod} :
    signedLoop sig msg vms = .panic ↔
      Outcome.Reaches (fun vm => ¬ vm.Verifies sig msg) VerificationMethod.BadKey vms := by
  induction vms with
  | nil => simp [signedLoop, Outcome.Reaches]
  | cons vm vms ih =>
    show _ ↔ vm.BadKey ∨ ¬ vm.Verifies sig msg ∧ _
    rw [signedLoop, ← ih]
    cases hval : validators vm.type with
    | none =>
      have hbad : ¬ vm.BadKey := by
        intro h
        rw [h.1] at hval
        exact absurd hval (by simp [validators])
      have hverifies : ¬ vm.Verifies sig msg := by
        simp [VerificationMethod.Verifies, hval]
      simp [hbad, hverifies]
    | some validator =>
      have hbad : validator vm sig msg = .panic ↔ vm.BadKey := validator_eq_panic hval
      have hverifies : vm.Verifies sig msg ↔ validator vm sig msg = .ok true := by
        simp [VerificationMethod.Verifies, hval]
      rw [← hbad, hverifies]
      cases hres : validator vm sig msg with
      | ok accepted => cases accepted <;> simp [hres]
      | err e => simp [hres]
      | panic => simp [hres]

/-- `Signed` panics on the verification methods. -/
def Document.Untestable (d : Document) (sig msg : Bytes) : Prop :=
  Outcome.Reaches (fun vm => ¬ vm.Verifies sig msg) VerificationMethod.BadKey d.verificationMethod

theorem Document.signed_eq_panic {d : Document} {sig msg : Bytes} :
    d.signed sig msg = .panic ↔ d.Untestable sig msg := by
  unfold Document.signed Document.Untestable
  split
  · next hlen => simp [List.length_eq_zero_iff.mp hlen, Outcome.Reaches]
  · exact signedLoop_eq_panic

/-! ## `IsTxValid` -/

variable {S : Type} [Store S]

/-- The validation of a DID transaction with this document panics. -/
def DocumentTraps (s : S) (t : Tx) (document : Document) : Prop :=
  Store.lookupDID s document.id = .panic ∨
    ∃ msg, t.unsigned.marshal = .ok msg ∧
      (document.Malformed ∨ document.WellFormed ∧
        (t.action = .add ∧ Store.lookupDID s document.id = .err .notFound ∧
            document.Untestable t.signature msg ∨
          t.action.Changes ∧ (Store.lookupDID s document.id = .ok none ∨
            ∃ existing, Store.lookupDID s document.id = .ok (some existing) ∧
              existing.Untestable t.signature msg)))

/-- **The transactions on which `IsTxValid` panics**, on a given store. -/
def Traps (s : S) (t : Tx) : Prop :=
  t.HeaderOk ∧ t.type = .did ∧
    (t.data = some (.did none) ∨
      ∃ document, t.data = some (.did (some document)) ∧ DocumentTraps s t document)

theorem isDIDTxValid_eq_panic (hmarshal : ∀ t : Tx, t.marshal ≠ .panic) {s : S} {t : Tx}
    {document : Document} (hdata : t.data = some (.did (some document))) :
    (isDIDTxValid s t).1 = .panic ↔ DocumentTraps s t document := by
  obtain ⟨version, ts, sender, type, action, data, signature⟩ := t
  simp only at hdata
  subst hdata
  unfold DocumentTraps
  simp only [isDIDTxValid, Tx.unsigned, ← Document.isValid_eq_panic, ← Document.isValid_eq_ok,
    ← Document.signed_eq_panic, TxAction.Changes, Err.wrapNil]
  cases hmsg : Tx.marshal _ with
  | panic => exact absurd hmsg (hmarshal _)
  | err e => cases Store.lookupDID s document.id <;> simp
  | ok msg =>
    cases hdoc : document.isValid with
    | panic => cases Store.lookupDID s document.id <;> simp
    | err e => cases Store.lookupDID s document.id <;> simp
    | ok u =>
      -- what is looked up decides whose keys are tried
      cases action with
      | add =>
        cases Store.lookupDID s document.id with
        | panic => simp
        | ok found => simp
        | err e =>
          by_cases he : e = .notFound
          · cases hsig : document.signed signature msg <;> simp [he, hsig]
          · simp [he]
      | update | revoke =>
        cases Store.lookupDID s document.id with
        | panic => simp
        | err e => simp [Outcome.ofError]
        | ok found =>
          cases found with
          | none => simp
          | some existing => cases hsig : existing.signed signature msg <;> simp [hsig]
      | other n => cases Store.lookupDID s document.id <;> simp

theorem isTxValid_eq_panic (hmarshal : ∀ t : Tx, t.marshal ≠ .panic) {s : S} {t : Tx}
    (ht : t.wellTyped = true) : (isTxValid s t).1 = .panic ↔ Traps s t := by
  have hdid (htype : t.type = .did) : (isDIDTxValid s t).1 = .panic ↔
      t.data = some (.did none) ∨
        ∃ document, t.data = some (.did (some document)) ∧ DocumentTraps s t document := by
    rcases hdata : t.data with _ | ((_ | document) | n | d)
    · simp [Tx.wellTyped, htype, hdata] at ht
    · simp [isDIDTxValid, hdata]
    · simp [isDIDTxValid_eq_panic hmarshal hdata]
    · simp [Tx.wellTyped, htype, hdata] at ht
    · simp [Tx.wellTyped, htype, hdata] at ht
  unfold isTxValid Traps Tx.HeaderOk
  split_ifs with hversion hts hsender hdata
  · simp [hversion]
  · simp [hts]
  · simp [hsender]
  · simp [hdata]
  · rw [not_not] at hversion
    cases htype : t.type with
    | did => simp [hversion, hts, hsender, hdid htype]
    | vc => simp [isVCTxValid]
    | node => simp [isNodeTxValid]
    | other n => simp

/-- **Validation of untrusted transactions.** On every store and every transaction that
`Tx.Unmarshal` can produce, `IsTxValid` returns, with nil or an error, exactly if it meets none of
the traps. -/
theorem isTxValid_ne_panic_iff (hmarshal : ∀ t : Tx, t.marshal ≠ .panic) (s : S) (o : Obj) (t : Tx)
    (ht : unmarshalTx o = .ok t) : (isTxValid s t).1 ≠ .panic ↔ ¬ Traps s t :=
  not_congr (isTxValid_eq_panic hmarshal (wellTyped_of_unmarshalTx ht))

end

/-! ## A block on a `MemStore` -/

namespace MemStore

section

variable [Hash] [SigLib]

/-- The loop of `IsBlockValid` comes to a transaction that is a trap where it stands: after the
acceptable ones before it, on the trial store they leave. -/
def TrialTraps : List TxEntry → MemStore → Prop
  | [], _ => False
  | e :: es, m => Traps m e.2 ∨ Acceptable m e ∧ TrialTraps es (m.tried e)

theorem tryTxs_eq_panic (hmarshal : ∀ t : Tx, t.marshal ≠ .panic) {es : List TxEntry}
    (htyped : ∀ e ∈ es, e.2.wellTyped = true) (m : MemStore) :
    (tryTxs true es m).1 = .panic ↔ TrialTraps es m := by
  induction es generalizing m with
  | nil => simp [tryTxs, TrialTraps]
  | cons e es ih =>
    rw [List.forall_mem_cons] at htyped
    have htraps := isTxValid_eq_panic (s := m) hmarshal htyped.1
    show _ ↔ Traps m e.2 ∨ Acceptable m e ∧ TrialTraps es (m.tried e)
    rw [← htraps, ← ih htyped.2, tryTxs]
    by_cases hacc : Acceptable m e
    · have hvalid : (isTxValid m e.2).1 = .ok () := hacc.1
      simp [tryTx_eq_ok.mpr ⟨hacc, rfl⟩, hvalid, hacc]
    · simp only [hacc, false_and, or_false]
      split
      · next m' hm' => exact absurd (tryTx_eq_ok.mp hm').1 hacc
      · constructor
        · intro h
          by_contra hvalid
          exact tryTx_ne_panic hvalid h
        · intro h
          unfold tryTx
          cases hvalid : isTxValid m e.2 with
          | mk r t =>
            obtain rfl : r = .panic := by simpa [hvalid] using h
            rfl

omit [Hash] [SigLib] in
theorem wellTyped_of_allTx {m : MemStore} {b : Block} {txs : TxMap} (h : m.allTx b = .ok txs)
    {e : TxEntry} (he : e ∈ txs.entries) : e.2.wellTyped = true := by
  obtain ⟨d, -, hd⟩ := getObj_eq_ok (getTx_of_allTxFrom h (AList.mem_lookup_iff.mpr he))
  exact wellTyped_of_unmarshalTx hd

/-- **Where `IsBlockValid` panics on a `MemStore`.** -/
theorem isBlockValid_eq_panic (hmarshal : ∀ t : Tx, t.marshal ≠ .panic) {ω : Runtime} {b : Block}
    {m : MemStore} :
    (isBlockValid ω b true m).1 = .panic ↔ m.Stumbles b ∨
      ∃ txs, m.allTx b = .ok txs ∧ TrialTraps (ω.order txs.entries) (m.trialStore b.id) := by
  rw [isBlockValid_eq, ← allTx_eq_panic]
  cases hall : m.allTx b with
  | panic => simp
  | err e => simp
  | ok txs =>
    have htyped : ∀ e ∈ ω.order txs.entries, e.2.wellTyped = true :=
      fun e he => wellTyped_of_allTx hall ((ω.order_perm _).mem_iff.mp he)
    simp [tryTxs_eq_panic hmarshal htyped]

end

theorem applyTxs_eq_panic {b : BlockID} {es : List TxEntry} (m : MemStore) :
    (applyTxs b es m).1 = .panic ↔ ∃ e ∈ es, applicable e = false := by
  induction es generalizing m with
  | nil => simp [applyTxs]
  | cons e es ih =>
    rw [applyTxs, applyTx_eq]
    by_cases he : applicable e
    · rw [if_pos he]
      simp [ih, he]
    · rw [if_neg he]
      simp [he, Outcome.mapErr]

theorem indexBlockTx_eq_panic {ω : Runtime} {id : BlockID} {m : MemStore} :
    (m.indexBlockTx ω id).1 = .panic ↔
      ∃ block, m.getBlock id = .ok block ∧ (m.Stumbles block ∨
        ∃ txs, m.allTx block = .ok txs ∧ ∃ e ∈ txs.entries, applicable e = false) := by
  unfold indexBlockTx
  cases hblock : m.getBlock id with
  | panic => exact absurd hblock (getBlock_ne_panic m id)
  | err e => simp
  | ok block =>
    simp only [Outcome.ok.injEq, exists_eq_left', ← allTx_eq_panic]
    cases hall : m.allTx block with
    | panic => simp
    | err e => simp
    | ok txs => simp [applyTxs_eq_panic, (ω.order_perm _).mem_iff]

/-- **Where marking a block as accepted panics**: it was validated, and one of its transactions
cannot be decoded, by a panic, or not be applied. -/
theorem markBlock_eq_panic {ω : Runtime} {id : BlockID} {m : MemStore} :
    (m.markBlock ω id .accepted).1 = .panic ↔ m.stateOf id = .validated ∧
      ∃ block, m.getBlock id = .ok block ∧ (m.Stumbles block ∨
        ∃ txs, m.allTx block = .ok txs ∧ ∃ e ∈ txs.entries, applicable e = false) := by
  unfold markBlock
  simp only [and_true]
  split
  · next hstate =>
    rw [indexBlockTx_eq_panic, and_iff_right hstate]
    rfl
  · next hstate => simp [hstate]

/-- **Where `Node` panics**: the entry names a transaction that is not one of a node, or one that
`Tx.Unmarshal` panics over. -/
theorem node_eq_panic {m : MemStore} {id : String} :
    m.node id = .panic ↔ ∃ cid t, m.nodes.lookup id = some cid ∧
      m.objects.lookup cid = some (.tx t) ∧
        (t.hollow = true ∨ t.type = .vc ∨ t.type = .did ∧ t.wellTyped = true) := by
  unfold node
  cases m.nodes.lookup id with
  | none => simp
  | some cid =>
    simp only [Option.some.injEq, exists_and_left, exists_eq_left']
    cases m.objects.lookup cid with
    | none => simp
    | some d =>
      cases d with
      | tx t =>
        obtain ⟨version, ts, sender, type, action, data, signature⟩ := t
        cases type <;> rcases data with _ | ((_ | document) | n | d) <;>
          simp [unmarshalTx, unmarshalData, Tx.wellTyped, Tx.hollow, Outcome.mapErr]
      | block b => simp [unmarshalTx, Outcome.mapErr]
      | set children tx => simp [unmarshalTx, Outcome.mapErr]
      | raw d => simp [unmarshalTx, Outcome.mapErr]

end MemStore

/-! ## `IPFSStorage` -/

namespace IPFSStorage

/-- **Where `Node` panics**: the entry names a transaction that `Tx.Unmarshal` panics over. -/
theorem node_eq_panic {s : IPFSStorage} {id : String} :
    s.node id = .panic ↔ ∃ v cid t, s.metadataGet (typedKey .nodes [id]) = some v ∧
      castCid v = some cid ∧ s.objects.lookup cid = some (.tx t) ∧ t.hollow = true := by
  unfold node
  cases s.metadataGet (typedKey .nodes [id]) with
  | none => simp
  | some v =>
    simp only [Option.some.injEq, exists_and_left, exists_eq_left']
    cases castCid v with
    | none => simp
    | some cid =>
      simp only [Option.some.injEq, exists_eq_left', ← getTx_eq_panic]
      cases ht : s.getTx cid with
      | panic => simp [Outcome.mapErr, bind, Outcome.bind]
      | err e => simp [Outcome.mapErr, bind, Outcome.bind]
      | ok t =>
        obtain ⟨d, -, hd⟩ := getTx_eq_ok.mp ht
        have htyped := wellTyped_of_unmarshalTx hd
        rcases hdata : t.data with _ | (d | n | d) <;> cases htype : t.type <;>
          simp_all [Tx.wellTyped, Outcome.mapErr]
        split <;> simp

variable [CidText]

/-- `ApplyTx` recovers from its panics. -/
theorem applyTxTo_ne_panic (id : TxID) (t : Tx) : (applyTxTo id t).1 ≠ .panic := by
  unfold applyTxTo
  simp only
  split
  · simp
  · next h => exact fun hp => h _ (Prod.ext hp rfl)
  · simp_all

theorem indexTxs_ne_panic (ω : Runtime) (inTest : Bool) (bId : BlockID) (es : List TxEntry) :
    (indexTxs ω inTest bId es).1 ≠ .panic := by
  induction es with
  | nil => exact fun h => nomatch h
  | cons e es ih =>
    rw [indexTxs]
    simp only
    split
    · next ws h => exact absurd (congrArg Prod.fst h) (applyTxTo_ne_panic e.1 e.2)
    · simp
    · split
      · simp
      · exact ih

theorem indexBlock_eq_panic {ω : Runtime} {id : BlockID} {s : IPFSStorage} :
    (s.indexBlock ω id).1 = .panic ↔ ∃ block, s.getBlock id = .ok block ∧ s.Stumbles block := by
  unfold indexBlock
  cases hblock : s.getBlock id with
  | panic => exact absurd hblock (getBlock_ne_panic s id)
  | err e => simp
  | ok b =>
    simp only [Outcome.ok.injEq, exists_eq_left', ← allTx_eq_panic]
    cases hall : s.allTx b with
    | panic => simp
    | err e => simp
    | ok txs =>
      have hloop (inTest : Bool) := indexTxs_ne_panic ω inTest id (ω.order txs.entries)
      simp only [reduceCtorEq, iff_false]
      split
      · simp
      · split
        · exact hloop true
        · split
          · split <;> simp
          · next h => exact fun hp => hloop false ((congrArg Prod.fst h).trans hp)

/-- **Where a mark panics**: it is the acceptance of a validated block, and one of its transactions
cannot be decoded, by a panic. -/
theorem markBlock_eq_panic {ω : Runtime} {id : BlockID} {state : BlockState} {s : IPFSStorage} :
    (s.markBlock ω id state).1 = .panic ↔ (s.stateOf id = .validated ∧ state = .accepted) ∧
      ∃ block, s.getBlock id = .ok block ∧ s.Stumbles block := by
  have hindex := @indexBlock_eq_panic _ ω id
    (s.metadataSet (typedKey .blockState [id.string]) (.state state))
  rw [stumbles_congr (objects_metadataSet _ _ s), getBlock_congr (objects_metadataSet _ _ s)]
    at hindex
  unfold markBlock
  simp only
  split
  · next hindexing =>
    rw [and_iff_right hindexing, ← hindex]
    generalize IPFSStorage.indexBlock ω id _ = r
    obtain ⟨outcome, s'⟩ := r
    cases outcome <;> simp [Outcome.mapErr]
  · next hindexing => simp [hindexing]

theorem markBlock_accepted_eq_panic {ω : Runtime} {id : BlockID} {s : IPFSStorage} :
    (s.markBlock ω id .accepted).1 = .panic ↔ s.stateOf id = .validated ∧
      ∃ block, s.getBlock id = .ok block ∧ s.Stumbles block := by
  rw [markBlock_eq_panic, and_iff_left rfl]

variable [Hash] [SigLib]

/-- **Where `IsBlockValid` panics on an `IPFSStorage`**: on every block it can read, outside a
trial, and over a transaction without a payload. -/
theorem isBlockValid_eq_panic {ω : Runtime} {b : Block} {s : IPFSStorage} :
    (isBlockValid ω b true s).1 = .panic ↔
      s.Stumbles b ∨ (∃ txs, s.allTx b = .ok txs) ∧ s.pfTipApply = none := by
  rw [isBlockValid_eq, ← allTx_eq_panic]
  simp only
  cases hall : s.allTx b with
  | panic => simp
  | err e => simp
  | ok txs => cases s.pfTipApply <;> simp

end IPFSStorage

/-! ## Three transactions on the empty store -/

section

open Storage.Sample

/-- A DID transaction whose payload holds no document. -/
def nilDocumentTx : Tx := { didTx 1 .add "did:a:b" [] with data := some (.did none) }

/-- A DID with an Ed25519 key of one byte. -/
def shortKeyTx : Tx :=
  { didTx 1 .add "did:a:b" [] with
    data := some (.did (some
      { id := "did:a:b"
        verificationMethod :=
          [{ id := "did:a:b", type := .ed25519VerificationKey2018, controller := "did:a:b"
             publicKeyMultibase := "\x00k" }] })) }

/-- Both decode, and both panic. -/
theorem isTxValid_panics :
    unmarshalTx (.tx nilDocumentTx) = .ok nilDocumentTx ∧
      (isTxValid ({} : MemStore) nilDocumentTx).1 = .panic ∧
      unmarshalTx (.tx shortKeyTx) = .ok shortKeyTx ∧
      (isTxValid ({} : MemStore) shortKeyTx).1 = .panic := by
  decide

/-- The sample document of `Storage.Sample` meets no trap. -/
theorem isTxValid_returns :
    (isTxValid ({} : MemStore) (didTx 1 .add "did:a:b" [107, 1])).1 ≠ .panic := by
  refine (isTxValid_ne_panic_iff (by simp [Tx.marshal, SigLib.marshalTx]) ({} : MemStore)
    (.tx (didTx 1 .add "did:a:b" [107, 1])) _ (by decide)).mpr ?_
  rintro ⟨-, -, hnil | ⟨document, hdata, hlookup | ⟨msg, -, hmalformed | ⟨-, hcase⟩⟩⟩⟩
  · exact nomatch hnil
  · exact nomatch hlookup
  · obtain ⟨-, hid | ⟨-, hmethods⟩⟩ := hmalformed
    · exact nomatch hid
    · obtain rfl : Sample.document "did:a:b" = document := by injections
      rcases hmethods with ⟨-, hid | ⟨-, hcontroller⟩⟩ | ⟨-, hrest⟩
      · exact nomatch hid
      · exact nomatch hcontroller
      · exact hrest
  · obtain rfl : Sample.document "did:a:b" = document := by injections
    rcases hcase with ⟨-, -, ⟨htype, -⟩ | ⟨-, hrest⟩⟩ | ⟨haction, -⟩
    · exact nomatch htype
    · exact hrest
    · rcases haction with h | h <;> exact nomatch h

end
end Didem.Storage
