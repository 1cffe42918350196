import Didem.Storage.Sample

/-!
# DID transactions are authorised — except on one branch

What a nil error of `IsTxValid` on a DID transaction should mean is `Authorised`: the document is
well formed, and either it is new and the transaction is signed by it, or it exists and the
transaction is signed by the document the store holds.

`isDIDTxValid_eq_ok` is what it *does* mean, in full. There is a third way to be accepted: an
update or a revocation of a DID whose lookup **failed**. The code wraps the error of the encoder
there instead of the one of the lookup; the encoder succeeded, so what it wraps — and returns — is
nil. `Unlooked` names the transactions that go that way, and the main result says that they are
exactly the ones the meaning fails for.

To have the bytes that were signed the code takes the signature off, and it does so **on the
transaction it was given**. What `IsTxValid` leaves of that is `snd_isTxValid`.
-/

set_option autoImplicit false

namespace Didem.Storage

open Lib

section

variable {S : Type} [Store S] [SigLib]

/-- The transaction without its signature, which is what is signed. -/
def Tx.unsigned (t : Tx) : Tx := { t with signature := [] }

/-- The fields every transaction is checked for before its type is looked at. -/
def Tx.HeaderOk (t : Tx) : Prop := t.version = version1 ∧ t.ts ≠ 0 ∧ t.sender ≠ ""

/-- Update and revocation, which share a branch. -/
def TxAction.Changes (a : TxAction) : Prop := a = .update ∨ a = .revoke

/-- **What accepting a DID transaction should mean.** -/
def Authorised (s : S) (t : Tx) : Prop :=
  ∃ document msg, t.data = some (.did (some document)) ∧ t.unsigned.marshal = .ok msg ∧
    document.isValid = .ok () ∧
    ((t.action = .add ∧ Store.lookupDID s document.id = .err .notFound ∧
        VerifiedBy document.verificationMethod t.signature msg) ∨
      (t.action.Changes ∧ ∃ existing, Store.lookupDID s document.id = .ok (some existing) ∧
        VerifiedBy existing.verificationMethod t.signature msg))

/-- A well-formed update or revocation of a DID whose lookup failed. -/
def Unlooked (s : S) (t : Tx) : Prop :=
  t.HeaderOk ∧ ∃ document msg, t.data = some (.did (some document)) ∧
    t.unsigned.marshal = .ok msg ∧ document.isValid = .ok () ∧
    t.action.Changes ∧ ∃ e, Store.lookupDID s document.id = .err e

/-! ## What `IsTxValid` accepts -/

/-- Past the shared checks, the three ways a DID transaction is accepted. -/
theorem isDIDTxValid_eq_ok {s : S} {t : Tx} {document : Document} {msg : Bytes}
    (hdata : t.data = some (.did (some document))) (hmsg : t.unsigned.marshal = .ok msg)
    (hdoc : document.isValid = .ok ()) :
    (isDIDTxValid s t).1 = .ok () ↔
      (t.action = .add ∧ Store.lookupDID s document.id = .err .notFound ∧
        document.signed t.signature msg = .ok ()) ∨
      (t.action.Changes ∧ ((∃ e, Store.lookupDID s document.id = .err e) ∨
        ∃ existing, Store.lookupDID s document.id = .ok (some existing) ∧
          existing.signed t.signature msg = .ok ())) := by
  obtain ⟨version, ts, sender, type, action, data, signature⟩ := t
  simp only [Tx.unsigned] at hdata hmsg
  subst hdata
  simp only [isDIDTxValid, hmsg, hdoc, TxAction.Changes, Err.wrapNil]
  cases hlookup : Store.lookupDID s document.id with
  | panic => simp
  | err e =>
    cases action with
    | add =>
      by_cases he : e = .notFound
      · cases hsig : document.signed signature msg <;> simp [he]
      · simp [he]
    | update => simp
    | revoke => simp
    | other n => simp
  | ok found =>
    cases action with
    | add => simp
    | update =>
      cases found with
      | none => simp
      | some existing => cases hsig : existing.signed signature msg <;> simp [hsig]
    | revoke =>
      cases found with
      | none => simp
      | some existing => cases hsig : existing.signed signature msg <;> simp [hsig]
    | other n => simp

/-- An accepted DID transaction passed the shared checks. -/
theorem checks_of_isDIDTxValid {s : S} {t : Tx} (h : (isDIDTxValid s t).1 = .ok ()) :
    ∃ document msg, t.data = some (.did (some document)) ∧ t.unsigned.marshal = .ok msg ∧
      document.isValid = .ok () := by
  unfold isDIDTxValid at h
  split at h
  · rename_i document hdata
    simp only at h
    split at h
    · exact absurd h (by simp)
    · split at h
      · exact absurd h (by simp)
      · exact absurd h (by simp)
      · rename_i msg hmsg
        split at h
        · exact absurd h (by simp)
        · exact absurd h (by simp)
        · rename_i hdoc
          exact ⟨document, msg, hdata, hmsg, hdoc⟩
  · exact absurd h (by simp)

/-- `IsTxValid` of a DID transaction is the header checks and `isDIDTxValid`. -/
theorem isTxValid_did_eq_ok {s : S} {t : Tx} (htype : t.type = .did) :
    (isTxValid s t).1 = .ok () ↔ t.HeaderOk ∧ (isDIDTxValid s t).1 = .ok () := by
  have hnone : t.data = none → ¬ (isDIDTxValid s t).1 = .ok () := by
    intro hdata h
    obtain ⟨document, msg, hsome, -⟩ := checks_of_isDIDTxValid h
    rw [hdata] at hsome
    exact absurd hsome (by simp)
  unfold isTxValid Tx.HeaderOk
  rw [htype]
  split_ifs with hversion hts hsender hdata <;> simp_all

/-! ## The result -/

/-- **A DID transaction that `IsTxValid` accepts is authorised, exactly when it is not an update
or a revocation of a DID whose lookup failed.** -/
theorem authorised_of_isTxValid_iff (s : S) (t : Tx) (htype : t.type = .did) :
    ((isTxValid s t).1 = .ok () → Authorised s t) ↔ ¬ Unlooked s t := by
  constructor
  · rintro himp ⟨hheader, document, msg, hdata, hmsg, hdoc, haction, e, hlookup⟩
    -- such a transaction is accepted, so it would have to be authorised
    have hvalid : (isTxValid s t).1 = .ok () :=
      (isTxValid_did_eq_ok htype).mpr ⟨hheader,
        (isDIDTxValid_eq_ok hdata hmsg hdoc).mpr (.inr ⟨haction, .inl ⟨e, hlookup⟩⟩)⟩
    obtain ⟨document', msg', hdata', -, -, hcase⟩ := himp hvalid
    rw [hdata, Option.some.injEq, TxData.did.injEq, Option.some.injEq] at hdata'
    subst hdata'
    rcases hcase with ⟨hadd, -⟩ | ⟨-, existing, hfound, -⟩
    · rcases haction with h | h <;> rw [hadd] at h <;> exact absurd h (by simp)
    · rw [hlookup] at hfound
      exact absurd hfound (by simp)
  · intro hlooked hvalid
    obtain ⟨hheader, hdid⟩ := (isTxValid_did_eq_ok htype).mp hvalid
    obtain ⟨document, msg, hdata, hmsg, hdoc⟩ := checks_of_isDIDTxValid hdid
    refine ⟨document, msg, hdata, hmsg, hdoc, ?_⟩
    rcases (isDIDTxValid_eq_ok hdata hmsg hdoc).mp hdid with
      ⟨hadd, hnew, hsigned⟩ | ⟨hchanges, hfailed | ⟨existing, hfound, hsigned⟩⟩
    · exact .inl ⟨hadd, hnew, Document.verifiedBy_of_signed hsigned⟩
    · exact absurd ⟨hheader, document, msg, hdata, hmsg, hdoc, hchanges, hfailed⟩ hlooked
    · exact .inr ⟨hchanges, existing, hfound, Document.verifiedBy_of_signed hsigned⟩

/-! ## What validation leaves of the transaction -/

/-- A DID transaction that the header checks let through. -/
def Tx.EntersDID (t : Tx) : Prop := t.HeaderOk ∧ t.data ≠ none ∧ t.type = .did

instance decidableEntersDID (t : Tx) : Decidable t.EntersDID :=
  inferInstanceAs (Decidable ((t.version = version1 ∧ t.ts ≠ 0 ∧ t.sender ≠ "") ∧
    t.data ≠ none ∧ t.type = .did))

/-- The signature is taken off before anything is checked, and no return puts it back. -/
theorem snd_isDIDTxValid {s : S} {t : Tx} (hret : (isDIDTxValid s t).1 ≠ .panic) :
    (isDIDTxValid s t).2 = t.unsigned := by
  obtain ⟨version, ts, sender, type, action, data, signature⟩ := t
  unfold isDIDTxValid at hret ⊢
  rcases data with _ | ((_ | document) | n | d)
  · exact absurd rfl hret
  · exact absurd rfl hret
  · by_cases hlookup : Store.lookupDID s document.id = .panic
    · exact absurd (by simp [hlookup]) hret
    · -- from here on the transaction is the one without its signature
      simp only [if_neg hlookup]
      repeat' split
      all_goals rfl
  · exact absurd rfl hret
  · exact absurd rfl hret

/-- **What `IsTxValid` leaves of a transaction**, where it returns. -/
theorem snd_isTxValid {s : S} {t : Tx} (hret : (isTxValid s t).1 ≠ .panic) :
    (isTxValid s t).2 = if t.EntersDID then t.unsigned else t := by
  by_cases hin : t.EntersDID
  · obtain ⟨⟨hversion, hts, hsender⟩, hdata, htype⟩ := id hin
    rw [if_pos hin]
    simp only [isTxValid, hversion, hts, hsender, hdata, htype, ne_eq, not_true_eq_false,
      if_false] at hret ⊢
    exact snd_isDIDTxValid hret
  · rw [if_neg hin]
    unfold isTxValid
    split_ifs with hversion hts hsender hdata
    · rfl
    · rfl
    · rfl
    · rfl
    · cases htype : t.type with
      | did => exact absurd ⟨⟨not_not.mp hversion, hts, hsender⟩, hdata, htype⟩ hin
      | vc => rfl
      | node => rfl
      | other n => rfl

omit [SigLib] in
theorem Tx.unsigned_eq_self_iff {t : Tx} : t.unsigned = t ↔ t.signature = [] := by
  constructor
  · intro h
    exact (congrArg Tx.signature h).symm
  · intro h
    rw [Tx.unsigned, ← h]

/-- **`IsTxValid` gives the transaction back as it was, and would say the same again, exactly if it
was not a signed DID transaction** — one with its header in order, that is. -/
theorem isTxValid_unchanged_iff (s : S) (t : Tx) (hret : (isTxValid s t).1 ≠ .panic) :
    ((isTxValid s t).2 = t ∧ isTxValid s (isTxValid s t).2 = isTxValid s t) ↔
      ¬ (t.EntersDID ∧ t.signature ≠ []) := by
  have hkept : (isTxValid s t).2 = t ↔ ¬ (t.EntersDID ∧ t.signature ≠ []) := by
    rw [snd_isTxValid hret]
    by_cases hin : t.EntersDID
    · rw [if_pos hin, Tx.unsigned_eq_self_iff]
      simp [hin]
    · rw [if_neg hin]
      simp [hin]
  rw [← hkept]
  constructor
  · intro h
    exact h.1
  · intro h
    exact ⟨h, by rw [h]⟩

end

/-! ## Two transactions on the empty store -/

section

open Storage.Sample

/-- Signed by its own key, adding a DID to the empty store is accepted and authorised. -/
theorem authorised_add_sample : Authorised ({} : MemStore) (didTx 1 .add "did:a:b" [107, 1]) := by
  refine (authorised_of_isTxValid_iff _ _ rfl).mpr ?_ (by decide)
  rintro ⟨-, document, msg, -, -, -, haction, -⟩
  rcases haction with h | h <;> exact absurd h (by decide)

/-- On the empty store an **unsigned** update of a DID that was never added is accepted. -/
theorem unsigned_update_accepted :
    (isTxValid ({} : MemStore) (didTx 1 .update "did:a:b" [])).1 = .ok () ∧
      ¬ Authorised ({} : MemStore) (didTx 1 .update "did:a:b" []) := by
  refine ⟨by decide, ?_⟩
  rintro ⟨document, msg, -, -, -, ⟨hadd, -⟩ | ⟨-, existing, hfound, -⟩⟩
  · exact absurd hadd (by decide)
  · have hlookup : Store.lookupDID ({} : MemStore) document.id = .err .notFound := rfl
    rw [hlookup] at hfound
    exact absurd hfound (by simp)

/-- A transaction without a signature is given back as it was, also if it is turned down. -/
theorem unsigned_add_unchanged :
    (isTxValid ({} : MemStore) (didTx 1 .add "did:a:b" [])).1 = .err .didInvalidSignature ∧
      (isTxValid ({} : MemStore) (didTx 1 .add "did:a:b" [])).2 = didTx 1 .add "did:a:b" [] :=
  ⟨by decide, ((isTxValid_unchanged_iff _ _ (by decide)).mpr (by decide)).1⟩

/-- Adding a DID is accepted the first time; the same transaction object is turned down the second,
since the first took its signature off. -/
theorem second_validation_rejects :
    let t := didTx 1 .add "did:a:b" [107, 1]
    (isTxValid ({} : MemStore) t).1 = .ok () ∧ (isTxValid ({} : MemStore) t).2.signature = [] ∧
      (isTxValid ({} : MemStore) (isTxValid ({} : MemStore) t).2).1 =
        .err .didInvalidSignature := by
  decide

end
end Didem.Storage
