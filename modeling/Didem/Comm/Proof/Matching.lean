import Didem.Comm.Message
import Mathlib.Data.Set.Basic

/-!
# Matching identities

`Matches` looks for each key of one identity among the keys of the other, and not the other way
round. What it means depends on what the interfaces hold:

* a BLS key is a pointer, and two of them are equal if they point to the same place;
* **an Ed25519 key is a slice**, and comparing two slices panics. An identity with such a key cannot
  even be compared with itself.

Among identities with BLS keys only, `Matches` is inclusion of the keys (`matches_of_bls`). That is
an equivalence as long as inclusion is equality, and an identity without keys is included in every
other of its name.
-/

set_option autoImplicit false

namespace Didem.Comm

open Lib Storage

/-! ## The two loops -/

/-- The inner loop compares with every key, also after it has found one. -/
theorem eq_ne_panic_of_hasKey {k : PublicKey} {ks : List PublicKey} {f : Bool}
    (h : hasKey k ks = .ok f) : ∀ k' ∈ ks, k'.eq k ≠ .panic := by
  induction ks generalizing f with
  | nil => exact fun k' hk' => absurd hk' List.not_mem_nil
  | cons ppk ppks ih =>
    obtain ⟨e, he, h⟩ := Outcome.bind_eq_ok.mp h
    obtain ⟨f', hf', -⟩ := Outcome.bind_eq_ok.mp h
    refine List.forall_mem_cons.mpr ⟨?_, ih hf'⟩
    rw [he]
    exact fun hpanic => by cases hpanic

/-- The outer loop goes on as long as it finds the keys. -/
theorem hasKey_of_hasKeys {ppks pipks : List PublicKey} (h : hasKeys ppks pipks = .ok true) :
    ∀ k ∈ pipks, hasKey k ppks = .ok true := by
  induction pipks with
  | nil => exact fun k hk => absurd hk List.not_mem_nil
  | cons pipk pipks ih =>
    obtain ⟨f, hf, h⟩ := Outcome.bind_eq_ok.mp h
    cases f with
    | false => cases h
    | true => exact List.forall_mem_cons.mpr ⟨hf, ih h⟩

/-- A slice is not comparable, not even with itself. -/
theorem PublicKey.isPointer_of_eq_self {k : PublicKey} (h : k.eq k ≠ .panic) :
    k.type.isPointer = true := by
  by_contra hslice
  exact h (by rw [PublicKey.eq, if_neg (not_not.mpr rfl), if_neg hslice])

/-- **What matches itself has no slices among its keys.** -/
theorem PublicIdentity.isPointer_of_matches_self {pi : PublicIdentity}
    (h : pi.matches pi = .ok true) : ∀ k ∈ pi.publicKeys, k.type.isPointer = true := by
  rw [PublicIdentity.matches, if_neg (not_not.mpr rfl)] at h
  intro k hk
  exact PublicKey.isPointer_of_eq_self (eq_ne_panic_of_hasKey (hasKey_of_hasKeys h k hk) k hk)

/-! ## BLS keys -/

/-- The Go type of a BLS key. -/
def blsKeyType : KeyType := .other "*cryptography.Bls12381PublicKey" true

def PublicIdentity.OnlyBls (pi : PublicIdentity) : Prop :=
  ∀ k ∈ pi.publicKeys, k.type = blsKeyType

/-- Where the keys of an identity are. -/
def PublicIdentity.addrs (pi : PublicIdentity) : List Nat := pi.publicKeys.map PublicKey.addr

theorem PublicKey.eq_of_bls {a b : PublicKey} (ha : a.type = blsKeyType)
    (hb : b.type = blsKeyType) : a.eq b = .ok (a.addr == b.addr) := by
  rw [PublicKey.eq, ha, hb]
  rfl

theorem hasKey_of_bls {k : PublicKey} {ks : List PublicKey} (hk : k.type = blsKeyType)
    (hks : ∀ k' ∈ ks, k'.type = blsKeyType) :
    hasKey k ks = .ok (ks.any fun k' => k'.addr == k.addr) := by
  induction ks with
  | nil => rfl
  | cons ppk ppks ih =>
    obtain ⟨hppk, hppks⟩ := List.forall_mem_cons.mp hks
    rw [hasKey, PublicKey.eq_of_bls hppk hk, ih hppks]
    rfl

theorem hasKeys_of_bls {ppks pipks : List PublicKey} (hppks : ∀ k ∈ ppks, k.type = blsKeyType)
    (hpipks : ∀ k ∈ pipks, k.type = blsKeyType) :
    hasKeys ppks pipks = .ok (pipks.all fun k => ppks.any fun k' => k'.addr == k.addr) := by
  induction pipks with
  | nil => rfl
  | cons pipk pipks ih =>
    obtain ⟨hpipk, hpipks⟩ := List.forall_mem_cons.mp hpipks
    rw [hasKeys, hasKey_of_bls hpipk hppks, Outcome.ok_bind, List.all_cons, ih hpipks]
    cases ppks.any fun k' => k'.addr == pipk.addr with
    | true => rfl
    | false => rfl

/-- **Among BLS identities `Matches` is inclusion.** -/
theorem PublicIdentity.matches_of_bls {pi p : PublicIdentity} (hpi : pi.OnlyBls) (hp : p.OnlyBls) :
    ∃ found, pi.matches p = .ok found ∧
      (found = true ↔ pi.id = p.id ∧ pi.addrs ⊆ p.addrs) := by
  rw [PublicIdentity.matches, hasKeys_of_bls hp hpi]
  split
  · next hid =>
    refine ⟨false, rfl, ?_, ?_⟩
    · exact fun h => by cases h
    · exact fun h => absurd h.1 hid
  · next hid =>
    refine ⟨_, rfl, ?_⟩
    rw [List.all_eq_true]
    simp only [List.any_eq_true, beq_iff_eq]
    constructor
    · intro h
      refine ⟨not_not.mp hid, fun addr haddr => ?_⟩
      obtain ⟨k, hk, rfl⟩ := List.mem_map.mp haddr
      exact List.mem_map.mpr (h k hk)
    · rintro ⟨-, hsub⟩ k hk
      exact List.mem_map.mp (hsub (List.mem_map_of_mem hk))

theorem PublicIdentity.matches_eq_true_iff {pi p : PublicIdentity} (hpi : pi.OnlyBls)
    (hp : p.OnlyBls) : pi.matches p = .ok true ↔ pi.id = p.id ∧ pi.addrs ⊆ p.addrs := by
  obtain ⟨found, heq, hfound⟩ := matches_of_bls hpi hp
  rw [heq, Outcome.ok.injEq, hfound]

/-! ## An equivalence -/

/-- An identity the program can produce: its keys are Ed25519 and BLS keys, as many as there are;
what a BLS key is stands in memory where it points to. -/
def Producible (memory : Nat → Bytes) (pi : PublicIdentity) : Prop :=
  ∀ k ∈ pi.publicKeys, k.type = .ed25519 ∨ k.type = blsKeyType ∧ k.key = memory k.addr

/-- What is expected of `Matches` on these identities: it returns, it is an equivalence, and it
relates only identities with the same ID and the same keys, wherever those are. -/
structure MatchesWell (D : Set PublicIdentity) : Prop where
  returns : ∀ a ∈ D, ∀ b ∈ D, a.matches b ≠ .panic
  refl : ∀ a ∈ D, a.matches a = .ok true
  symm : ∀ a ∈ D, ∀ b ∈ D, a.matches b = .ok true → b.matches a = .ok true
  trans : ∀ a ∈ D, ∀ b ∈ D, ∀ c ∈ D, a.matches b = .ok true → b.matches c = .ok true →
    a.matches c = .ok true
  same : ∀ a ∈ D, ∀ b ∈ D, a.matches b = .ok true →
    a.id = b.id ∧ ∀ k, k ∈ a.erased.publicKeys ↔ k ∈ b.erased.publicKeys

variable {memory : Nat → Bytes}

theorem Producible.onlyBls {pi : PublicIdentity} (h : Producible memory pi)
    (hnone : ∀ k ∈ pi.publicKeys, k.type ≠ .ed25519) : pi.OnlyBls :=
  fun k hk => ((h k hk).resolve_left (hnone k hk)).1

/-- A key is what is at its address. -/
theorem Producible.erased_subset {a b : PublicIdentity} (ha : Producible memory a)
    (hb : Producible memory b) (hbls : a.OnlyBls) (hbls' : b.OnlyBls)
    (h : a.addrs ⊆ b.addrs) : a.erased.publicKeys ⊆ b.erased.publicKeys := by
  have herased : ∀ {pi : PublicIdentity}, Producible memory pi → pi.OnlyBls →
      pi.erased.publicKeys = pi.addrs.map fun addr => ⟨blsKeyType, memory addr, 0⟩ := by
    intro pi hpi hbls
    show pi.publicKeys.map PublicKey.erased = (pi.publicKeys.map PublicKey.addr).map _
    rw [List.map_map]
    refine List.map_congr_left fun k hk => ?_
    have htype := hbls k hk
    rcases hpi k hk with hed | ⟨-, hkey⟩
    · rw [htype] at hed
      cases hed
    · rw [PublicKey.erased, htype, hkey]
      rfl
  rw [herased ha hbls, herased hb hbls']
  exact List.map_subset _ h

/-- Reflexivity alone rules slices out. -/
theorem MatchesWell.ne_ed25519 {D : Set PublicIdentity} (h : MatchesWell D) :
    ∀ a ∈ D, ∀ k ∈ a.publicKeys, k.type ≠ .ed25519 := by
  intro a ha k hk htype
  have hpointer := PublicIdentity.isPointer_of_matches_self (h.refl a ha) k hk
  rw [htype] at hpointer
  cases hpointer

/-- **When matching is an equivalence**: exactly if no identity has an Ed25519 key, and of two with
the same ID neither has only a part of the keys of the other. -/
theorem matchesWell_iff {D : Set PublicIdentity} (hD : ∀ pi ∈ D, Producible memory pi) :
    MatchesWell D ↔
      (∀ a ∈ D, ∀ k ∈ a.publicKeys, k.type ≠ .ed25519) ∧
      ∀ a ∈ D, ∀ b ∈ D, a.id = b.id → a.addrs ⊆ b.addrs → b.addrs ⊆ a.addrs := by
  constructor
  · intro h
    have hnone := h.ne_ed25519
    refine ⟨hnone, fun a ha b hb hid hsub => ?_⟩
    have hbls := (hD a ha).onlyBls (hnone a ha)
    have hbls' := (hD b hb).onlyBls (hnone b hb)
    have hmatch := (PublicIdentity.matches_eq_true_iff hbls hbls').mpr ⟨hid, hsub⟩
    exact ((PublicIdentity.matches_eq_true_iff hbls' hbls).mp (h.symm a ha b hb hmatch)).2
  · rintro ⟨hnone, hpart⟩
    have hbls : ∀ a ∈ D, a.OnlyBls := fun a ha => (hD a ha).onlyBls (hnone a ha)
    have hiff : ∀ a ∈ D, ∀ b ∈ D, a.matches b = .ok true ↔ a.id = b.id ∧ a.addrs ⊆ b.addrs :=
      fun a ha b hb => PublicIdentity.matches_eq_true_iff (hbls a ha) (hbls b hb)
    constructor
    case returns =>
      intro a ha b hb hpanic
      obtain ⟨found, heq, -⟩ := PublicIdentity.matches_of_bls (hbls a ha) (hbls b hb)
      rw [heq] at hpanic
      cases hpanic
    case refl => exact fun a ha => (hiff a ha a ha).mpr ⟨rfl, List.Subset.refl _⟩
    case symm =>
      intro a ha b hb h
      obtain ⟨hid, hsub⟩ := (hiff a ha b hb).mp h
      exact (hiff b hb a ha).mpr ⟨hid.symm, hpart a ha b hb hid hsub⟩
    case trans =>
      intro a ha b hb c hc h h'
      obtain ⟨hid, hsub⟩ := (hiff a ha b hb).mp h
      obtain ⟨hid', hsub'⟩ := (hiff b hb c hc).mp h'
      exact (hiff a ha c hc).mpr ⟨hid.trans hid', List.Subset.trans hsub hsub'⟩
    case same =>
      intro a ha b hb h
      obtain ⟨hid, hsub⟩ := (hiff a ha b hb).mp h
      have hsub' := hpart a ha b hb hid hsub
      refine ⟨hid, fun k => ⟨fun hk => ?_, fun hk => ?_⟩⟩
      · exact (hD a ha).erased_subset (hD b hb) (hbls a ha) (hbls b hb) hsub hk
      · exact (hD b hb).erased_subset (hD a ha) (hbls b hb) (hbls a ha) hsub' hk

/-! ## Identities as they are made -/

/-- What `PublicIdentity` of a BLS identity returns, with its key at this address. -/
def blsIdentity (id : String) (addr : Nat) : PublicIdentity := ⟨id, [⟨blsKeyType, [7], addr⟩]⟩

/-- The public identities of BLS identities match well: each has one key. -/
theorem blsIdentities_matchWell : MatchesWell { pi | ∃ id addr, pi = blsIdentity id addr } := by
  have hD : ∀ pi ∈ { pi | ∃ id addr, pi = blsIdentity id addr }, Producible (fun _ => [7]) pi := by
    rintro _ ⟨id, addr, rfl⟩ k hk
    rw [List.mem_singleton.mp hk]
    exact .inr ⟨rfl, rfl⟩
  refine (matchesWell_iff hD).mpr ⟨?_, ?_⟩
  · rintro _ ⟨id, addr, rfl⟩ k hk
    rw [List.mem_singleton.mp hk]
    exact fun htype => by cases htype
  · rintro _ ⟨id, addr, rfl⟩ _ ⟨id', addr', rfl⟩ - hsub
    have haddr : addr = addr' := List.mem_singleton.mp (hsub List.mem_cons_self)
    exact haddr ▸ List.Subset.refl _

/-- An Ed25519 identity, and one that lost its keys. -/
theorem matches_not_equivalence :
    (⟨"a", [⟨.ed25519, [1], 0⟩]⟩ : PublicIdentity).matches ⟨"a", [⟨.ed25519, [1], 0⟩]⟩ = .panic ∧
    (⟨"a", []⟩ : PublicIdentity).matches (blsIdentity "a" 5) = .ok true ∧
    (blsIdentity "a" 5).matches ⟨"a", []⟩ = .ok false ∧
    ¬ MatchesWell { pi | Producible (fun _ => [7]) pi } := by
  refine ⟨rfl, rfl, rfl, fun h => ?_⟩
  have hed : Producible (fun _ => [7]) ⟨"a", [⟨.ed25519, [1], 0⟩]⟩ := by
    intro k hk
    rw [List.mem_singleton.mp hk]
    exact .inl rfl
  cases h.refl _ hed

end Didem.Comm
