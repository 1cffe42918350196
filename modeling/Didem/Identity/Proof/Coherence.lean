import Didem.Identity.FileStore

/-!
# The two representations of an identity store

`Add` appends to `ids` and never to `idx`. So the two agree exactly as long as nothing is added:
**every `Add` that does what it is for breaks them apart**, whether the write succeeds or not. What
is left is a file without duplicates and calls that are refused before the append, or that are for
an identity the store was opened with (`staysCoherent_iff`).
-/

set_option autoImplicit false

namespace Didem.Identity

open Lib Storage

section

variable [IdentityLib]

/-- What is written down can be read back. -/
def IdentityLib.Faithful : Prop :=
  ∀ sk raw, IdentityLib.multibaseEncode sk = .ok raw → IdentityLib.multibaseDecode raw = .ok sk

/-- The public id of an entry of the file. -/
def FileStoreId.publicId (fid : FileStoreId) : Outcome Err String := do
  let id ← decodeType fid.type fid.data
  IdentityLib.publicIdentity id

/-! ## The index -/

/-- Every identity is filed under its public id. -/
def Filed (idx : Index) : Prop :=
  ∀ pid id, idx.lookup pid = some id → IdentityLib.publicIdentity id = .ok pid

section

variable {idx idx' : Index} {ids ids' : List FileStoreId}

theorem buildFrom_append (idx : Index) (ids ids' : List FileStoreId) :
    buildFrom idx (ids ++ ids') = buildFrom idx ids >>= fun idx => buildFrom idx ids' := by
  induction ids generalizing idx with
  | nil => rfl
  | cons fid ids ih =>
    simp only [List.cons_append, buildFrom]
    cases (decodeType fid.type fid.data).mapErr (·.wrap "decoding id") with
    | err e => rfl
    | panic => rfl
    | ok id =>
      simp only [Outcome.ok_bind]
      cases (IdentityLib.publicIdentity id).mapErr (·.wrap "getting public id from private") with
      | err e => rfl
      | panic => rfl
      | ok pid => exact ih _

theorem filed_buildFrom (h : buildFrom idx ids = .ok idx') (hidx : Filed idx) : Filed idx' := by
  induction ids generalizing idx with
  | nil =>
    obtain rfl := Outcome.ok.inj h
    exact hidx
  | cons fid ids ih =>
    obtain ⟨id, -, h⟩ := Outcome.bind_eq_ok.mp h
    obtain ⟨pid, hpid, h⟩ := Outcome.bind_eq_ok.mp h
    refine ih h fun pid' id' hlookup => ?_
    by_cases hsame : pid' = pid
    · subst hsame
      rw [Finmap.lookup_insert] at hlookup
      obtain rfl := Option.some.inj hlookup
      exact Outcome.mapErr_eq_ok.mp hpid
    · rw [Finmap.lookup_insert_of_ne _ hsame] at hlookup
      exact hidx pid' id' hlookup

theorem filed_buildIdx (h : buildIdx ids = .ok idx) : Filed idx :=
  filed_buildFrom h fun _ _ hlookup => by simp at hlookup

/-- One more entry, and the index has it. -/
theorem buildIdx_append {fid : FileStoreId} {pid : String} (h : buildIdx (ids ++ [fid]) = .ok idx)
    (hpid : fid.publicId = .ok pid) : pid ∈ idx := by
  rw [buildIdx, buildFrom_append] at h
  obtain ⟨idx₀, -, h⟩ := Outcome.bind_eq_ok.mp h
  obtain ⟨id, hid, hpid⟩ := Outcome.bind_eq_ok.mp hpid
  simp only [buildFrom, hid, hpid, Outcome.mapErr, Outcome.ok_bind, Outcome.ok.injEq] at h
  rw [← h]
  exact Finmap.mem_insert.mpr (.inl rfl)

/-- **What is in the index is listed once.** -/
theorem countP_list {fs : FileStore} (h : Filed fs.idx) {pid : String} (hmem : pid ∈ fs.idx) :
    fs.list.countP (fun id => IdentityLib.publicIdentity id = .ok pid) = 1 := by
  have hcongr : ∀ e ∈ fs.idx.entries,
      IdentityLib.publicIdentity e.2 = .ok pid ↔ pid = e.1 := by
    intro e he
    have hpid := h e.1 e.2 (Finmap.lookup_eq_some_iff.mpr he)
    rw [hpid, Outcome.ok.injEq, eq_comm]
  calc fs.list.countP (fun id => IdentityLib.publicIdentity id = .ok pid)
    _ = fs.idx.entries.countP (fun e => IdentityLib.publicIdentity e.2 = .ok pid) := by
      rw [FileStore.list, Multiset.countP_map, Multiset.countP_eq_card_filter]
    _ = fs.idx.entries.countP (fun e => pid = e.1) := 
      Multiset.countP_congr rfl fun e he => propext (hcongr e he)
    _ = fs.idx.entries.keys.count pid := by
      rw [Multiset.keys, Multiset.count_map, Multiset.countP_eq_card_filter]
    _ = 1 := Multiset.count_eq_one_of_mem fs.idx.nodupKeys.nodup_keys (Finmap.mem_def.mp hmem)

end

/-! ## One call -/

namespace FileStore

variable {fs : FileStore} {ω : Disk} {id : PrivateIdentity}

/-- The call appends: the identity is not in the index, and it can be written down. -/
def Appends (fs : FileStore) (id : PrivateIdentity) : Prop :=
  ∃ pid sk raw, IdentityLib.publicIdentity id = .ok pid ∧ pid ∉ fs.idx ∧ id = .ed25519 sk ∧
    IdentityLib.multibaseEncode sk = .ok raw

theorem write_keeps (ω : Disk) (fs : FileStore) :
    (fs.write ω).2.ids = fs.ids ∧ (fs.write ω).2.idx = fs.idx := by
  unfold write
  split
  · exact ⟨rfl, rfl⟩
  · split
    · exact ⟨rfl, rfl⟩
    · exact ⟨rfl, rfl⟩
    · split <;> exact ⟨rfl, rfl⟩

/-- **What `Add` does**: it appends, or leaves the store as it is; and then it returns nil only if
the identity is in the index. -/
theorem add_cases (ω : Disk) (id : PrivateIdentity) (fs : FileStore) :
    (∃ pid sk raw, IdentityLib.publicIdentity id = .ok pid ∧ pid ∉ fs.idx ∧ id = .ed25519 sk ∧
      IdentityLib.multibaseEncode sk = .ok raw ∧
      (fs.add ω id).2.ids = fs.ids ++ [⟨"ed25519", raw⟩] ∧ (fs.add ω id).2.idx = fs.idx) ∨
    ¬ fs.Appends id ∧ (fs.add ω id).2 = fs ∧
      ((fs.add ω id).1 = .ok () → ∀ pid, IdentityLib.publicIdentity id = .ok pid →
        pid ∈ fs.idx) := by
  cases hpid : IdentityLib.publicIdentity id with
  | panic => simp [add, hpid, Appends]
  | err e => simp [add, hpid, Appends]
  | ok pid =>
    by_cases hmem : pid ∈ fs.idx
    · simp [add, hpid, hmem, Appends]
    · cases id with
      | other type sk => simp [add, hpid, hmem, Appends]
      | ed25519 sk =>
        cases hraw : IdentityLib.multibaseEncode sk with
        | panic => simp [add, hpid, hmem, hraw, Appends, Outcome.mapErr]
        | err e => simp [add, hpid, hmem, hraw, Appends, Outcome.mapErr]
        | ok raw =>
          refine .inl ⟨pid, sk, raw, rfl, hmem, rfl, hraw, ?_⟩
          simp only [add, hpid, hmem, hraw, Outcome.mapErr, if_false]
          exact write_keeps ω _

end FileStore

/-! ## Whole runs -/

/-- The two representations agree, and nothing is there twice. -/
structure Coherent (fs : FileStore) : Prop where
  index : buildIdx fs.ids = .ok fs.idx
  distinct : fs.ids.Pairwise fun a b => ∀ pid, a.publicId = .ok pid → b.publicId ≠ .ok pid

/-- What a call returns is what has become of the store. -/
structure Honest (fs : FileStore) (ω : Disk) (id : PrivateIdentity) : Prop where
  nil : (fs.add ω id).1 = .ok () → ∀ pid, IdentityLib.publicIdentity id = .ok pid →
    (∃ i, (fs.add ω id).2.find pid = .ok i) ∧
      (fs.add ω id).2.list.countP (fun i => IdentityLib.publicIdentity i = .ok pid) = 1
  err : ∀ e, (fs.add ω id).1 = .err e →
    (fs.add ω id).2.ids = fs.ids ∧ (fs.add ω id).2.idx = fs.idx

/-- A call of `Add`, with what the disk does meanwhile. -/
abbrev Addition := Disk × PrivateIdentity

def added (fs : FileStore) (a : Addition) : FileStore := (fs.add a.1 a.2).2

/-- **The store stays coherent** over these calls: in every state, and at every call. -/
def StaysCoherent (fs : FileStore) (as : List Addition) : Prop :=
  Along added (fun fs a => Coherent fs ∧ Honest fs a.1 a.2) fs as ∧ Coherent (as.foldl added fs)

section

variable {fs : FileStore} {ω : Disk} {id : PrivateIdentity} {as : List Addition}

/-- An appended identity is in the file and not in the index. -/
theorem not_coherent_of_appends (hlib : IdentityLib.Faithful) (h : fs.Appends id) :
    ¬ Coherent (added fs (ω, id)) := by
  intro hcoherent
  rcases fs.add_cases ω id with ⟨pid, sk, raw, hpid, hmem, rfl, hraw, hids, hidx⟩ | ⟨hnot, -⟩
  · have hindex := hcoherent.index
    rw [added, hids, hidx] at hindex
    refine hmem (buildIdx_append hindex ?_)
    simp [FileStoreId.publicId, decodeType, hlib sk raw hraw, Outcome.mapErr, hpid]
  · exact hnot h

theorem honest_of_not_appends (ω : Disk) (hindex : buildIdx fs.ids = .ok fs.idx)
    (h : ¬ fs.Appends id) : Honest fs ω id ∧ added fs (ω, id) = fs := by
  rcases fs.add_cases ω id with ⟨pid, sk, raw, hpid, hmem, hid, hraw, -⟩ | ⟨-, hsame, hnil⟩
  · exact absurd ⟨pid, sk, raw, hpid, hmem, hid, hraw⟩ h
  · refine ⟨⟨fun hok pid hpid => ?_, fun e _ => by rw [hsame]; exact ⟨rfl, rfl⟩⟩, hsame⟩
    have hmem := hnil hok pid hpid
    rw [hsame]
    refine ⟨?_, countP_list (filed_buildIdx hindex) hmem⟩
    obtain ⟨i, hi⟩ := Option.isSome_iff_exists.mp (Finmap.lookup_isSome.mpr hmem)
    exact ⟨i, by simp [FileStore.find, hi]⟩

theorem StaysCoherent.coherent (h : StaysCoherent fs as) : Coherent fs := by
  cases as with
  | nil => exact h.2
  | cons a as => exact h.1.1.1

/-- **Exactly as long as nothing is added.** An identity store that was opened on any file stays
coherent over a sequence of calls of `Add`, whatever the disk does, if and only if the file has no
two entries with one public id and none of the calls appends. -/
theorem staysCoherent_iff (hlib : IdentityLib.Faithful) (ω : Disk) (file : Bytes)
    (fs : FileStore) (hnew : newFileStore ω file = .ok fs) (as : List Addition) :
    StaysCoherent fs as ↔
      (fs.ids.Pairwise fun a b => ∀ pid, a.publicId = .ok pid → b.publicId ≠ .ok pid) ∧
        ∀ a ∈ as, ¬ fs.Appends a.2 := by
  have hindex : buildIdx fs.ids = .ok fs.idx := by
    obtain ⟨-, -, hnew⟩ := Outcome.bind_eq_ok.mp hnew
    obtain ⟨-, -, hnew⟩ := Outcome.bind_eq_ok.mp hnew
    obtain ⟨ids, -, hnew⟩ := Outcome.bind_eq_ok.mp hnew
    obtain ⟨idx, hidx, hnew⟩ := Outcome.bind_eq_ok.mp hnew
    obtain rfl := Outcome.ok.inj hnew
    exact hidx
  clear hnew
  induction as with
  | nil =>
    constructor
    · exact fun h => ⟨h.2.distinct, fun a ha => absurd ha List.not_mem_nil⟩
    · exact fun h => ⟨trivial, hindex, h.1⟩
  | cons a as ih =>
    obtain ⟨ω', id⟩ := a
    by_cases happends : fs.Appends id
    · constructor
      · intro h
        have hrest : StaysCoherent (added fs (ω', id)) as := ⟨h.1.2, h.2⟩
        exact absurd hrest.coherent (not_coherent_of_appends hlib happends)
      · exact fun h => absurd happends (h.2 _ List.mem_cons_self)
    · -- the store is the same afterwards
      obtain ⟨hhonest, hsame⟩ := honest_of_not_appends ω' hindex happends
      have hcons : StaysCoherent fs ((ω', id) :: as) ↔ Coherent fs ∧ StaysCoherent fs as := by
        simp only [StaysCoherent, Along, List.foldl_cons, hsame]
        constructor
        · exact fun h => ⟨h.1.1.1, h.1.2, h.2⟩
        · exact fun h => ⟨⟨⟨h.1, hhonest⟩, h.2.1⟩, h.2.2⟩
      rw [hcons, List.forall_mem_cons]
      constructor
      · intro h
        exact ⟨(ih.mp h.2).1, happends, (ih.mp h.2).2⟩
      · exact fun h => ⟨⟨hindex, h.1⟩, ih.mpr ⟨h.1, h.2.2⟩⟩

end
end

section Sample

/-- Two keys, the identities `a` and `b`, and a file of one byte for each key it holds. -/
local instance twoKeys : IdentityLib where
  multibaseDecode data :=
    if data = "m1" then .ok [1] else if data = "m2" then .ok [2] else .err (.new "multibase")
  multibaseEncode sk :=
    if sk = [1] then .ok "m1" else if sk = [2] then .ok "m2" else .err (.new "multibase")
  yamlUnmarshal d := .ok (d.map fun b => ⟨"ed25519", if b = 1 then "m1" else "m2"⟩)
  yamlMarshal ids := .ok (ids.map fun fid => if fid.data = "m1" then 1 else 2)
  publicIdentity
    | .ed25519 sk => .ok (if sk = [1] then "a" else "b")
    | .other _ _ => .ok "c"

theorem twoKeys_faithful : IdentityLib.Faithful := by
  intro sk raw h
  simp only [IdentityLib.multibaseEncode] at h
  split at h
  · next hsk =>
    obtain rfl := Outcome.ok.inj h
    rw [hsk]
    rfl
  · split at h
    · next hsk =>
      obtain rfl := Outcome.ok.inj h
      rw [hsk]
      rfl
    · cases h

/-- The store on a file with these bytes. -/
def storeOf (d : Bytes) : FileStore :=
  match newFileStore {} d with
  | .ok fs => fs
  | _ => ⟨[], [], ∅⟩

/-- A store that holds `a` is asked to add it again, and to add what it cannot write down. -/
theorem storeOf_a_staysCoherent :
    StaysCoherent (storeOf [1])
      [({}, .ed25519 [1]), ({}, .other "*did.Bls12381G2Identity" [])] := by
  refine (staysCoherent_iff twoKeys_faithful {} [1] _ rfl _).mpr
    ⟨List.pairwise_singleton _ _, ?_⟩
  intro a ha
  rintro ⟨pid, sk, raw, hpid, hmem, hid, -⟩
  rcases List.mem_cons.mp ha with rfl | ha
  · obtain rfl : "a" = pid := Outcome.ok.inj hpid
    exact hmem (by decide)
  · rw [List.mem_singleton.mp ha] at hid
    cases hid

/-- An empty store to which `a` was added, and added again. -/
def addedOnce : FileStore := added (storeOf []) ({}, .ed25519 [1])

def addedTwice : FileStore := added addedOnce ({}, .ed25519 [1])

/-- The file cannot be opened. -/
def lockedDisk : Disk := { openErr := some (.new "permission denied") }

/-- **An identity that was added is not found.** On an empty file `Add` of `a` returns nil, twice;
`Find` does not find it, `List` is empty and `ids` has it twice. And an `Add` of `b` that fails to
write has changed `ids`. -/
theorem added_not_found :
    ((storeOf []).add {} (.ed25519 [1])).1 = .ok () ∧
      (addedOnce.add {} (.ed25519 [1])).1 = .ok () ∧
      addedTwice.ids = [⟨"ed25519", "m1"⟩, ⟨"ed25519", "m1"⟩] ∧
      addedTwice.find "a" = .err (.new "not found") ∧ addedTwice.list = 0 ∧
      (∃ idx, buildIdx addedTwice.ids = .ok idx ∧ idx ≠ addedTwice.idx) ∧
      (∃ e, (addedTwice.add lockedDisk (.ed25519 [2])).1 = .err e) ∧
      (addedTwice.add lockedDisk (.ed25519 [2])).2.ids ≠ addedTwice.ids := by
  refine ⟨by decide, by decide, by decide, by decide, by decide, ⟨_, rfl, by decide⟩, ⟨_, rfl⟩,
    by decide⟩

end Sample
end Didem.Identity
