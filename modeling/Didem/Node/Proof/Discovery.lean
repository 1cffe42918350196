import Didem.Comm.Proof.Connect
import Didem.Lib.Utf8
import Didem.Node.Discovery
import Didem.Storage.Sample

/-!
# Sender and recipient never meet

What a node provides is the digest of a public key, 32 bytes; what a sender looks for is the digest
of a public ID, the text of a multihash, which is longer. So, unless SHA3-384 has the same digest
for the two, **no run of the network ever has a record that a sender looks for**, and
`connectEndProviders` ends with "no recipient providers" for every recipient.
-/

set_option autoImplicit false

namespace Didem.Discovery

open Lib Storage
open Identity (PrivateIdentity FileStore FileStoreId IdentityLib Index Disk)

/-! ## The identities of a store -/

section

variable [IdentityLib]

theorem ed25519_of_decodeType {t data : String} {id : PrivateIdentity}
    (h : Identity.decodeType t data = .ok id) : ∃ sk, id = .ed25519 sk := by
  obtain ⟨raw, -, h⟩ := Outcome.bind_eq_ok.mp h
  split at h
  · exact ⟨raw, (Outcome.ok.inj h).symm⟩
  · cases h

theorem ed25519_of_buildFrom {ids : List FileStoreId} {idx idx' : Index}
    (h : Identity.buildFrom idx ids = .ok idx')
    (hidx : ∀ pid id, idx.lookup pid = some id → ∃ sk, id = .ed25519 sk) :
    ∀ pid id, idx'.lookup pid = some id → ∃ sk, id = .ed25519 sk := by
  induction ids generalizing idx with
  | nil => exact Outcome.ok.inj h ▸ hidx
  | cons fid ids ih =>
    obtain ⟨id, hid, h⟩ := Outcome.bind_eq_ok.mp h
    obtain ⟨pid, -, h⟩ := Outcome.bind_eq_ok.mp h
    refine ih h fun pid' id' hid' => ?_
    by_cases heq : pid' = pid
    · rw [heq, Finmap.lookup_insert] at hid'
      rw [← Option.some.inj hid']
      exact ed25519_of_decodeType (Outcome.mapErr_eq_ok.mp hid)
    · rw [Finmap.lookup_insert_of_ne _ heq] at hid'
      exact hidx pid' id' hid'

/-- A file store holds Ed25519 identities. -/
theorem ed25519_of_mem_list {ω : Disk} {file : Bytes} {fs : FileStore}
    (h : Identity.newFileStore ω file = .ok fs) {id : PrivateIdentity} (hid : id ∈ fs.list) :
    ∃ sk, id = .ed25519 sk := by
  obtain ⟨-, -, h⟩ := Outcome.bind_eq_ok.mp h
  obtain ⟨-, -, h⟩ := Outcome.bind_eq_ok.mp h
  obtain ⟨ids, -, h⟩ := Outcome.bind_eq_ok.mp h
  obtain ⟨idx, hidx, h⟩ := Outcome.bind_eq_ok.mp h
  obtain rfl := Outcome.ok.inj h
  obtain ⟨⟨pid, id'⟩, hentry, rfl⟩ := Multiset.mem_map.mp hid
  exact ed25519_of_buildFrom hidx (by simp) pid id' (Finmap.mem_lookup_iff.mpr hentry)

end

/-! ## The digests -/

/-- What is used of the library: `Sum` encodes the digest, a text is read back, encodings and
identifiers tell what they are of, a key has 32 bytes, and the text of a multihash more. -/
structure DigestLib.Lawful [DigestLib] : Prop where
  sum_eq (b : Bytes) : multihashSum b = multihashEncode (sha3Sum384 b)
  encode_inj {d d' mh : Bytes} (h : multihashEncode d = .ok mh) (h' : multihashEncode d' = .ok mh) :
    d = d'
  fromB58String_b58String {b mh : Bytes} (h : multihashSum b = .ok mh) :
    fromB58String (b58String mh) = .ok mh
  newCidV1_injective : Function.Injective newCidV1
  length_ed25519Public {sk pk : Bytes} (h : ed25519Public sk = .ok pk) : pk.length = 32
  length_b58String {b mh : Bytes} (h : multihashSum b = .ok mh) :
    32 < (stringBytes (b58String mh)).length

section

variable [DigestLib] (hlib : DigestLib.Lawful)

include hlib

/-- An ID is longer than a key. -/
theorem length_publicID {id : PrivateIdentity} {pid : String} (h : publicID id = .ok pid) :
    32 < (stringBytes pid).length := by
  obtain ⟨pk, -, h⟩ := Outcome.bind_eq_ok.mp h
  obtain ⟨mh, hmh, h⟩ := Outcome.bind_eq_ok.mp h
  obtain rfl := Outcome.ok.inj h
  exact hlib.length_b58String hmh

/-- What a node provides is the digest of the key: it reads the ID back as it was written. -/
theorem key_of_provideIdentity {id : PrivateIdentity} {c : Cid} (h : provideIdentity id = .ok c) :
    ∃ pk mh, publicKey id = .ok pk ∧
      DigestLib.multihashEncode (DigestLib.sha3Sum384 pk) = .ok mh ∧ c = DigestLib.newCidV1 mh := by
  obtain ⟨pid, hpid, h⟩ := Outcome.bind_eq_ok.mp h
  obtain ⟨pk, hpk, hpid⟩ := Outcome.bind_eq_ok.mp hpid
  obtain ⟨mh, hmh, hpid⟩ := Outcome.bind_eq_ok.mp hpid
  obtain rfl := Outcome.ok.inj hpid
  rw [hlib.fromB58String_b58String hmh] at h
  exact ⟨pk, mh, hpk, hlib.sum_eq pk ▸ hmh, (Outcome.ok.inj h).symm⟩

omit hlib in
/-- The public keys of a network. -/
def keys (nodes : List Node) : Set Bytes :=
  { pk | ∃ n ∈ nodes, ∃ id ∈ n.store.list, publicKey id = .ok pk }

/-- **Every record is that of a key**, after any run. -/
theorem Reachable.records {nodes : List Node} {dht : Dht} (h : Reachable nodes dht) :
    ∀ r ∈ dht, ∃ pk ∈ keys nodes, ∃ mh,
      DigestLib.multihashEncode (DigestLib.sha3Sum384 pk) = .ok mh ∧
        r.1 = DigestLib.newCidV1 mh := by
  induction h with
  | refl => simp
  | tail _ hlast ih =>
    cases hlast with
    | expire hsub => exact fun r hr => ih r (hsub.subset hr)
    | @provide n id c dht hn hid hprovide =>
      intro r hr
      rcases List.mem_cons.mp hr with rfl | hr
      · obtain ⟨pk, mh, hpk, hmh, hc⟩ := key_of_provideIdentity hlib hprovide
        exact ⟨pk, ⟨n, hn, id, hid, hpk⟩, mh, hmh, hc⟩
      · exact ih r hr

/-- **Nobody is found.** The nodes have any identity files, they advertise in any order and as often
as they like, records expire or not, and the DHT answers with some of the providers it knows. -/
theorem never_meets [IdentityLib] {nodes : List Node}
    (hstores : ∀ n ∈ nodes, ∃ ω file, Identity.newFileStore ω file = .ok n.store)
    {recipient : PrivateIdentity} {pid : String} (hpid : publicID recipient = .ok pid)
    (hdigest : Set.InjOn DigestLib.sha3Sum384 (insert (stringBytes pid) (keys nodes)))
    {dht : Dht} (hdht : Reachable nodes dht) {c : Cid} (hc : recCID pid = .ok c)
    {ω : Comm.Providers} {addrs : List Comm.Provider} (hfound : ω.found = .ok addrs)
    (haddrs : addrs ⊆ dht.providers c) :
    ω.connectEndProviders = .err (.new "no recipient providers") := by
  obtain ⟨mh, hmh, hc⟩ := Outcome.bind_eq_ok.mp hc
  obtain rfl := Outcome.ok.inj hc
  have hnone : dht.providers (DigestLib.newCidV1 mh) = [] := by
    refine List.map_eq_nil_iff.mpr (List.filter_eq_nil_iff.mpr fun r hr => ?_)
    obtain ⟨pk, ⟨n, hn, id, hid, hpk⟩, mh', hmh', hrecord⟩ := hdht.records hlib r hr
    rw [decide_eq_true_eq, hrecord]
    intro heq
    obtain rfl := hlib.newCidV1_injective heq
    have hsame : pk = stringBytes pid :=
      hdigest (Set.mem_insert_of_mem _ ⟨n, hn, id, hid, hpk⟩) (Set.mem_insert _ _)
        (hlib.encode_inj hmh' hmh)
    -- a key has 32 bytes, and the text of an ID has more
    obtain ⟨ω, file, hstore⟩ := hstores n hn
    obtain ⟨sk, rfl⟩ := ed25519_of_mem_list hstore hid
    have hkey : pk.length = 32 := hlib.length_ed25519Public hpk
    have htext := length_publicID hlib hpid
    rw [← hsame, hkey] at htext
    exact Nat.lt_irrefl _ htext
  rw [hnone] at haddrs
  rw [Comm.Providers.connectEndProviders_of_ok hfound, if_pos (List.subset_nil.mp haddrs)]

end

/-! ## A node with one identity -/

section

open Storage.Sample (letter toNat_letter)

/-- A digest that tells the first bytes, and how many there are up to a hundred. A multihash is the
digest and a byte before it, and its text has a letter for each byte. -/
local instance homeDigest : DigestLib where
  sha3Sum384 b := UInt8.ofNat (min b.length 100) :: (b ++ List.replicate 47 0).take 47
  multihashSum b := .ok (21 :: UInt8.ofNat (min b.length 100) :: (b ++ List.replicate 47 0).take 47)
  multihashEncode d := .ok (21 :: d)
  b58String mh := String.ofList (mh.map letter)
  fromB58String s := .ok (s.toList.map fun c => UInt8.ofNat (c.toNat - 97))
  newCidV1 mh := ⟨1 :: 85 :: mh⟩
  ed25519Public sk := if sk.length = 64 then .ok (sk.drop 32) else .panic
  otherPublic _ _ := .err (.new "")

theorem homeDigest_lawful : DigestLib.Lawful where
  sum_eq _ := rfl
  encode_inj h h' := (List.cons.inj (Outcome.ok.inj (h.trans h'.symm))).2
  fromB58String_b58String {_ mh} _ := by
    have hback : (mh.map letter).map (fun c => UInt8.ofNat (c.toNat - 97)) = mh := by
      rw [List.map_map]
      refine (List.map_congr_left fun b _ => ?_).trans (List.map_id mh)
      simp [toNat_letter]
    simp only [DigestLib.fromB58String, DigestLib.b58String, String.toList_ofList, hback]
  newCidV1_injective _ _ h := (List.cons.inj (List.cons.inj (Cid.mk.inj h)).2).2
  length_ed25519Public {sk pk} h := by
    simp only [DigestLib.ed25519Public] at h
    split at h
    · rename_i hlen
      rw [← Outcome.ok.inj h, List.length_drop, hlen]
    · cases h
  length_b58String h := by
    rw [← Outcome.ok.inj h]
    refine Nat.lt_of_lt_of_le ?_ (length_le_toUTF8 _)
    simp [DigestLib.b58String]

def homeKey : Bytes := List.replicate 64 7

/-- A file with this key, under the name "me". -/
local instance homeLib : IdentityLib where
  multibaseDecode _ := .ok homeKey
  multibaseEncode _ := .ok ""
  yamlUnmarshal _ := .ok [⟨"ed25519", ""⟩]
  yamlMarshal _ := .ok []
  publicIdentity _ := .ok "me"

def homeStore : FileStore := ⟨[], [⟨"ed25519", ""⟩], (∅ : Index).insert "me" (.ed25519 homeKey)⟩

def home : Node where
  store := homeStore
  peer :=
    { connects := true, opens := true, side := ⟨fun _ n => n, 0, none, [], 0⟩
      answer := .new [] fun _ => 0 }

/-- The multihash of its key. -/
def homeHash : Bytes := 21 :: DigestLib.sha3Sum384 (List.replicate 32 7)

/-- Its ID. -/
def homeID : String := DigestLib.b58String homeHash

/-- What it tells the DHT. -/
def homeDht : Dht := [(DigestLib.newCidV1 homeHash, home.peer)]

theorem publicKey_home : publicKey (.ed25519 homeKey) = .ok (List.replicate 32 7) := by decide

theorem publicID_home : publicID (.ed25519 homeKey) = .ok homeID := by
  rw [publicID, publicKey_home]
  rfl

theorem reachable_homeDht : Reachable [home] homeDht := by
  have hid : PrivateIdentity.ed25519 homeKey ∈ home.store.list := Multiset.mem_singleton_self _
  have hread : DigestLib.fromB58String homeID = .ok homeHash :=
    homeDigest_lawful.fromB58String_b58String (b := List.replicate 32 7) rfl
  refine .single (.provide [] List.mem_cons_self hid ?_)
  rw [provideIdentity, publicID_home, Outcome.ok_bind, hread]
  rfl

theorem eq_of_mem_keys {pk : Bytes} (h : pk ∈ keys [home]) : pk = List.replicate 32 7 := by
  obtain ⟨n, hn, id, hid, hpk⟩ := h
  obtain rfl := List.mem_singleton.mp hn
  obtain rfl : id = .ed25519 homeKey := Multiset.mem_singleton.mp hid
  exact (Outcome.ok.inj (publicKey_home.symm.trans hpk)).symm

/-- The key and the ID have different digests. -/
theorem injOn_home :
    Set.InjOn DigestLib.sha3Sum384 (insert (stringBytes homeID) (keys [home])) := by
  have htext := length_publicID homeDigest_lawful publicID_home
  generalize stringBytes homeID = text at htext ⊢
  have hne : DigestLib.sha3Sum384 text ≠ DigestLib.sha3Sum384 (List.replicate 32 7) := by
    intro h
    have hhead := congrArg UInt8.toNat (List.cons.inj h).1
    simp only [UInt8.toNat_ofNat', List.length_replicate] at hhead
    omega
  rintro x (rfl | hx) y (rfl | hy) h
  · rfl
  · rw [eq_of_mem_keys hy] at h
    exact absurd h hne
  · rw [eq_of_mem_keys hx] at h
    exact absurd h.symm hne
  · rw [eq_of_mem_keys hx, eq_of_mem_keys hy]

/-- It is advertised, and not found. -/
theorem home_not_found :
    Reachable [home] homeDht ∧ ∃ c, recCID homeID = .ok c ∧
      (⟨.ok (homeDht.providers c), id, fun _ => .refl _⟩ : Comm.Providers).connectEndProviders =
        .err (.new "no recipient providers") :=
  ⟨reachable_homeDht, _, rfl, never_meets homeDigest_lawful
    (fun n hn => ⟨{}, [], by rw [List.mem_singleton.mp hn]; rfl⟩)
    publicID_home injOn_home reachable_homeDht rfl rfl (List.Subset.refl _)⟩

end
end Didem.Discovery
