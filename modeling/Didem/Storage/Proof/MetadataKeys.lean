import Didem.Lib.Utf8
import Didem.Storage.Proof.Tables

/-!
# The keys of the metadata

One database holds all tables, so **a key has to say which table it is of and give its arguments
back**. The first byte is the table. The arguments are joined with `:`, which DIDs and node ids may
contain; the history table is the only one with two arguments, and its second is the text of a CID,
which does not contain `:`. So the *last* separator of such a key is the one `typedKey` has put
there.

A Go string may hold any bytes. `typedKeyOf` is the source's loop over such strings, and the
`typedKey` of the model is that loop on text (`typedKeyOf_map`).
-/

set_option autoImplicit false

namespace Didem.Storage

open Lib ByteOrder

/-! ## The loop of `typedKey` -/

/-- `typedKey`: a separator after each part, and the last one is cut off. -/
def typedKeyOf (kType : MetadataKeyType) (parts : List Bytes) : Bytes :=
  if parts.length = 0 then [kType.byte]
  else
    let k := parts.foldl (fun k p => k ++ p ++ [tableSep]) [kType.byte]
    k.take (k.length - 1)

theorem foldl_parts (parts : List Bytes) (k : Bytes) :
    parts.foldl (fun k p => k ++ p ++ [tableSep]) k = k ++ parts.flatMap (· ++ [tableSep]) := by
  induction parts generalizing k with
  | nil => simp
  | cons p parts ih => rw [List.foldl_cons, ih, List.flatMap_cons]; simp only [List.append_assoc]

theorem flatMap_parts (p : Bytes) (parts : List Bytes) :
    (p :: parts).flatMap (· ++ [tableSep]) =
      List.intercalate [tableSep] (p :: parts) ++ [tableSep] := by
  induction parts generalizing p with
  | nil => simp
  | cons q parts ih =>
    rw [List.flatMap_cons, ih q, List.intercalate_cons_cons]
    simp only [List.append_assoc]

/-- The separators are between the parts. -/
theorem typedKeyOf_eq (kType : MetadataKeyType) (parts : List Bytes) :
    typedKeyOf kType parts = kType.byte :: List.intercalate [tableSep] parts := by
  cases parts with
  | nil => rfl
  | cons p parts =>
    have hlen : (p :: parts).length ≠ 0 := Nat.succ_ne_zero _
    rw [typedKeyOf, if_neg hlen, foldl_parts, flatMap_parts, ← List.append_assoc]
    simp only [← List.dropLast_eq_take, List.dropLast_concat]
    rfl

example : typedKeyOf .txBlock [[97], [97]] = [1, 97, tableSep, 97] := rfl

/-- The keys of the model are keys of the loop. -/
theorem typedKeyOf_map (kType : MetadataKeyType) (parts : List String) :
    typedKeyOf kType (parts.map stringBytes) = typedKey kType parts :=
  typedKeyOf_eq kType _

/-! ## The last separator -/

/-- No CID is written with the separator of keys. -/
def NoSeparator [CidText] : Prop := ∀ c : Cid, ':' ∉ c.string.toList

theorem NoSeparator.notMem [CidText] (h : NoSeparator) (c : Cid) :
    tableSep ∉ stringBytes c.string := by
  intro hmem
  obtain ⟨x, hx, hnat⟩ := (mem_toUTF8 (n := 58) (by decide)).mp hmem
  have hcolon : x = ':' := Char.toNat_inj.mp (hnat.trans rfl)
  exact h c (hcolon ▸ hx)

theorem typedKey_pair (kType : MetadataKeyType) (a b : String) :
    typedKey kType [a, b] = kType.byte :: (stringBytes a ++ tableSep :: stringBytes b) := by
  simp [typedKey, List.intercalate]

/-- What stands after the last separator. -/
def lastPart (key : Bytes) : Bytes := key.reverse.takeWhile (· ≠ tableSep)

theorem lastPart_append {a b : Bytes} (h : tableSep ∉ b) :
    lastPart (a ++ tableSep :: b) = b.reverse := by
  have hb : ∀ x ∈ b.reverse, decide (x ≠ tableSep) = true := by
    intro x hx
    exact decide_eq_true fun heq => h (heq ▸ List.mem_reverse.mp hx)
  rw [lastPart, List.reverse_append, List.reverse_cons, List.append_assoc, List.singleton_append,
    List.takeWhile_append_of_pos hb]
  simp

/-- Two parts can be told apart, if the second has no separator in it. -/
theorem parts_of_eq {a a' b b' : Bytes} (hb : tableSep ∉ b) (hb' : tableSep ∉ b')
    (h : a ++ tableSep :: b = a' ++ tableSep :: b') : a = a' ∧ b = b' := by
  have hlast := congrArg lastPart h
  rw [lastPart_append hb, lastPart_append hb'] at hlast
  obtain rfl : b = b' := List.reverse_injective hlast
  exact ⟨List.append_cancel_right h, rfl⟩

/-- The key of a history entry determines the transaction, though a DID may have separators in
it. -/
theorem cid_of_historyKey [CidText] (hsep : NoSeparator) {d d' : String} {c c' : Cid}
    (h : typedKey .didHistory [d, c.string] = typedKey .didHistory [d', c'.string]) : c = c' := by
  rw [typedKey_pair, typedKey_pair, List.cons.injEq] at h
  have hparts := parts_of_eq (hsep.notMem c) (hsep.notMem c') h.2
  exact CidText.string_injective (stringBytes_injective hparts.2)

/-! ## Ranges -/

/-- The bounds of the scan are those of the table. -/
theorem IPFSStorage.mem_range_iff {key : Bytes} {p : UInt8} (hp : p < 255) :
    ([p] ≤ key ∧ key < [p + 1]) ↔ key.head? = some p := by
  cases key with
  | nil => simp
  | cons b key =>
    have hsucc : b < p + 1 ↔ b ≤ p := by
      rw [UInt8.lt_iff_toNat_lt, UInt8.le_iff_toNat_le, UInt8.toNat_add]
      rw [UInt8.lt_iff_toNat_lt] at hp
      have : (255 : UInt8).toNat = 255 := rfl
      have : (1 : UInt8).toNat = 1 := rfl
      omega
    rw [← not_lt, List.cons_lt_cons_iff, List.cons_lt_cons_iff]
    simp only [List.not_lt_nil, and_false, or_false, not_lt, hsucc, List.head?_cons,
      Option.some.injEq]
    exact ⟨fun h => le_antisymm h.2 h.1, fun h => ⟨h.ge, h.le⟩⟩

theorem MetadataKeyType.byte_lt (kType : MetadataKeyType) : kType.byte < 255 := by
  cases kType <;> decide

/-! ## The keys that are used -/

/-- The text of a CID, as the bytes of a Go string. -/
abbrev CidString := { s : Bytes // tableSep ∉ s }

/-- What `IPFSStorage` asks `typedKey` for: a table with the arguments of its call sites. -/
inductive Entry where
  | txBlock (id : CidString)
  | blockState (id : CidString)
  | did (d : Bytes)
  | didHistory (d : Bytes) (id : CidString)
  | nodes (id : Bytes)
  | latestBlock
  | genesis
  deriving DecidableEq

namespace Entry

def table : Entry → MetadataKeyType
  | .txBlock _ => .txBlock
  | .blockState _ => .blockState
  | .did _ => .did
  | .didHistory _ _ => .didHistory
  | .nodes _ => .nodes
  | .latestBlock => .latestBlock
  | .genesis => .genesis

def parts : Entry → List Bytes
  | .txBlock id | .blockState id => [id.val]
  | .did d => [d]
  | .didHistory d id => [d, id.val]
  | .nodes id => [id]
  | .latestBlock | .genesis => []

def key (e : Entry) : Bytes := typedKeyOf e.table e.parts

theorem key_eq (e : Entry) : e.key = e.table.byte :: List.intercalate [tableSep] e.parts :=
  typedKeyOf_eq _ _

/-- `key[1:]`. -/
theorem drop_key (e : Entry) : e.key.drop 1 = List.intercalate [tableSep] e.parts := by
  rw [key_eq, List.drop_succ_cons, List.drop_zero]

theorem table_of_key_eq {e e' : Entry} (h : e.key = e'.key) : e.table = e'.table := by
  rw [key_eq, key_eq, List.cons.injEq] at h
  exact MetadataKeyType.byte_injective h.1

/-- One argument is joined with nothing. -/
theorem arg_of_eq {a a' : Bytes}
    (h : List.intercalate [tableSep] [a] = List.intercalate [tableSep] [a']) : a = a' := by
  rwa [List.intercalate_singleton, List.intercalate_singleton] at h

/-- **A key gives its table and its arguments back.** -/
theorem eq_of_key_eq {e e' : Entry} (h : e.key = e'.key) : e = e' := by
  have htable := table_of_key_eq h
  have hparts : List.intercalate [tableSep] e.parts = List.intercalate [tableSep] e'.parts := by
    rw [← drop_key, ← drop_key, h]
  cases e with
  | txBlock id =>
    cases e' with
    | txBlock id' =>
      rw [Subtype.ext (arg_of_eq hparts)]
    | _ => cases htable
  | blockState id =>
    cases e' with
    | blockState id' =>
      rw [Subtype.ext (arg_of_eq hparts)]
    | _ => cases htable
  | did d =>
    cases e' with
    | did d' =>
      rw [arg_of_eq hparts]
    | _ => cases htable
  | didHistory d id =>
    cases e' with
    | didHistory d' id' =>
      rw [parts, parts, List.intercalate_cons_cons, List.intercalate_cons_cons,
        List.intercalate_singleton, List.intercalate_singleton, List.append_assoc,
        List.append_assoc] at hparts
      obtain ⟨hd, hid⟩ := parts_of_eq id.property id'.property hparts
      rw [hd, Subtype.ext hid]
    | _ => cases htable
  | nodes id =>
    cases e' with
    | nodes id' =>
      rw [arg_of_eq hparts]
    | _ => cases htable
  | latestBlock =>
    cases e' with
    | latestBlock => rfl
    | _ => cases htable
  | genesis =>
    cases e' with
    | genesis => rfl
    | _ => cases htable

end Entry

/-- **Metadata keys never collide.** Equal keys are of the same table and have the same arguments; a
key lies between the bounds of an iterator exactly if it is of the iterator's table; and what
follows the first byte is the argument, if there is one. -/
theorem metadata_keys_never_collide :
    (∀ e e' : Entry, e.key = e'.key → e.table = e'.table ∧ e.parts = e'.parts) ∧
    (∀ (e : Entry) (kType : MetadataKeyType),
      ([kType.byte] ≤ e.key ∧ e.key < [kType.byte + 1]) ↔ e.table = kType) ∧
    ∀ (e : Entry) (a : Bytes), e.parts = [a] → e.key.drop 1 = a := by
  refine ⟨?_, ?_, ?_⟩
  · intro e e' h
    rw [Entry.eq_of_key_eq h]
    exact ⟨rfl, rfl⟩
  · intro e kType
    rw [IPFSStorage.mem_range_iff kType.byte_lt, Entry.key_eq, List.head?_cons,
      Option.some.injEq]
    exact MetadataKeyType.byte_injective.eq_iff
  · intro e a h
    rw [Entry.drop_key, h, List.intercalate_singleton]

end Didem.Storage
