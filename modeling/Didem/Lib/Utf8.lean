import Mathlib.Data.List.Lex
import Mathlib.Data.String.Basic
import Mathlib.Order.Basic

/-!
# The bytes and the order of UTF-8

Go compares strings and byte slices byte by byte; Lean compares strings by their characters. For
UTF-8 the two are one order: the first byte of a character grows with its size, and within one size
the bytes are the digits of the code point, the highest first.
-/

set_option autoImplicit false

namespace Didem.Lib

namespace ByteOrder

/-- Bytes in order, and lists of them in lexicographic order. -/
scoped instance linearOrderUInt8 : LinearOrder UInt8 where
  le_refl := UInt8.le_refl
  le_trans _ _ _ := UInt8.le_trans
  le_antisymm _ _ := UInt8.le_antisymm
  le_total := UInt8.le_total
  lt_iff_le_not_ge _ _ := Std.LawfulOrderLT.lt_iff _ _
  toDecidableLE := inferInstance

end ByteOrder

open ByteOrder

/-! ## Bytes -/

theorem ofNat_cons_lt {a b : Nat} (hb : b < 256) (h : a < b) (l l' : List UInt8) :
    UInt8.ofNat a :: l < UInt8.ofNat b :: l' := by
  refine List.Lex.rel ?_
  rw [UInt8.lt_iff_toNat_lt, UInt8.toNat_ofNat', UInt8.toNat_ofNat']
  omega

theorem ofNat_cons_lt_of_eq {a b : Nat} (h : a = b) {l l' : List UInt8} (hl : l < l') :
    UInt8.ofNat a :: l < UInt8.ofNat b :: l' := h ▸ List.Lex.cons hl

/-! ## Characters -/

/-- What follows a character does not matter for the order of different ones. -/
theorem utf8EncodeChar_append_lt {c d : Char} (h : c < d) (x y : List UInt8) :
    String.utf8EncodeChar c ++ x < String.utf8EncodeChar d ++ y := by
  have hlt : c.val.toNat < d.val.toNat := h
  have hd : d.val.toNat < 0x110000 := by
    rcases d.valid with h | h <;> omega
  unfold String.utf8EncodeChar
  generalize c.val.toNat = v at hlt ⊢
  generalize d.val.toNat = w at hlt hd ⊢
  have hdigit (n : Nat) : v / n < w / n ∨ v / n = w / n ∧ v % n < w % n := by
    rcases Nat.lt_or_eq_of_le (Nat.div_le_div_right (c := n) hlt.le) with hn | hn
    · exact .inl hn
    · refine .inr ⟨hn, ?_⟩
      have hv := Nat.div_add_mod v n
      have hw := Nat.div_add_mod w n
      rw [hn] at hv
      omega
  simp only
  split_ifs
  -- a character of a larger size has a larger first byte
  any_goals first
    | omega
    | refine ofNat_cons_lt ?_ ?_ _ _ <;> omega
  -- two of the same size: the bytes are the digits of the code points
  · rcases hdigit 64 with h | ⟨h, h'⟩
    · exact ofNat_cons_lt (by omega) (by omega) _ _
    · exact ofNat_cons_lt_of_eq (by omega) (ofNat_cons_lt (by omega) (by omega) _ _)
  · rcases hdigit 4096 with h | ⟨h, -⟩
    · exact ofNat_cons_lt (by omega) (by omega) _ _
    refine ofNat_cons_lt_of_eq (by omega) ?_
    rcases hdigit 64 with h | ⟨h, h'⟩
    · exact ofNat_cons_lt (by omega) (by omega) _ _
    · exact ofNat_cons_lt_of_eq (by omega) (ofNat_cons_lt (by omega) (by omega) _ _)
  · rcases hdigit 262144 with h | ⟨h, -⟩
    · exact ofNat_cons_lt (by omega) (by omega) _ _
    refine ofNat_cons_lt_of_eq (by omega) ?_
    rcases hdigit 4096 with h | ⟨h, -⟩
    · exact ofNat_cons_lt (by omega) (by omega) _ _
    refine ofNat_cons_lt_of_eq (by omega) ?_
    rcases hdigit 64 with h | ⟨h, h'⟩
    · exact ofNat_cons_lt (by omega) (by omega) _ _
    · exact ofNat_cons_lt_of_eq (by omega) (ofNat_cons_lt (by omega) (by omega) _ _)

/-- **A byte below 128 is a character of its own**: it is no part of the encoding of another. -/
theorem mem_utf8EncodeChar {c : Char} {n : Nat} (hn : n < 128) :
    UInt8.ofNat n ∈ String.utf8EncodeChar c ↔ c.toNat = n := by
  have hc : c.val.toNat < 0x110000 := by
    rcases c.valid with h | h <;> omega
  unfold String.utf8EncodeChar
  rw [Char.toNat]
  generalize c.val.toNat = v at hc ⊢
  simp only
  split_ifs <;> simp only [List.mem_cons, List.not_mem_nil, or_false, ← UInt8.toNat_inj,
    UInt8.toNat_ofNat'] <;> omega

/-! ## Strings -/

theorem toUTF8_eq_flatMap (s : String) :
    s.toUTF8.data.toList = s.toList.flatMap String.utf8EncodeChar := by
  conv_lhs => rw [← String.ofList_toList (s := s)]
  show (String.ofList s.toList).toByteArray.data.toList = _
  rw [String.toByteArray_ofList]
  simp [List.utf8Encode]

theorem mem_toUTF8 {s : String} {n : Nat} (hn : n < 128) :
    UInt8.ofNat n ∈ s.toUTF8.data.toList ↔ ∃ c ∈ s.toList, c.toNat = n := by
  rw [toUTF8_eq_flatMap, List.mem_flatMap]
  simp only [mem_utf8EncodeChar hn]

/-- A character takes at least a byte. -/
theorem length_le_toUTF8 (s : String) : s.length ≤ s.toUTF8.data.toList.length := by
  rw [toUTF8_eq_flatMap, ← String.length_toList]
  induction s.toList with
  | nil => exact Nat.le_refl _
  | cons c l ih =>
    have hpos : 0 < (String.utf8EncodeChar c).length :=
      List.length_pos_iff.mpr String.utf8EncodeChar_ne_nil
    rw [List.flatMap_cons, List.length_append, List.length_cons]
    omega

theorem flatMap_utf8EncodeChar_strictMono :
    StrictMono fun l : List Char => l.flatMap String.utf8EncodeChar := by
  intro l l' h
  induction h with
  | @nil d l' =>
    show [] < String.utf8EncodeChar d ++ _
    cases hd : String.utf8EncodeChar d with
    | nil => exact absurd hd String.utf8EncodeChar_ne_nil
    | cons b bs => exact List.Lex.nil
  | @cons c l l' _ ih => exact List.append_left_lt ih
  | @rel c l d l' h => exact utf8EncodeChar_append_lt h _ _

/-- **The bytes of strings are in the order of the strings.** -/
theorem toUTF8_lt_iff {s t : String} : s.toUTF8.data.toList < t.toUTF8.data.toList ↔ s < t := by
  rw [toUTF8_eq_flatMap, toUTF8_eq_flatMap, flatMap_utf8EncodeChar_strictMono.lt_iff_lt,
    String.lt_iff]

end Didem.Lib
