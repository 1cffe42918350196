import Mathlib.Data.List.Basic
import Mathlib.Logic.Function.Basic

/-!
# Self-delimiting codes

A code writes a value in front of whatever follows, and can be read off the front again: the list
written determines both the value and what followed it (`put_inj`). Codes of parts then compose to
codes of the whole without any separators, and the injectivity of a large record is peeled off field
by field. Numbers are in unary, which is good enough for the small values codes are evaluated on.
-/

set_option autoImplicit false

namespace Didem.Lib

class Code (α : Type) where
  put : α → List UInt8 → List UInt8
  put_inj : ∀ {a b : α} {r r' : List UInt8}, put a r = put b r' → a = b ∧ r = r'

namespace Code

variable {α β : Type}

/-- The code of a value alone is injective. -/
theorem put_nil_injective [Code α] : Function.Injective fun a : α => put a [] :=
  fun _ _ h => (put_inj h).1

/-- A code through an injection into a type that has one. -/
@[reducible] def ofInjective [Code β] (f : α → β) (hf : Function.Injective f) : Code α where
  put a r := put (f a) r
  put_inj h := ⟨hf (put_inj h).1, (put_inj h).2⟩

instance : Code UInt8 where
  put a r := a :: r
  put_inj h := List.cons.inj h

def putNat : Nat → List UInt8 → List UInt8
  | 0, r => 0 :: r
  | n + 1, r => 1 :: putNat n r

theorem putNat_inj {n m : Nat} {r r' : List UInt8} (h : putNat n r = putNat m r') :
    n = m ∧ r = r' := by
  induction n generalizing m with
  | zero =>
    cases m with
    | zero => exact ⟨rfl, (List.cons.inj h).2⟩
    | succ m => exact absurd (List.cons.inj h).1 (by decide)
  | succ n ih =>
    cases m with
    | zero => exact absurd (List.cons.inj h).1 (by decide)
    | succ m =>
      obtain ⟨hn, hr⟩ := ih (List.cons.inj h).2
      exact ⟨congrArg (· + 1) hn, hr⟩

instance : Code Nat where
  put := putNat
  put_inj := putNat_inj

instance [Code α] [Code β] : Code (α × β) where
  put p r := put p.1 (put p.2 r)
  put_inj h := by
    obtain ⟨hfst, hrest⟩ := put_inj h
    obtain ⟨hsnd, hr⟩ := put_inj hrest
    exact ⟨Prod.ext hfst hsnd, hr⟩

def putList [Code α] : List α → List UInt8 → List UInt8
  | [], r => 0 :: r
  | a :: l, r => 1 :: put a (putList l r)

theorem putList_inj [Code α] {l l' : List α} {r r' : List UInt8}
    (h : putList l r = putList l' r') : l = l' ∧ r = r' := by
  induction l generalizing l' with
  | nil =>
    cases l' with
    | nil => exact ⟨rfl, (List.cons.inj h).2⟩
    | cons a l' => exact absurd (List.cons.inj h).1 (by decide)
  | cons a l ih =>
    cases l' with
    | nil => exact absurd (List.cons.inj h).1 (by decide)
    | cons a' l' =>
      obtain ⟨ha, hrest⟩ := put_inj (List.cons.inj h).2
      obtain ⟨hl, hr⟩ := ih hrest
      exact ⟨by rw [ha, hl], hr⟩

instance [Code α] : Code (List α) where
  put := putList
  put_inj := putList_inj

instance [Code α] : Code (Option α) :=
  ofInjective Option.toList fun a b h => by
    cases a <;> cases b <;> simp_all

instance : Code Int :=
  ofInjective (fun i => (i.toNat, (-i).toNat)) fun a b h => by
    simp only [Prod.mk.injEq] at h
    omega

instance : Code UInt32 := ofInjective UInt32.toNat fun _ _ h => UInt32.toNat.inj h

instance : Code UInt64 := ofInjective UInt64.toNat fun _ _ h => UInt64.toNat.inj h

instance : Code String :=
  ofInjective (fun s => s.toList.map Char.toNat) fun a b h => by
    have hchar : Function.Injective Char.toNat := fun c d hcd => Char.toNat_inj.mp hcd
    exact String.toList_injective (List.map_injective_iff.mpr hchar h)

end Code
end Didem.Lib
