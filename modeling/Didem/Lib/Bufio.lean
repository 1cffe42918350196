import Mathlib.Data.List.Basic

/-!
# Reading from a stream

A transport gives out what it carries in pieces: **every read returns some of it, and how much is
the transport's choice**. A buffered reader, as Go's `bufio.Reader`, makes at most one such read for
one of its own, so what it returns is again some non-empty beginning of what is to come
(`Reader.read_eq`), and as much as was asked for only if the chunks allow it
(`Reader.read_of_serves`).
-/

set_option autoImplicit false

namespace Didem.Lib

/-- What is still to come, and how much of it the next reads give at most. -/
structure Transport where
  rest : List UInt8
  chunks : Nat → Nat

namespace Transport

/-- How much the next read into this much space gives. A choice of nothing counts as one of one
byte. -/
def gives (space : Nat) (t : Transport) : Nat := min space (max 1 (t.chunks 0))

/-- A read into this much space; nothing is returned at the end only. -/
def read (space : Nat) (t : Transport) : Option (List UInt8) × Transport :=
  match t.rest with
  | [] => (none, t)
  | _ =>
    (some (t.rest.take (t.gives space)),
      { rest := t.rest.drop (t.gives space), chunks := fun i => t.chunks (i + 1) })

end Transport

/-- A reader and what it has read ahead. -/
structure Reader where
  buffered : List UInt8
  transport : Transport

namespace Reader

/-- All that is still to come. -/
def content (r : Reader) : List UInt8 := r.buffered ++ r.transport.rest

/-- A read of up to `n` bytes, with a buffer of this size. It does not wait for more when the buffer
has less, and reads past the buffer what would not fit into it. -/
def read (size n : Nat) (r : Reader) : Option (List UInt8) × Reader :=
  if n = 0 then (some [], r)
  else
    match r.buffered with
    | [] =>
      if size ≤ n then
        let (d, t) := r.transport.read n
        (d, { r with transport := t })
      else
        match r.transport.read size with
        | (none, t) => (none, { r with transport := t })
        | (some d, t) => (some (d.take n), { buffered := d.drop n, transport := t })
    | d => (some (d.take n), { r with buffered := d.drop n })

theorem read_zero (size : Nat) (r : Reader) : r.read size 0 = (some [], r) := rfl

/-- What the buffer has is returned in full. -/
theorem read_of_held (size : Nat) {n : Nat} {r : Reader} (h : n ≤ r.buffered.length) :
    r.read size n = (some (r.content.take n), { r with buffered := r.buffered.drop n }) := by
  obtain ⟨buffered, transport⟩ := r
  have htake : (buffered ++ transport.rest).take n = buffered.take n :=
    List.take_append_of_le_length h
  rw [content, htake]
  cases n with
  | zero => rfl
  | succ n =>
    cases buffered with
    | nil => exact absurd h (by simp)
    | cons b buffered => rfl

/-- An empty buffer makes one read of the transport. What is too large for the buffer goes past it,
so there is nothing left over of that. -/
theorem read_of_empty {size n : Nat} (hn : 0 < n) {t : Transport} (ht : t.rest ≠ []) :
    (Reader.mk [] t).read size n =
      (some ((t.rest.take (t.gives (max size n))).take n),
        { buffered := (t.rest.take (t.gives (max size n))).drop n
          transport :=
            { rest := t.rest.drop (t.gives (max size n))
              chunks := fun i => t.chunks (i + 1) } }) := by
  obtain ⟨rest, chunks⟩ := t
  cases rest with
  | nil => exact absurd rfl ht
  | cons b rest =>
    by_cases hlarge : size ≤ n
    · have hlen : ((b :: rest).take (Transport.gives n ⟨b :: rest, chunks⟩)).length ≤ n :=
        Nat.le_trans (List.length_take_le _ _) (Nat.min_le_left _ _)
      simp only [read, Nat.ne_of_gt hn, hlarge, if_true, if_false, Transport.read,
        Nat.max_eq_right hlarge, List.take_of_length_le hlen, List.drop_of_length_le hlen]
    · simp only [read, Nat.ne_of_gt hn, hlarge, if_false, Transport.read,
        Nat.max_eq_left (Nat.le_of_not_le hlarge)]

/-- **Some of what is to come, and not nothing.** -/
theorem read_eq {size n : Nat} (hn : 0 < n) {r : Reader} (hr : r.content ≠ []) :
    ∃ d, d ≠ [] ∧ d.length ≤ n ∧ (r.read size n).1 = some d ∧
      r.content = d ++ (r.read size n).2.content := by
  obtain ⟨buffered, transport⟩ := r
  obtain ⟨m, rfl⟩ : ∃ m, n = m + 1 := Nat.exists_eq_add_one.mpr hn
  cases buffered with
  | cons b buffered =>
    refine ⟨(b :: buffered).take (m + 1), by simp, List.length_take_le _ _, rfl, ?_⟩
    show b :: buffered ++ transport.rest = _ ++ ((b :: buffered).drop (m + 1) ++ transport.rest)
    rw [← List.append_assoc, List.take_append_drop]
  | nil =>
    have hrest : transport.rest ≠ [] := hr
    rw [read_of_empty hn hrest]
    refine ⟨_, ?_, List.length_take_le _ _, rfl, ?_⟩
    · obtain ⟨k, hk⟩ : ∃ k, transport.gives (max size (m + 1)) = k + 1 :=
        Nat.exists_eq_add_one.mpr (by unfold Transport.gives; omega)
      rw [hk]
      cases hcons : transport.rest with
      | nil => exact absurd hcons hrest
      | cons b rest => simp
    · show transport.rest = _ ++ (_ ++ _)
      rw [← List.append_assoc, List.take_append_drop, List.take_append_drop]

/-- **Every read gets all it asks for**, by what the buffer holds, what is to come and the chunks it
comes in: each is within the buffer, or finds it empty and one chunk brings enough. -/
def Serves (size : Nat) : List Nat → Nat → Nat → (Nat → Nat) → Prop
  | [], _, _, _ => True
  | n :: ns, held, rest, chunks =>
    if n ≤ held then Serves size ns (held - n) rest chunks
    else
      let d := min (min (max size n) (max 1 (chunks 0))) rest
      held = 0 ∧ n ≤ d ∧ Serves size ns (d - n) (rest - d) fun i => chunks (i + 1)

instance decidableServes (size : Nat) : ∀ (ns : List Nat) (held rest : Nat) (chunks : Nat → Nat),
    Decidable (Serves size ns held rest chunks)
  | [], _, _, _ => .isTrue trivial
  | n :: ns, held, _, _ =>
    have := decidableServes size ns
    inferInstanceAs (Decidable (if n ≤ held then _ else _ ∧ _ ∧ _))

/-- The first of them returns what it asks for, and the others are served after it. -/
theorem read_of_serves {size n : Nat} {ns : List Nat} {r : Reader}
    (h : Serves size (n :: ns) r.buffered.length r.transport.rest.length r.transport.chunks) :
    ∃ r', r.read size n = (some (r.content.take n), r') ∧ r'.content = r.content.drop n ∧
      Serves size ns r'.buffered.length r'.transport.rest.length r'.transport.chunks := by
  obtain ⟨buffered, t⟩ := r
  by_cases hheld : n ≤ buffered.length
  · refine ⟨_, read_of_held size hheld, ?_, ?_⟩
    · show buffered.drop n ++ t.rest = (buffered ++ t.rest).drop n
      rw [List.drop_append_of_le_length hheld]
    · rw [List.length_drop]
      exact (if_pos hheld).mp h
  · obtain ⟨hnil, hn, hns⟩ := (if_neg hheld).mp h
    obtain rfl : buffered = [] := List.length_eq_zero_iff.mp hnil
    have hpos : 0 < n := Nat.pos_of_ne_zero fun h => hheld (h ▸ Nat.zero_le _)
    have hgives : n ≤ t.gives (max size n) := Nat.le_trans hn (Nat.min_le_left _ _)
    have hrest : t.rest ≠ [] :=
      List.ne_nil_of_length_pos (Nat.lt_of_lt_of_le hpos (Nat.le_trans hn (Nat.min_le_right _ _)))
    have hread := @read_of_empty size n hpos t hrest
    rw [List.take_take, Nat.min_eq_left hgives] at hread
    refine ⟨_, hread, ?_, ?_⟩
    · show (t.rest.take _).drop n ++ t.rest.drop _ = t.rest.drop n
      have hlen : n ≤ (t.rest.take (t.gives (max size n))).length := by
        rw [List.length_take]
        exact hn
      rw [← List.drop_append_of_le_length hlen, List.take_append_drop]
    · have hdrop : t.rest.length - t.gives (max size n) =
          t.rest.length - min (t.gives (max size n)) t.rest.length := by omega
      rw [List.length_drop, List.length_take, List.length_drop, hdrop]
      exact hns

/-- One that gives out a byte at a time leaves the buffer empty. -/
theorem read_of_single {size n : Nat} (hn : 0 < n) (b : UInt8) (rest : List UInt8) :
    (Reader.mk [] ⟨b :: rest, fun _ => 1⟩).read size n =
      (some [b], ⟨[], ⟨rest, fun _ => 1⟩⟩) := by
  have hone : Transport.gives (max size n) ⟨b :: rest, fun _ => 1⟩ = 1 := by
    simp only [Transport.gives]
    omega
  rw [read_of_empty hn (List.cons_ne_nil b rest), hone]
  obtain ⟨m, rfl⟩ : ∃ m, n = m + 1 := Nat.exists_eq_add_one.mpr hn
  simp

end Reader
end Didem.Lib
