import Mathlib.Data.Finset.Card
import Mathlib.Tactic.Ring

/-!
# Two-thirds quorums

The threshold a Tendermint-style engine counts votes against: of `n` voters, `twoThirds n` votes
are not yet a quorum and one more is. Rounding is the whole content — `n / 3` truncates before it
is doubled, and the `+ 1` together with a *strict* comparison gives back more than the truncation
took.

A quorum is counted vote by vote, in no particular order and with repetitions (`Tally`).

`exists_common` is the fact quorums are used for. The ground set has one member more than the
number the threshold was computed from: each side's quorum is drawn from the registered voters
less *its own* proposer, and the two proposers need not be the same. The threshold is high enough
that this does not matter. `Supported.unique` is the form agreement takes: voters who each stand for
one value cannot, in quorums, stand for two.
-/

set_option autoImplicit false

namespace Didem.Lib

/-- The number of votes, out of `n` voters, that a quorum has to exceed. -/
def twoThirds (n : Nat) : Nat := n / 3 * 2 + 1

/-- **Two quorums have a voter in common**, also when they were drawn from the voters less two
different proposers. -/
theorem exists_common {α : Type*} [DecidableEq α] {R Q₁ Q₂ : Finset α} (h₁ : Q₁ ⊆ R) (h₂ : Q₂ ⊆ R)
    (hc₁ : twoThirds (R.card - 1) < Q₁.card) (hc₂ : twoThirds (R.card - 1) < Q₂.card) :
    ∃ v, v ∈ Q₁ ∧ v ∈ Q₂ := by
  have hunion : (Q₁ ∪ Q₂).card ≤ R.card := Finset.card_le_card (Finset.union_subset h₁ h₂)
  have hsum := Finset.card_union_add_card_inter Q₁ Q₂
  have hpos : 0 < (Q₁ ∩ Q₂).card := by
    unfold twoThirds at hc₁ hc₂
    omega
  obtain ⟨v, hv⟩ := Finset.card_pos.mp hpos
  exact ⟨v, Finset.mem_inter.mp hv⟩

/-- Two quorums of the same voters have more than a third of them in common. -/
theorem card_lt_three_mul_card_inter {α : Type*} [DecidableEq α] {R Q₁ Q₂ : Finset α} (h₁ : Q₁ ⊆ R)
    (h₂ : Q₂ ⊆ R) (hc₁ : twoThirds R.card < Q₁.card) (hc₂ : twoThirds R.card < Q₂.card) :
    R.card < 3 * (Q₁ ∩ Q₂).card := by
  have hunion : (Q₁ ∪ Q₂).card ≤ R.card := Finset.card_le_card (Finset.union_subset h₁ h₂)
  have hsum := Finset.card_union_add_card_inter Q₁ Q₂
  unfold twoThirds at hc₁ hc₂
  omega

/-- **Unanimity is a quorum, except of one voter, of none and of three.** -/
theorem twoThirds_lt_self_iff {n : Nat} : twoThirds n < n ↔ n ≠ 0 ∧ n ≠ 1 ∧ n ≠ 3 := by
  unfold twoThirds
  omega

/-! ## Counting voters -/

/-- The voters counted so far; counting ends with the vote that passes the threshold. -/
structure Tally (α : Type*) where
  voters : Finset α
  closed : Bool

namespace Tally

variable {α : Type*} [DecidableEq α]

/-- One more vote, perhaps of a voter counted before. -/
def count (f : Nat) (t : Tally α) (v : α) : Tally α :=
  if t.closed then t else ⟨insert v t.voters, decide (f < (insert v t.voters).card)⟩

theorem foldl_count_of_closed (f : Nat) {t : Tally α} (h : t.closed = true) (vs : List α) :
    vs.foldl (count f) t = t := by
  induction vs with
  | nil => rfl
  | cons v vs ih => rw [List.foldl_cons, count, if_pos h, ih]

/-- **Neither the order of the votes nor repetitions matter**, only how many voters there are. -/
theorem closed_foldl_count {f : Nat} (vs : List α) {t : Tally α} (hopen : t.closed = false)
    (ht : t.voters.card ≤ f) :
    (vs.foldl (count f) t).closed = true ↔ f < (t.voters ∪ vs.toFinset).card := by
  induction vs generalizing t with
  | nil => simp [hopen, ht]
  | cons v vs ih =>
    have hunion : t.voters ∪ (v :: vs).toFinset = insert v t.voters ∪ vs.toFinset := by
      ext x
      simp only [List.toFinset_cons, Finset.mem_union, Finset.mem_insert]
      tauto
    rw [List.foldl_cons, count, hopen, hunion]
    by_cases hpass : f < (insert v t.voters).card
    · -- the vote passes the threshold, and more voters only add to that
      have hall : (insert v t.voters).card ≤ (insert v t.voters ∪ vs.toFinset).card :=
        Finset.card_le_card Finset.subset_union_left
      rw [if_neg Bool.false_ne_true, foldl_count_of_closed f (by simpa using hpass)]
      simp only [decide_eq_true hpass, true_iff]
      omega
    · exact ih (by simpa using hpass) (Nat.le_of_not_lt hpass)

end Tally

variable {α β : Type*}

/-- A quorum of the voters `R` stands for `x`. -/
def Supported (R : Finset α) (stands : α → β → Prop) (x : β) : Prop :=
  ∃ Q : Finset α, Q ⊆ R ∧ twoThirds (R.card - 1) < Q.card ∧ ∀ v ∈ Q, stands v x

namespace Supported

variable {R : Finset α} {stands stands' : α → β → Prop} {x y : β}

theorem mono (h : ∀ v, stands v x → stands' v x) (hx : Supported R stands x) :
    Supported R stands' x := by
  obtain ⟨Q, hR, hcard, hQ⟩ := hx
  exact ⟨Q, hR, hcard, fun v hv => h v (hQ v hv)⟩

theorem unique [DecidableEq α] (hone : ∀ v, stands v x → stands v y → x = y)
    (hx : Supported R stands x) (hy : Supported R stands y) : x = y := by
  obtain ⟨Q, hR, hcard, hQ⟩ := hx
  obtain ⟨Q', hR', hcard', hQ'⟩ := hy
  obtain ⟨v, hv, hv'⟩ := exists_common hR hR' hcard hcard'
  exact hone v (hQ v hv) (hQ' v hv')

end Supported
end Didem.Lib
