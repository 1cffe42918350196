import Didem.Lib.Threads
import Mathlib.Data.Multiset.AddSub
import Mathlib.Algebra.Order.Group.Multiset

/-!
# One goroutine for each item

A common pattern: a goroutine is started for every item, each does its work and, if there is
something to tell, appends it to a shared slice under a mutex; a wait group counts those that are
not done, and the caller waits for it and reads the slice.

An `append` is a read and a write, so it takes two steps here, and it is the mutex that keeps two of
them apart. A goroutine that panics and recovers **appends without the mutex, after it has been
counted as done**: the deferred `Done` comes before the deferred `recover`. Three things follow.

* Without a panic the caller reads every value once, in some order (`collects`), and each order is
  possible.
* With panics it reads a part of them at most (`returns`), none twice.
* If all panic it may read any of them, in any order, and none at all (`rescued_iff`).
-/

set_option autoImplicit false

namespace Didem.Lib.FanOut

open Conf

variable {ι α : Type*}

/-! ## The goroutines -/

/-- What comes of an item. -/
inductive Work (α : Type*) where
  | nothing
  | add (a : α)
  /-- It panics, and the deferred function that recovers appends this. -/
  | rescue (a : α)
  deriving DecidableEq, Repr

namespace Work

def value : Work α → Option α
  | .nothing => none
  | .add a | .rescue a => some a

def panics : Work α → Bool
  | .rescue _ => true
  | _ => false

end Work

/-- Where a goroutine is. -/
inductive Place (ι α : Type*) where
  | work (i : ι)
  | lock (a : α)
  | load (a : α)
  | store (a : α) (seen : List α)
  | unlock
  /-- The deferred `Done`. -/
  | done
  /-- The deferred `Done` of a goroutine that panics. -/
  | unwind (a : α)
  | rescueLoad (a : α)
  | rescueStore (a : α) (seen : List α)
  /-- The caller: it waits, and then reads the slice. -/
  | wait
  | finished
  deriving DecidableEq, Repr

structure Shared (α : Type*) where
  /-- The count of the wait group. -/
  wg : Nat
  locked : Bool := false
  slice : List α := []
  /-- What the caller has read. -/
  result : Option (List α) := none
  deriving DecidableEq, Repr

/-- One atomic step. -/
def next (run : ι → Work α) (s : Shared α) : Place ι α → List (Shared α × Place ι α)
  | .work i =>
    match run i with
    | .nothing => [(s, .done)]
    | .add a => [(s, .lock a)]
    | .rescue a => [(s, .unwind a)]
  | .lock a => if s.locked then [] else [({ s with locked := true }, .load a)]
  | .load a => [(s, .store a s.slice)]
  | .store a seen => [({ s with slice := seen ++ [a] }, .unlock)]
  | .unlock => [({ s with locked := false }, .done)]
  | .done => [({ s with wg := s.wg - 1 }, .finished)]
  | .unwind a => [({ s with wg := s.wg - 1 }, .rescueLoad a)]
  | .rescueLoad a => [(s, .rescueStore a s.slice)]
  | .rescueStore a seen => [({ s with slice := seen ++ [a] }, .finished)]
  | .wait => if s.wg = 0 then [({ s with result := some s.slice }, .finished)] else []
  | .finished => []

def start (items : List ι) : Conf (Shared α) (Place ι α) :=
  ⟨{ wg := items.length }, .wait :: items.map .work⟩

/-- Some interleaving ends with the caller reading this. -/
def Collects (run : ι → Work α) (items : List ι) (r : List α) : Prop :=
  ∃ c, Reach (next run) (start items) c ∧ c.shared.result = some r

/-- What a step does, one constructor for each. -/
inductive Line (run : ι → Work α) (s : Shared α) : Place ι α → Shared α → Place ι α → Prop where
  | nothing {i : ι} (h : run i = .nothing) : Line run s (.work i) s .done
  | add {i : ι} {a : α} (h : run i = .add a) : Line run s (.work i) s (.lock a)
  | rescue {i : ι} {a : α} (h : run i = .rescue a) : Line run s (.work i) s (.unwind a)
  | lock {a : α} (h : s.locked = false) : Line run s (.lock a) { s with locked := true } (.load a)
  | load {a : α} : Line run s (.load a) s (.store a s.slice)
  | store {a : α} {seen : List α} :
      Line run s (.store a seen) { s with slice := seen ++ [a] } .unlock
  | unlock : Line run s .unlock { s with locked := false } .done
  | done : Line run s .done { s with wg := s.wg - 1 } .finished
  | unwind {a : α} : Line run s (.unwind a) { s with wg := s.wg - 1 } (.rescueLoad a)
  | rescueLoad {a : α} : Line run s (.rescueLoad a) s (.rescueStore a s.slice)
  | rescueStore {a : α} {seen : List α} :
      Line run s (.rescueStore a seen) { s with slice := seen ++ [a] } .finished
  | wait (h : s.wg = 0) : Line run s .wait { s with result := some s.slice } .finished

variable {run : ι → Work α} {s s' : Shared α} {p p' : Place ι α} {pre post : List (Place ι α)}

theorem line_of_next (h : (s', p') ∈ next run s p) : Line run s p s' p' := by
  cases p with
  | work i =>
    simp only [next] at h
    split at h
    · next hrun =>
      obtain ⟨rfl, rfl⟩ := Prod.mk.inj (List.mem_singleton.mp h)
      exact .nothing hrun
    · next a hrun =>
      obtain ⟨rfl, rfl⟩ := Prod.mk.inj (List.mem_singleton.mp h)
      exact .add hrun
    · next a hrun =>
      obtain ⟨rfl, rfl⟩ := Prod.mk.inj (List.mem_singleton.mp h)
      exact .rescue hrun
  | lock a =>
    simp only [next] at h
    split at h
    · exact absurd h List.not_mem_nil
    · next hlocked =>
      obtain ⟨rfl, rfl⟩ := Prod.mk.inj (List.mem_singleton.mp h)
      exact .lock (Bool.eq_false_iff.mpr hlocked)
  | wait =>
    simp only [next] at h
    split at h
    · next hwg =>
      obtain ⟨rfl, rfl⟩ := Prod.mk.inj (List.mem_singleton.mp h)
      exact .wait hwg
    · exact absurd h List.not_mem_nil
  | finished => exact absurd h List.not_mem_nil
  | load a =>
    obtain ⟨rfl, rfl⟩ := Prod.mk.inj (List.mem_singleton.mp h)
    exact .load
  | store a seen =>
    obtain ⟨rfl, rfl⟩ := Prod.mk.inj (List.mem_singleton.mp h)
    exact .store
  | unlock =>
    obtain ⟨rfl, rfl⟩ := Prod.mk.inj (List.mem_singleton.mp h)
    exact .unlock
  | done =>
    obtain ⟨rfl, rfl⟩ := Prod.mk.inj (List.mem_singleton.mp h)
    exact .done
  | unwind a =>
    obtain ⟨rfl, rfl⟩ := Prod.mk.inj (List.mem_singleton.mp h)
    exact .unwind
  | rescueLoad a =>
    obtain ⟨rfl, rfl⟩ := Prod.mk.inj (List.mem_singleton.mp h)
    exact .rescueLoad
  | rescueStore a seen =>
    obtain ⟨rfl, rfl⟩ := Prod.mk.inj (List.mem_singleton.mp h)
    exact .rescueStore

/-! ## The books -/

namespace Place

/-- It counts in the wait group. -/
def pending : Place ι α → Nat
  | .work _ | .lock _ | .load _ | .store _ _ | .unlock | .done | .unwind _ => 1
  | _ => 0

/-- It has the mutex. -/
def inside : Place ι α → Nat
  | .load _ | .store _ _ | .unlock => 1
  | _ => 0

def waiting : Place ι α → Nat
  | .wait => 1
  | _ => 0

/-- What it has still to write. -/
def owes (run : ι → Work α) : Place ι α → Multiset α
  | .work i => (run i).value.elim 0 fun a => {a}
  | .lock a | .load a | .store a _ | .unwind a | .rescueLoad a | .rescueStore a _ => {a}
  | _ => 0

/-- What it has read of the slice. -/
def seen : Place ι α → Option (List α)
  | .store _ seen | .rescueStore _ seen => some seen
  | _ => none

/-- It does not panic, and will not. -/
def Calm (run : ι → Work α) : Place ι α → Prop
  | .work i => (run i).panics = false
  | .unwind _ | .rescueLoad _ | .rescueStore _ _ => False
  | _ => True

/-- How many steps it has to go at most. -/
def rank : Place ι α → Nat
  | .work _ => 6
  | .lock _ => 5
  | .load _ => 4
  | .store _ _ | .unwind _ => 3
  | .unlock | .rescueLoad _ => 2
  | .done | .rescueStore _ _ | .wait => 1
  | .finished => 0

theorem owes_eq_zero {p : Place ι α} (hcalm : p.Calm run) (h : p.pending = 0) : p.owes run = 0 := by
  cases p with
  | work i => exact absurd h Nat.one_ne_zero
  | unwind a => exact hcalm.elim
  | rescueLoad a => exact hcalm.elim
  | rescueStore a seen => exact hcalm.elim
  | _ => first | rfl | exact absurd h Nat.one_ne_zero

theorem inside_of_seen {p : Place ι α} {l : List α} (hcalm : p.Calm run) (h : p.seen = some l) :
    p.inside = 1 := by
  cases p with
  | store a seen => rfl
  | rescueStore a seen => exact hcalm.elim
  | _ => exact absurd h (by simp [seen])

end Place

/-- Who is counted, who has the mutex, and that there is one caller. -/
structure Books (c : Conf (Shared α) (Place ι α)) : Prop where
  wg : c.shared.wg = total Place.pending c.threads
  locked : c.shared.locked.toNat = total Place.inside c.threads
  caller : total Place.waiting c.threads + c.shared.result.isSome.toNat = 1

theorem Line.books (hline : Line run s p s' p') (h : Books ⟨s, pre ++ p :: post⟩) :
    Books ⟨s', pre ++ p' :: post⟩ := by
  obtain ⟨hwg, hlocked, hcaller⟩ := h
  have hpending := total_move Place.pending pre post p p'
  have hinside := total_move Place.inside pre post p p'
  have hwaiting := total_move Place.waiting pre post p p'
  have hle : s.locked.toNat ≤ 1 := Bool.toNat_le _
  dsimp only at hwg hlocked hcaller
  cases hline with
  | lock hfree =>
    rw [hfree] at hlocked
    refine ⟨?_, ?_, ?_⟩ <;>
      simp only [Place.pending, Place.inside, Place.waiting, Bool.toNat_true, Bool.toNat_false] at *
        <;> omega
  | wait =>
    refine ⟨?_, ?_, ?_⟩ <;>
      simp only [Place.pending, Place.inside, Place.waiting, Option.isSome_some, Bool.toNat_true] at *
        <;> omega
  | _ =>
    refine ⟨?_, ?_, ?_⟩ <;>
      simp only [Place.pending, Place.inside, Place.waiting, Bool.toNat_false] at * <;> omega

theorem Books.reach {c c' : Conf (Shared α) (Place ι α)} (h : Books c)
    (hreach : Reach (next run) c c') : Books c' :=
  hreach.invariant h fun hbooks hnext => (line_of_next hnext).books hbooks

theorem books_start (items : List ι) : Books (start items : Conf (Shared α) (Place ι α)) := by
  refine ⟨?_, ?_, ?_⟩ <;>
    simp [start, total, Function.comp_def, Place.pending, Place.inside, Place.waiting]

/-! ## Every run returns -/

theorem Line.rank_lt (hline : Line run s p s' p') : p'.rank < p.rank := by
  cases hline <;> simp [Place.rank]

/-- Whoever is counted can go on, unless it waits for the mutex. -/
theorem next_ne_nil (hpending : p.pending = 1) (hfree : s.locked = false ∨ p.inside = 1) :
    next run s p ≠ [] := by
  cases p with
  | work i =>
    simp only [next]
    split <;> exact List.cons_ne_nil _ _
  | lock a => simp [next, hfree.resolve_right Nat.zero_ne_one]
  | rescueLoad a => exact absurd hpending Nat.zero_ne_one
  | rescueStore a seen => exact absurd hpending Nat.zero_ne_one
  | wait => exact absurd hpending Nat.zero_ne_one
  | finished => exact absurd hpending Nat.zero_ne_one
  | _ => exact List.cons_ne_nil _ _

theorem Place.pending_of_inside (h : 0 < p.inside) : p.pending = 1 ∧ p.inside = 1 := by
  cases p <;> simp_all [Place.pending, Place.inside]

/-- **Somebody can go on until the caller has returned.** -/
theorem Books.exists_step {c : Conf (Shared α) (Place ι α)} (h : Books c)
    (hresult : c.shared.result = none) : ∃ c', Conf.Step (next run) c c' := by
  obtain ⟨s, ps⟩ := c
  have hmove : ∀ p ∈ ps, next run s p ≠ [] → ∃ c', Conf.Step (next run) ⟨s, ps⟩ c' := by
    intro p hp hne
    obtain ⟨⟨s', p'⟩, hnext⟩ := List.exists_mem_of_ne_nil _ hne
    exact Conf.Step.of_mem hp hnext
  rcases Nat.eq_zero_or_pos s.wg with hzero | hpos
  · -- all are done, and the caller has not read the slice yet
    have hcaller : 0 < total Place.waiting ps := by
      have := h.caller
      simp_all
    obtain ⟨p, hp, hwaiting⟩ := exists_of_total_pos hcaller
    refine hmove p hp ?_
    cases p <;> simp_all [Place.waiting, next]
  · cases hlocked : s.locked with
    | true =>
      have hinside : 0 < total Place.inside ps := by
        rw [← h.locked]
        simp [hlocked]
      obtain ⟨p, hp, hp'⟩ := exists_of_total_pos hinside
      obtain ⟨hpending, hin⟩ := Place.pending_of_inside hp'
      exact hmove p hp (next_ne_nil hpending (.inr hin))
    | false =>
      obtain ⟨p, hp, hp'⟩ := exists_of_total_pos (lt_of_lt_of_eq hpos h.wg)
      refine hmove p hp (next_ne_nil ?_ (.inl hlocked))
      cases p <;> simp_all [Place.pending]

/-- What every step keeps holds when the caller returns, and it does return. -/
theorem inevitable {Inv : Conf (Shared α) (Place ι α) → Prop}
    (hstep : ∀ {s s' : Shared α} {p p' : Place ι α} {pre post : List (Place ι α)},
      Books ⟨s, pre ++ p :: post⟩ → Inv ⟨s, pre ++ p :: post⟩ → Line run s p s' p' →
        Inv ⟨s', pre ++ p' :: post⟩)
    {items : List ι} (hinit : Inv (start items)) :
    Inevitable (next run) (fun c => Inv c ∧ ∃ r, c.shared.result = some r) (start items) := by
  refine @Inevitable.of_measure _ _ _ _ _ (fun c => Books c ∧ Inv c)
    (fun c => total Place.rank c.threads) ?_ ?_ ?_ ⟨books_start items, hinit⟩
  · intro c c' hc hmoved
    cases hmoved with
    | mk pre post hnext =>
      have hline := line_of_next hnext
      exact ⟨hline.books hc.1, hstep hc.1 hc.2 hline⟩
  · intro c c' _ hmoved
    cases hmoved with
    | @mk s s' p p' pre post hnext =>
      have hlt := (line_of_next hnext).rank_lt
      have htotal := total_move Place.rank pre post p p'
      dsimp only
      omega
  · intro c hc hP
    refine hc.1.exists_step ?_
    cases hresult : c.shared.result with
    | none => rfl
    | some r => exact absurd ⟨hc.2, r, hresult⟩ hP

/-! ## What the caller reads -/

/-- A step writes what its goroutine owes to the slice as that saw it, or leaves both alone. -/
theorem Line.quiet_or_writes (hline : Line run s p s' p') :
    (s'.slice = s.slice ∧ p'.owes run = p.owes run ∧ ∀ l, p'.seen = some l → l = s.slice) ∨
      ∃ a l, p.seen = some l ∧ s'.slice = l ++ [a] ∧ p.owes run = {a} ∧ p'.owes run = 0 ∧
        p'.seen = none := by
  cases hline with
  | nothing h => exact .inl ⟨rfl, by simp [Place.owes, h, Work.value], by simp [Place.seen]⟩
  | add h => exact .inl ⟨rfl, by simp [Place.owes, h, Work.value], by simp [Place.seen]⟩
  | rescue h => exact .inl ⟨rfl, by simp [Place.owes, h, Work.value], by simp [Place.seen]⟩
  | load => exact .inl ⟨rfl, rfl, fun l hl => (Option.some.inj hl).symm⟩
  | rescueLoad => exact .inl ⟨rfl, rfl, fun l hl => (Option.some.inj hl).symm⟩
  | @store a seen => exact .inr ⟨a, seen, rfl, rfl, rfl, rfl, rfl⟩
  | @rescueStore a seen => exact .inr ⟨a, seen, rfl, rfl, rfl, rfl, rfl⟩
  | _ => exact .inl ⟨rfl, rfl, by simp [Place.seen]⟩

/-- Only the caller reads a result, and it waits for the count. -/
theorem Line.result_eq (hline : Line run s p s' p') :
    s'.result = s.result ∨ s'.result = some s.slice ∧ s.wg = 0 := by
  cases hline with
  | wait h => exact .inr ⟨rfl, h⟩
  | _ => exact .inl rfl

/-- The slice, and what anyone remembers of it, lacks what is still to be written. -/
structure Sound (run : ι → Work α) (values : Multiset α) (c : Conf (Shared α) (Place ι α)) :
    Prop where
  slice : ↑c.shared.slice + total (Place.owes run) c.threads ≤ values
  seen : ∀ p ∈ c.threads, ∀ l, p.seen = some l → ↑l + total (Place.owes run) c.threads ≤ values
  result : ∀ r, c.shared.result = some r → ↑r ≤ values

theorem coe_append_add (l : List α) (a : α) (m : Multiset α) :
    (↑(l ++ [a]) + m : Multiset α) = ↑l + (m + {a}) := by
  rw [← Multiset.coe_add, Multiset.coe_singleton, add_assoc, add_comm m]

theorem Line.sound {values : Multiset α} (hline : Line run s p s' p')
    (h : Sound run values ⟨s, pre ++ p :: post⟩) : Sound run values ⟨s', pre ++ p' :: post⟩ := by
  have hmove := total_move (Place.owes run) pre post p p'
  have hresult : ∀ r, s'.result = some r → (r : Multiset α) ≤ values := by
    intro r hr
    rcases hline.result_eq with heq | ⟨heq, -⟩
    · exact h.result r (heq ▸ hr)
    · rw [← Option.some.inj (heq.symm.trans hr)]
      exact le_trans (Multiset.le_add_right _ _) h.slice
  rcases hline.quiet_or_writes with ⟨hslice, howes, hseen⟩ | ⟨a, l, hl, hslice, ha, hzero, hnone⟩
  · rw [howes, add_left_inj] at hmove
    refine ⟨?_, ?_, hresult⟩
    · rw [hslice, hmove]
      exact h.slice
    · intro p₁ hp₁ l hl
      dsimp only
      rw [hmove]
      rcases mem_move.mp hp₁ with rfl | hother
      · rw [hseen l hl]
        exact h.slice
      · exact h.seen p₁ (mem_move.mpr (.inr hother)) l hl
  · rw [ha, hzero, add_zero] at hmove
    refine ⟨?_, ?_, hresult⟩
    · have hold := h.seen p (mem_move.mpr (.inl rfl)) l hl
      dsimp only at hold ⊢
      rw [← hmove] at hold
      rw [hslice, coe_append_add]
      exact hold
    · intro p₁ hp₁ l₁ hl₁
      rcases mem_move.mp hp₁ with rfl | hother
      · exact absurd (hnone.symm.trans hl₁) (by simp)
      · refine le_trans ?_ (h.seen p₁ (mem_move.mpr (.inr hother)) l₁ hl₁)
        dsimp only
        rw [← hmove]
        exact add_le_add_right (Multiset.le_add_right _ _) _

/-- All there is to tell. -/
def values (run : ι → Work α) (items : List ι) : List α := items.filterMap fun i => (run i).value

theorem total_owes_start (items : List ι) :
    total (Place.owes run) (.wait :: items.map .work) = (values run items : Multiset α) := by
  have hcons : ∀ ps, total (Place.owes run) (.wait :: ps) = total (Place.owes run) ps := fun ps => by
    simp [total, Place.owes]
  rw [hcons]
  induction items with
  | nil => rfl
  | cons i items ih =>
    rw [total] at ih ⊢
    rw [List.map_cons, List.map_cons, List.sum_cons, ih, values, values, List.filterMap_cons]
    cases hvalue : (run i).value <;> simp [Place.owes, hvalue]

theorem seen_start {items : List ι} (hp : p ∈ Place.wait :: items.map .work) :
    (p : Place ι α).seen = none := by
  rcases List.mem_cons.mp hp with rfl | hp
  · rfl
  · obtain ⟨i, -, rfl⟩ := List.mem_map.mp hp
    rfl

theorem sound_start (items : List ι) : Sound run (values run items) (start items) := by
  refine ⟨?_, ?_, ?_⟩
  · simp only [start, Multiset.coe_nil, zero_add]
    exact (total_owes_start items).le
  · exact fun p hp l hl => absurd ((seen_start hp).symm.trans hl) (by simp)
  · exact fun r hr => absurd hr (by simp [start])

/-- **Every run returns, with nothing that is not there to tell, and nothing twice.** -/
theorem returns (run : ι → Work α) (items : List ι) :
    Inevitable (next run) (fun c => ∃ r, c.shared.result = some r ∧ r.Subperm (values run items))
      (start items) :=
  (inevitable (fun _ h hline => hline.sound h) (sound_start items)).mono fun _ hc =>
    hc.2.imp fun r hr => ⟨hr, Multiset.coe_le.mp (hc.1.result r hr)⟩

/-! ## Without a panic -/

/-- Nobody panics, and the mutex is what `append` needs. -/
structure Exact (run : ι → Work α) (values : Multiset α) (c : Conf (Shared α) (Place ι α)) :
    Prop where
  calm : ∀ p ∈ c.threads, p.Calm run
  slice : ↑c.shared.slice + total (Place.owes run) c.threads = values
  seen : ∀ p ∈ c.threads, ∀ l, p.seen = some l → l = c.shared.slice
  result : ∀ r, c.shared.result = some r → ↑r = values

theorem Line.calm (hline : Line run s p s' p') (h : p.Calm run) : p'.Calm run := by
  cases hline with
  | rescue hrun => simp [Place.Calm, hrun, Work.panics] at h
  | unwind => exact h.elim
  | rescueLoad => exact h.elim
  | _ => trivial

/-- While one has the mutex no other one has. -/
theorem Books.alone (h : Books ⟨s, pre ++ p :: post⟩) (hin : p.inside = 1) :
    ∀ p₁ ∈ pre ++ post, p₁.inside = 0 := by
  intro p₁ hp₁
  have hle : s.locked.toNat ≤ 1 := Bool.toNat_le _
  have hlocked := h.locked
  have hmove := total_move Place.inside pre post p .finished
  have hmem : p₁ ∈ pre ++ .finished :: post := mem_move.mpr (.inr hp₁)
  have hp₁' := le_total (w := Place.inside) hmem
  have hfin : (Place.finished : Place ι α).inside = 0 := rfl
  dsimp only at hlocked
  omega

theorem total_owes_eq_zero {ps : List (Place ι α)} (hcalm : ∀ p ∈ ps, p.Calm run)
    (hzero : total Place.pending ps = 0) : total (Place.owes run) ps = 0 := by
  refine List.sum_eq_zero fun x hx => ?_
  obtain ⟨p, hp, rfl⟩ := List.mem_map.mp hx
  have hle := le_total (w := Place.pending) hp
  exact Place.owes_eq_zero (hcalm p hp) (by omega)

theorem Line.exact {values : Multiset α} (hline : Line run s p s' p')
    (hbooks : Books ⟨s, pre ++ p :: post⟩) (h : Exact run values ⟨s, pre ++ p :: post⟩) :
    Exact run values ⟨s', pre ++ p' :: post⟩ := by
  have hmove := total_move (Place.owes run) pre post p p'
  have hp : p ∈ pre ++ p :: post := mem_move.mpr (.inl rfl)
  have hcalm : ∀ p₁ ∈ pre ++ p' :: post, p₁.Calm run := by
    intro p₁ hp₁
    rcases mem_move.mp hp₁ with rfl | hother
    · exact hline.calm (h.calm p hp)
    · exact h.calm p₁ (mem_move.mpr (.inr hother))
  have hresult : ∀ r, s'.result = some r → (r : Multiset α) = values := by
    intro r hr
    rcases hline.result_eq with heq | ⟨heq, hwg⟩
    · exact h.result r (heq ▸ hr)
    · have hslice := h.slice
      rw [total_owes_eq_zero h.calm (hbooks.wg.symm.trans hwg), add_zero] at hslice
      rw [← Option.some.inj (heq.symm.trans hr)]
      exact hslice
  rcases hline.quiet_or_writes with ⟨hslice, howes, hseen⟩ | ⟨a, l, hl, hslice, ha, hzero, hnone⟩
  · rw [howes, add_left_inj] at hmove
    refine ⟨hcalm, ?_, ?_, hresult⟩
    · rw [hslice, hmove]
      exact h.slice
    · intro p₁ hp₁ l hl
      rw [hslice]
      rcases mem_move.mp hp₁ with rfl | hother
      · exact hseen l hl
      · exact h.seen p₁ (mem_move.mpr (.inr hother)) l hl
  · rw [ha, hzero, add_zero] at hmove
    have hsame : l = s.slice := h.seen p hp l hl
    refine ⟨hcalm, ?_, ?_, hresult⟩
    · have hold := h.slice
      dsimp only at hold ⊢
      rw [← hmove] at hold
      rw [hslice, hsame, coe_append_add]
      exact hold
    · intro p₁ hp₁ l₁ hl₁
      rcases mem_move.mp hp₁ with rfl | hother
      · exact absurd (hnone.symm.trans hl₁) (by simp)
      · -- another one that has read the slice would have the mutex as well
        have hin := Place.inside_of_seen (h.calm p hp) hl
        have hin₁ := Place.inside_of_seen (h.calm p₁ (mem_move.mpr (.inr hother))) hl₁
        exact absurd (hbooks.alone hin p₁ hother) (by omega)

theorem exact_start {items : List ι} (hcalm : ∀ i ∈ items, (run i).panics = false) :
    Exact run (values run items) (start items) := by
  refine ⟨?_, ?_, ?_, ?_⟩
  · intro p hp
    rcases List.mem_cons.mp hp with rfl | hp
    · trivial
    · obtain ⟨i, hi, rfl⟩ := List.mem_map.mp hp
      exact hcalm i hi
  · simp only [start, Multiset.coe_nil, zero_add]
    exact total_owes_start items
  · exact fun p hp l hl => absurd ((seen_start hp).symm.trans hl) (by simp)
  · exact fun r hr => absurd hr (by simp [start])

/-- **If nobody panics the caller reads everything, once.** -/
theorem collects {items : List ι} (hcalm : ∀ i ∈ items, (run i).panics = false) :
    Inevitable (next run) (fun c => ∃ r, c.shared.result = some r ∧ r.Perm (values run items))
      (start items) :=
  (inevitable (fun hbooks h hline => hline.exact hbooks h) (exact_start hcalm)).mono fun _ hc =>
    hc.2.imp fun r hr => ⟨hr, Multiset.coe_eq_coe.mp (hc.1.result r hr)⟩

/-! ## What can happen -/

/-- A goroutine that does not panic, by itself. -/
theorem solo_calm {i : ι} (hcalm : (run i).panics = false) (hfree : s.locked = false) :
    Solo (next run) (s, .work i)
      ({ s with wg := s.wg - 1, slice := s.slice ++ (run i).value.toList }, .finished) := by
  obtain ⟨wg, locked, slice, result⟩ := s
  obtain rfl : locked = false := hfree
  cases hrun : run i with
  | rescue a => simp [hrun, Work.panics] at hcalm
  | nothing =>
    calc Solo (next run) (⟨wg, false, slice, result⟩, .work i) (⟨wg, false, slice, result⟩, .done) :=
          .of_next (by simp [next, hrun])
      Solo (next run) _ _ := .of_next (by simp [next, Work.value])
  | add a =>
    calc Solo (next run) (⟨wg, false, slice, result⟩, .work i) (⟨wg, false, slice, result⟩, .lock a) :=
          .of_next (by simp [next, hrun])
      Solo (next run) _ (⟨wg, true, slice, result⟩, .load a) := .of_next rfl
      Solo (next run) _ (⟨wg, true, slice, result⟩, .store a slice) := .of_next rfl
      Solo (next run) _ (⟨wg, true, slice ++ [a], result⟩, .unlock) := .of_next rfl
      Solo (next run) _ (⟨wg, false, slice ++ [a], result⟩, .done) := .of_next rfl
      Solo (next run) _ _ := .of_next rfl

/-- A goroutine that panics, until it is counted as done. -/
theorem solo_panic {i : ι} {a : α} (hrun : run i = .rescue a) :
    Solo (next run) (s, .work i) ({ s with wg := s.wg - 1 }, .rescueLoad a) :=
  calc Solo (next run) (s, .work i) (s, .unwind a) := .of_next (by simp [next, hrun])
    Solo (next run) _ _ := .of_next rfl

theorem solo_rescue {a : α} :
    Solo (next run) (s, .rescueLoad a) ({ s with slice := s.slice ++ [a] }, .finished) :=
  calc Solo (next run) (s, .rescueLoad a) (s, .rescueStore a s.slice) := .of_next rfl
    Solo (next run) _ _ := .of_next rfl

/-- The caller, once all are done. -/
theorem solo_wait (hzero : s.wg = 0) :
    Solo (next run) (s, .wait) ({ s with result := some s.slice }, .finished) :=
  .of_next (if_pos hzero)

section Phases

variable (s : Shared α) {ps : List (Place ι α)} (others : List (Place ι α)) {f : ι → α}

/-- Goroutines that do not panic, one after another. -/
theorem reach_calm (order : List ι) (hcalm : ∀ i ∈ order, (run i).panics = false)
    (hfree : s.locked = false) (hps : ps.Perm (order.map .work ++ others)) :
    ∃ ps', Reach (next run) ⟨s, ps⟩
        ⟨{ s with wg := s.wg - order.length, slice := s.slice ++ values run order }, ps'⟩ ∧
      ps'.Perm (order.map (fun _ => .finished) ++ others) := by
  have hfold : ∀ s : Shared α, order.foldl (fun s i =>
        { s with wg := s.wg - 1, slice := s.slice ++ (run i).value.toList }) s =
      { s with wg := s.wg - order.length, slice := s.slice ++ values run order } := by
    clear hps hcalm
    induction order with
    | nil => intro s; simp [values]
    | cons i order ih =>
      intro s
      rw [List.foldl_cons, ih, values, values, List.filterMap_cons]
      cases (run i).value <;> simp <;> omega
  rw [← hfold]
  exact Solo.reach_each others order
    (fun i hi s (hs : s.locked = false) => ⟨solo_calm (hcalm i hi) hs, hs⟩) hfree hps

/-- Goroutines that panic, until all of them are counted as done. -/
theorem reach_panic (order : List ι) (hpanic : ∀ i ∈ order, run i = .rescue (f i))
    (hps : ps.Perm (order.map .work ++ others)) :
    ∃ ps', Reach (next run) ⟨s, ps⟩ ⟨{ s with wg := s.wg - order.length }, ps'⟩ ∧
      ps'.Perm (order.map (fun i => .rescueLoad (f i)) ++ others) := by
  have hfold : ∀ s : Shared α, order.foldl (fun s _ => { s with wg := s.wg - 1 }) s =
      { s with wg := s.wg - order.length } := by
    clear hps hpanic
    induction order with
    | nil => exact fun _ => rfl
    | cons i order ih =>
      intro s
      rw [List.foldl_cons, ih]
      simp only [List.length_cons, Shared.mk.injEq, and_true]
      omega
  rw [← hfold]
  exact Solo.reach_each others order
    (fun i hi s (_ : True) => ⟨solo_panic (hpanic i hi), trivial⟩) trivial hps

/-- Their deferred functions, one after another. -/
theorem reach_rescue (order : List ι)
    (hps : ps.Perm (order.map (fun i => .rescueLoad (f i)) ++ others)) :
    ∃ ps', Reach (next run) ⟨s, ps⟩ ⟨{ s with slice := s.slice ++ order.map f }, ps'⟩ ∧
      ps'.Perm (order.map (fun _ => .finished) ++ others) := by
  have hfold : ∀ s : Shared α, order.foldl (fun s i => { s with slice := s.slice ++ [f i] }) s =
      { s with slice := s.slice ++ order.map f } := by
    clear hps
    induction order with
    | nil => intro s; simp
    | cons i order ih =>
      intro s
      rw [List.foldl_cons, ih]
      simp
  rw [← hfold]
  exact Solo.reach_each others order (fun i _ s (_ : True) => ⟨solo_rescue, trivial⟩) trivial hps

end Phases

/-- The caller reads what is there when all are counted as done. -/
theorem collects_of_reach {items : List ι} {ps : List (Place ι α)}
    (hreach : Reach (next run) (start items) ⟨s, ps⟩) (hzero : s.wg = 0)
    (hwait : Place.wait ∈ ps) : Collects run items s.slice := by
  obtain ⟨pre, post, rfl⟩ := List.append_of_mem hwait
  exact ⟨_, hreach.trans ((solo_wait hzero).reach pre post), rfl⟩

/-! ## All that can happen -/

/-- Any order of what is kept of a list comes of an order of the list. -/
theorem exists_perm_filterMap {f : ι → Option α} {items : List ι} {r : List α}
    (h : r.Perm (items.filterMap f)) :
    ∃ order : List ι, order.Perm items ∧ order.filterMap f = r := by
  induction items generalizing r with
  | nil => exact ⟨[], .refl _, (List.perm_nil.mp h).symm⟩
  | cons i items ih =>
    cases hi : f i with
    | none =>
      rw [List.filterMap_cons_none hi] at h
      obtain ⟨order, hperm, rfl⟩ := ih h
      exact ⟨i :: order, hperm.cons _, List.filterMap_cons_none hi⟩
    | some a =>
      rw [List.filterMap_cons_some hi] at h
      obtain ⟨r₁, r₂, rfl⟩ := List.append_of_mem (h.mem_iff.mpr List.mem_cons_self)
      obtain ⟨order, hperm, horder⟩ := ih (List.perm_middle.symm.trans h).cons_inv
      obtain ⟨o₁, o₂, rfl, rfl, rfl⟩ := List.filterMap_eq_append_iff.mp horder
      refine ⟨o₁ ++ i :: o₂, List.perm_middle.trans (hperm.cons _), ?_⟩
      rw [List.filterMap_append, List.filterMap_cons_some hi]

theorem perm_start {items order : List ι} (h : order.Perm items) :
    (Place.wait :: items.map .work : List (Place ι α)).Perm (order.map .work ++ [.wait]) :=
  ((h.symm.map _).cons _).trans (List.perm_append_singleton _ _).symm

/-- **Without a panic** the caller reads everything, in any order. -/
theorem collects_iff {items : List ι} (hcalm : ∀ i ∈ items, (run i).panics = false) {r : List α} :
    Collects run items r ↔ r.Perm (values run items) := by
  constructor
  · rintro ⟨c, hreach, hr⟩
    have hexact : Books c ∧ Exact run (values run items) c :=
      hreach.invariant (P := fun c => Books c ∧ Exact run (values run items) c)
        ⟨books_start items, exact_start hcalm⟩ fun h hnext =>
          ⟨(line_of_next hnext).books h.1, (line_of_next hnext).exact h.1 h.2⟩
    exact Multiset.coe_eq_coe.mp (hexact.2.result r hr)
  · intro hperm
    obtain ⟨order, horder, rfl⟩ := exists_perm_filterMap hperm
    obtain ⟨ps, hreach, hps⟩ := reach_calm ⟨items.length, false, [], none⟩ [.wait] order
      (fun i hi => hcalm i (horder.mem_iff.mp hi)) rfl (perm_start horder)
    refine collects_of_reach hreach ?_ (hps.mem_iff.mpr (by simp))
    simp [horder.length_eq]

/-- **If all panic** the caller reads any part of it, in any order. -/
theorem rescued_iff {items : List ι} {f : ι → α} (hpanic : ∀ i ∈ items, run i = .rescue (f i))
    {r : List α} : Collects run items r ↔ r.Subperm (items.map f) := by
  have hvalues : values run items = items.map f := by
    rw [values, ← List.filterMap_eq_map]
    exact List.filterMap_congr fun i hi => by simp [hpanic i hi, Work.value]
  constructor
  · rintro ⟨c, hreach, hr⟩
    have hsound : Sound run (values run items) c :=
      hreach.invariant (sound_start items) fun h hnext => (line_of_next hnext).sound h
    exact hvalues ▸ Multiset.coe_le.mp (hsound.result r hr)
  · rintro ⟨l, hl, hsub⟩
    obtain ⟨kept, hkept, rfl⟩ := List.sublist_map_iff.mp hsub
    obtain ⟨silent, hsilent⟩ := hkept.exists_perm_append
    rw [← List.filterMap_eq_map] at hl
    obtain ⟨heard, hheard, rfl⟩ := exists_perm_filterMap hl.symm
    have hall : (heard ++ silent).Perm items := (hheard.append_right _).trans hsilent.symm
    -- all of them panic and are counted as done; then some get to tell
    obtain ⟨ps₁, hreach₁, hps₁⟩ := reach_panic ⟨items.length, false, [], none⟩ [.wait]
      (heard ++ silent) (fun i hi => hpanic i (hall.mem_iff.mp hi)) (perm_start hall)
    rw [List.map_append, List.append_assoc] at hps₁
    obtain ⟨ps₂, hreach₂, hps₂⟩ := reach_rescue ⟨_, false, [], none⟩ _ heard hps₁
    rw [List.filterMap_eq_map]
    refine collects_of_reach (hreach₁.trans hreach₂) ?_ (hps₂.mem_iff.mpr (by simp))
    simp only [hall.length_eq, Nat.sub_self]

/-! ## Goroutines that keep some of the items -/

/-- The item itself is added, if it passes. -/
def keep (b : ι → Bool) (i : ι) : Work ι := if b i then .add i else .nothing

theorem panics_keep (b : ι → Bool) (i : ι) : (keep b i).panics = false := by
  unfold keep
  split <;> rfl

theorem values_keep (b : ι → Bool) (items : List ι) : values (keep b) items = items.filter b := by
  rw [values, ← List.filterMap_eq_filter]
  refine List.filterMap_congr fun i _ => ?_
  cases hb : b i <;> simp [keep, hb, Work.value, Option.guard]

theorem collects_keep (b : ι → Bool) (items : List ι) :
    Inevitable (next (keep b)) (fun c => ∃ r, c.shared.result = some r ∧ r.Perm (items.filter b))
      (start items) :=
  values_keep b items ▸ collects fun i _ => panics_keep b i

theorem collects_keep_iff {b : ι → Bool} {items r : List ι} :
    Collects (keep b) items r ↔ r.Perm (items.filter b) := by
  rw [collects_iff fun i _ => panics_keep b i, values_keep]

end Didem.Lib.FanOut
