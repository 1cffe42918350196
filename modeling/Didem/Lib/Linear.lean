import Didem.Lib.Threads

/-!
# Calls that take effect in one step

Threads that work through programs of calls on a shared object. A call is several steps long, and
the steps of different calls interleave; but if the object is a good one, each call **takes effect**
in one of its steps, and a log of these moments, in their order, says what the object was used for.

`Account` is what is needed to speak of such a log: where it is kept, whose thread is whose, and
which calls a thread still owes. If every step either leaves the log alone or settles the first call
its thread owes (`Settles`), then in every reachable state the log holds of every thread exactly the
part of its program that it does not owe any more, in the order of the program (`share_append_owed`).
That no call is lost, none takes effect twice and no thread's calls are reordered are all this one
equation.
-/

set_option autoImplicit false

namespace Didem.Lib.Linear

open Conf

variable {σ τ ι ο : Type*}

/-- What one thread has in the log. -/
def share [DecidableEq ι] (i : ι) (log : List (ι × ο)) : List ο :=
  (log.filter fun e => e.1 = i).map Prod.snd

section

variable [DecidableEq ι] {i j : ι} {log : List (ι × ο)} {op : ο}

@[simp] theorem share_nil : share i ([] : List (ι × ο)) = [] := rfl

theorem share_append_self : share i (log ++ [(i, op)]) = share i log ++ [op] := by
  simp [share]

theorem share_append_of_ne (h : j ≠ i) : share i (log ++ [(j, op)]) = share i log := by
  simp [share, h]

end

/-- How a system keeps account of its calls. -/
structure Account (σ τ ι ο : Type*) where
  log : σ → List (ι × ο)
  id : τ → ι
  /-- The calls of a thread that have not taken effect, in its order. -/
  owed : τ → List ο

namespace Account

variable (a : Account σ τ ι ο)

/-- A step of a thread: it settles the first call the thread owes, or none. -/
inductive Move : σ → τ → σ → τ → Prop where
  | quiet {s s' : σ} {l l' : τ} (hid : a.id l' = a.id l) (hlog : a.log s' = a.log s)
      (howed : a.owed l' = a.owed l) : Move s l s' l'
  | settle {s s' : σ} {l l' : τ} (op : ο) (hid : a.id l' = a.id l)
      (hlog : a.log s' = a.log s ++ [(a.id l, op)]) (howed : a.owed l = op :: a.owed l') :
      Move s l s' l'

/-- Every step is a move of the account. -/
def Settles (next : σ → τ → List (σ × τ)) : Prop :=
  ∀ {s s' : σ} {l l' : τ}, (s', l') ∈ next s l → a.Move s l s' l'

variable {a}

theorem Move.id_eq {s s' : σ} {l l' : τ} (h : a.Move s l s' l') : a.id l' = a.id l := by
  cases h with
  | quiet hid _ _ => exact hid
  | settle _ hid _ _ => exact hid

variable [DecidableEq ι]

/-- A thread that moves: what it has in the log and what it owes are the same calls as before. -/
theorem Move.share_self {s s' : σ} {l l' : τ} (h : a.Move s l s' l') :
    share (a.id l') (a.log s') ++ a.owed l' = share (a.id l) (a.log s) ++ a.owed l := by
  cases h with
  | quiet hid hlog howed => rw [hid, hlog, howed]
  | settle op hid hlog howed =>
    rw [hid, hlog, howed, share_append_self, List.append_assoc, List.singleton_append]

/-- The others have in the log what they had. -/
theorem Move.share_other {s s' : σ} {l l' : τ} (h : a.Move s l s' l') {i : ι} (hi : a.id l ≠ i) :
    share i (a.log s') = share i (a.log s) := by
  cases h with
  | quiet _ hlog _ => rw [hlog]
  | settle op _ hlog _ => rw [hlog, share_append_of_ne hi]

/-- The log is of calls of these threads, and every thread's part of it is its program without what
it owes. -/
structure Audited (a : Account σ τ ι ο) (program : ι → List ο) (ids : List ι) (c : Conf σ τ) :
    Prop where
  ids_eq : c.threads.map a.id = ids
  logged : ∀ e ∈ a.log c.shared, e.1 ∈ ids
  share_append_owed : ∀ l ∈ c.threads,
    share (a.id l) (a.log c.shared) ++ a.owed l = program (a.id l)

/-- **No call is lost, doubled or reordered**, whatever the interleaving. -/
theorem Settles.audited {next : σ → τ → List (σ × τ)} (h : a.Settles next) {program : ι → List ο}
    {ids : List ι} (hids : ids.Nodup) {c c' : Conf σ τ} (hstart : a.Audited program ids c)
    (hreach : Reach next c c') : a.Audited program ids c' := by
  refine hreach.invariant hstart ?_
  intro s s' l l' pre post hinv hnext
  have hmove := h hnext
  have hmap : (pre ++ l' :: post).map a.id = (pre ++ l :: post).map a.id := by
    simp [hmove.id_eq]
  refine ⟨hmap.trans hinv.ids_eq, ?_, ?_⟩
  · intro e he
    cases hmove with
    | quiet _ hlog _ => exact hinv.logged e (hlog ▸ he)
    | settle op _ hlog _ =>
      rw [hlog, List.mem_append, List.mem_singleton] at he
      rcases he with he | rfl
      · exact hinv.logged e he
      · rw [← hinv.ids_eq]
        exact List.mem_map_of_mem (mem_move.mpr (.inl rfl))
  · intro t ht
    rcases mem_move.mp ht with rfl | ht
    · rw [hmove.share_self, hmove.id_eq]
      exact hinv.share_append_owed l (mem_move.mpr (.inl rfl))
    · -- the identities are distinct, so this is another thread's
      have hne : a.id l ≠ a.id t := by
        have hnodup : ((pre ++ l :: post).map a.id).Nodup := hinv.ids_eq ▸ hids
        rw [(List.perm_middle.map a.id).nodup_iff, List.map_cons, List.nodup_cons] at hnodup
        exact fun heq => hnodup.1 (heq ▸ List.mem_map_of_mem ht)
      rw [hmove.share_other hne]
      exact hinv.share_append_owed t (mem_move.mpr (.inr ht))

end Account
end Didem.Lib.Linear
