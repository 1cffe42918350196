import Didem.Comm.Send

/-!
# What a nil error from `handle` says

Three numbers are kept by every step of every goroutine (`Balanced`): the count of the wait group
is that of the goroutines that have not made their deferred calls; the errors are in the channel,
taken out of it or still to come; and so are the messages that are written. Nil is only returned
once the count is zero, and **the channel holds one error**: with two the second goroutine waits for
a place in it and the count never gets there. With one the goroutine puts it there and goes on, both
cases of the `select` are ready, and either may be taken.
-/

set_option autoImplicit false

namespace Didem.Comm

open Lib Lib.Conf Storage

section

variable [CommLib]

/-- What comes of one stream. -/
def ClientHandler.exchange (c : ClientHandler) (p : Provider) : Outcome Err Bytes := do
  (c.handshake p).mapErr (·.wrap "client handshake")
  c.transmit p

variable {c : ClientHandler} {ss : List Provider} {s s' : Shared} {l l' : At} {p : Provider}

theorem exchange_of_ok (h : c.handshake p = .ok ()) : c.exchange p = c.transmit p := by
  simp [ClientHandler.exchange, h, Outcome.mapErr]

theorem exchange_of_err {e : Err} (h : c.handshake p = .err e) :
    c.exchange p = .err (e.wrap "client handshake") := by
  simp [ClientHandler.exchange, h, Outcome.mapErr]

theorem exchange_of_panic (h : c.handshake p = .panic) : c.exchange p = .panic := by
  simp [ClientHandler.exchange, h, Outcome.mapErr]

theorem transmit_eq_ok {b : Bytes} (h : c.transmit p = .ok b) : c.send = .ok b := by
  obtain ⟨b', hb', h⟩ := Outcome.bind_eq_ok.mp h
  obtain ⟨-, -, h⟩ := Outcome.bind_eq_ok.mp h
  rw [hb', Outcome.ok.inj h]

/-! ## The books -/

namespace At

/-- It is still to make its deferred calls. -/
def live : At → Nat
  | .handshake _ | .send _ | .report _ | .closing | .dying => 1
  | _ => 0

/-- It has an error to report. -/
def failing (c : ClientHandler) : At → Nat
  | .handshake p => (c.exchange p).isErr.toNat
  | .send p => (c.transmit p).isErr.toNat
  | .report _ => 1
  | _ => 0

/-- It has a message to write. -/
def writing (c : ClientHandler) : At → Nat
  | .handshake p => (c.exchange p).isOk.toNat
  | .send p => (c.transmit p).isOk.toNat
  | _ => 0

def selecting : At → Nat
  | .select => 1
  | _ => 0

theorem failing_le_live (c : ClientHandler) (l : At) : l.failing c ≤ l.live := by
  cases l with
  | handshake p => exact Bool.toNat_le _
  | send p => exact Bool.toNat_le _
  | _ => simp [failing, live]

theorem writing_le_live (c : ClientHandler) (l : At) : l.writing c ≤ l.live := by
  cases l with
  | handshake p => exact Bool.toNat_le _
  | send p => exact Bool.toNat_le _
  | _ => simp [writing, live]

end At

namespace Shared

/-- The errors that were reported: one in the channel, one taken out of it. -/
def reported (s : Shared) : Nat :=
  s.errs.isSome.toNat + (s.returned.any Outcome.isErr).toNat

/-- Nil was returned or is about to be. -/
def Ended (s : Shared) : Prop := s.done = true ∨ s.returned = some (.ok ())

end Shared

/-- What one step keeps, of the goroutine that makes it and what is shared. -/
structure Kept (c : ClientHandler) (s s' : Shared) (l l' : At) : Prop where
  wg : s'.wg + l.live = s.wg + l'.live
  live_le : l'.live ≤ l.live
  errors : s'.reported + l'.failing c = s.reported + l.failing c
  written : s'.written.length + l'.writing c = s.written.length + l.writing c
  bytes : ∀ b ∈ s'.written, b ∈ s.written ∨ c.send = .ok b
  selects : s'.returned.isSome.toNat + l'.selecting = s.returned.isSome.toNat + l.selecting
  ended : s'.Ended → s.Ended ∨ s'.wg = 0

/-- A step that leaves everything but the place and `written` alone. -/
theorem kept_of_handshake (h : (s', l') ∈ s.act c (.handshake p)) :
    Kept c s s' (.handshake p) l' := by
  simp only [Shared.act] at h
  split at h
  · next hok =>
    obtain ⟨rfl, rfl⟩ := Prod.mk.inj (List.mem_singleton.mp h)
    have hex := exchange_of_ok hok
    exact ⟨rfl, Nat.le_refl _, by simp [At.failing, hex], by simp [At.writing, hex],
      fun _ => .inl, rfl, .inl⟩
  · next e herr =>
    obtain ⟨rfl, rfl⟩ := Prod.mk.inj (List.mem_singleton.mp h)
    have hex := exchange_of_err herr
    exact ⟨rfl, Nat.le_refl _, by simp [At.failing, hex, Outcome.isErr],
      by simp [At.writing, hex, Outcome.isOk], fun _ => .inl, rfl, .inl⟩
  · next hpanic =>
    obtain ⟨rfl, rfl⟩ := Prod.mk.inj (List.mem_singleton.mp h)
    have hex := exchange_of_panic hpanic
    exact ⟨rfl, Nat.le_refl _, by simp [At.failing, hex, Outcome.isErr],
      by simp [At.writing, hex, Outcome.isOk], fun _ => .inl, rfl, .inl⟩

theorem kept_of_send (h : (s', l') ∈ s.act c (.send p)) : Kept c s s' (.send p) l' := by
  simp only [Shared.act] at h
  split at h
  · next b hok =>
    obtain ⟨rfl, rfl⟩ := Prod.mk.inj (List.mem_singleton.mp h)
    refine ⟨rfl, Nat.le_refl _, ?_, ?_, ?_, rfl, .inl⟩
    · simp [At.failing, hok, Outcome.isErr, Shared.reported]
    · simp [At.writing, hok, Outcome.isOk]
    · intro b' hb'
      rcases List.mem_cons.mp hb' with rfl | hold
      · exact .inr (transmit_eq_ok hok)
      · exact .inl hold
  · next e herr =>
    obtain ⟨rfl, rfl⟩ := Prod.mk.inj (List.mem_singleton.mp h)
    exact ⟨rfl, Nat.le_refl _, by simp [At.failing, herr, Outcome.isErr],
      by simp [At.writing, herr, Outcome.isOk], fun _ => .inl, rfl, .inl⟩
  · next hpanic =>
    obtain ⟨rfl, rfl⟩ := Prod.mk.inj (List.mem_singleton.mp h)
    exact ⟨rfl, Nat.le_refl _, by simp [At.failing, hpanic, Outcome.isErr],
      by simp [At.writing, hpanic, Outcome.isOk], fun _ => .inl, rfl, .inl⟩

/-- The `select` takes what is there, and only once. -/
theorem kept_of_select (h : (s', l') ∈ s.choices) (hone : s.returned = none)
    (hended : s.Ended → s.wg = 0) : Kept c s s' .select l' := by
  rcases List.mem_append.mp h with herr | hdone
  · obtain ⟨e, he, heq⟩ := List.mem_map.mp herr
    obtain ⟨rfl, rfl⟩ := Prod.mk.inj heq
    have he : s.errs = some e := Option.mem_toList.mp he
    refine ⟨rfl, Nat.le_refl _, ?_, rfl, fun _ => .inl, ?_, ?_⟩
    · simp [Shared.reported, he, hone, At.failing, Outcome.isErr]
    · simp [hone, At.selecting]
    · rintro (hdone | hret)
      · exact .inl (.inl hdone)
      · cases hret
  · split at hdone
    · next hd =>
      obtain ⟨rfl, rfl⟩ := Prod.mk.inj (List.mem_singleton.mp hdone)
      refine ⟨rfl, Nat.le_refl _, ?_, rfl, fun _ => .inl, ?_, fun _ => .inr (hended (.inl hd))⟩
      · simp [Shared.reported, hone, At.failing, Outcome.isErr]
      · simp [hone, At.selecting]
    · exact absurd hdone List.not_mem_nil

/-- **One step of any goroutine.** -/
theorem kept_of_mem (h : (s', l') ∈ s.next c l) (hlive : l.live ≤ s.wg)
    (hone : s.returned.isSome.toNat + l.selecting ≤ 1) (hended : s.Ended → s.wg = 0) :
    Kept c s s' l l' := by
  unfold Shared.next at h
  split at h
  · exact absurd h List.not_mem_nil
  · cases l with
    | handshake p => exact kept_of_handshake h
    | send p => exact kept_of_send h
    | report e =>
      simp only [Shared.act] at h
      split at h
      · next hroom =>
        obtain ⟨rfl, rfl⟩ := Prod.mk.inj (List.mem_singleton.mp h)
        refine ⟨rfl, Nat.le_refl _, ?_, rfl, fun _ => .inl, rfl, .inl⟩
        simp only [Shared.reported, hroom, At.failing, Option.isSome_some, Option.isSome_none,
          Bool.toNat_true, Bool.toNat_false]
        omega
      · exact absurd h List.not_mem_nil
    | closing =>
      obtain ⟨rfl, rfl⟩ := Prod.mk.inj (List.mem_singleton.mp h)
      exact ⟨Nat.sub_add_cancel hlive, Nat.zero_le _, rfl, rfl, fun _ => .inl, rfl, .inl⟩
    | dying =>
      obtain ⟨rfl, rfl⟩ := Prod.mk.inj (List.mem_singleton.mp h)
      exact ⟨Nat.sub_add_cancel hlive, Nat.zero_le _, rfl, rfl, fun _ => .inl, rfl, .inl⟩
    | dead =>
      obtain ⟨rfl, rfl⟩ := Prod.mk.inj (List.mem_singleton.mp h)
      exact ⟨rfl, Nat.le_refl _, rfl, rfl, fun _ => .inl, rfl, .inl⟩
    | wait =>
      simp only [Shared.act] at h
      split at h
      · next hzero =>
        obtain ⟨rfl, rfl⟩ := Prod.mk.inj (List.mem_singleton.mp h)
        exact ⟨rfl, Nat.le_refl _, rfl, rfl, fun _ => .inl, rfl, fun _ => .inr hzero⟩
      · exact absurd h List.not_mem_nil
    | select =>
      refine kept_of_select h ?_ hended
      cases hret : s.returned with
      | none => rfl
      | some r => simp [hret, At.selecting] at hone
    | finished => exact absurd h List.not_mem_nil

/-- **What every interleaving keeps.** -/
structure Balanced (c : ClientHandler) (ss : List Provider) (conf : Conf Shared At) : Prop where
  wg : conf.shared.wg = total At.live conf.threads
  errors : conf.shared.reported + total (At.failing c) conf.threads =
    ss.countP fun p => (c.exchange p).isErr
  written : conf.shared.written.length + total (At.writing c) conf.threads =
    ss.countP fun p => (c.exchange p).isOk
  bytes : ∀ b ∈ conf.shared.written, c.send = .ok b
  selects : conf.shared.returned.isSome.toNat + total At.selecting conf.threads = 1
  ended : conf.shared.Ended → conf.shared.wg = 0

omit [CommLib] in
/-- What the streams weigh before they have moved. -/
theorem total_handshake (w : At → Nat) (q : Provider → Bool)
    (hw : ∀ p, w (.handshake p) = (q p).toNat) (ss : List Provider) :
    total w (ss.map At.handshake) = ss.countP q := by
  induction ss with
  | nil => rfl
  | cons p ss ih =>
    rw [List.countP_cons, ← ih, List.map_cons, Nat.add_comm]
    refine congrArg (· + total w (ss.map At.handshake)) ((hw p).trans ?_)
    cases q p <;> rfl

theorem balanced_goroutines (c : ClientHandler) (ss : List Provider) :
    Balanced c ss (goroutines ss) := by
  have hfront : ∀ w : At → Nat, w .select = 0 → w .wait = 0 →
      total w (goroutines ss).threads = total w (ss.map At.handshake) := by
    intro w hselect hwait
    show w .select + (w .wait + total w (ss.map At.handshake)) = _
    rw [hselect, hwait, Nat.zero_add, Nat.zero_add]
  constructor
  · rw [hfront _ rfl rfl, total_handshake At.live (fun _ => true) fun _ => rfl,
      List.countP_true]
    rfl
  · rw [hfront _ rfl rfl, total_handshake (At.failing c) _ fun _ => rfl]
    exact Nat.zero_add _
  · rw [hfront _ rfl rfl, total_handshake (At.writing c) _ fun _ => rfl]
    exact Nat.zero_add _
  · exact fun b hb => absurd hb List.not_mem_nil
  · show 0 + (1 + (0 + total At.selecting (ss.map At.handshake))) = 1
    rw [total_handshake At.selecting (fun _ => false) fun _ => rfl, List.countP_false]
    rfl
  · rintro (h | h) <;> cases h

theorem Balanced.step {pre post : List At} (h : Balanced c ss ⟨s, pre ++ l :: post⟩)
    (hnext : (s', l') ∈ s.next c l) : Balanced c ss ⟨s', pre ++ l' :: post⟩ := by
  have hmem : l ∈ pre ++ l :: post := mem_move.mpr (.inl rfl)
  have hlive : l.live ≤ s.wg := h.wg ▸ le_total hmem
  have hone : s.returned.isSome.toNat + l.selecting ≤ 1 :=
    h.selects ▸ Nat.add_le_add_left (le_total hmem) _
  have hkept := kept_of_mem hnext hlive hone h.ended
  constructor
  · refine Nat.add_right_cancel (hkept.wg.trans ?_)
    rw [total_move At.live pre post l l', ← h.wg]
  · exact (add_total_move (At.failing c) hkept.errors pre post).trans h.errors
  · exact (add_total_move (At.writing c) hkept.written pre post).trans h.written
  · intro b hb
    exact (hkept.bytes b hb).elim (h.bytes b) id
  · exact (add_total_move At.selecting hkept.selects pre post).trans h.selects
  · intro hended
    rcases hkept.ended hended with hbefore | hzero
    · -- the count was zero, so nobody is left to change it
      have hwg := hkept.wg
      have hle := hkept.live_le
      have hzero := h.ended hbefore
      simp only at hwg hle hzero ⊢
      omega
    · exact hzero

theorem balanced_of_reach {conf : Conf Shared At}
    (h : Reach (Shared.next c) (goroutines ss) conf) : Balanced c ss conf :=
  h.invariant (balanced_goroutines c ss) Balanced.step

/-- **When nil is returned** at most one stream has failed, and everything that could be written
has been. -/
theorem Balanced.of_nil {conf : Conf Shared At} (h : Balanced c ss conf)
    (hnil : conf.shared.returned = some (.ok ())) :
    (ss.countP fun p => (c.exchange p).isErr) ≤ 1 ∧
      conf.shared.written.length = ss.countP fun p => (c.exchange p).isOk := by
  have hlive : total At.live conf.threads = 0 := h.wg ▸ h.ended (.inr hnil)
  have hfailing := total_le_total (At.failing_le_live c) conf.threads
  have hwriting := total_le_total (At.writing_le_live c) conf.threads
  have hreported : conf.shared.reported ≤ 1 := by
    have : conf.shared.errs.isSome.toNat ≤ 1 := Bool.toNat_le _
    simpa [Shared.reported, hnil, Outcome.isErr] using this
  have := h.errors
  have := h.written
  omega

/-! ## Getting to nil -/

section Run

theorem solo_act (hcalm : s.panicked = false) (h : s.act c l = [(s', l')]) :
    Solo (Shared.next c) (s, l) (s', l') :=
  .single (by simp [Shared.next, hcalm, h])

/-- What a goroutine leaves when it has made its deferred calls. -/
structure Closed (s s' : Shared) (failed : Bool) : Prop where
  wg : s'.wg = s.wg - 1
  errs : s'.errs.isSome.toNat = s.errs.isSome.toNat + failed.toNat
  done : s'.done = s.done
  returned : s'.returned = s.returned
  calm : s'.panicked = false

/-- A goroutine with an error to report can get rid of it while there is room. -/
theorem solo_reported (c : ClientHandler) (e : Err) (hcalm : s.panicked = false)
    (hroom : s.errs = none) :
    ∃ s' l', Solo (Shared.next c) (s, .report e) (s', l') ∧ Closed s s' true := by
  have hreport : Solo (Shared.next c) (s, .report e) ({ s with errs := some e }, .closing) :=
    solo_act hcalm (by simp [Shared.act, hroom])
  exact ⟨_, _, hreport.trans (solo_act hcalm rfl), rfl, by simp [hroom], rfl, rfl, hcalm⟩

/-- One that panics makes its deferred calls, and then the process lives on for a moment. -/
theorem solo_dead (c : ClientHandler) (hcalm : s.panicked = false) :
    ∃ s' l', Solo (Shared.next c) (s, .dying) (s', l') ∧ Closed s s' false :=
  ⟨_, _, solo_act hcalm rfl, rfl, rfl, rfl, rfl, hcalm⟩

/-- **Every stream comes to its end**, if there is room for its error. -/
theorem solo_closed (p : Provider) (hcalm : s.panicked = false)
    (hroom : (c.exchange p).isErr = true → s.errs = none) :
    ∃ s' l', Solo (Shared.next c) (s, .handshake p) (s', l') ∧
      Closed s s' (c.exchange p).isErr := by
  cases hshake : c.handshake p with
  | err e =>
    rw [exchange_of_err hshake] at hroom ⊢
    obtain ⟨s', l', hrest, hclosed⟩ :=
      solo_reported c (e.wrap "client handshake") hcalm (hroom rfl)
    exact ⟨s', l', (solo_act hcalm (by simp [Shared.act, hshake])).trans hrest, hclosed⟩
  | panic =>
    rw [exchange_of_panic hshake]
    obtain ⟨s', l', hrest, hclosed⟩ := solo_dead c hcalm
    exact ⟨s', l', (solo_act hcalm (by simp [Shared.act, hshake])).trans hrest, hclosed⟩
  | ok u =>
    rw [exchange_of_ok hshake] at hroom ⊢
    have hsend : Solo (Shared.next c) (s, .handshake p) (s, .send p) :=
      solo_act hcalm (by simp [Shared.act, hshake])
    cases hmail : c.transmit p with
    | err e =>
      rw [hmail] at hroom
      obtain ⟨s', l', hrest, hclosed⟩ := solo_reported c e hcalm (hroom rfl)
      exact ⟨s', l', hsend.trans ((solo_act hcalm (by simp [Shared.act, hmail])).trans hrest),
        hclosed⟩
    | panic =>
      obtain ⟨s', l', hrest, hclosed⟩ := solo_dead c hcalm
      exact ⟨s', l', hsend.trans ((solo_act hcalm (by simp [Shared.act, hmail])).trans hrest),
        hclosed⟩
    | ok b =>
      have hwrite : Solo (Shared.next c) (s, .send p)
          ({ s with written := b :: s.written }, .closing) :=
        solo_act hcalm (by simp [Shared.act, hmail])
      exact ⟨_, _, hsend.trans (hwrite.trans (solo_act hcalm rfl)), rfl, rfl, rfl, rfl, hcalm⟩

/-- All of them do, one after the other, if at most one fails. -/
theorem reach_all_closed (pre : List At) (ss : List Provider) (hcalm : s.panicked = false)
    (hroom : s.errs.isSome.toNat + (ss.countP fun p => (c.exchange p).isErr) ≤ 1) :
    ∃ s' ls, Reach (Shared.next c) ⟨s, pre ++ ss.map .handshake⟩ ⟨s', pre ++ ls⟩ ∧
      s'.wg = s.wg - ss.length ∧ s'.returned = s.returned ∧ s'.panicked = false := by
  induction ss generalizing s pre with
  | nil => exact ⟨s, [], .refl, rfl, rfl, hcalm⟩
  | cons p ss ih =>
    rw [List.countP_cons] at hroom
    have hone : (c.exchange p).isErr = true → s.errs = none := by
      intro herr
      rw [herr, if_pos rfl] at hroom
      cases herrs : s.errs with
      | none => rfl
      | some e =>
        simp only [herrs, Option.isSome_some, Bool.toNat_true] at hroom
        omega
    obtain ⟨s₁, l₁, hsolo, hclosed⟩ := solo_closed p hcalm hone
    have hroom' : s₁.errs.isSome.toNat + (ss.countP fun p => (c.exchange p).isErr) ≤ 1 := by
      rw [hclosed.errs]
      cases herr : (c.exchange p).isErr with
      | false =>
        simp only [herr, Bool.false_eq_true, if_false, Bool.toNat_false] at hroom ⊢
        omega
      | true =>
        simp only [herr, if_true, Bool.toNat_true] at hroom ⊢
        omega
    obtain ⟨s₂, ls, hrest, hwg, hret, hcalm₂⟩ := ih (pre ++ [l₁]) hclosed.calm hroom'
    refine ⟨s₂, l₁ :: ls, ?_, ?_, hret.trans hclosed.returned, hcalm₂⟩
    · rw [List.append_assoc, List.append_assoc] at hrest
      exact (hsolo.reach pre _).trans hrest
    · rw [hwg, hclosed.wg, List.length_cons]
      omega

/-- **With at most one failure, nil can be returned.** -/
theorem reach_nil (hone : (ss.countP fun p => (c.exchange p).isErr) ≤ 1) :
    ∃ conf, Reach (Shared.next c) (goroutines ss) conf ∧
      conf.shared.returned = some (.ok ()) := by
  have hstart : (goroutines ss).shared.errs.isSome.toNat +
      (ss.countP fun p => (c.exchange p).isErr) ≤ 1 := by simpa [goroutines] using hone
  obtain ⟨s₁, ls, hstreams, hwg, hret, hcalm⟩ :=
    reach_all_closed [.select, .wait] ss rfl hstart
  have hzero : s₁.wg = 0 := by simpa [goroutines] using hwg
  -- everybody has ended, and it is said so
  have hwait : Solo (Shared.next c) (s₁, .wait) ({ s₁ with done := true }, .finished) :=
    solo_act hcalm (by simp [Shared.act, hzero])
  have hselect : Solo (Shared.next c) ({ s₁ with done := true }, .select)
      ({ s₁ with done := false, returned := some (.ok ()) }, .finished) :=
    .single (by simp [Shared.next, hcalm, Shared.act, Shared.choices])
  exact ⟨_, hstreams.trans ((hwait.reach [.select] ls).trans (hselect.reach [] _)), rfl⟩

end Run

/-! ## The call -/

variable {k : Handling}

omit [CommLib] in
/-- The providers that can be connected to and let a stream be opened. -/
def Handling.streams (k : Handling) : List Provider :=
  match k.providers.found with
  | .ok addrs => addrs.filter fun p => p.connects && p.opens
  | _ => []

omit [CommLib] in
/-- The call fails before it has a stream to send on: something is missing, or nobody is found that
can be connected to. -/
def Handling.Refused (k : Handling) : Prop :=
  k.sender.resolver = none ∨ k.sender.identity = none ∨ k.nonce = none ∨
    ∀ addrs, k.providers.found = .ok addrs → ∀ p ∈ addrs, p.connects = false

omit [CommLib] in
theorem connectEndProviders_eq_ok {ω : Providers} (h : ω.connectEndProviders = .ok ss) :
    ∃ addrs, ω.found = .ok addrs ∧ (∃ p ∈ addrs, p.connects = true) ∧
      ss.Perm (addrs.filter fun p => p.connects && p.opens) := by
  obtain ⟨addrs, hfound, h⟩ := Outcome.bind_eq_ok.mp h
  have hfound : ω.found = .ok addrs := by simpa [Providers.findProviders] using hfound
  refine ⟨addrs, hfound, ?_⟩
  split at h
  · cases h
  · simp only at h
    split at h
    · cases h
    · next hsome =>
      obtain rfl := Outcome.ok.inj h
      have hconnected := ω.order_perm (addrs.filter (·.connects))
      constructor
      · rw [hconnected.length_eq, List.length_eq_zero_iff, List.filter_eq_nil_iff] at hsome
        push Not at hsome
        exact hsome
      · calc ω.order ((ω.order (addrs.filter (·.connects))).filter (·.opens))
          _ |>.Perm ((ω.order (addrs.filter (·.connects))).filter (·.opens)) := ω.order_perm _
          _ |>.Perm ((addrs.filter (·.connects)).filter (·.opens)) := hconnected.filter _
          _ = addrs.filter fun p => p.connects && p.opens := by
            rw [List.filter_filter]
            exact List.filter_congr fun p _ => Bool.and_comm _ _

omit [CommLib] in
theorem exists_connectEndProviders {ω : Providers} {addrs : List Provider}
    (hfound : ω.found = .ok addrs) (hsome : ∃ p ∈ addrs, p.connects = true) :
    ∃ ss, ω.connectEndProviders = .ok ss := by
  obtain ⟨p, hp, hconnects⟩ := hsome
  have haddrs : addrs.length ≠ 0 := List.length_pos_iff_exists_mem.mpr ⟨p, hp⟩ |>.ne'
  have hconnected : (ω.order (addrs.filter (·.connects))).length ≠ 0 := by
    rw [(ω.order_perm _).length_eq]
    exact (List.length_pos_iff_exists_mem.mpr ⟨p, List.mem_filter.mpr ⟨hp, hconnects⟩⟩).ne'
  refine ⟨ω.order ((ω.order (addrs.filter (·.connects))).filter (·.opens)), ?_⟩
  simp only [Providers.connectEndProviders, Providers.findProviders, hfound, Outcome.mapErr,
    Outcome.ok_bind, if_neg haddrs, if_neg hconnected]

omit [CommLib] in
theorem streams_of_begins (h : k.Begins c ss) : ss.Perm k.streams ∧ ¬ k.Refused := by
  obtain ⟨hprepare, hconnect⟩ := h
  obtain ⟨addrs, hfound, ⟨p, hp, hconnects⟩, hperm⟩ := connectEndProviders_eq_ok hconnect
  refine ⟨by simpa [Handling.streams, hfound] using hperm, ?_⟩
  unfold Sender.prepare at hprepare
  rintro (hnone | hnone | hnone | hnobody)
  · simp [hnone] at hprepare
  · rw [hnone] at hprepare
    split at hprepare <;> simp_all
  · rw [hnone] at hprepare
    split at hprepare <;> simp_all
  · exact absurd (hnobody addrs hfound p hp) (by simp [hconnects])

omit [CommLib] in
theorem exists_begins (h : ¬ k.Refused) : ∃ c ss, k.Begins c ss := by
  unfold Handling.Refused at h
  push Not at h
  obtain ⟨hresolver, hidentity, hnonce, addrs, hfound, p, hp, hconnects⟩ := h
  obtain ⟨resolver, hresolver⟩ := Option.ne_none_iff_exists'.mp hresolver
  obtain ⟨identity, hidentity⟩ := Option.ne_none_iff_exists'.mp hidentity
  obtain ⟨nonce, hnonce⟩ := Option.ne_none_iff_exists'.mp hnonce
  obtain ⟨ss, hss⟩ := exists_connectEndProviders hfound ⟨p, hp, by simpa using hconnects⟩
  exact ⟨_, ss, by simp only [Sender.prepare, hresolver, hidentity, hnonce]; rfl, hss⟩

/-- The message was written in full on a stream, and no stream failed. -/
def Delivered (c : ClientHandler) (ss : List Provider) (conf : Conf Shared At) : Prop :=
  (∃ b ∈ conf.shared.written, c.send = .ok b) ∧ ∀ p ∈ ss, (c.exchange p).isOk = true

/-- **When nil means that the message was sent.** In every interleaving, if and only if the call
fails before it has streams, or it has at least one and succeeds on every one, or at least two of
them fail with an error, in which case it never returns nil. -/
theorem nil_delivered_iff (k : Handling) :
    (∀ c ss conf, k.ReturnsNil c ss conf → Delivered c ss conf) ↔
      k.Refused ∨ ∃ c, k.sender.prepare k.now k.nonce = .ok c ∧
        ((k.streams ≠ [] ∧ ∀ p ∈ k.streams, (c.exchange p).isOk = true) ∨
          2 ≤ k.streams.countP fun p => (c.exchange p).isErr) := by
  constructor
  · intro h
    refine or_iff_not_imp_left.mpr fun hrefused => ?_
    obtain ⟨c, ss, hbegins⟩ := exists_begins hrefused
    have hperm := (streams_of_begins hbegins).1
    refine ⟨c, hbegins.1, or_iff_not_imp_right.mpr fun hfew => ?_⟩
    have hone : (ss.countP fun p => (c.exchange p).isErr) ≤ 1 := by
      rw [hperm.countP_eq]
      omega
    obtain ⟨conf, hreach, hnil⟩ := reach_nil hone
    obtain ⟨⟨b, hb, -⟩, hall⟩ := h c ss conf ⟨hbegins, hreach, hnil⟩
    refine ⟨fun hempty => ?_, fun p hp => hall p (hperm.mem_iff.mpr hp)⟩
    -- without a stream there is nothing that could have been written
    have hlen := ((balanced_of_reach hreach).of_nil hnil).2
    rw [hempty, List.perm_nil] at hperm
    rw [hperm, List.countP_nil, List.length_eq_zero_iff] at hlen
    rw [hlen] at hb
    exact absurd hb List.not_mem_nil
  · intro h c ss conf hnil
    obtain ⟨hbegins, hreach, hret⟩ := hnil
    obtain ⟨hperm, hrefused⟩ := streams_of_begins hbegins
    have hbal := balanced_of_reach hreach
    obtain ⟨hone, hwritten⟩ := hbal.of_nil hret
    rcases h with hrefused' | ⟨c', hc', hgood⟩
    · exact absurd hrefused' hrefused
    · obtain rfl := Outcome.ok.inj (hc'.symm.trans hbegins.1)
      rcases hgood with ⟨hne, hall⟩ | htwo
      · have hall' : ∀ p ∈ ss, (c'.exchange p).isOk = true :=
          fun p hp => hall p (hperm.mem_iff.mp hp)
        refine ⟨?_, hall'⟩
        have hlen : conf.shared.written.length = ss.length :=
          hwritten.trans (List.countP_eq_length.mpr hall')
        have hpos : 0 < conf.shared.written.length := by
          rw [hlen, hperm.length_eq]
          exact List.length_pos_of_ne_nil hne
        obtain ⟨b, hb⟩ := List.exists_mem_of_length_pos hpos
        exact ⟨b, hb, hbal.bytes b hb⟩
      · rw [← hperm.countP_eq] at htwo
        omega

end

section Sample

open Comm.Sample

/-- It can be reached, and closes the stream without an answer. -/
def muteProvider : Provider where
  connects := true
  opens := true
  side := ⟨fun _ _ => 64, 0, some [7], [], 0⟩
  answer := .new [] fun _ => 1

/-- It can be connected to, and lets no stream be opened. -/
def lockedProvider : Provider := { muteProvider with opens := false }

/-- A message to somebody with one provider. -/
def sendingTo (p : Provider) : Handling where
  sender := ⟨{}, some (some ⟨.ed25519, [1]⟩), none, some fun _ => .ok none⟩
  now := 1
  nonce := some [7]
  providers := ⟨.ok [p], id, fun l => .refl l⟩

/-- The handler it becomes. -/
def plainClient : ClientHandler :=
  ⟨{ createdTime := 1, nonce := [7] }, some ⟨.ed25519, [1]⟩, none, fun _ => .ok none⟩

/-- **Nil for nothing.** Where no stream could be opened, `handle` returns nil at once. Where the
only handshake fails, its error is in the channel when the goroutines have ended, and the `select`
takes the other case. -/
theorem nil_not_delivered :
    (∃ conf, (sendingTo lockedProvider).ReturnsNil plainClient [] conf ∧
      conf.shared.written = []) ∧
    ∃ conf, (sendingTo muteProvider).ReturnsNil plainClient [muteProvider] conf ∧
      conf.shared.written = [] ∧ plainClient.exchange muteProvider =
        .err (((Err.new "EOF").wrap "reading server hello").wrap "client handshake") := by
  constructor
  · exact ⟨_, ⟨⟨rfl, rfl⟩, reach_of_follow [(1, 0), (0, 0)] rfl, rfl⟩, rfl⟩
  · exact ⟨_, ⟨⟨rfl, rfl⟩, reach_of_follow [(2, 0), (2, 0), (2, 0), (1, 0), (0, 1)] rfl, rfl⟩,
      rfl, rfl⟩

end Sample
end Didem.Comm
