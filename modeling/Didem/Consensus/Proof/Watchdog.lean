import Didem.Consensus.Proof.Simulation
import Didem.Consensus.Proof.Timed
import Didem.Consensus.Sample
import Didem.Lib.Triple

/-!
# A round that is not over has a timer running

What a node waits for may never come, so each step of a round has a timer. Whether that is enough is
a question about all handlers at once: every one of them starts and stops timers, moves the step and
sets the Onces, and a single path that stops a timer and starts none would leave the node waiting
for ever.

`Dial` is what the question is about: the step, the three Onces, and whether the round is open, led
by this node and already decided. `Watched` is the invariant. If publishing works, a node in a round
that is not decided has **the timer of its step** live, whatever the order of messages, beacons and
ticks, and however late `watchTimeouts` is; with two exceptions, which are states of their own:

* a proposer that could not make its proposal stays in `propose`, where its prevote timeout is
  ignored;
* a node that is not the proposer and starts the round again while it holds a block goes to
  `prevote` without having voted, and starts the propose timer, which is ignored in `prevote`. If
  its prevote and precommit timers are not running from before, no timer will get it out
  (`follower_goes_quiet`).
-/

set_option autoImplicit false

namespace Didem

open Lib Storage

/-- Where a node is in its round, as far as its timers go. -/
structure Dial where
  step : Step
  pvOnce : Bool
  pcOnce : Bool
  sbOnce : Bool
  amProposer : Bool
  /-- A round has been started, or a `NewRound` taken up. -/
  opened : Bool
  /-- The height of the round has been committed. -/
  decided : Bool
  deriving DecidableEq, Repr

def Core.dial (k : Core) : Dial where
  step := k.propsalState.step
  pvOnce := k.propsalState.pvOnce
  pcOnce := k.propsalState.pcOnce
  sbOnce := k.propsalState.sbOnce
  amProposer := k.propsalState.amProposer
  opened := k.propsalState.preVotes.isSome
  decided := k.propsalState.height = k.state.height

/-- The timer of a step. -/
def Step.timer : Step → TimerName
  | .propose => .propose
  | .prevote => .prevote
  | .precommit => .precommit
  | .block => .block

theorem Step.timer_injective : Function.Injective Step.timer := by
  intro a b h
  cases a <;> cases b <;> first | rfl | cases h

/-- The invariant, of a dial and of which timers are live. -/
structure Dial.Watched (d : Dial) (live : TimerName → Bool) : Prop where
  /-- Nobody votes without leaving the step. -/
  unvoted : d.step = .propose → d.pvOnce = false
  propose : d.opened = true → d.step = .propose → d.amProposer = false → live .propose = true
  prevote : d.decided = false → d.step = .prevote →
    live .prevote = true ∨ (d.pvOnce = false ∧ d.amProposer = false)
  precommit : d.decided = false → d.step = .precommit → live .precommit = true
  /-- Nobody locks without leaving the step, either. -/
  locked : d.decided = false → d.pcOnce = true → d.step = .precommit ∨ d.step = .block

namespace Dial

/-- The proposer's path of `startRound` leaves the dial alone, but for the step at its end. -/
def Led (d d' : Dial) : Prop := d' = d ∨ d' = { d with step := .prevote }

namespace Watched

variable {d : Dial} {live live' : TimerName → Bool}

theorem mono (h : d.Watched live) (hlive : ∀ n, live n = true → live' n = true) :
    d.Watched live' where
  unvoted := h.unvoted
  propose hop hstep ham := hlive _ (h.propose hop hstep ham)
  prevote hdec hstep := (h.prevote hdec hstep).imp (hlive _) id
  precommit hdec hstep := hlive _ (h.precommit hdec hstep)
  locked := h.locked

theorem restarted (h : d.Watched live) (n : TimerName) :
    d.Watched (Function.update live n true) := by
  refine h.mono fun m hm => ?_
  by_cases hmn : m = n
  · rw [hmn, Function.update_self]
  · rw [Function.update_of_ne hmn, hm]

/-- The timer of another step does not matter. -/
theorem of_update (s : Step) (hs : d.step ≠ s)
    (h : d.Watched (Function.update live s.timer true)) : d.Watched live := by
  have keep : ∀ step, d.step = step →
      Function.update live s.timer true step.timer = live step.timer := fun step hstep =>
    Function.update_of_ne (fun he => hs (hstep.trans (Step.timer_injective he))) ..
  refine ⟨h.unvoted, fun hop hstep ham => ?_, fun hdec hstep => ?_, fun hdec hstep => ?_, h.locked⟩
  · exact (keep _ hstep).symm.trans (h.propose hop hstep ham)
  · exact (h.prevote hdec hstep).imp_left (keep _ hstep).symm.trans
  · exact (keep _ hstep).symm.trans (h.precommit hdec hstep)

/-- A round just opened, as it is for a node that does not lead it. -/
theorem of_following (hstep : d.step = .propose ∨ d.step = .prevote) (hpv : d.pvOnce = false)
    (hpc : d.pcOnce = false) (ham : d.amProposer = false ∨ d.step = .propose)
    (hlive : live .propose = true) : d.Watched live := by
  rcases hstep with hstep | hstep <;> constructor <;> simp_all

/-- A round just opened, as it is for its proposer. -/
theorem of_leading (hstep : d.step = .propose ∨ d.step = .prevote) (hpv : d.pvOnce = false)
    (hpc : d.pcOnce = false) (ham : d.amProposer = true) (hlive : live .prevote = true) :
    d.Watched live := by
  rcases hstep with hstep | hstep <;> constructor <;> simp_all

theorem of_prevote (hstep : d.step = .prevote) (hpc : d.decided = false → d.pcOnce = false)
    (hlive : live .prevote = true) : d.Watched live := by
  constructor <;> simp_all

theorem of_precommit (hstep : d.step = .precommit) (hlive : live .precommit = true) :
    d.Watched live := by
  constructor <;> simp_all

theorem of_block (hstep : d.step = .block) : d.Watched live := by
  constructor <;> simp_all

/-- Nothing is asked of a round that is over, as long as nobody goes back in it. -/
theorem of_decided (hdec : d.decided = true) (hstep : d.step ≠ .propose) : d.Watched live := by
  constructor <;> simp_all

/-- Before the last step of a round nobody is locked. -/
theorem unlocked (h : d.Watched live) (hstep : d.step = .propose ∨ d.step = .prevote)
    (hdec : d.decided = false) : d.pcOnce = false := by
  by_contra hpc
  rcases h.locked hdec (by simpa using hpc) with hlater | hlater <;> simp [hlater] at hstep

end Watched
end Dial

namespace Timed

variable {S M : Type}

/-- A tick of the timer will be handled, unless somebody stops it. -/
def live (t : Timed S M) (n : TimerName) : Bool := (t.timers n).live || t.taken == some n

/-- An assertion about the dial and the timers. -/
def At (A : Dial → (TimerName → Bool) → Prop) (t : Timed S M) : Prop := A t.engine.core.dial t.live

abbrev Watched (t : Timed S M) : Prop := At Dial.Watched t

/-! ## The timers -/

section Rules

variable {A B : Dial → (TimerName → Bool) → Prop} {E : Timed S M → Prop}

theorem live_setTimer (n : TimerName) (g : Timer → Timer) (t : Timed S M) :
    (t.setTimer n g).live =
      Function.update t.live n ((g (t.timers n)).live || t.taken == some n) := by
  funext m
  by_cases hm : m = n
  · subst hm
    simp [live, setTimer]
  · simp [live, setTimer, Function.update_of_ne hm]

theorem triple_stopTimer {n : TimerName} (h : ∀ d live b, A d live → B d (Function.update live n b)) :
    Proc.Triple (At A) (stopTimer n : TimedEngine S M Unit) (fun _ => At B) E := by
  refine .modify fun t ht => ?_
  rw [At, live_setTimer]
  exact h _ _ _ ht

theorem triple_restartTimer {n : TimerName}
    (h : ∀ d live, A d live → B d (Function.update live n true)) :
    Proc.Triple (At A) (restartTimer n : TimedEngine S M Unit) (fun _ => At B) E := by
  refine .bind (triple_stopTimer (B := fun d live => ∃ live₀ b, A d live₀ ∧
    live = Function.update live₀ n b) fun d live b hA => ⟨live, b, hA, rfl⟩) fun _ => ?_
  rintro t ⟨live₀, b, hA, hlive⟩
  show At B _
  rw [At, live_setTimer, hlive, Function.update_idem, Timer.live_reset, Bool.true_or]
  exact h _ _ hA

theorem run_restartTimer (n : TimerName) (t : Timed S M) :
    ∃ timer : Timer, (restartTimer n).run t =
      (.ok (), { t with timers := Function.update t.timers n timer }) :=
  ⟨_, Prod.ext rfl (by simp [restartTimer, stopTimer, setTimer]; rfl)⟩

theorem triple_restartIf {b : Bool} {n : TimerName} (hno : b = false → ∀ d live, A d live → B d live)
    (hyes : b = true → ∀ d live, A d live → B d (Function.update live n true)) :
    Proc.Triple (At A) (restartIf b n : TimedEngine S M Unit) (fun _ => At B) E := by
  cases b with
  | false => exact .pure fun t => hno rfl _ _
  | true => exact triple_restartTimer (hyes rfl)

/-! ## The engine -/

/-- A part of the engine that moves the dial in one of the ways `R` has. -/
theorem triple_onEngine {α : Type} {p : Engine S M α} {R : Dial → Dial → Prop}
    (hp : Proc.Within (fun c c' => R c.core.dial c'.core.dial) p)
    (hok : ∀ d d' live, A d live → R d d' → B d' live) :
    Proc.Triple (At A) (onEngine p) (fun _ => At B) (At B) :=
  .of_snd fun t ht => hok _ _ _ ht (hp t.engine)

/-- The two engines are at the same place of their round. -/
def SameDial (c c' : Consensus S M) : Prop := c'.core.dial = c.core.dial

instance reflSameDial : Std.Refl (SameDial (S := S) (M := M)) := ⟨fun _ => rfl⟩

instance transSameDial : IsTrans (Consensus S M) SameDial := ⟨fun _ _ _ h h' => Eq.trans h' h⟩

theorem SameDial.of_sameCore {c c' : Consensus S M} (h : Consensus.SameCore c c') : SameDial c c' :=
  congrArg Core.dial h

/-- A part of the engine that is not about the round. -/
theorem triple_aside {α : Type} {p : Engine S M α} (hp : Proc.Within SameDial p) :
    Proc.Triple (At A) (onEngine p) (fun _ => At A) (At A) :=
  triple_onEngine (R := fun d d' => d' = d) hp fun _ _ _ hA hd => hd ▸ hA

/-- An assignment of the engine. -/
theorem triple_assign {g : Consensus S M → Consensus S M} {h : Dial → Dial}
    (hg : ∀ c, (g c).core.dial = h c.core.dial) (hA : ∀ d live, A d live → B (h d) live) :
    Proc.Triple (At A) (onEngine (.modify g)) (fun _ => At B) E := by
  intro t ht
  have hB : B (g t.engine).core.dial t.live := (hg t.engine).symm ▸ hA _ _ ht
  exact hB

theorem run_onEngine_modify (g : Consensus S M → Consensus S M) (t : Timed S M) :
    (onEngine (.modify g)).run t = (.ok (), { t with engine := g t.engine }) := rfl

/-- The state is read: from here on the dial is known. -/
theorem triple_get {β : Type} {f : Timed S M → TimedEngine S M β} {Q : β → Timed S M → Prop}
    (h : ∀ t, Proc.Triple (At fun d live => d = t.engine.core.dial ∧ A d live) (f t) Q E) :
    Proc.Triple (At A) (Proc.get >>= f) Q E :=
  .get_bind fun t ht => (h t).weaken fun _ hs => by
    subst hs
    exact ⟨rfl, ht⟩

end Rules

/-! ## Sending -/

section Send

variable [CryptoLib]

/-- Votes can be signed and published. -/
def VotesGoOut (S M : Type) (ω : Env) : Prop :=
  ∀ (t : VoteType) (value : String) (c : Consensus S M),
    ((Consensus.sendVote ω t value).run c).1 = .ok ()

theorem sendVote_sameDial (ω : Env) (t : VoteType) (value : String) :
    Proc.Within SameDial (Consensus.sendVote ω t value : Engine S M Unit) := by
  intro c
  obtain ⟨vote, htold, -⟩ := Consensus.sendVote_told ω t value c
  rw [htold]
  rfl

omit [CryptoLib] in
/-- A part of the engine that is not about the round, and succeeds. -/
theorem triple_succeeds {A : Dial → (TimerName → Bool) → Prop} {E : Timed S M → Prop}
    {p : Engine S M Unit} (hsame : Proc.Within SameDial p) (hok : ∀ c, (p.run c).1 = .ok ()) :
    Proc.Triple (At A) (onEngine p) (fun _ => At A) E := by
  intro t ht
  have hend := triple_aside hsame t ht
  revert hend
  simp only [onEngine, Proc.on, Proc.run] at hok ⊢
  rw [hok]
  exact id

theorem triple_sendVote {A : Dial → (TimerName → Bool) → Prop} {E : Timed S M → Prop} {ω : Env}
    (hω : VotesGoOut S M ω) (t : VoteType) (value : String) :
    Proc.Triple (At A) (onEngine (Consensus.sendVote ω t value)) (fun _ => At A) E :=
  triple_succeeds (sendVote_sameDial ω t value) (hω t value)

theorem triple_logged_sendVote {A : Dial → (TimerName → Bool) → Prop} {E : Timed S M → Prop}
    {ω : Env} (hω : VotesGoOut S M ω) (t : VoteType) (value : String) :
    Proc.Triple (At A) (onEngine (.logged (Consensus.sendVote ω t value))) (fun _ => At A) E := by
  refine triple_succeeds (fun c => ?_) fun c => ?_
  · rw [Proc.run_logged_snd]
    exact sendVote_sameDial ω t value c
  · have hok := hω t value c
    rw [Proc.logged, Proc.run_orElse]
    generalize (Consensus.sendVote ω t value).run c = r at hok
    obtain ⟨outcome, c'⟩ := r
    obtain rfl : outcome = .ok () := hok
    rfl

end Send

/-! ## The handlers -/

section Handlers

theorem lead_dial [Store S] [MemPool M] [CryptoLib] [CidText] (ω : Env) :
    Proc.Within (fun c c' => c.core.dial.Led c'.core.dial)
      (Consensus.lead ω : Engine S M Unit) := by
  intro c
  obtain ⟨f, block, step, told, hstep, -, hled⟩ := Consensus.lead_led ω c
  rw [hled]
  rcases hstep with rfl | rfl
  · exact .inl rfl
  · exact .inr rfl

/-- Whatever was before, a round that starts has its timer. -/
theorem startRound_watched [Store S] [MemPool M] [CryptoLib] [CidText] (ω : Env) (inc : Bool) :
    Proc.Triple (fun _ => True) (startRound ω inc : TimedEngine S M Unit) (fun _ => Watched)
      Watched := by
  refine .bind (R := fun _ => At fun d _ => (d.step = .propose ∨ d.step = .prevote) ∧
    d.pvOnce = false ∧ d.pcOnce = false) ?_ fun _ => triple_get fun t => .ite ?_ ?_
  · rintro t -
    exact ⟨(ite_eq_or_eq _ _ _).symm, rfl, rfl⟩
  · intro ham
    refine .bind (triple_restartTimer (B := fun d live => d.amProposer = true ∧
      (d.step = .propose ∨ d.step = .prevote) ∧ d.pvOnce = false ∧ d.pcOnce = false ∧
        live .prevote = true) ?_) fun _ => triple_onEngine (lead_dial ω) ?_
    · rintro d live ⟨rfl, hstep, hpv, hpc⟩
      exact ⟨ham, hstep, hpv, hpc, Function.update_self ..⟩
    · rintro d d' live ⟨ham, hstep, hpv, hpc, hlive⟩ (rfl | rfl)
      · exact .of_leading hstep hpv hpc ham hlive
      · exact .of_leading (.inr rfl) hpv hpc ham hlive
  · intro ham
    refine triple_restartTimer ?_
    rintro d live ⟨rfl, hstep, hpv, hpc⟩
    exact .of_following hstep hpv hpc (.inl (Bool.eq_false_of_not_eq_true ham))
      (Function.update_self ..)

theorem onBeacon_watched [Store S] [MemPool M] [CryptoLib] [CidText] (ω : Env) (b : UInt64) :
    Proc.Triple Watched (onBeacon ω b : TimedEngine S M Unit) (fun _ => Watched) Watched := by
  refine triple_get fun t => .bind (R := fun _ => Watched) (.lift ?_ ?_) fun p => ?_
  · exact fun _ _ s hs => hs.2
  · exact fun s hs => hs.2
  · exact .bind (R := fun _ _ => True) (.modify fun _ _ => trivial) fun _ =>
      startRound_watched ω false

theorem onNewRound_watched (msg : Option ConsensusMsgNewRound) (sender : String) :
    Proc.Triple Watched (onNewRound msg sender : TimedEngine S M Unit) (fun _ => Watched)
      Watched := by
  refine triple_get fun t => .ite (fun _ => .pure fun _ hs => hs.2) fun _ => ?_
  cases msg with
  | none => exact .lift (by simp) fun _ hs => hs.2
  | some msg =>
    refine .bind (R := fun _ => At fun d _ => d.step = .propose ∧ d.pvOnce = false ∧
      d.pcOnce = false) (.modify fun _ _ => ⟨rfl, rfl, rfl⟩) fun _ => triple_restartTimer ?_
    rintro d live ⟨hstep, hpv, hpc⟩
    exact .of_following (.inl hstep) hpv hpc (.inr hstep) (Function.update_self ..)

theorem validate_sameDial [Store S] [Validator S] [CidText] (ω : Env) (value : String) :
    Proc.Within SameDial (Consensus.validate ω value : Engine S M Cid) := by
  intro c
  rcases Consensus.validate_checked ω value c with ⟨hsame, -⟩ | ⟨b, -, hcore⟩
  · exact .of_sameCore hsame
  · exact (congrArg Core.dial hcore :)

variable [CryptoLib]

/-- Who votes goes on to `prevote`, with its timer. -/
theorem prevoteFor_watched [CidText] {ω : Env} (hω : VotesGoOut S M ω) (bc : Cid)
    (value : String) :
    Proc.Triple (At fun d _ => d.decided = false → d.pcOnce = false)
      (prevoteFor ω bc value : TimedEngine S M Unit) (fun _ => Watched) Watched := by
  refine .bind (triple_assign (B := fun d _ => d.decided = false → d.pcOnce = false)
    (h := fun d => { d with pvOnce := true }) (fun _ => rfl) fun _ _ h => h) fun _ => ?_
  refine .bind (triple_stopTimer (B := fun d _ => d.decided = false → d.pcOnce = false)
    fun _ _ _ h => h) fun _ => ?_
  refine .bind (triple_sendVote hω _ _) fun _ => ?_
  refine .bind (triple_restartTimer (B := fun d live =>
    (d.decided = false → d.pcOnce = false) ∧ live .prevote = true) ?_) fun _ => ?_
  · exact fun d live h => ⟨h, Function.update_self ..⟩
  · exact triple_assign (h := fun d => { d with step := .prevote }) (fun _ => rfl)
      fun d live h => .of_prevote rfl h.1 h.2

theorem onProposal_watched [Store S] [Validator S] [CidText] {ω : Env} (hω : VotesGoOut S M ω)
    (msg : Option ConsensusMsgProposal) (sender : String) :
    Proc.Triple Watched (onProposal ω msg sender : TimedEngine S M Unit) (fun _ => Watched)
      Watched := by
  refine triple_get fun t => .ite (fun _ => .pure fun _ hs => hs.2) fun hguard => ?_
  have hstep : t.engine.core.dial.step = .propose := not_not.mp (not_or.mp hguard).2
  cases msg with
  | none => exact .lift (by simp) fun _ hs => hs.2
  | some msg =>
    refine .bind (.promise (.orElse (triple_aside (validate_sameDial ω _)))
      (fun _ _ hs => hs) fun _ hs => hs.2) fun bc => .ite (fun _ => .pure fun _ hs => hs.2) ?_
    intro _
    refine .logged ((prevoteFor_watched hω bc _).weaken ?_)
    rintro s ⟨hd, hwatched⟩
    exact hwatched.unlocked (.inl (hd ▸ hstep))

/-- Who locks goes on to `precommit`, with its timer. -/
theorem precommitFor_watched {ω : Env} (hω : VotesGoOut S M ω) (value : String) :
    Proc.Triple (fun _ => True) (precommitFor ω value : TimedEngine S M Unit) (fun _ => Watched)
      Watched := by
  refine .bind (R := fun _ _ => True) (.modify fun _ _ => trivial) fun _ => ?_
  refine .bind (R := fun _ => At fun d _ => d.step = .precommit) (.modify fun _ _ => rfl)
    fun _ => .logged (.bind (triple_sendVote hω _ _) fun _ => triple_restartTimer ?_)
  exact fun d live hstep => .of_precommit hstep (Function.update_self ..)

omit [CryptoLib] in
theorem triple_restartIf_watched (b : Bool) (n : TimerName) (D : Dial) {E : Timed S M → Prop} :
    Proc.Triple (At fun d live => d = D ∧ d.Watched live)
      (restartIf b n : TimedEngine S M Unit) (fun _ => At fun d live => d = D ∧ d.Watched live)
      E := by
  refine triple_restartIf (fun _ _ _ h => h) ?_
  exact fun _ d live h => ⟨h.1, h.2.restarted n⟩

theorem onPreVote_watched [CidText] {ω : Env} (hω : VotesGoOut S M ω) (msg : Msg) :
    Proc.Triple Watched (onPreVote ω msg : TimedEngine S M Unit) (fun _ => Watched) Watched := by
  refine triple_get fun t => .ite (fun _ => .pure fun _ hs => hs.2) fun _ => ?_
  refine .bind (triple_restartIf_watched _ _ _) fun _ => ?_
  cases hbook : t.engine.propsalState.preVotes with
  | none => exact .lift (by simp) fun _ hs => hs.2
  | some book =>
    refine .bind (R := fun _ => Watched) (triple_assign (h := fun d => { d with opened := true })
      (fun _ => rfl) ?_) fun _ => .ite (fun _ => ?_) fun _ => .pure fun _ hs => hs
    · rintro d live ⟨rfl, hwatched⟩
      -- the round was open before
      have hopened : t.engine.core.dial.opened = true := congrArg Option.isSome hbook
      rw [← hopened]
      exact hwatched
    · exact (precommitFor_watched hω _).weaken fun _ _ => trivial

omit [CryptoLib] in
theorem blockFor_watched (amProposer : Bool) (voters : List String) :
    Proc.Triple (fun _ => True) (blockFor amProposer voters : TimedEngine S M Unit)
      (fun _ => Watched) Watched := by
  refine .bind (R := fun _ _ => True) (.modify fun _ _ => trivial) fun _ => ?_
  refine .bind (R := fun _ => At fun d _ => d.step = .block) (.modify fun _ _ => rfl)
    fun _ => triple_restartIf ?_ ?_
  · exact fun _ d live hstep => .of_block hstep
  · exact fun _ d live hstep => .of_block hstep

omit [CryptoLib] in
theorem onPreCommit_watched (msg : Msg) :
    Proc.Triple Watched (onPreCommit msg : TimedEngine S M Unit) (fun _ => Watched) Watched := by
  refine triple_get fun t => .ite (fun _ => .pure fun _ hs => hs.2) fun _ => ?_
  refine .bind (triple_restartIf_watched _ _ _) fun _ => ?_
  cases t.engine.propsalState.preCommits with
  | none => exact .lift (by simp) fun _ hs => hs.2
  | some book =>
    refine .bind (R := fun _ => Watched) (triple_assign (h := fun d => d) (fun _ => rfl)
      fun _ _ h => h.2) fun _ => .ite (fun _ => ?_) fun _ => .pure fun _ hs => hs
    exact (blockFor_watched _ _).weaken fun _ _ => trivial

theorem sendEvidence_sameDial (ω : Env) (vote : ConsensusMsgVote) :
    Proc.Within SameDial (Consensus.sendEvidence ω vote : Engine S M Unit) := by
  intro c
  obtain ⟨told, hcore, -⟩ := Consensus.sendEvidence_talk ω vote c
  exact (congrArg Core.dial hcore :)

theorem onVote_watched [CidText] {ω : Env} (hω : VotesGoOut S M ω) (msg : Msg) (sender : String) :
    Proc.Triple Watched (onVote ω msg sender : TimedEngine S M Unit) (fun _ => Watched)
      Watched := by
  refine triple_get fun t => ?_
  cases msg.consensus with
  | none => exact .lift (by simp) fun _ hs => hs.2
  | some consensus =>
    refine .ite (fun _ => .pure fun _ hs => hs.2) fun _ => ?_
    cases consensus.vote with
    | none => exact .lift (by simp) fun _ hs => hs.2
    | some vote =>
      refine .ite (fun _ => .pure fun _ hs => hs.2) fun _ => .bind (R := fun _ => Watched) ?_
        fun _ => .ite (fun _ => .logged (triple_aside (sendEvidence_sameDial ω vote)))
          fun _ => .pure fun _ hs => hs
      refine .weaken (R := Watched) ?_ fun _ hs => hs.2
      cases vote.type with
      | preVote => exact onPreVote_watched hω msg
      | preCommit => exact onPreCommit_watched msg
      | other n => exact .pure fun _ hs => hs

/-! ## The commit -/

omit [CryptoLib] in
theorem markAccepted_sameDial [Store S] (ω : Env) :
    Proc.Within SameDial (Consensus.markAccepted ω : Engine S M Unit) := by
  refine .bind .get fun c => ?_
  simp only
  split
  · exact .pure _
  · exact .bind (.modify fun _ => rfl) fun _ => .logged fun _ => rfl

omit [CryptoLib] in
/-- A commit leaves the step where it is, however far it comes. -/
theorem commit_block [Store S] (ω : Env) :
    Proc.Triple (At fun d _ => d.step = .block) (commit ω : TimedEngine S M Unit)
      (fun _ => At fun d _ => d.step = .block) (At fun d _ => d.step = .block) := by
  refine triple_get fun t => .weaken (R := At fun d _ => d.step = .block) ?_ fun _ hs => hs.2
  refine .bind (triple_aside (markAccepted_sameDial ω)) fun _ => ?_
  refine .bind (triple_stopTimer (B := fun d _ => d.step = .block) fun _ _ _ h => h) fun _ => ?_
  refine .bind (triple_aside (.logged fun _ => rfl)) fun _ => ?_
  refine triple_assign (h := fun d => { d with decided := true }) (fun c => ?_) fun _ _ h => h
  simp [advance, Core.dial, Consensus.core, State.noEvidence]

omit [CryptoLib] in
theorem onBlock_watched [Store S] [CidText] (ω : Env) (msg : Option ConsensusMsgBlock)
    (sender : String) :
    Proc.Triple Watched (onBlock ω msg sender : TimedEngine S M Unit) (fun _ => Watched)
      Watched := by
  refine triple_get fun t => .ite (fun _ => .pure fun _ hs => hs.2) fun hguard => ?_
  have hstep : t.engine.core.dial.step = .block := not_not.mp (not_or.mp hguard).2
  cases msg with
  | none => exact .lift (by simp) fun _ hs => hs.2
  | some msg =>
    refine .ite (fun _ => .pure fun _ hs => hs.2) fun _ => ?_
    refine .weaken (.promise (commit_block ω) ?_ ?_) fun _ hs => ?_
    · exact fun _ _ h => .of_block h
    · exact fun _ h => .of_block h
    · exact (congrArg Dial.step hs.1).trans hstep

theorem sendBlock_sameDial [Store S] [SigLib] [CidText] (ω : Env) :
    Proc.Within SameDial (Consensus.sendBlock ω : Engine S M ConsensusMsgBlock) := by
  refine .bind .get fun c => .bind (.lift _) fun votes => .bind (.lift _) fun _ =>
    .bind (.lift _) fun _ => .bind (fun c => ?_) fun _ => .pure _
  obtain ⟨sent, htold, -⟩ := Consensus.sendMsg_told ω _ c
  rw [htold]
  rfl

theorem onGracePeriod_watched [Store S] [SigLib] [CidText] (ω : Env) :
    Proc.Triple Watched (onGracePeriod ω : TimedEngine S M Unit) (fun _ => Watched) Watched := by
  refine triple_get fun t => .ite (fun _ => .pure fun _ hs => hs.2) fun _ => ?_
  refine .bind (R := fun _ => Watched) (triple_assign (h := fun d => d) (fun _ => rfl)
    fun _ _ h => h.2) fun _ => .logged ?_
  exact .bind (triple_aside (sendBlock_sameDial ω)) fun msg => onBlock_watched ω (some msg) _

/-! ## Timeouts -/

/-- The invariant when the tick of this timer has just been received. -/
abbrev Ticked (n : TimerName) (t : Timed S M) : Prop :=
  At (fun d live => d.Watched (Function.update live n true)) t

omit [CryptoLib] in
/-- What the guard of a timeout lets through: its own step, unless the round is over. -/
theorem step_of_passed {t : Timed S M} {step : Step}
    (h : ¬ (t.engine.propsalState.height ≠ t.engine.state.height ∧
      t.engine.propsalState.step ≠ step)) (hdec : t.engine.core.dial.decided = false) :
    t.engine.core.dial.step = step :=
  not_not.mp (not_and.mp h (of_decide_eq_false hdec))

theorem onTimeoutProposal_watched {ω : Env} (hω : VotesGoOut S M ω) :
    Proc.Triple (Ticked .propose) (onTimeoutProposal ω : TimedEngine S M Unit) (fun _ => Watched)
      Watched := by
  refine triple_get fun t => .ite (fun hguard => .pure ?_) fun hguard => ?_
  · rintro s ⟨hd, hwatched⟩
    exact .of_update .propose (fun hstep => hguard.2 ((congrArg Dial.step hd).symm.trans hstep))
      hwatched
  refine .bind (triple_assign (h := fun d => { d with step := .prevote }) (fun _ => rfl)
    (B := fun d _ => d.step = .prevote ∧ d.pvOnce = t.engine.propsalState.pvOnce ∧
      (d.decided = false → d.pcOnce = false ∧ d.pvOnce = false)) ?_) fun _ => .ite ?_ ?_
  · rintro d live ⟨rfl, hwatched⟩
    refine ⟨rfl, rfl, fun hdec => ?_⟩
    have hstep := step_of_passed hguard hdec
    exact ⟨hwatched.unlocked (.inl hstep) hdec, hwatched.unvoted hstep⟩
  · intro hvoted
    refine .pure ?_
    rintro s ⟨hstep, hpv, hfresh⟩
    refine .of_decided (Bool.eq_true_of_not_eq_false fun hdec => ?_) (by simp [hstep])
    rw [(hfresh hdec).2] at hpv
    exact Bool.false_ne_true (hpv.trans hvoted)
  · intro _
    refine .bind (triple_assign (h := fun d => { d with pvOnce := true }) (fun _ => rfl)
      (B := fun d _ => d.step = .prevote ∧ (d.decided = false → d.pcOnce = false))
      fun d live h => ⟨h.1, fun hdec => (h.2.2 hdec).1⟩) fun _ => ?_
    refine .bind (triple_logged_sendVote hω _ _) fun _ => triple_restartTimer ?_
    exact fun d live h => .of_prevote h.1 h.2 (Function.update_self ..)

theorem onTimeoutPrevote_watched {ω : Env} (hω : VotesGoOut S M ω) :
    Proc.Triple (Ticked .prevote) (onTimeoutPrevote ω : TimedEngine S M Unit) (fun _ => Watched)
      Watched := by
  refine triple_get fun t => .ite (fun hguard => .pure ?_) fun hguard => ?_
  · rintro s ⟨hd, hwatched⟩
    exact .of_update .prevote (fun hstep => hguard.2 ((congrArg Dial.step hd).symm.trans hstep))
      hwatched
  refine .bind (triple_assign (h := fun d => { d with step := .precommit }) (fun _ => rfl)
    (B := fun d _ => d.step = .precommit ∧ d.pcOnce = t.engine.propsalState.pcOnce ∧
      (d.decided = false → d.pcOnce = false)) ?_) fun _ => .ite ?_ ?_
  · rintro d live ⟨rfl, hwatched⟩
    refine ⟨rfl, rfl, fun hdec => ?_⟩
    exact hwatched.unlocked (.inr (step_of_passed hguard hdec)) hdec
  · intro hlocked
    refine .pure ?_
    rintro s ⟨hstep, hpc, hfresh⟩
    refine .of_decided (Bool.eq_true_of_not_eq_false fun hdec => ?_) (by simp [hstep])
    rw [hfresh hdec] at hpc
    exact Bool.false_ne_true (hpc.trans hlocked)
  · intro _
    refine .bind (triple_assign (h := fun d => { d with pcOnce := true }) (fun _ => rfl)
      (B := fun d _ => d.step = .precommit) fun d live h => h.1) fun _ => ?_
    refine .bind (triple_logged_sendVote hω _ _) fun _ => triple_restartTimer ?_
    exact fun d live hstep => .of_precommit hstep (Function.update_self ..)

omit [CryptoLib] in
theorem onTimeoutBlock_watched :
    Proc.Triple (Ticked .block) (onEngine Consensus.onTimeoutBlock : TimedEngine S M Unit)
      (fun _ => Watched) Watched := by
  refine .pure fun s hwatched => ?_
  by_cases hstep : s.engine.core.dial.step = .block
  · exact .of_block hstep
  · exact .of_update .block hstep hwatched

omit [CryptoLib] in
theorem Watched.ticked {t : Timed S M} (h : t.Watched) (n : TimerName) : Ticked n t :=
  Dial.Watched.restarted h n

section

variable [Store S] [Validator S] [MemPool M] [CidText] [SigLib]

/-- **A tick** that has been received may be handled. -/
theorem tick_watched {ω : Env} (hω : VotesGoOut S M ω) (n : TimerName) :
    Proc.Triple (Ticked n) (exec ω (TimerName.call n) : TimedEngine S M Unit) (fun _ => Watched)
      Watched := by
  cases n with
  | propose => exact onTimeoutProposal_watched hω
  | prevote => exact onTimeoutPrevote_watched hω
  | precommit => exact (startRound_watched ω true).weaken fun _ _ => trivial
  | block => exact onTimeoutBlock_watched

/-- **Every handler** keeps the invariant, timeouts that nobody asked for included. -/
theorem exec_watched {ω : Env} (hω : VotesGoOut S M ω) (k : Call) :
    Proc.Triple Watched (exec ω k : TimedEngine S M Unit) (fun _ => Watched) Watched := by
  cases k with
  | beacon b => exact onBeacon_watched ω b
  | newRound msg sender => exact onNewRound_watched msg sender
  | proposal msg sender => exact onProposal_watched hω msg sender
  | vote msg sender => exact onVote_watched hω msg sender
  | block msg sender => exact onBlock_watched ω msg sender
  | evidence msg sender =>
    exact triple_aside fun c => .of_sameCore (Consensus.onEvidence_sameCore msg sender c)
  | tx msg => exact triple_aside fun c => .of_sameCore (Consensus.onTx_sameCore msg c)
  | gracePeriod => exact onGracePeriod_watched ω
  | timeoutProposal => exact (tick_watched hω .propose).weaken fun _ h => h.ticked _
  | timeoutPrevote => exact (tick_watched hω .prevote).weaken fun _ h => h.ticked _
  | timeoutPrecommit => exact (tick_watched hω .precommit).weaken fun _ h => h.ticked _
  | timeoutBlock => exact (tick_watched hω .block).weaken fun _ h => h.ticked _

end
end Handlers

/-! ## Runs -/

section Runs

theorem run_at {p : TimedEngine S M Unit} {P : Timed S M → Prop}
    {A : Dial → (TimerName → Bool) → Prop} (h : Proc.Triple P p (fun _ => At A) (At A))
    {t : Timed S M} (ht : P t) : At A (t.run p) := by
  have hend := h.snd ht
  rw [run]
  generalize Proc.run p t = r at hend
  obtain ⟨outcome, t'⟩ := r
  cases outcome <;> exact hend

/-- Time alone stops no timer. -/
theorem live_setTimer_of_live_eq {n : TimerName} {g : Timer → Timer} {t : Timed S M}
    (hg : (g (t.timers n)).live = (t.timers n).live) : (t.setTimer n g).live = t.live := by
  rw [live_setTimer, hg]
  exact Function.update_eq_self n t.live

/-- Nor does receiving its tick. -/
theorem live_take {n : TimerName} {t : Timed S M} (htaken : t.taken = none)
    (hready : (t.timers n).ready = true) :
    live { t.setTimer n Timer.drain with taken := some n } = t.live := by
  funext m
  by_cases hmn : m = n
  · simp [live, Timer.live, hmn, hready]
  · simp [live, setTimer, Function.update_of_ne hmn, htaken, Ne.symm hmn]

theorem boot_watched {c : Consensus S M} (hc : c.propsalState = {}) : (boot c).Watched := by
  constructor <;> simp [boot, Core.dial, Consensus.core, State.noEvidence, hc]

variable [Store S] [Validator S] [MemPool M] [CryptoLib] [CidText] [SigLib]

/-- **One step** keeps the invariant. -/
theorem step_watched {t : Timed S M} {e : Env × Event S} (hω : VotesGoOut S M e.1)
    (ht : t.Watched) : (t.step e).Watched := by
  obtain ⟨ω, e⟩ := e
  unfold step
  split
  · exact ht
  cases e with
  | input i =>
    cases i with
    | call k => exact run_at (exec_watched hω k) ht
    | recv msg =>
      simp only
      cases t.engine.onMsg msg with
      | panic => exact ht
      | err e => exact ht
      | ok k =>
        cases k with
        | none => exact ht
        | some k => exact run_at (exec_watched hω k) ht
    | store s => exact ht
  | expire n =>
    show Dial.Watched _ _
    rw [live_setTimer_of_live_eq (Timer.live_expire _)]
    exact ht
  | fire n =>
    show Dial.Watched _ _
    rw [live_setTimer_of_live_eq (Timer.live_fire _)]
    exact ht
  | take n =>
    simp only
    split
    · next hready =>
      show Dial.Watched _ _
      rw [live_take hready.1 hready.2]
      exact ht
    · exact ht
  | handle =>
    simp only
    cases htaken : t.taken with
    | none => exact ht
    | some n =>
      refine run_at (tick_watched hω n) ?_
      refine Dial.Watched.mono ht fun m hm => ?_
      by_cases hmn : m = n
      · rw [hmn, Function.update_self]
      · rw [Function.update_of_ne hmn]
        simpa [live, htaken, Ne.symm hmn] using hm

theorem foldl_watched {t : Timed S M} (ht : t.Watched) {es : List (Env × Event S)}
    (hes : ∀ e ∈ es, VotesGoOut S M e.1) : (es.foldl step t).Watched := by
  induction es generalizing t with
  | nil => exact ht
  | cons e es ih =>
    obtain ⟨he, hes⟩ := List.forall_mem_cons.mp hes
    exact ih (step_watched he ht) hes

/-- **A round that is not over has a timer running.** From its start, whatever a node receives and
whenever its ticks are handled, as long as its votes can be sent: in a round that is open, not
decided and not waiting for its block, the timer of the step is live. Otherwise the node is the
proposer and in step propose, or it is not, and has not voted. -/
theorem round_has_timer (c : Consensus S M) (hc : c.propsalState = {})
    (es : List (Env × Event S)) (hes : ∀ e ∈ es, VotesGoOut S M e.1) (t : Timed S M)
    (ht : es.foldl step (boot c) = t) (hopen : t.engine.propsalState.preVotes.isSome = true)
    (hundecided : t.engine.propsalState.height ≠ t.engine.state.height)
    (hblock : t.engine.propsalState.step ≠ .block) :
    t.live t.engine.propsalState.step.timer = true ∨
      (t.engine.propsalState.step = .propose ∧ t.engine.propsalState.amProposer = true) ∨
      (t.engine.propsalState.step = .prevote ∧ t.engine.propsalState.amProposer = false ∧
        t.engine.propsalState.pvOnce = false) := by
  have hwatched : t.Watched := ht ▸ foldl_watched (boot_watched hc) hes
  have hdec : t.engine.core.dial.decided = false := decide_eq_false hundecided
  cases hstep : t.engine.propsalState.step with
  | propose =>
    cases ham : t.engine.propsalState.amProposer with
    | false => exact .inl (hwatched.propose hopen hstep ham)
    | true => exact .inr (.inl ⟨rfl, rfl⟩)
  | prevote =>
    rcases hwatched.prevote hdec hstep with hlive | ⟨hpv, ham⟩
    · exact .inl hlive
    · exact .inr (.inr ⟨rfl, ham, hpv⟩)
  | precommit => exact .inl (hwatched.precommit hdec hstep)
  | block => exact absurd hstep hblock

end Runs

section Witness

open Sample Storage.Sample

theorem env_votesGoOut : VotesGoOut MemStore TxMemPool env := by
  intro t value c
  cases hkey : c.signingKey <;>
    simp [Consensus.sendVote, Consensus.sendMsg, hkey, signatureData, CryptoLib.marshalMsg,
      CryptoLib.sign, Outcome.mapErr, env]

/-- The timer runs out, and `watchTimeouts` receives its tick. -/
def runsOut (n : TimerName) : List (Env × Event MemStore) :=
  [(env, .expire n), (env, .fire n), (env, .take n)]

/-- The node `a` is proposed a block and votes for it. Nothing follows, and both timers run out. -/
def lonelyRun : List (Env × Event MemStore) :=
  [call beacon, content, recv (proposal "p" 1 1 block.string)].map (fun i => (i.1, .input i.2)) ++
    runsOut .prevote ++ [(env, .handle)] ++ runsOut .precommit

def lonely : Timed MemStore TxMemPool := lonelyRun.foldl step (boot (node "a"))

/-- It waits for precommits, and its timer for them is live. -/
theorem lonely_has_timer :
    lonely.live lonely.engine.propsalState.step.timer = true ∨
      (lonely.engine.propsalState.step = .propose ∧
        lonely.engine.propsalState.amProposer = true) ∨
      (lonely.engine.propsalState.step = .prevote ∧
        lonely.engine.propsalState.amProposer = false ∧
        lonely.engine.propsalState.pvOnce = false) := by
  refine round_has_timer (node "a") rfl lonelyRun ?_ lonely rfl ?_ ?_ ?_
  · intro e he
    have henv : ∀ e ∈ lonelyRun, e.1 = env := by
      simp [lonelyRun, runsOut, call, recv, content]
    exact henv e he ▸ env_votesGoOut
  · decide +kernel
  · decide +kernel
  · decide +kernel

end Witness

/-! ## The node that goes quiet -/

section Quiet

variable [Store S] [Validator S] [MemPool M] [CryptoLib] [CidText] [SigLib]

/-- Time passes, or `watchTimeouts` runs. -/
def Event.isTimer : Event S → Bool
  | .input _ => false
  | .expire _ | .fire _ | .take _ | .handle => true

/-- In `prevote`, in a round that is not over, with no timer but those nobody listens to there. -/
structure Quiet (t : Timed S M) : Prop where
  step : t.engine.propsalState.step = .prevote
  undecided : t.engine.propsalState.height ≠ t.engine.state.height
  prevote : t.live .prevote = false
  precommit : t.live .precommit = false

/-- A tick of the other timers changes nothing. -/
theorem Quiet.step_eq {t : Timed S M} (h : t.Quiet) {e : Env × Event S}
    (he : e.2.isTimer = true) : (t.step e).Quiet ∧ (t.step e).engine = t.engine := by
  have keep : ∀ t' : Timed S M, t'.engine = t.engine → t'.live = t.live →
      t'.Quiet ∧ t'.engine = t.engine := fun t' hengine hlive =>
    ⟨⟨hengine ▸ h.step, hengine ▸ h.undecided, hlive ▸ h.prevote, hlive ▸ h.precommit⟩, hengine⟩
  obtain ⟨ω, e⟩ := e
  unfold Timed.step
  split
  · exact keep t rfl rfl
  cases e with
  | input i => exact absurd he (by simp [Event.isTimer])
  | expire n => exact keep _ rfl (live_setTimer_of_live_eq (Timer.live_expire _))
  | fire n => exact keep _ rfl (live_setTimer_of_live_eq (Timer.live_fire _))
  | take n =>
    simp only
    split
    · next hready => exact keep _ rfl (live_take hready.1 hready.2)
    · exact keep t rfl rfl
  | handle =>
    cases htaken : t.taken with
    | none => exact keep t rfl rfl
    | some n =>
      have hprevote := h.prevote
      have hprecommit := h.precommit
      simp only [live, htaken, Bool.or_eq_false_iff] at hprevote hprecommit
      have hquiet : Quiet { t with taken := none } :=
        ⟨h.step, h.undecided, by simp [live, hprevote.1], by simp [live, hprecommit.1]⟩
      show Quiet (run (exec ω (TimerName.call n)) _) ∧ (run (exec ω (TimerName.call n)) _).engine = _
      cases n with
      | propose =>
        -- the guard of the handler asks for the step before
        have hrun : run (exec ω (TimerName.call .propose)) { t with taken := none } =
            { t with taken := none } := by
          simp [run, TimerName.call, exec, onTimeoutProposal, h.step, h.undecided]
        rw [hrun]
        exact ⟨hquiet, rfl⟩
      | prevote => simp at hprevote
      | precommit => simp at hprecommit
      | block => exact ⟨hquiet, rfl⟩

theorem Quiet.foldl_eq {t : Timed S M} (h : t.Quiet) {es : List (Env × Event S)}
    (hes : ∀ e ∈ es, e.2.isTimer = true) : (es.foldl Timed.step t).engine = t.engine := by
  induction es generalizing t with
  | nil => rfl
  | cons e es ih =>
    obtain ⟨he, hes⟩ := List.forall_mem_cons.mp hes
    obtain ⟨hquiet, hengine⟩ := h.step_eq he
    rw [List.foldl_cons, ih hquiet hes, hengine]

/-- A follower that handles a tick of its precommit timer opens the round again, and starts the
propose timer. -/
theorem handle_precommit {t : Timed S M} (hcrashed : t.engine.crashed = false)
    (htaken : t.taken = some .precommit) (hproposer : t.engine.state.proposer ≠ t.engine.id)
    (ω : Env) :
    ∃ timer : Timer, t.step (ω, .handle) =
      { engine := t.engine.openRound true, timers := Function.update t.timers .propose timer } := by
  have ham : (t.engine.openRound true).propsalState.amProposer = false := by
    simp [Consensus.openRound, hproposer]
  obtain ⟨timer, hrestart⟩ := run_restartTimer .propose
    ({ engine := t.engine.openRound true, timers := t.timers } : Timed S M)
  refine ⟨timer, ?_⟩
  simp [step, hcrashed, htaken, run, TimerName.call, exec, onTimeoutPrecommit, startRound,
    run_onEngine_modify, ham, hrestart]

/-- With time, `watchTimeouts` handles the tick of a live timer. -/
theorem exists_handled {t : Timed S M} (hcrashed : t.engine.crashed = false)
    (htaken : t.taken = none) {n : TimerName} (hlive : (t.timers n).live = true) (ω : Env) :
    ∃ (es : List (Env × Event S)) (t' : Timed S M), (∀ e ∈ es, e.2.isTimer = true) ∧
      t'.engine = t.engine ∧ t'.taken = some n ∧ es.foldl step t = t'.step (ω, .handle) := by
  have hready : (t.timers n).expire.fire.ready = true := (Timer.ready_fire_expire _).trans hlive
  refine ⟨[(ω, .expire n), (ω, .fire n), (ω, .take n), (ω, .handle)], _, by simp [Event.isTimer],
    ?_, ?_, rfl⟩
  · simp [step, hcrashed, htaken, setTimer, hready]
  · simp [step, hcrashed, htaken, setTimer, hready]

omit [Store S] [Validator S] [MemPool M] [CidText] [SigLib] in
/-- A prevote timeout in its step goes on to `precommit`, whatever becomes of the vote. -/
theorem onTimeoutPrevote_step (ω : Env) :
    Proc.Triple (At fun d _ => d.step = .prevote) (onTimeoutPrevote ω : TimedEngine S M Unit)
      (fun _ => At fun d _ => d.step = .precommit) (At fun d _ => d.step = .precommit) := by
  refine triple_get fun t => .ite (fun hguard => .pure ?_) fun _ => ?_
  · rintro s ⟨hd, hstep⟩
    exact absurd ((congrArg Dial.step hd).symm.trans hstep) hguard.2
  refine .bind (triple_assign (B := fun d _ => d.step = .precommit)
    (h := fun d => { d with step := .precommit }) (fun _ => rfl) fun _ _ _ => rfl) fun _ => ?_
  refine .ite (fun _ => .pure fun _ hs => hs) fun _ => ?_
  refine .bind (triple_assign (B := fun d _ => d.step = .precommit)
    (h := fun d => { d with pcOnce := true }) (fun _ => rfl) fun _ _ hs => hs) fun _ => ?_
  refine .bind (triple_aside (.logged (sendVote_sameDial ω _ _))) fun _ => ?_
  exact triple_restartTimer fun _ _ hs => hs

/-- **In `prevote`, timers alone leave a follower where it is exactly when neither its prevote timer
nor its precommit timer is live.** -/
theorem quiet_iff {t : Timed S M} (hcrashed : t.engine.crashed = false) (htaken : t.taken = none)
    (hproposer : t.engine.state.proposer ≠ t.engine.id)
    (hstep : t.engine.propsalState.step = .prevote)
    (hundecided : t.engine.propsalState.height ≠ t.engine.state.height) (ω : Env) :
    (∀ es : List (Env × Event S), (∀ e ∈ es, e.2.isTimer = true) →
        (es.foldl step t).engine = t.engine) ↔
      (t.timers .prevote).live = false ∧ (t.timers .precommit).live = false := by
  constructor
  · intro hquiet
    -- a tick of either timer would change the engine
    refine ⟨Bool.eq_false_of_not_eq_true fun hlive => ?_,
      Bool.eq_false_of_not_eq_true fun hlive => ?_⟩
    · obtain ⟨es, t', hes, hengine, htaken', hend⟩ := exists_handled hcrashed htaken hlive ω
      have hsame := hquiet es hes
      have hrun : t'.step (ω, .handle) = run (onTimeoutPrevote ω) { t' with taken := none } := by
        simp [step, hengine, htaken', hcrashed]
        rfl
      have hbefore : At (fun d _ => d.step = .prevote) { t' with taken := none } := by
        rw [At, hengine]
        exact hstep
      have hmoved := run_at (onTimeoutPrevote_step ω) hbefore
      rw [← hrun, ← hend, At, hsame] at hmoved
      exact absurd (hstep.symm.trans hmoved) (by simp)
    · obtain ⟨es, t', hes, hengine, htaken', hend⟩ := exists_handled hcrashed htaken hlive ω
      have hsame := hquiet es hes
      obtain ⟨timer, hagain⟩ := handle_precommit (hengine ▸ hcrashed) htaken'
        (hengine ▸ hproposer) ω
      rw [hend, hagain, hengine] at hsame
      exact absurd (congrArg (fun c => c.trace) hsame) (by simp [Consensus.openRound])
  · rintro ⟨hprevote, hprecommit⟩ es hes
    exact Quiet.foldl_eq ⟨hstep, hundecided, by simp [live, hprevote, htaken],
      by simp [live, hprecommit, htaken]⟩ hes

/-- **A follower that starts its round again holding a block goes quiet.** It is in `prevote`
without having voted, and no number of ticks gets it out, exactly when neither its prevote timer nor
its precommit timer is live from before. A message or a beacon gets it out. -/
theorem follower_goes_quiet (t : Timed S M) (hcrashed : t.engine.crashed = false)
    (htaken : t.taken = some .precommit) (hproposer : t.engine.state.proposer ≠ t.engine.id)
    (hblock : t.engine.propsalState.block ≠ .undef) (ω : Env) :
    (t.step (ω, .handle)).engine = t.engine.openRound true ∧
      (t.step (ω, .handle)).engine.propsalState.step = .prevote ∧
      (t.step (ω, .handle)).engine.propsalState.pvOnce = false ∧
      ((∀ es : List (Env × Event S), (∀ e ∈ es, e.2.isTimer = true) →
          (es.foldl step (t.step (ω, .handle))).engine = (t.step (ω, .handle)).engine) ↔
        (t.timers .prevote).live = false ∧ (t.timers .precommit).live = false) := by
  obtain ⟨timer, hhandle⟩ := handle_precommit hcrashed htaken hproposer ω
  have hstep : (t.engine.openRound true).propsalState.step = .prevote := by
    simp [Consensus.openRound, hblock]
  have hundecided : (t.engine.openRound true).propsalState.height ≠
      (t.engine.openRound true).state.height := by
    simp [Consensus.openRound]
  rw [hhandle]
  refine ⟨rfl, hstep, rfl, ?_⟩
  rw [quiet_iff (t := ⟨t.engine.openRound true, _, none⟩) hcrashed rfl hproposer hstep hundecided ω]
  simp

end Quiet

section Witness

open Sample

/-- The node of `lonely_has_timer` handles the tick, and then any number of ticks of its propose
timer. -/
theorem lonely_goes_quiet :
    (lonely.step (env, .handle)).engine.propsalState.step = .prevote ∧
      (lonely.step (env, .handle)).engine.propsalState.pvOnce = false ∧
      ∀ es : List (Env × Event MemStore), (∀ e ∈ es, e.2.isTimer = true) →
        (es.foldl step (lonely.step (env, .handle))).engine =
          (lonely.step (env, .handle)).engine := by
  obtain ⟨-, hstep, hpv, hquiet⟩ := follower_goes_quiet lonely (by decide +kernel)
    (by decide +kernel) (by decide +kernel) (by decide +kernel) env
  exact ⟨hstep, hpv, hquiet.mpr ⟨by decide +kernel, by decide +kernel⟩⟩

/-- A second beacon comes between the two timeouts of the follower, and a second proposal: its
prevote timer is running when the old precommit tick is handled. -/
def hurriedRun : List (Env × Event MemStore) :=
  lonelyRun ++ [call beacon, recv (proposal "p" 1 1 block.string)].map (fun i => (i.1, .input i.2))

/-- So it does not go quiet: its prevote timer takes it to `precommit`. -/
example :
    let t := (hurriedRun.foldl step (boot (node "a"))).step (env, .handle)
    t.engine.propsalState.step = .prevote ∧
      ((runsOut .prevote ++ [(env, Event.handle)]).foldl step t).engine.propsalState.step =
        .precommit := by
  decide +kernel

end Witness
end Timed
end Didem
