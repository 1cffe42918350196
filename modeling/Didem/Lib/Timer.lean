import Mathlib.Logic.Basic

/-!
# Timers with a channel

A timer as the standard library has it: it runs, it expires, and some time after that its tick is in
a channel with room for one. `stop` answers whether it was still running. A timer that has expired
cannot be stopped any more, and its tick may not be in the channel yet, so it can come out **after**
a stop; `firing` is that time between. A timer may be running again while an old tick is still on
its way.

`live` is what a program that waits for the tick relies on: it runs, or its tick is on the way or
there.
-/

set_option autoImplicit false

namespace Didem.Lib

structure Timer where
  running : Bool := false
  /-- It has expired, and the tick is not in the channel yet. -/
  firing : Bool := false
  /-- The tick is in the channel. -/
  ready : Bool := false
  deriving DecidableEq, Repr

namespace Timer

/-- `Timer.Stop`. -/
def stop (t : Timer) : Bool × Timer := (t.running, { t with running := false })

/-- A receive that does not wait. -/
def drain (t : Timer) : Timer := { t with ready := false }

/-- `Timer.Reset`. -/
def reset (t : Timer) : Timer := { t with running := true }

/-- Time passes. -/
def expire (t : Timer) : Timer :=
  if t.running then { t with running := false, firing := true } else t

/-- The tick goes into the channel, or nowhere if one is there. -/
def fire (t : Timer) : Timer := if t.firing then { t with firing := false, ready := true } else t

/-- A tick will come out of the channel, unless somebody stops it. -/
def live (t : Timer) : Bool := t.running || t.firing || t.ready

@[simp] theorem live_reset (t : Timer) : t.reset.live = true := by simp [live, reset]

@[simp] theorem live_expire (t : Timer) : t.expire.live = t.live := by
  obtain ⟨running, firing, ready⟩ := t
  cases running <;> simp [expire, live]

@[simp] theorem live_fire (t : Timer) : t.fire.live = t.live := by
  obtain ⟨running, firing, ready⟩ := t
  cases firing <;> simp [fire, live]

/-- With time, what is live has its tick in the channel. -/
theorem ready_fire_expire (t : Timer) : t.expire.fire.ready = t.live := by
  obtain ⟨running, firing, ready⟩ := t
  cases running <;> cases firing <;> simp [expire, fire, live]

end Timer
end Didem.Lib
