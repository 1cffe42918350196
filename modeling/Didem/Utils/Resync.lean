import Didem.Lib.Linear

/-!
# A `Once` that can be reset

`internal/utils/resync`, line by line. The engine guards each of its votes with a `Once`
(`pvOnce`, `pcOnce`, `sbOnce`) and resets all three at the start of a round; handlers run on the
goroutine that reads messages, on the one that watches the timers and on the one that follows the
beacon, so calls of `Do` and `Reset` meet.

A goroutine works through a program of calls. Its `Place` is the line it is about to execute, and
each line is one atomic step: the first look at `done` is outside the lock, everything else inside.
A function handed to `Do` is known by its name, and `run` says what it does to the rest of the
world. The two deferred calls of `Do` are its last two lines.

`log` is not in the source. It is written at the line where a call takes effect and never read.
-/

set_option autoImplicit false

namespace Didem.Resync

open Lib

/-- A call on a `Once`. -/
inductive Op (α : Type*) where
  /-- `Do(f)`. -/
  | once (f : α)
  | reset
  deriving DecidableEq, Repr

/-- The line a goroutine is about to execute. -/
inductive Place (α : Type*) where
  /-- Between two calls. -/
  | idle
  /-- `Do`: the first look at `done`, which is not under the lock. -/
  | load (f : α)
  | lock (f : α)
  /-- The second look. -/
  | check (f : α)
  | body (f : α)
  /-- The deferred store, after the body. -/
  | store
  /-- The deferred unlock, of `Do` and of `Reset`. -/
  | unlock
  /-- `Reset`. -/
  | resetLock
  | resetStore
  deriving DecidableEq, Repr

/-- The call a goroutine is in the middle of, as long as it has not taken effect. -/
def Place.owed {α : Type*} : Place α → List (Op α)
  | .load f | .lock f | .check f | .body f => [.once f]
  | .resetLock | .resetStore => [.reset]
  | .idle | .store | .unlock => []

/-- The goroutine has the lock. -/
def Place.inside {α : Type*} : Place α → Bool
  | .check _ | .body _ | .store | .unlock | .resetStore => true
  | .idle | .load _ | .lock _ | .resetLock => false

structure Goroutine (ι α : Type*) where
  id : ι
  place : Place α := .idle
  /-- The calls it has yet to begin. -/
  todo : List (Op α)
  deriving DecidableEq, Repr

namespace Goroutine

variable {ι α : Type*}

def moved (g : Goroutine ι α) (place : Place α) : Goroutine ι α := { g with place := place }

/-- The calls that have not taken effect. -/
def owed (g : Goroutine ι α) : List (Op α) := g.place.owed ++ g.todo

end Goroutine

/-- `Once`, and the world its functions work on. -/
structure Once (ι α σ : Type*) where
  m : Bool := false
  done : Bool := false
  world : σ
  log : List (ι × Op α) := []
  deriving DecidableEq, Repr

namespace Once

variable {ι α σ : Type*}

def note (s : Once ι α σ) (g : Goroutine ι α) (op : Op α) : Once ι α σ :=
  { s with log := s.log ++ [(g.id, op)] }

/-- The next line of a goroutine. One that waits for the lock has none. -/
def next (run : α → σ → σ) (s : Once ι α σ) (g : Goroutine ι α) :
    List (Once ι α σ × Goroutine ι α) :=
  match g.place with
  | .idle =>
    match g.todo with
    | [] => []
    | .once f :: todo => [(s, { g with place := .load f, todo := todo })]
    | .reset :: todo => [(s, { g with place := .resetLock, todo := todo })]
  | .load f => if s.done then [(s.note g (.once f), g.moved .idle)] else [(s, g.moved (.lock f))]
  | .lock f => if s.m then [] else [({ s with m := true }, g.moved (.check f))]
  | .check f => if s.done then [(s.note g (.once f), g.moved .unlock)] else [(s, g.moved (.body f))]
  | .body f => [({ s with world := run f s.world }.note g (.once f), g.moved .store)]
  | .store => [({ s with done := true }, g.moved .unlock)]
  | .unlock => [({ s with m := false }, g.moved .idle)]
  | .resetLock => if s.m then [] else [({ s with m := true }, g.moved .resetStore)]
  | .resetStore => [({ s with done := false }.note g .reset, g.moved .unlock)]

/-- A `Once` nobody has used, and goroutines with their programs. -/
def start (world : σ) (program : ι → List (Op α)) (ids : List ι) :
    Conf (Once ι α σ) (Goroutine ι α) where
  shared := { world := world }
  threads := ids.map fun i => { id := i, todo := program i }

end Once

/-! ## What it is for -/

/-- A call as one step, on a bit and the world: this is how the engine's handlers use their
`Once`s. -/
def Op.apply {α σ : Type*} (run : α → σ → σ) : Bool × σ → Op α → Bool × σ
  | s, .once f => if s.1 then s else (true, run f s.2)
  | s, .reset => (false, s.2)

/-- Calls one after another. -/
def Op.applyAll {α σ : Type*} (run : α → σ → σ) (ops : List (Op α)) (w : σ) : Bool × σ :=
  ops.foldl (Op.apply run) (false, w)

end Didem.Resync
