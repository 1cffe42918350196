import Mathlib.Algebra.Order.Ring.Nat
import Didem.Lib.Bufio
import Didem.Lib.Outcome
import Didem.Storage.Cid

/-!
# Framed messages on a stream

`internal/stream/stream.go`: a message goes out as its length, in four bytes, and its data. The
reader makes **one read for the length and one for the data**, and takes what each returns for all
there is. Both go through one `bytes.Buffer` that is reused from call to call, so where a read is
short the bytes after it are those of an earlier one.

An allocation never fails here, and the writer's end is reliable: what is written is the wire. What
a call returns is its value at that moment; the next call overwrites it.
-/

set_option autoImplicit false

namespace Didem.Stream

open Lib Storage

/-- `binary.LittleEndian.PutUint32` of `uint32(n)`. -/
def putUint32 (n : Nat) : Bytes :=
  [UInt8.ofNat n, UInt8.ofNat (n / 2 ^ 8), UInt8.ofNat (n / 2 ^ 16), UInt8.ofNat (n / 2 ^ 24)]

/-- `binary.LittleEndian.Uint32` of the first four bytes. -/
def uint32 (b : Bytes) : Nat :=
  (b.getD 0 0).toNat + (b.getD 1 0).toNat * 2 ^ 8 + (b.getD 2 0).toNat * 2 ^ 16 +
    (b.getD 3 0).toNat * 2 ^ 24

/-- How much a `bytes.Buffer` of one capacity allocates when asked for more; it is the runtime's
choice, as long as it is enough. -/
abbrev Alloc := Nat → Nat → Nat

/-- The memory of a `bytes.Buffer`, as long as its capacity, after `Reset` and `Grow(n)`: it is kept
where it is large enough, and otherwise new. -/
def grow (alloc : Alloc) (n : Nat) (buf : Bytes) : Bytes :=
  if n ≤ buf.length then buf else List.replicate (max n (alloc buf.length n)) 0

/-- The first bytes of a memory are overwritten. -/
def overwrite (d buf : Bytes) : Bytes := d ++ buf.drop d.length

/-- The size `bufio.NewReader` gives its buffer. -/
def bufioSize : Nat := 4096

/-- The reading side of an `RW`. -/
structure RW where
  rd : Reader
  buf : Bytes

namespace RW

/-- `NewRW`, on a stream that carries these bytes in these chunks. -/
def new (wire : Bytes) (chunks : Nat → Nat) : RW := ⟨⟨[], ⟨wire, chunks⟩⟩, []⟩

/-- `Write`, by what it puts on the wire. -/
def write (b : Bytes) : Bytes := putUint32 b.length ++ b

/-- The other side of `Write`: the length of the frame has gone through the buffer. -/
def wrote (alloc : Alloc) (frame : Bytes) (c : RW) : RW :=
  { c with buf := overwrite (frame.take 4) (grow alloc 4 c.buf) }

/-- `c.rw.Read(c.buf.Bytes()[:n])`, after the buffer has grown. -/
def fill (alloc : Alloc) (n : Nat) (c : RW) : Outcome Err Bytes × RW :=
  let buf := grow alloc n c.buf
  match c.rd.read bufioSize n with
  | (none, rd) => (.err (.new "EOF"), ⟨rd, buf⟩)
  | (some d, rd) => (.ok d, ⟨rd, overwrite d buf⟩)

/-- `Read`. -/
def read (alloc : Alloc) (c : RW) : Outcome Err Bytes × RW :=
  match c.fill alloc 4 with
  | (.ok _, c) => c.fill alloc (uint32 c.buf)
  | r => r

/-- A number of calls of `Read`, and what they return. -/
def readN (alloc : Alloc) : Nat → RW → List (Outcome Err Bytes)
  | 0, _ => []
  | n + 1, c => (c.read alloc).1 :: readN alloc n (c.read alloc).2

end RW

/-- What a sequence of messages looks like on the wire. -/
def wire (ms : List Bytes) : Bytes := ms.flatMap RW.write

/-- The messages arrive, all and in order, under this chunking. -/
def Arrives (alloc : Alloc) (ms : List Bytes) (chunks : Nat → Nat) : Prop :=
  (RW.new (wire ms) chunks).readN alloc ms.length = ms.map .ok

instance (alloc : Alloc) (ms : List Bytes) (chunks : Nat → Nat) :
    Decidable (Arrives alloc ms chunks) := inferInstanceAs (Decidable (_ = _))

/-- No length and no data is split, as the reader's buffer takes them in: each is there in full at
the read that is made for it. -/
def Unsplit (ms : List Bytes) (chunks : Nat → Nat) : Prop :=
  Reader.Serves bufioSize (ms.flatMap fun m => [4, m.length]) 0 (wire ms).length chunks

instance (ms : List Bytes) (chunks : Nat → Nat) : Decidable (Unsplit ms chunks) :=
  inferInstanceAs (Decidable (Reader.Serves _ _ _ _ _))

/-- Sequences that say nothing but their number: all empty, but for a first that may be one zero. -/
def Silent : List Bytes → Prop
  | [] => True
  | m :: ms => (m = [] ∨ m = [0]) ∧ ∀ m ∈ ms, m = []

end Didem.Stream
