import Didem.Lib.Outcome
import Mathlib.Logic.Function.Basic

/-!
# Content identifiers and errors

`go-cid` as far as the program uses it, and the error values of `pkg/storage/errors.go`.

A `Cid` is the Go struct itself: a byte string, with the empty one as `cid.Undef`. Its text form
is *not* defined here. `Cid.String` goes through multibase, a third-party package, so it is taken
as the operation `CidText.string` with the facts the engine relies on: different identifiers have
different texts, and no identifier — `Undef` included — has the empty text. The second one is
what separates a vote for `cid.Undef.String()` from a vote for `""`, which the code sends from
different handlers.
-/

set_option autoImplicit false

namespace Didem.Storage

abbrev Bytes := List UInt8

/-- `[]byte(s)`. -/
def stringBytes (s : String) : Bytes := s.toUTF8.data.toList

/-- `cid.Cid`. -/
structure Cid where
  str : Bytes
  deriving DecidableEq, Repr

/-- `cid.Undef`. -/
def Cid.undef : Cid := ⟨[]⟩

/-- `storage.BlockID` and `tx.TxID` are defined types over `cid.Cid`; every conversion between
them in the source keeps the value. -/
abbrev BlockID := Cid
abbrev TxID := Cid

/-- The text form of a `Cid` and its parser. `parse` is a partial inverse of `string`; it is left
unconstrained, because a message may carry any text at all. -/
class CidText where
  string : Cid → String
  parse : String → Option Cid
  string_injective : Function.Injective string
  string_ne_empty : ∀ c, string c ≠ ""

/-- `Cid.String`. -/
def Cid.string [CidText] (c : Cid) : String := CidText.string c

theorem Cid.string_inj [CidText] {a b : Cid} : a.string = b.string ↔ a = b :=
  CidText.string_injective.eq_iff

theorem Cid.string_ne_empty [CidText] (c : Cid) : c.string ≠ "" := CidText.string_ne_empty c

/-! ## Errors -/

/-- An error value. The sentinels of `errors.go` are compared by identity in the source, so they
are constructors; `wrap` is `errors.Wrap` of a non-nil cause. -/
inductive Err where
  | notFound
  | didAlreadyExists
  | didInvalid
  | didInvalidSignature
  | opNotSupported
  | txVersionNotSupported
  | txMissingTimestamp
  | txMissingFrom
  | txUnsupportedType
  | txMissingData
  /-- `pebble.ErrNotFound`, a different value from `storage.ErrNotFound`. -/
  | pebbleNotFound
  | new (text : String)
  | wrap (cause : Err) (text : String)
  deriving DecidableEq, Repr

namespace Err

/-- `errors.Is(err, target)`: the target occurs on the chain of causes. -/
def is : Err → Err → Bool
  | .wrap cause text, target => decide (Err.wrap cause text = target) || cause.is target
  | e, target => decide (e = target)

/-- `errors.Wrap` on an error that may be nil: it returns nil for nil. -/
def wrapNil (e : Option Err) (text : String) : Option Err := e.map (·.wrap text)

end Err
end Didem.Storage
