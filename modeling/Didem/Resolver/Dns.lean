import Didem.Lib.Proc
import Didem.Lib.Url
import Didem.Storage.Cid

/-!
# Resolving a DID through the DNS

`pkg/did/resolver` with `pkg/did/w3cdid/url.go`. A DID of the method `dns` names a domain, and a URI
record of that domain names the DID that is resolved in its place. **Two tests are made of such an
answer**: where its text starts with `did:dns:` the resolver goes on with the count of the answers
it has followed, and for any other text it starts over, and asks for the method of the parsed URL.

The state is the names that have been asked for, the last one first. The Go code recurses without a
bound of its own, so the model has fuel, and a call that runs out of it has no result. A URL the
library cannot parse is a nil pointer, which the methods of `w3cdid.URL` read a field of.
-/

set_option autoImplicit false

namespace Didem.Resolver

open Lib Storage

/-- What is open about `net/url`. -/
class UrlLib where
  /-- Whether a host and a path can be parsed, given the scheme before them. -/
  hierarchical : Bytes → Bytes → Bool

variable [UrlLib]

/-! ## `w3cdid.URL` -/

/-- `w3cdid.URL`. -/
abbrev URL := Bytes

namespace URL

/-- `url.Parse`, before a field of the result is read. -/
def parse (u : URL) : Outcome Err Url.Parsed :=
  match Url.parse UrlLib.hierarchical u with
  | some p => .ok p
  | none => .panic

/-- `URL.Method`: the opaque part up to the first colon. -/
def method (u : URL) : Outcome Err Bytes := do
  return (Url.cut 58 (← parse u).opaquePart).1

/-- `URL.Id`: what follows that colon, if there is one. -/
def id (u : URL) : Outcome Err Bytes := do
  return (Url.cut 58 (← parse u).opaquePart).2

/-- `URL.Fragment`. -/
def fragment (u : URL) : Outcome Err Bytes := do
  return (← parse u).fragment

end URL

/-! ## `DNSDIDResolver` -/

/-- A resource record of an answer. -/
inductive RR where
  | uri (target : Bytes)
  | other

/-- What the resolver finds outside: the servers of `/etc/resolv.conf`, and the answer section for
each question. -/
structure Dns where
  servers : Outcome Err (List Bytes)
  exchange : Bytes → Outcome Err (List RR)

/-- A resolver's call, on the names asked for so far. -/
abbrev Lookup (α : Type) := Proc Err (List Bytes) α

/-- The reference an answer is taken for. -/
def RR.reference : RR → Option Bytes
  | .uri target => if (stringBytes "did:").isPrefixOf target then some target else none
  | .other => none

/-- `ExchangeContext` with the first of the servers. -/
def exchangeContext (dns : Dns) (servers : List Bytes) (name : Bytes) : Lookup (List RR) :=
  match servers with
  | [] => .lift .panic
  | _ :: _ => do
    .modify (name :: ·)
    .lift ((dns.exchange name).mapErr (·.wrap "querying dns record"))

/-- `DNSDIDResolver.Resolve`. -/
def resolveReference (dns : Dns) (servers : List Bytes) (name : Bytes) : Lookup Bytes := do
  let name := if (stringBytes ".").isSuffixOf name then name else name ++ stringBytes "."
  let answer ← exchangeContext dns servers name
  match answer.findSome? RR.reference with
  | none => .lift (.err (.new "notFound"))
  | some resolvedReference => return resolvedReference

/-- `NewDNSDIDResolver`. -/
def newDNSDIDResolver (dns : Dns) : Outcome Err (List Bytes) :=
  dns.servers.mapErr (·.wrap "building dns config")

/-! ## `Resolver` -/

/-- `ErrUnknownMethod`. -/
def errUnknownMethod : Err := .new "unknown did method"

/-- A document, by the one field the resolver writes. -/
structure Document where
  id : Bytes
  deriving DecidableEq, Repr

/-- The first half of `resolveDNS`: the reference a domain gives. -/
def lookup (dns : Dns) (did : URL) : Lookup Bytes := do
  let servers ← .lift ((newDNSDIDResolver dns).mapErr (·.wrap "constructing dns client"))
  let rrname := stringBytes "_did." ++ (← .lift (URL.id did))
  let frag ← .lift (URL.fragment did)
  let rrname := if frag = [] then rrname else stringBytes "_" ++ frag ++ stringBytes "." ++ rrname
  resolveReference dns servers rrname

/-- The last lines of `resolveDNS`: the document becomes that of the DID that was asked for. -/
def named (did : URL) (doc : Outcome Err Document) : Outcome Err Document := do
  let doc ← doc
  return { doc with id := ← URL.id did }

mutual

/-- `resolveDNS`. -/
def resolveDNS (dns : Dns) : Nat → URL → Nat → List Bytes →
    Option (Outcome Err Document × List Bytes)
  | 0, _, _, _ => none
  | fuel + 1, did, depth, asked =>
    if depth > 5 then some (.err (.new "notFound"), asked)
    else
      match (lookup dns did).run asked with
      | (.err e, asked) => some (.err e, asked)
      | (.panic, asked) => some (.panic, asked)
      | (.ok rrres, asked) =>
        let rest :=
          if (stringBytes "did:dns:").isPrefixOf rrres then
            resolveDNS dns fuel rrres (depth + 1) asked
          else resolveContext dns fuel rrres asked
        rest.map fun (doc, asked) => (named did doc, asked)

/-- `ResolveContext`. -/
def resolveContext (dns : Dns) : Nat → URL → List Bytes →
    Option (Outcome Err Document × List Bytes)
  | 0, _, _ => none
  | fuel + 1, did, asked =>
    match URL.method did with
    | .err e => some (.err e, asked)
    | .panic => some (.panic, asked)
    | .ok m =>
      if m = stringBytes "dns" then resolveDNS dns fuel did 0 asked
      else some (.err errUnknownMethod, asked)

end

end Didem.Resolver
