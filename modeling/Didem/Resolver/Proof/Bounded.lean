import Didem.Resolver.Dns
import Mathlib.Data.Set.Basic

/-!
# How many lookups a resolution takes

The count of `resolveDNS` bounds a chain of answers only while each of them starts with `did:dns:`.
Any other answer is resolved from the start, which is harmless where its method is *not* `dns`. The
two tests disagree about **a URL whose method is `dns` and which has no identifier**: it lacks the
second colon, and it is asked for with a count of zero.
-/

set_option autoImplicit false

namespace Didem.Resolver

open Lib Storage

/-- An answer that is taken for a reference, is no further step of the chain by its text, and is one
by its method. -/
def URL.LeadsBack [UrlLib] (t : URL) : Prop :=
  stringBytes "did:" <+: t ∧ t.method = .ok (stringBytes "dns") ∧ ¬ stringBytes "did:dns:" <+: t

/-- Every target the DNS has is one of these. -/
def Dns.TargetsIn (dns : Dns) (targets : Set URL) : Prop :=
  ∀ name answer, dns.exchange name = .ok answer → ∀ t, .uri t ∈ answer → t ∈ targets

/-- The resolution of a DID comes to an end, in whatever way, after so many lookups at most. -/
def EndsWithin [UrlLib] (n : Nat) (dns : Dns) (did : URL) : Prop :=
  ∃ fuel result asked, resolveContext dns fuel did [] = some (result, asked) ∧ asked.length ≤ n

/-! ## One lookup -/

/-- A call that asks for so many names at most, however it ends. -/
def AsksAtMost {α : Type} (n : Nat) (p : Lookup α) : Prop :=
  ∀ asked, (p.run asked).2.length ≤ asked.length + n

namespace AsksAtMost

variable {α β : Type}

theorem lift (x : Outcome Err α) : AsksAtMost 0 (.lift x) := fun _ => le_rfl

theorem bind {m n : Nat} {p : Lookup α} {f : α → Lookup β} (hp : AsksAtMost m p)
    (hf : ∀ a, AsksAtMost n (f a)) : AsksAtMost (m + n) (p >>= f) := by
  intro asked
  have hasked := hp asked
  rw [Proc.run_bind]
  generalize p.run asked = r at hasked
  obtain ⟨outcome, asked'⟩ := r
  cases outcome with
  | ok a =>
    have := hf a asked'
    simp only at hasked ⊢
    omega
  | err e => exact hasked.trans (by omega)
  | panic => exact hasked.trans (by omega)

end AsksAtMost

theorem exchangeContext_asks (dns : Dns) (servers : List Bytes) (name : Bytes) :
    AsksAtMost 1 (exchangeContext dns servers name) := by
  cases servers with
  | nil => exact fun _ => Nat.le_succ _
  | cons server servers => exact fun _ => le_rfl

theorem RR.reference_eq_some {r : RR} {t : URL} (h : r.reference = some t) :
    r = .uri t ∧ stringBytes "did:" <+: t := by
  cases r with
  | other => cases h
  | uri target =>
    rw [RR.reference] at h
    split_ifs at h with hdid
    obtain rfl : target = t := Option.some.inj h
    exact ⟨rfl, List.isPrefixOf_iff_prefix.mp hdid⟩

section Resolve

variable [UrlLib]

theorem lookup_asks (dns : Dns) (did : URL) : AsksAtMost 1 (lookup dns did) := by
  have hreference (servers : List Bytes) (name : Bytes) :
      AsksAtMost 1 (resolveReference dns servers name) := by
    refine .bind (n := 0) (exchangeContext_asks dns servers _) fun answer => ?_
    cases answer.findSome? RR.reference with
    | none => exact .lift _
    | some t => exact .lift (.ok t)
  exact .bind (n := 1) (.lift _) fun servers =>
    .bind (n := 1) (.lift _) fun i => .bind (n := 1) (.lift _) fun frag => hreference _ _

/-- The reference a domain gives is one of the targets of the DNS. -/
theorem lookup_ok {dns : Dns} {targets : Set URL} (htargets : dns.TargetsIn targets) {did t : URL}
    {asked asked' : List Bytes} (h : (lookup dns did).run asked = (.ok t, asked')) :
    t ∈ targets ∧ stringBytes "did:" <+: t := by
  obtain ⟨servers, _, -, h⟩ := Proc.bind_eq_ok.mp h
  obtain ⟨i, _, -, h⟩ := Proc.bind_eq_ok.mp h
  obtain ⟨frag, _, -, h⟩ := Proc.bind_eq_ok.mp h
  obtain ⟨answer, _, hanswer, h⟩ := Proc.bind_eq_ok.mp h
  have hexchange : ∃ name, dns.exchange name = .ok answer := by
    cases servers with
    | nil => cases hanswer
    | cons server servers =>
      obtain ⟨_, _, -, hanswer⟩ := Proc.bind_eq_ok.mp hanswer
      exact ⟨_, Outcome.mapErr_eq_ok.mp (congrArg Prod.fst hanswer)⟩
  obtain ⟨name, hexchange⟩ := hexchange
  split at h
  · cases h
  case _ resolved hresolved =>
    obtain rfl : resolved = t := Outcome.ok.inj (congrArg Prod.fst h)
    obtain ⟨r, hr, hreference⟩ := List.exists_of_findSome?_eq_some hresolved
    obtain ⟨rfl, hdid⟩ := RR.reference_eq_some hreference
    exact ⟨htargets name answer hexchange resolved hr, hdid⟩

/-! ## Chains that end -/

section Ends

variable {dns : Dns} {targets : Set URL}

/-- An answer that is resolved from the start is not asked for, unless it leads back. -/
theorem resolveContext_of_not_leadsBack (dns : Dns) {t : URL} (hdid : stringBytes "did:" <+: t)
    (hdns : ¬ stringBytes "did:dns:" <+: t) (ht : ¬ t.LeadsBack) (fuel : Nat)
    (asked : List Bytes) :
    ∃ result, resolveContext dns (fuel + 1) t asked = some (result, asked) := by
  rw [resolveContext]
  cases hm : t.method with
  | err e => exact ⟨_, rfl⟩
  | panic => exact ⟨_, rfl⟩
  | ok m =>
    have hne : m ≠ stringBytes "dns" := by
      rintro rfl
      exact ht ⟨hdid, hm, hdns⟩
    exact ⟨_, if_neg hne⟩

/-- With `n` steps of the count left, a chain ends after `n` lookups at most: by induction on them,
because every answer either takes one or ends the chain. -/
theorem resolveDNS_ends (htargets : dns.TargetsIn targets)
    (hback : ∀ t ∈ targets, ¬ URL.LeadsBack t) (n : Nat) (did : URL) (depth : Nat)
    (hdepth : 6 ≤ depth + n) (asked : List Bytes) :
    ∃ result asked', resolveDNS dns (n + 1) did depth asked = some (result, asked') ∧
      asked'.length ≤ asked.length + n := by
  induction n generalizing did depth asked with
  | zero =>
    rw [resolveDNS, if_pos (by omega)]
    exact ⟨_, _, rfl, le_rfl⟩
  | succ n ih =>
    rw [resolveDNS]
    split_ifs with hmax
    · exact ⟨_, _, rfl, Nat.le_add_right _ _⟩
    have hasked := lookup_asks dns did asked
    cases hlookup : (lookup dns did).run asked with
    | mk outcome asked₁ =>
      rw [hlookup] at hasked
      simp only at hasked
      cases outcome with
      | err e => exact ⟨_, _, rfl, by omega⟩
      | panic => exact ⟨_, _, rfl, by omega⟩
      | ok t =>
        obtain ⟨ht, hdid⟩ := lookup_ok htargets hlookup
        by_cases hdns : stringBytes "did:dns:" <+: t
        · obtain ⟨result, asked', hrest, hlength⟩ := ih t (depth + 1) (by omega) asked₁
          refine ⟨named did result, asked', ?_, by omega⟩
          simp only [List.isPrefixOf_iff_prefix.mpr hdns, if_true, hrest]
          rfl
        · obtain ⟨result, hrest⟩ :=
            resolveContext_of_not_leadsBack dns hdid hdns (hback t ht) n asked₁
          refine ⟨named did result, asked₁, ?_, by omega⟩
          simp only [List.isPrefixOf_iff_prefix, hdns, if_false, hrest]
          rfl

theorem endsWithin_six (htargets : dns.TargetsIn targets) (hback : ∀ t ∈ targets, ¬ URL.LeadsBack t)
    (did : URL) : EndsWithin 6 dns did := by
  obtain ⟨result, asked, hrun, hlength⟩ := resolveDNS_ends htargets hback 6 did 0 le_rfl []
  refine ⟨8, ?_⟩
  rw [resolveContext]
  cases did.method with
  | err e => exact ⟨_, _, rfl, Nat.zero_le _⟩
  | panic => exact ⟨_, _, rfl, Nat.zero_le _⟩
  | ok m =>
    by_cases hm : m = stringBytes "dns"
    · exact ⟨result, asked, (if_pos hm).trans hrun, by simpa using hlength⟩
    · exact ⟨_, _, if_neg hm, Nat.zero_le _⟩

end Ends

/-! ## The result

No method makes a document: the `dns` method passes on what another method returns, and there is no
other method. -/

/-- However long a resolution goes on, it does not end with a document. -/
theorem resolve_ne_ok (dns : Dns) (fuel : Nat) (did : URL) (depth : Nat) (asked : List Bytes)
    (doc : Document) (asked' : List Bytes) :
    resolveContext dns fuel did asked ≠ some (.ok doc, asked') ∧
      resolveDNS dns fuel did depth asked ≠ some (.ok doc, asked') := by
  induction fuel generalizing did depth asked doc asked' with
  | zero => exact ⟨by rw [resolveContext]; nofun, by rw [resolveDNS]; nofun⟩
  | succ fuel ih =>
    constructor
    · rw [resolveContext]
      split
      · nofun
      · nofun
      · split_ifs
        · exact (ih did 0 asked doc asked').2
        · nofun
    · rw [resolveDNS]
      split_ifs
      · nofun
      split
      · nofun
      · nofun
      case _ t asked₁ _ =>
        intro h
        obtain ⟨⟨result, asked₂⟩, hrest, h⟩ := Option.map_eq_some_iff.mp h
        obtain ⟨hnamed, -⟩ := Prod.mk.inj h
        -- A document would be one the rest of the chain had ended with.
        obtain ⟨doc', rfl, -⟩ := Outcome.bind_eq_ok.mp hnamed
        split_ifs at hrest
        · exact (ih t (depth + 1) asked₁ doc' asked₂).2 hrest
        · exact (ih t 0 asked₁ doc' asked₂).1 hrest

/-! ## A chain that does not end -/

/-- A DNS with the same record under every name. -/
def Dns.always (t : URL) : Dns where
  servers := .ok [stringBytes "127.0.0.1"]
  exchange _ := .ok [.uri t]

theorem lookup_always {t did : URL} {m : Bytes} (hdid : stringBytes "did:" <+: t)
    (hm : did.method = .ok m) (asked : List Bytes) :
    ((lookup (.always t) did).run asked).1 = .ok t := by
  obtain ⟨p, hp, -⟩ := Outcome.bind_eq_ok.mp hm
  have hid : did.id = .ok (Url.cut 58 p.opaquePart).2 := Outcome.bind_eq_ok.mpr ⟨p, hp, rfl⟩
  have hfragment : did.fragment = .ok p.fragment := Outcome.bind_eq_ok.mpr ⟨p, hp, rfl⟩
  have hfind : [RR.uri t].findSome? RR.reference = some t := by
    simp [RR.reference, List.isPrefixOf_iff_prefix.mpr hdid]
  have hservers : (newDNSDIDResolver (.always t)).mapErr (·.wrap "constructing dns client") =
      .ok [stringBytes "127.0.0.1"] := rfl
  rw [lookup, hservers, hid, hfragment]
  show ((resolveReference (.always t) [stringBytes "127.0.0.1"] _).run asked).1 = .ok t
  rw [resolveReference, Proc.fst_bind_of_ok (a := [RR.uri t]) _ rfl, hfind]
  rfl

/-- Where every answer is one that leads back, no fuel is enough. -/
theorem resolve_always_eq_none {t : URL} (ht : t.LeadsBack) (fuel : Nat) {did : URL}
    (hm : did.method = .ok (stringBytes "dns")) (asked : List Bytes) :
    resolveContext (.always t) fuel did asked = none ∧
      resolveDNS (.always t) fuel did 0 asked = none := by
  induction fuel generalizing did asked with
  | zero => exact ⟨by rw [resolveContext], by rw [resolveDNS]⟩
  | succ fuel ih =>
    constructor
    · rw [resolveContext, hm]
      exact (if_pos rfl).trans (ih hm asked).2
    · have hdns : ¬ (stringBytes "did:dns:").isPrefixOf t = true := by
        rw [List.isPrefixOf_iff_prefix]
        exact ht.2.2
      have hlookup := lookup_always ht.1 hm asked
      rw [resolveDNS, if_neg (by omega)]
      generalize (lookup (.always t) did).run asked = r at hlookup
      obtain ⟨outcome, asked₁⟩ := r
      obtain rfl : outcome = .ok t := hlookup
      simp only [hdns, (ih ht.2.1 asked₁).1]
      rfl

/-- What leads back is `did:dns` with nothing after it, or with a query or a fragment. -/
theorem URL.LeadsBack.text {t : URL} (ht : t.LeadsBack) :
    ∃ tail, t = stringBytes "did:dns" ++ tail ∧ ∀ c ∈ tail.head?, c = 35 ∨ c = 63 := by
  obtain ⟨⟨rest, rfl⟩, hmethod, hdns⟩ := ht
  obtain ⟨p, hp, hword⟩ := Outcome.bind_eq_ok.mp hmethod
  have hdid : stringBytes "did:" ++ rest = stringBytes "did" ++ 58 :: rest := rfl
  have hparse : Url.parse UrlLib.hierarchical (stringBytes "did" ++ 58 :: rest) = some p := by
    rw [URL.parse, hdid] at hp
    split at hp
    · exact congrArg some (Outcome.ok.inj hp) ▸ ‹_›
    · cases hp
  have hletter : ∀ c ∈ stringBytes "did", Url.isLetter c = true := by decide +kernel
  have hne : stringBytes "did" ≠ [] := by decide +kernel
  have hne' : stringBytes "dns" ≠ [] := by decide +kernel
  obtain ⟨tail, rfl, htail⟩ := Url.eq_append_of_parse _ hletter hne hparse hne'
    (Outcome.ok.inj hword)
  refine ⟨tail, rfl, fun c hc => ?_⟩
  rcases htail c hc with h | h | h
  · exact .inl h
  · exact .inr h
  · obtain ⟨rest, rfl⟩ : ∃ rest, tail = 58 :: rest := by
      subst h
      exact List.head?_eq_some_iff.mp hc
    exact absurd ⟨rest, rfl⟩ hdns

/-- Resolution ends within six lookups, for a DNS with targets of some set and for every DID,
**exactly when none of these targets leads back**. -/
theorem resolution_bounded_iff (targets : Set URL) :
    (∀ dns : Dns, dns.TargetsIn targets → ∀ did, EndsWithin 6 dns did) ↔
      ∀ t ∈ targets, ¬ URL.LeadsBack t := by
  constructor
  · intro hends t ht hback
    have htargets : (Dns.always t).TargetsIn targets := by
      rintro _ answer ⟨⟩ u hu
      obtain rfl : u = t := RR.uri.inj (List.mem_singleton.mp hu)
      exact ht
    obtain ⟨fuel, result, asked, hrun, -⟩ := hends _ htargets t
    rw [(resolve_always_eq_none hback fuel hback.2.1 []).1] at hrun
    cases hrun
  · exact fun hback dns htargets => endsWithin_six htargets hback

end Resolve

section Sample

/-- No host or path is parsed. -/
local instance opaqueUrlLib : UrlLib where
  hierarchical _ _ := false

/-- The domain answers `did:dns`, under whatever name it is asked. That is a URL of the method `dns`
which does not start with `did:dns:`, and the resolution never ends. -/
theorem resolution_unbounded :
    (lookup (.always (stringBytes "did:dns")) (stringBytes "did:dns:example.com")).run [] =
        (.ok (stringBytes "did:dns"), [stringBytes "_did.example.com."]) ∧
      URL.method (stringBytes "did:dns") = .ok (stringBytes "dns") ∧
      ¬ ∃ n, EndsWithin n (.always (stringBytes "did:dns")) (stringBytes "did:dns:example.com") := by
  refine ⟨by decide +kernel, by decide +kernel, ?_⟩
  rintro ⟨n, fuel, result, asked, hrun, -⟩
  have hback : URL.LeadsBack (stringBytes "did:dns") :=
    ⟨by decide +kernel, by decide +kernel, by decide +kernel⟩
  have hmethod : URL.method (stringBytes "did:dns:example.com") = .ok (stringBytes "dns") := by
    decide +kernel
  rw [(resolve_always_eq_none hback fuel hmethod []).1] at hrun
  cases hrun

end Sample

end Didem.Resolver
