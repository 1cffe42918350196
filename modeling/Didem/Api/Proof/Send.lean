import Didem.Api.Send

/-!
# What the API says about a message

No message gets out: the API calls `comm.Handler.Send` without an identity, and `Send` would not pass
one on to its client if it had it (`send_ne_ok`). So the right response names every recipient.

On a node with a resolver that is what every run comes to (`everyone_reported`), whatever the order
in which the goroutines get hold of the mutex. But no option of `NewNode` sets a resolver. On a node
that it has built every goroutine panics, and what the response names is then **any part of the
recipients, in any order** (`daemon_responds_iff`): the caller that hears of no error cannot tell.
-/

set_option autoImplicit false

namespace Didem.Api

open Lib Lib.Conf Storage Comm

/-! ## Nothing is sent -/

/-- Whatever the options do, the client that `Send` makes has no identity. -/
theorem send_ne_ok (ω : Sending) (email : Message) (opts : List SendOption) :
    ω.send email opts ≠ .ok () := by
  intro h
  obtain ⟨cfg, -, h⟩ := Outcome.bind_eq_ok.mp h
  unfold Sending.sendWith at h
  split at h
  · cases h
  · cases h
  · cases h
  · obtain ⟨rcpt, -, h⟩ := Outcome.bind_eq_ok.mp h
    obtain ⟨rDID, -, h⟩ := Outcome.bind_eq_ok.mp h
    obtain ⟨c, hprepare, -⟩ := Outcome.bind_eq_ok.mp h
    cases hresolver : ω.resolver <;> simp [Sender.prepare, hresolver] at hprepare

section

variable {S : Type} {n : Node S} {ω : Call} {req : SendRequest} {tmpl : Message}

/-! ## With a resolver -/

/-- What there is to say of a recipient. -/
def failure (resolver : Resolver) (rcpt : String) : Err :=
  match resolver rcpt with
  | .err e => e.wrap "resolving recipient"
  | _ => (Err.new "sender identity missing").wrap ("sending to " ++ rcpt)

theorem work_of_resolver {resolver : Resolver} (hresolver : n.resolver = some resolver)
    {rcpt : String} (hcalm : resolver rcpt ≠ .panic) :
    ω.work n tmpl rcpt = .add (failure resolver rcpt) := by
  cases hrcpt : resolver rcpt with
  | panic => exact absurd hrcpt hcalm
  | err e => simp [Call.work, Call.deliver, hresolver, hrcpt, Outcome.mapErr, failure]
  | ok id =>
    simp [Call.work, Call.deliver, Call.sendSingle, Sending.send, buildConfig, Sending.sendWith,
      hresolver, hrcpt, Outcome.mapErr, failure]

/-- **With a resolver every recipient is reported**, once, in every run. -/
theorem everyone_reported {resolver : Resolver} (hresolver : n.resolver = some resolver)
    (hcalm : ∀ rcpt ∈ req.recipients, resolver rcpt ≠ .panic) (htmpl : ω.template n req = .ok tmpl) :
    Inevitable (FanOut.next (ω.work n tmpl))
        (fun c => ∃ errs, c.shared.result = some errs ∧
          errs.Perm (req.recipients.map (failure resolver)))
        (FanOut.start req.recipients) ∧
      ∀ errs, ω.Responds n req errs ↔ errs.Perm (req.recipients.map (failure resolver)) := by
  have hwork : ∀ rcpt ∈ req.recipients, ω.work n tmpl rcpt = .add (failure resolver rcpt) :=
    fun rcpt hrcpt => work_of_resolver hresolver (hcalm rcpt hrcpt)
  have hpanics : ∀ rcpt ∈ req.recipients, (ω.work n tmpl rcpt).panics = false :=
    fun rcpt hrcpt => by rw [hwork rcpt hrcpt]; rfl
  have hvalues : FanOut.values (ω.work n tmpl) req.recipients =
      req.recipients.map (failure resolver) := by
    rw [FanOut.values, ← List.filterMap_eq_map]
    exact List.filterMap_congr fun rcpt hrcpt => by rw [hwork rcpt hrcpt]; rfl
  refine ⟨hvalues ▸ FanOut.collects hpanics, fun errs => ?_⟩
  rw [← hvalues, ← FanOut.collects_iff hpanics]
  constructor
  · rintro ⟨tmpl', htmpl', h⟩
    exact Outcome.ok.inj (htmpl.symm.trans htmpl') ▸ h
  · exact fun h => ⟨tmpl, htmpl, h⟩

/-- A message to two recipients. -/
def twoRecipients : SendRequest := ⟨"a", ["b", "c"], [], []⟩

/-- Anyone may send here, under a key of their own. -/
def anyone : IdentityStore := fun _ => .ok (some ⟨.ed25519, [1]⟩)

def served : Call where
  publicIdentity := fun _ => .ok ⟨"a", []⟩
  now := 1
  nonce := fun _ => none
  rest := fun _ _ => .ok ()

/-- A node that resolves everyone. -/
def resolving : Node Unit := { resolver := some fun id => .ok (some ⟨id, []⟩), idStore := some anyone }

theorem twoRecipients_reported :
    served.Responds resolving twoRecipients
        [.wrap (.new "sender identity missing") "sending to c",
          .wrap (.new "sender identity missing") "sending to b"] ∧
      ¬ served.Responds resolving twoRecipients [] := by
  have h : ∀ errs, served.Responds resolving twoRecipients errs ↔ errs.Perm _ :=
    (everyone_reported rfl (by intro rcpt _ h; cases h) rfl).2
  exact ⟨(h _).mpr (.swap _ _ _), fun hnil => by simpa [twoRecipients] using (h _).mp hnil⟩

/-! ## Without one -/

theorem resolver_apply {n' : Node S} {opt : NodeOption S} (h : opt.apply n = .ok n') :
    n'.resolver = n.resolver := by
  cases opt with
  | withStorage s => rw [← Outcome.ok.inj h]
  | withIdentityStore store => rw [← Outcome.ok.inj h]
  | withDefaultOptions s =>
    obtain ⟨s', -, h⟩ := Outcome.bind_eq_ok.mp h
    rw [← Outcome.ok.inj h]

theorem resolver_applyAll {n' : Node S} {opts : List (NodeOption S)}
    (h : applyAll n opts = .ok n') : n'.resolver = n.resolver := by
  induction opts generalizing n with
  | nil => rw [← Outcome.ok.inj h]
  | cons opt opts ih =>
    obtain ⟨n₁, hopt, h⟩ := Outcome.bind_eq_ok.mp h
    rw [ih h, resolver_apply hopt]

/-- No option sets a resolver. -/
theorem resolver_newNode {fileStore : Option (Outcome Err IdentityStore)}
    {opts : List (NodeOption S)} {rest : Outcome Err Unit}
    (h : newNode fileStore opts rest = .ok n) : n.resolver = none := by
  obtain ⟨n₀, hn₀, h⟩ := Outcome.bind_eq_ok.mp h
  obtain ⟨n₁, hopts, h⟩ := Outcome.bind_eq_ok.mp h
  obtain ⟨-, -, h⟩ := Outcome.bind_eq_ok.mp h
  rw [← Outcome.ok.inj h, resolver_applyAll hopts]
  cases fileStore with
  | none => rw [← Outcome.ok.inj hn₀]
  | some fs =>
    obtain ⟨store, -, hn₀⟩ := Outcome.bind_eq_ok.mp hn₀
    rw [← Outcome.ok.inj hn₀]

/-- The error of a goroutine that has recovered. -/
def internalError (rcpt : String) : Err := .new ("internal error sending to " ++ rcpt)

/-- **On a node that `NewNode` has built, any part of the recipients may be reported.** It always
returns, though. -/
theorem daemon_responds_iff {fileStore : Option (Outcome Err IdentityStore)}
    {opts : List (NodeOption S)} {rest : Outcome Err Unit}
    (hnode : newNode fileStore opts rest = .ok n) (htmpl : ω.template n req = .ok tmpl) :
    Inevitable (FanOut.next (ω.work n tmpl)) (fun c => ∃ errs, c.shared.result = some errs)
        (FanOut.start req.recipients) ∧
      ∀ errs, ω.Responds n req errs ↔ errs.Subperm (req.recipients.map internalError) := by
  have hwork : ∀ rcpt ∈ req.recipients, ω.work n tmpl rcpt = .rescue (internalError rcpt) := by
    intro rcpt _
    simp [Call.work, Call.deliver, resolver_newNode hnode, internalError]
  refine ⟨(FanOut.returns _ _).mono fun _ hc => hc.imp fun _ h => h.1, fun errs => ?_⟩
  rw [← FanOut.rescued_iff hwork]
  constructor
  · rintro ⟨tmpl', htmpl', h⟩
    exact Outcome.ok.inj (htmpl.symm.trans htmpl') ▸ h
  · exact fun h => ⟨tmpl, htmpl, h⟩

/-- A node as the daemon makes it. -/
def daemon : Node Unit := { storage := some (), idStore := some anyone }

theorem daemon_may_be_silent :
    served.Responds daemon twoRecipients [] ∧
      served.Responds daemon twoRecipients [.new "internal error sending to c"] := by
  have hnode : newNode (some (.ok anyone)) [.withDefaultOptions (.ok ())] (.ok ()) = .ok daemon := rfl
  have h : ∀ errs, served.Responds daemon twoRecipients errs ↔ errs.Subperm _ :=
    (daemon_responds_iff hnode rfl).2
  exact ⟨(h _).mpr (List.nil_subperm), (h _).mpr ⟨_, .refl _, .cons _ (.refl _)⟩⟩

end
end Didem.Api
