import WebhookEngine.Execution
import WebhookEngine.Verification

/-! What a receiver can check of a request: the envelope it is sent, under the current secret
and under the previous one while that has not expired. -/

namespace WebhookEngine

open Effects

/-- The ports of an execution that signs at one moment and compares with the clock at another. -/
def ExecutorPorts.signing (g : Signer) (signedAt comparedAt : Time) (p : ExecutorPorts) : ExecutorPorts :=
  { p with securityHeaders := fun delivery => .ok (delivery.securityHeaders g signedAt comparedAt) }

theorem ExecutorPorts.signing_securityHeaders (g : Signer) (signedAt comparedAt : Time) (p : ExecutorPorts)
    (delivery : DispatchableDelivery) :
    (p.signing g signedAt comparedAt).securityHeaders delivery =
      .ok (delivery.securityHeaders g signedAt comparedAt) := rfl

/-- The previous secret of an endpoint, unless it has expired. -/
def Endpoint.unexpiredSecret (now : Time) (e : Endpoint) : Option String :=
  match e.previousSecretKey, e.previousSecretExpiresAt with
  | some previous, some expiresAt => if now < expiresAt then some previous else none
  | _, _ => none

/-- The signature verifies at every clock for which its timestamp is fresh enough. -/
def Vouches (g : Signer) (signedAt : Time) (secretKey timestamp signature : String) (envelope : Envelope) : Prop :=
  ∀ (now : Time) (maxAgeSeconds : Nat), ((now : Int) - signedAt).natAbs ≤ maxAgeSeconds * 1000 →
    WebhookSigningService.verifyWebhookSignature g now secretKey timestamp signature (.object envelope)
      maxAgeSeconds = some true

/-- The headers vouch for the envelope under the secret, and under the previous one if there is one. -/
structure WebhookHeaders.Vouch (h : WebhookHeaders) (g : Signer) (signedAt : Time) (secretKey : String)
    (previous : Option String) (envelope : Envelope) : Prop where
  current : Vouches g signedAt secretKey h.timestamp h.signature envelope
  former : ∀ secret, previous = some secret → ∃ signature, h.signaturePrevious = some signature ∧
    Vouches g signedAt secret h.timestamp signature envelope
  absent : previous = none → h.signaturePrevious = none

/-- The execution sends one request, and its headers vouch for the envelope it hands over. -/
def RequestVouched (g : Signer) (signedAt : Time) (previous : Option String) (cfg : Config) (p : ExecutorPorts)
    (id expectedAttempt : Nat) (delivery : DispatchableDelivery) : Prop :=
  ∃ headers, (∀ url envelope headers',
      .send url envelope headers' ∈ (DeliveryExecutorService.execute cfg p id expectedAttempt).calls ↔
        url = delivery.endpoint.url ∧ envelope = delivery.envelope ∧ headers' = headers) ∧
    headers.Vouch g signedAt delivery.endpoint.secretKey previous delivery.envelope

section Requests

variable {g : Signer} {signedAt comparedAt : Time} {cfg : Config} {p : ExecutorPorts} {id expectedAttempt : Nat}
  {delivery : DispatchableDelivery}

theorem vouches_generated (g : Signer) (signedAt : Time) (secretKey : String) (envelope : Envelope) :
    Vouches g signedAt secretKey (toString signedAt)
      ("v1=" ++ WebhookSigningService.generateSignature g secretKey (toString signedAt) (.object envelope))
      envelope :=
  fun _ _ hage => WebhookSigningService.verify_generated g secretKey (.object envelope) hage

theorem DispatchableDelivery.signaturePrevious_eq (g : Signer) (signedAt comparedAt : Time)
    (delivery : DispatchableDelivery) :
    (delivery.securityHeaders g signedAt comparedAt).signaturePrevious =
      ((delivery.endpoint.unexpiredSecret comparedAt).filter (· ≠ "")).map fun secret =>
        "v1=" ++ WebhookSigningService.generateSignature g secret (toString signedAt) (.object delivery.envelope) := by
  cases hkey : delivery.endpoint.previousSecretKey with
  | none => simp [securityHeaders, Endpoint.unexpiredSecret, hkey, WebhookSigningService.generateWebhookHeaders]
  | some previous =>
    cases hend : delivery.endpoint.previousSecretExpiresAt with
    | none =>
      simp [securityHeaders, Endpoint.unexpiredSecret, hkey, hend, WebhookSigningService.generateWebhookHeaders]
    | some expiresAt =>
      by_cases hlt : comparedAt < expiresAt
      · by_cases hne : previous = ""
        · simp [securityHeaders, Endpoint.unexpiredSecret, hkey, hend, hne,
            WebhookSigningService.generateWebhookHeaders]
        · simp [securityHeaders, Endpoint.unexpiredSecret, hkey, hend, hlt, hne,
            WebhookSigningService.generateWebhookHeaders, WebhookSigningService.generateWebhookSignature]
      · simp [securityHeaders, Endpoint.unexpiredSecret, hkey, hend, hlt,
          WebhookSigningService.generateWebhookHeaders]

theorem DispatchableDelivery.headers_vouch (g : Signer) (signedAt comparedAt : Time)
    (delivery : DispatchableDelivery) :
    (delivery.securityHeaders g signedAt comparedAt).Vouch g signedAt delivery.endpoint.secretKey
      ((delivery.endpoint.unexpiredSecret comparedAt).filter (· ≠ "")) delivery.envelope := by
  obtain ⟨htimestamp, hsignature⟩ := delivery.securityHeaders_signed g signedAt comparedAt
  have hprevious := delivery.signaturePrevious_eq g signedAt comparedAt
  constructor
  · rw [htimestamp, hsignature]
    exact vouches_generated g signedAt _ _
  · intro secret hsecret
    rw [hsecret] at hprevious
    rw [htimestamp]
    exact ⟨_, hprevious, vouches_generated g signedAt secret _⟩
  · intro hnone
    rw [hnone] at hprevious
    exact hprevious

theorem DeliveryExecutorService.sends (cfg : Config)
    (hclaim : p.claimForProcessing id expectedAttempt = .ok (some delivery)) {headers : WebhookHeaders}
    (hheaders : p.securityHeaders delivery = .ok headers) {url : String} {envelope : Envelope}
    {headers' : WebhookHeaders} :
    .send url envelope headers' ∈ (execute cfg p id expectedAttempt).calls ↔
      url = delivery.endpoint.url ∧ envelope = delivery.envelope ∧ headers' = headers := by
  rw [execute_claimed hclaim]
  simp only [List.mem_cons, reduceCtorEq, false_or, Run.mem_calls_tryCatch, attempt, failed, write, Run.mem_calls_bind,
    Run.calls_compute, Run.result_compute, hheaders, Run.calls_call, List.not_mem_nil, or_false, and_false,
    exists_false, Except.ok.injEq, exists_eq_left', ExecutorCall.send.injEq]

theorem DeliveryExecutorService.sends_signing (g : Signer) (signedAt comparedAt : Time) (cfg : Config)
    (hclaim : p.claimForProcessing id expectedAttempt = .ok (some delivery)) (url : String) (envelope : Envelope)
    (headers : WebhookHeaders) :
    .send url envelope headers ∈ (execute cfg (p.signing g signedAt comparedAt) id expectedAttempt).calls ↔
      url = delivery.endpoint.url ∧ envelope = delivery.envelope ∧
        headers = delivery.securityHeaders g signedAt comparedAt := by
  have hsigning : (p.signing g signedAt comparedAt).claimForProcessing id expectedAttempt = .ok (some delivery) :=
    hclaim
  exact sends cfg hsigning (p.signing_securityHeaders g signedAt comparedAt delivery)

/-- The headers a request is vouched for by are the ones the delivery is signed with. -/
theorem RequestVouched.vouch {previous : Option String}
    (h : RequestVouched g signedAt previous cfg (p.signing g signedAt comparedAt) id expectedAttempt delivery)
    (hclaim : p.claimForProcessing id expectedAttempt = .ok (some delivery)) :
    (delivery.securityHeaders g signedAt comparedAt).Vouch g signedAt delivery.endpoint.secretKey previous
      delivery.envelope := by
  obtain ⟨headers, hsent, hvouch⟩ := h
  have hcalled := (DeliveryExecutorService.sends_signing g signedAt comparedAt cfg hclaim _ _ _).mpr ⟨rfl, rfl, rfl⟩
  obtain ⟨_, _, hheaders⟩ := (hsent _ _ _).mp hcalled
  rw [hheaders]
  exact hvouch

/-- The header of the previous secret is there just when that secret is neither expired nor empty. -/
theorem requests_verify (g : Signer) (signedAt comparedAt : Time) (cfg : Config) (p : ExecutorPorts)
    (id expectedAttempt : Nat) (delivery : DispatchableDelivery)
    (hclaim : p.claimForProcessing id expectedAttempt = .ok (some delivery)) :
    RequestVouched g signedAt ((delivery.endpoint.unexpiredSecret comparedAt).filter (· ≠ "")) cfg
      (p.signing g signedAt comparedAt) id expectedAttempt delivery := by
  refine ⟨delivery.securityHeaders g signedAt comparedAt, fun url envelope headers' => ?_,
    delivery.headers_vouch g signedAt comparedAt⟩
  exact DeliveryExecutorService.sends_signing g signedAt comparedAt cfg hclaim url envelope headers'

end Requests

def zeroDigest (n : Nat) : Signer where
  hmac _ _ := String.ofList (List.replicate n '0')
  stringify envelope := envelope.data

theorem zeroDigest_isHexDigest (n : Nat) (key message : String) :
    IsHexDigest n ((zeroDigest n).hmac key message) := zeroSigner_isHexDigest n key message

/-- An endpoint whose previous secret lasts until 2000. -/
def rotatedDelivery (previous : String) : DispatchableDelivery where
  id := 0
  row := ⟨0, 0, .processing, 1, some 0, none, none, none, 0⟩
  endpoint := ⟨0, "https://example.com/hook", "whsec", some previous, some 2000, none, true, 0⟩
  event := ⟨0, "order-1", "order.created", "{}", .processing, 0, 0⟩
  tenant := ⟨"shop", "", 10, true⟩

def rotatedPorts (previous : String) : ExecutorPorts :=
  { unreachablePorts with claimForProcessing := fun _ _ => .ok (some (rotatedDelivery previous)) }

theorem requests_verify_rotated :
    RequestVouched (zeroDigest 64) 1000 (some "whsec_0") .defaults
      ((rotatedPorts "whsec_0").signing (zeroDigest 64) 1000 1000) 0 1 (rotatedDelivery "whsec_0") := by
  have hprevious : ((rotatedDelivery "whsec_0").endpoint.unexpiredSecret 1000).filter (· ≠ "") = some "whsec_0" := by
    decide
  rw [← hprevious]
  exact requests_verify (zeroDigest 64) 1000 1000 .defaults (rotatedPorts "whsec_0") 0 1 (rotatedDelivery "whsec_0") rfl

theorem empty_secret_unsigned : ¬ ∀ (g : Signer) (n : Nat), (∀ key message, IsHexDigest n (g.hmac key message)) →
    ∀ (signedAt comparedAt : Time) (cfg : Config) (p : ExecutorPorts) (id expectedAttempt : Nat)
      (delivery : DispatchableDelivery), p.claimForProcessing id expectedAttempt = .ok (some delivery) →
      RequestVouched g signedAt (delivery.endpoint.unexpiredSecret comparedAt) cfg (p.signing g signedAt comparedAt)
        id expectedAttempt delivery := by
  intro h
  have hclaim : (rotatedPorts "").claimForProcessing 0 1 = .ok (some (rotatedDelivery "")) := rfl
  have hvouched := h (zeroDigest 64) 64 (zeroDigest_isHexDigest 64) 1000 1000 .defaults (rotatedPorts "") 0 1
    (rotatedDelivery "") hclaim
  have hvouch := hvouched.vouch hclaim
  obtain ⟨signature, hsignature, _⟩ := hvouch.former "" (by decide)
  have hunsigned := (rotatedDelivery "").signaturePrevious_eq (zeroDigest 64) 1000 1000
  have hfilter : ((rotatedDelivery "").endpoint.unexpiredSecret 1000).filter (· ≠ "") = none := by decide
  rw [hfilter, hsignature] at hunsigned
  cases hunsigned

end WebhookEngine
