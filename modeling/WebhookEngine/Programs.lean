import WebhookEngine.Backoff
import WebhookEngine.Interaction
import WebhookEngine.RateLimiter

/-! `ProcessDeliveryUseCase.execute` and `DeliveryExecutorService.execute` call by call. -/

namespace WebhookEngine

open Interaction

/-- The keys the limiter counts under. -/
inductive RateScope where
  | tenant (id : Nat)
  | endpoint (id : Nat)
  deriving DecidableEq, Repr

/-- `request` hands a request to the channel and `response` waits for its answer; `failure`
reads what the wait before a retry is made of. -/
inductive DeliveryCall where
  | findById (id : Nat)
  | markCancelled (id : Nat) (reason : String)
  | checkRateLimit (scope : RateScope) (limit : Nat)
  | now
  | markRateLimitedAndSchedule (id : Nat) (nextAttemptAt : Time) (expectedAttempt : Nat)
  | claimForProcessing (id expectedAttempt : Nat)
  | request (url : String) (envelope : Envelope) (headers : WebhookHeaders)
  | response
  | write (id : Nat) (w : OutcomeWrite)
  | failure
  | increment (name : String)
  deriving DecidableEq, Repr

@[reducible]
def DeliveryCall.Answer : DeliveryCall → Type
  | .findById _ => Option DispatchableDelivery
  | .checkRateLimit _ _ => RateLimitResult
  | .now => Time
  | .claimForProcessing _ _ => Option DispatchableDelivery
  | .response => DeliveryResult
  | .failure => Failure
  | _ => Unit

abbrev DeliveryProgram := Program SendError DeliveryCall DeliveryCall.Answer

namespace DeliveryProgram

def call (op : DeliveryCall) : DeliveryProgram op.Answer := Program.call op

variable (cfg : Config) (g : Signer) (parse : Parsers) (config : RetryConfig)

section Executor

variable (delivery : DispatchableDelivery)

def succeed (response : DeliveryResult) : DeliveryProgram Unit := do
  call (.write delivery.id (.success response.status (successSnippet cfg response.status response.data)))
  call (.increment "deliveries_success_total")

def receive : DeliveryProgram Unit := do
  let response ← call .response
  succeed cfg delivery response

def send (headers : WebhookHeaders) : DeliveryProgram Unit := do
  call (.request delivery.endpoint.url delivery.envelope headers)
  receive cfg delivery

/-- The second reading of the clock is made whether or not there is a previous secret. -/
def sign (signedAt : Time) : DeliveryProgram Unit := do
  let comparedAt ← call .now
  send cfg delivery (delivery.securityHeaders g signedAt comparedAt)

def attempt : DeliveryProgram Unit := do
  let signedAt ← call .now
  sign cfg g delivery signedAt

def schedule (error : SendError) (nextAttemptAt : Time) : DeliveryProgram Unit := do
  call (.write delivery.id
    (.retry ⟨delivery.id, error.statusCode, failureSnippet cfg error, nextAttemptAt, delivery.row.attempts + 1⟩))
  call (.increment "delivery_retries_scheduled_total")

def failed (error : SendError) : DeliveryProgram Unit := do
  if delivery.row.attempts ≥ cfg.maxAttempts || !isRetryable error.statusCode then
    call (.write delivery.id (.deadLetter error.statusCode (failureSnippet cfg error)))
    call (.increment "deliveries_dlq_total")
  else
    let failure ← call .failure
    schedule cfg delivery error
      (DeliveryExecutorService.nextAttemptAt parse config delivery.row.attempts error failure)

/-- `DeliveryExecutorService.execute` -/
def deliver (id expectedAttempt : Nat) : DeliveryProgram Unit := do
  let claimed ← call (.claimForProcessing id expectedAttempt)
  match claimed with
  | none => pure ()
  | some delivery => tryCatch (attempt cfg g delivery) (failed cfg parse config delivery)

end Executor

variable (deliveryId expectedAttempt : Nat)

def postpone (nextAttemptAt : Time) : DeliveryProgram Unit := do
  call (.markRateLimitedAndSchedule deliveryId nextAttemptAt expectedAttempt)
  call (.increment "deliveries_rate_limited_total")

def limited (delivery : DispatchableDelivery) (tenantLimit endpointLimit : RateLimitResult) :
    DeliveryProgram Unit := do
  let exceeded := tenantLimit.exceeded || endpointLimit.exceeded
  let delayMs := max tenantLimit.delayMs endpointLimit.delayMs
  if exceeded then
    let now ← call .now
    postpone deliveryId expectedAttempt (now + delayMs.toNat)
  else deliver cfg g parse config delivery.id expectedAttempt

def limit (delivery : DispatchableDelivery) : DeliveryProgram Unit := do
  let tenantLimit ← call (.checkRateLimit (.tenant delivery.event.tenantId) delivery.tenant.rateLimit)
  let endpointLimit ←
    if !tenantLimit.exceeded && delivery.endpoint.rateLimit.getD 0 != 0 then
      call (.checkRateLimit (.endpoint delivery.row.endpointId) (delivery.endpoint.rateLimit.getD 0))
    else pure ⟨false, 0, 0⟩
  limited cfg g parse config deliveryId expectedAttempt delivery tenantLimit endpointLimit

/-- `ProcessDeliveryUseCase.execute` -/
def execute : DeliveryProgram Unit := do
  let delivery ← call (.findById deliveryId)
  match delivery with
  | none => pure ()
  | some delivery =>
    if delivery.row.status.terminal then pure ()
    else if !delivery.endpoint.isActive then call (.markCancelled deliveryId "Endpoint is inactive")
    else limit cfg g parse config deliveryId expectedAttempt delivery

end DeliveryProgram

end WebhookEngine
