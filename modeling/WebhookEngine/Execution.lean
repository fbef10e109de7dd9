import WebhookEngine.Effects
import WebhookEngine.Signing
import WebhookEngine.System

/-! One execution of the executor over ports that may throw at every call. Its one `try`
covers the request and the write of its success alike. -/

namespace WebhookEngine

open Effects

structure DeliveryResult where
  status : Nat
  data : String
  deriving DecidableEq, Repr

/-- The answers of everything an execution calls. What it computes from a failure and the
clock is `nextAttemptAt`. -/
structure ExecutorPorts where
  claimForProcessing : Nat → Nat → Except SendError (Option DispatchableDelivery)
  securityHeaders : DispatchableDelivery → Except SendError WebhookHeaders
  send : String → Envelope → WebhookHeaders → Except SendError DeliveryResult
  write : Nat → OutcomeWrite → Except SendError Unit
  nextAttemptAt : DispatchableDelivery → SendError → Time

inductive ExecutorCall where
  | claimForProcessing (id expectedAttempt : Nat)
  | send (url : String) (envelope : Envelope) (headers : WebhookHeaders)
  | write (id : Nat) (w : OutcomeWrite)
  deriving DecidableEq, Repr

namespace DeliveryExecutorService

variable (cfg : Config) (p : ExecutorPorts)

def write (id : Nat) (w : OutcomeWrite) : Run SendError ExecutorCall Unit :=
  .call (.write id w) (p.write id w)

def attempt (delivery : DispatchableDelivery) : Run SendError ExecutorCall Unit := do
  let securityHeaders ← Run.compute (p.securityHeaders delivery)
  let response ← Run.call (.send delivery.endpoint.url delivery.envelope securityHeaders)
    (p.send delivery.endpoint.url delivery.envelope securityHeaders)
  write p delivery.id (.success response.status (successSnippet cfg response.status response.data))

def failed (delivery : DispatchableDelivery) (error : SendError) : Run SendError ExecutorCall Unit :=
  write p delivery.id (outcomeWrite cfg delivery (p.nextAttemptAt delivery error) (.rejected error))

def execute (id expectedAttempt : Nat) : Run SendError ExecutorCall Unit := do
  let claimed ← Run.call (.claimForProcessing id expectedAttempt) (p.claimForProcessing id expectedAttempt)
  match claimed with
  | none => pure ()
  | some delivery => tryCatch (attempt cfg p delivery) (failed cfg p delivery)

end DeliveryExecutorService

/-- The execution claims the delivery and its request is accepted. -/
structure Accepted (p : ExecutorPorts) (id expectedAttempt : Nat) (delivery : DispatchableDelivery)
    (response : DeliveryResult) : Prop where
  claimed : p.claimForProcessing id expectedAttempt = .ok (some delivery)
  sent : ∃ headers, p.securityHeaders delivery = .ok headers ∧
    p.send delivery.endpoint.url delivery.envelope headers = .ok response

def OutcomeWrite.isSuccess : OutcomeWrite → Bool
  | .success .. => true
  | _ => false

def AcceptedKept (cfg : Config) (p : ExecutorPorts) (id expectedAttempt : Nat) : Prop :=
  ∀ delivery response, Accepted p id expectedAttempt delivery response →
    ∀ i w, .write i w ∈ (DeliveryExecutorService.execute cfg p id expectedAttempt).calls → w.isSuccess = true

def SuccessWritten (cfg : Config) (p : ExecutorPorts) (id expectedAttempt : Nat) : Prop :=
  ∀ delivery response, Accepted p id expectedAttempt delivery response →
    p.write delivery.id (.success response.status (successSnippet cfg response.status response.data)) = .ok ()

namespace DeliveryExecutorService

variable {cfg : Config} {p : ExecutorPorts} {id expectedAttempt : Nat} {delivery : DispatchableDelivery}
  {response : DeliveryResult} {headers : WebhookHeaders}

theorem attempt_sent (cfg : Config) (hheaders : p.securityHeaders delivery = .ok headers)
    (hsend : p.send delivery.endpoint.url delivery.envelope headers = .ok response) :
    attempt cfg p delivery =
      ⟨[.send delivery.endpoint.url delivery.envelope headers,
        .write delivery.id (.success response.status (successSnippet cfg response.status response.data))],
        p.write delivery.id (.success response.status (successSnippet cfg response.status response.data))⟩ := by
  rw [attempt, Run.bind_of_ok _ hheaders, Run.bind_of_ok _ hsend]
  rfl

theorem execute_claimed (hclaim : p.claimForProcessing id expectedAttempt = .ok (some delivery)) :
    (execute cfg p id expectedAttempt).calls =
      .claimForProcessing id expectedAttempt ::
        (tryCatch (attempt cfg p delivery) (failed cfg p delivery)).calls := by
  rw [execute, Run.bind_of_ok _ hclaim]
  rfl

theorem rejected_writes {e : SendError} (hclaim : p.claimForProcessing id expectedAttempt = .ok (some delivery))
    (hheaders : p.securityHeaders delivery = .ok headers)
    (hsend : p.send delivery.endpoint.url delivery.envelope headers = .error e) :
    .write delivery.id (outcomeWrite cfg delivery (p.nextAttemptAt delivery e) (.rejected e)) ∈
      (execute cfg p id expectedAttempt).calls := by
  have hattempt : (attempt cfg p delivery).result = .error e := by
    rw [attempt, Run.bind_of_ok _ hheaders, Run.bind_of_error _ hsend]
  rw [execute_claimed hclaim, Run.tryCatch_of_error _ hattempt]
  refine List.mem_cons_of_mem _ (List.mem_append_right _ ?_)
  exact List.mem_cons_self

theorem outcomeWrite_rejected {t : Time} {e : SendError} :
    (outcomeWrite cfg delivery t (.rejected e)).isSuccess = false := by
  simp only [outcomeWrite]
  split <;> rfl

/-- The writes of an execution whose request is accepted: the success, and what is made of a
success that throws. -/
theorem accepted_writes (h : Accepted p id expectedAttempt delivery response) {i : Nat} {w : OutcomeWrite} :
    .write i w ∈ (execute cfg p id expectedAttempt).calls ↔ i = delivery.id ∧
      (w = .success response.status (successSnippet cfg response.status response.data) ∨
        ∃ e, p.write delivery.id (.success response.status
            (successSnippet cfg response.status response.data)) = .error e ∧
          w = outcomeWrite cfg delivery (p.nextAttemptAt delivery e) (.rejected e)) := by
  obtain ⟨hclaim, headers, hheaders, hsend⟩ := h
  have hattempt := attempt_sent cfg hheaders hsend
  rw [execute_claimed hclaim]
  cases hwrite : p.write delivery.id
      (.success response.status (successSnippet cfg response.status response.data)) with
  | ok u =>
    rw [Run.tryCatch_of_ok _ (by rw [hattempt, hwrite]), hattempt]
    simp
  | error e =>
    rw [Run.tryCatch_of_error _ (by rw [hattempt, hwrite]), hattempt]
    simp only [failed, write, Run.calls_call, List.cons_append, List.nil_append, List.mem_cons, List.not_mem_nil,
      or_false, reduceCtorEq, false_or, ExecutorCall.write.injEq, Except.error.injEq, exists_eq_left']
    rw [← and_or_left]

/-- An execution whose success finds no row writes next what the system's worker settles next. -/
theorem writes_settling {s : System} {c : Claimed} {status : Nat} {data : String} {delayMs : Nat}
    (h : Accepted p id expectedAttempt c.delivery ⟨status, data⟩)
    (hnext : p.nextAttemptAt c.delivery recordNotFound = s.now + delayMs)
    (hwrite : p.write c.delivery.id (s.outcome cfg c (.resolved status data) delayMs) = .error recordNotFound) :
    ∃ result, (s.outcome cfg c (.resolved status data) delayMs).onThrow c = .settling c result ∧
      .write c.delivery.id (s.outcome cfg c result delayMs) ∈ (execute cfg p id expectedAttempt).calls := by
  refine ⟨.rejected recordNotFound, rfl, ?_⟩
  have hfailed : s.outcome cfg c (.rejected recordNotFound) delayMs =
      outcomeWrite cfg c.delivery (p.nextAttemptAt c.delivery recordNotFound) (.rejected recordNotFound) := by
    rw [hnext]
    rfl
  rw [hfailed]
  exact (accepted_writes h).mpr ⟨rfl, .inr ⟨recordNotFound, hwrite, rfl⟩⟩

end DeliveryExecutorService

/-- An accepted request is not reported as failed just when the write of its success goes through. -/
theorem accepted_kept_iff (cfg : Config) (p : ExecutorPorts) (id expectedAttempt : Nat) :
    AcceptedKept cfg p id expectedAttempt ↔ SuccessWritten cfg p id expectedAttempt := by
  constructor
  · intro h delivery response haccepted
    cases hwrite : p.write delivery.id
        (.success response.status (successSnippet cfg response.status response.data)) with
    | ok u => rfl
    | error e =>
      have hcalled := (DeliveryExecutorService.accepted_writes haccepted).mpr ⟨rfl, .inr ⟨e, hwrite, rfl⟩⟩
      have hsuccess := h delivery response haccepted _ _ hcalled
      rw [DeliveryExecutorService.outcomeWrite_rejected] at hsuccess
      cases hsuccess
  · intro h delivery response haccepted i w hcalled
    obtain ⟨_, rfl | ⟨e, hwrite, _⟩⟩ := (DeliveryExecutorService.accepted_writes haccepted).mp hcalled
    · rfl
    · rw [h delivery response haccepted] at hwrite
      cases hwrite

/-- What the database client throws when its server does not answer. -/
def serverUnreachable : SendError where
  responseStatus := none
  responseData := none
  status := none
  message := some "Can't reach database server"

/-- A first attempt whose request is accepted while the database is away. -/
def unreachablePorts : ExecutorPorts where
  claimForProcessing id _ :=
    .ok (some
      { id := id
        row := ⟨0, 0, .processing, 1, some 0, none, none, none, 0⟩
        endpoint := ⟨0, "https://example.com/hook", "whsec", none, none, none, true, 0⟩
        event := ⟨0, "order-1", "order.created", "{}", .processing, 0, 0⟩
        tenant := ⟨"shop", "", 10, true⟩ })
  securityHeaders _ := .ok ⟨"0", "v1=", none⟩
  send _ _ _ := .ok ⟨200, "OK"⟩
  write _ w := if w.isSuccess then .error serverUnreachable else .ok ()
  nextAttemptAt _ _ := 1000

theorem accepted_retried : ¬ ∀ (cfg : Config) (p : ExecutorPorts) (id expectedAttempt : Nat),
    AcceptedKept cfg p id expectedAttempt := by
  intro h
  have haccepted : Accepted unreachablePorts 0 1 _ ⟨200, "OK"⟩ := ⟨rfl, _, rfl, rfl⟩
  have hretried : .write 0 (.retry ⟨0, 500, "HTTP 500", 1000, 2⟩) ∈
      (DeliveryExecutorService.execute .defaults unreachablePorts 0 1).calls := by decide +kernel
  have hsuccess := h .defaults unreachablePorts 0 1 _ _ haccepted _ _ hretried
  cases hsuccess

end WebhookEngine
