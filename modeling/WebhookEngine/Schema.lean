import WebhookEngine.Table
import WebhookEngine.Utf16

/-! The rows of the service's store, with the columns its programs read or write.
Times are milliseconds; identifiers are handed out by the tables. -/

namespace WebhookEngine

open Relational

abbrev Time := Nat

inductive DeliveryStatus where
  | pending | processing | success | failed | dlq | cancelled
  deriving DecidableEq, Repr

inductive EventStatus where
  | pending | processing | done | failed | noSubscribers
  deriving DecidableEq, Repr

structure Tenant where
  name : String
  apiKeyHash : String
  rateLimit : Nat
  isActive : Bool
  deriving DecidableEq, Repr

structure Endpoint where
  tenantId : Nat
  url : String
  secretKey : String
  previousSecretKey : Option String
  previousSecretExpiresAt : Option Time
  rateLimit : Option Nat
  isActive : Bool
  createdAt : Time
  deriving DecidableEq, Repr

structure EndpointSubscription where
  endpointId : Nat
  eventType : String
  deriving DecidableEq, Repr

/-- `payload` is the text of the JSON value that the JSONB column answers with. -/
structure WebhookEvent where
  tenantId : Nat
  idempotencyKey : String
  type : String
  payload : String
  status : EventStatus
  createdAt : Time
  updatedAt : Time
  deriving DecidableEq, Repr

structure Delivery where
  eventId : Nat
  endpointId : Nat
  status : DeliveryStatus
  attempts : Nat
  lastAttemptAt : Option Time
  nextAttemptAt : Option Time
  httpStatusCode : Option Nat
  responseSnippet : Option String
  createdAt : Time
  deriving DecidableEq, Repr

structure DeliveryOutbox where
  deliveryId : Nat
  availableAt : Time
  attemptNumber : Nat
  publishedAt : Option Time
  attempts : Nat
  lastError : Option String
  createdAt : Time
  deriving DecidableEq, Repr

structure Database where
  tenants : Table Tenant
  endpoints : Table Endpoint
  subscriptions : List EndpointSubscription
  events : Table WebhookEvent
  deliveries : Table Delivery
  deliveryOutbox : Table DeliveryOutbox

/-- What `ConfigService` has accepted. -/
structure Config where
  maxAttempts : Nat
  staleDeliveryAge : Nat
  eventRetentionDays : Nat
  captureResponseBodies : Bool
  maxAttempts_pos : 0 < maxAttempts
  staleDeliveryAge_pos : 0 < staleDeliveryAge

def Config.defaults : Config where
  maxAttempts := 5
  staleDeliveryAge := 15 * 60 * 1000
  eventRetentionDays := 0
  captureResponseBodies := false
  maxAttempts_pos := by decide
  staleDeliveryAge_pos := by decide

/-- The statuses `claimForProcessing` accepts. -/
def DeliveryStatus.claimable (s : DeliveryStatus) : Bool := [.pending, .failed].contains s

/-- The statuses `ProcessDeliveryUseCase.execute` skips. -/
def DeliveryStatus.terminal (s : DeliveryStatus) : Bool := [.success, .dlq, .cancelled].contains s

@[simp] theorem DeliveryStatus.claimable_iff {s : DeliveryStatus} :
    s.claimable = true ↔ s = .pending ∨ s = .failed := by
  cases s <;> decide

@[simp] theorem DeliveryStatus.terminal_iff {s : DeliveryStatus} :
    s.terminal = true ↔ s = .success ∨ s = .dlq ∨ s = .cancelled := by
  cases s <;> decide

theorem DeliveryStatus.claimable_of_terminal {s : DeliveryStatus} (h : s.terminal = true) :
    s.claimable = false := by
  cases s <;> first | rfl | cases h

theorem DeliveryStatus.claimable_of_open {s : DeliveryStatus} (ht : s.terminal = false)
    (hp : s ≠ .processing) : s.claimable = true := by
  cases s with
  | pending => rfl
  | failed => rfl
  | processing => exact absurd rfl hp
  | _ => cases ht

end WebhookEngine
