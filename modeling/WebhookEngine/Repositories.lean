import WebhookEngine.Schema

/-! The database transactions of the delivery pipeline, one definition for each
repository method. A transaction answers `none` where it throws and is rolled
back: a row updated by identifier that is not there, or a broken constraint. -/

namespace WebhookEngine

open Relational

def calculateEventStatus (deliveryStatuses : List DeliveryStatus) : EventStatus :=
  let unfinished := deliveryStatuses.any fun s => [.pending, .processing, .failed].contains s
  if unfinished then .processing
  else
    let hasTerminalFailure := deliveryStatuses.any fun s => [.dlq, .cancelled].contains s
    if hasTerminalFailure then .failed else .done

/-- A delivery with the rows its queries include. -/
structure DispatchableDelivery where
  id : Nat
  row : Delivery
  endpoint : Endpoint
  event : WebhookEvent
  tenant : Tenant
  deriving DecidableEq, Repr

structure DeliveryFailureInput where
  id : Nat
  statusCode : Nat
  responseSnippet : String
  nextAttemptAt : Time
  nextAttemptNumber : Nat
  deriving DecidableEq, Repr

/-- `payload` is the text its column will keep. -/
structure CreateWebhookEventInput where
  tenantId : Nat
  idempotencyKey : String
  type : String
  payload : String
  deriving DecidableEq, Repr

namespace Delivery

def claim (now : Time) (r : Delivery) : Delivery :=
  { r with
    status := .processing
    attempts := r.attempts + 1
    lastAttemptAt := some now
    nextAttemptAt := none }

def succeed (statusCode : Nat) (responseSnippet : String) (r : Delivery) : Delivery :=
  { r with
    status := .success
    httpStatusCode := some statusCode
    responseSnippet := some responseSnippet
    nextAttemptAt := none }

def deadLetter (statusCode : Nat) (responseSnippet : String) (r : Delivery) : Delivery :=
  { r with
    status := .dlq
    httpStatusCode := some statusCode
    responseSnippet := some responseSnippet
    nextAttemptAt := none }

def cancel (reason : String) (r : Delivery) : Delivery :=
  { r with
    status := .cancelled
    responseSnippet := some reason
    nextAttemptAt := none }

def fail (input : DeliveryFailureInput) (r : Delivery) : Delivery :=
  { r with
    status := .failed
    httpStatusCode := some input.statusCode
    responseSnippet := some input.responseSnippet
    nextAttemptAt := some input.nextAttemptAt }

def rateLimit (nextAttemptAt : Time) (r : Delivery) : Delivery :=
  { r with
    status := .pending
    nextAttemptAt := some nextAttemptAt }

def recover (now : Time) (r : Delivery) : Delivery :=
  { r with
    status := .failed
    nextAttemptAt := some now }

def reset (now : Time) (r : Delivery) : Delivery :=
  { r with
    status := .pending
    attempts := 0
    lastAttemptAt := none
    nextAttemptAt := some now
    httpStatusCode := none
    responseSnippet := none }

/-- The `where` of `claimForProcessing`. Attempt numbers are positive, so
`attempts = expectedAttempt - 1` is written without the subtraction. -/
def claimableAs (expectedAttempt : Nat) (r : Delivery) : Bool :=
  r.attempts + 1 == expectedAttempt && r.status.claimable

/-- The `where` of the stale recovery. -/
def staleBefore (cutoff : Time) (r : Delivery) : Bool :=
  r.status == .processing && r.lastAttemptAt.any (· < cutoff)

def created (now : Time) (eventId endpointId : Nat) : Delivery where
  eventId := eventId
  endpointId := endpointId
  status := .pending
  attempts := 0
  lastAttemptAt := none
  nextAttemptAt := none
  httpStatusCode := none
  responseSnippet := none
  createdAt := now

end Delivery

def DeliveryOutbox.created (now : Time) (deliveryId availableAt attemptNumber : Nat) :
    DeliveryOutbox where
  deliveryId := deliveryId
  availableAt := availableAt
  attemptNumber := attemptNumber
  publishedAt := none
  attempts := 0
  lastError := none
  createdAt := now

def WebhookEvent.setStatus (now : Time) (status : EventStatus) (e : WebhookEvent) : WebhookEvent :=
  { e with status := status, updatedAt := now }

namespace Database

def statuses (db : Database) (eventId : Nat) : List DeliveryStatus :=
  (db.deliveries.select fun _ r => r.eventId == eventId).map fun p => p.2.status

def updateEvent (now : Time) (db : Database) (eventId : Nat) (status : EventStatus) :
    Option Database :=
  if (db.events.row eventId).isSome then
    some { db with events := db.events.modify eventId (WebhookEvent.setStatus now status) }
  else none

def createOutbox (db : Database) (o : DeliveryOutbox) : Database :=
  { db with deliveryOutbox := db.deliveryOutbox.insert o }

/-- `tx.delivery.update({ where: { id }, data })`, answering with the row. -/
def updateDelivery (db : Database) (id : Nat) (data : Delivery → Delivery) :
    Option (Database × Delivery) :=
  (db.deliveries.row id).map fun r =>
    ({ db with deliveries := db.deliveries.modify id data }, data r)

def findById (db : Database) (id : Nat) : Option DispatchableDelivery := do
  let row ← db.deliveries.row id
  let endpoint ← db.endpoints.row row.endpointId
  let event ← db.events.row row.eventId
  let tenant ← db.tenants.row event.tenantId
  return ⟨id, row, endpoint, event, tenant⟩

def refreshEventStatus (now : Time) (db : Database) (eventId : Nat) : Option Database :=
  db.updateEvent now eventId (calculateEventStatus (db.statuses eventId))

def claimForProcessing (now : Time) (db : Database) (id expectedAttempt : Nat) :
    Database × Option DispatchableDelivery :=
  match db.deliveries.row id with
  | none => (db, none)
  | some r =>
    if r.claimableAs expectedAttempt then
      let claimed := { db with deliveries := db.deliveries.modify id (Delivery.claim now) }
      match claimed.findById id with
      | none => (claimed, none)
      | some delivery =>
        ({ claimed with
            events := claimed.events.modify delivery.row.eventId (.setStatus now .processing) },
          some delivery)
    else (db, none)

/-- The three terminal outcomes write the row and then the event's summary. -/
def settle (now : Time) (db : Database) (id : Nat) (data : Delivery → Delivery) : Option Database := do
  let (db, delivery) ← db.updateDelivery id data
  db.refreshEventStatus now delivery.eventId

def markSuccess (now : Time) (db : Database) (id statusCode : Nat) (responseSnippet : String) :
    Option Database :=
  db.settle now id (Delivery.succeed statusCode responseSnippet)

def markDeadLetter (now : Time) (db : Database) (id statusCode : Nat) (responseSnippet : String) :
    Option Database :=
  db.settle now id (Delivery.deadLetter statusCode responseSnippet)

def markCancelled (now : Time) (db : Database) (id : Nat) (reason : String) : Option Database :=
  db.settle now id (Delivery.cancel reason)

/-- The two deferrals write the row and put the next attempt into the outbox. -/
def schedule (now : Time) (db : Database) (id : Nat) (data : Delivery → Delivery)
    (availableAt : Time) (attemptNumber : Nat) : Option Database := do
  let (db, _) ← db.updateDelivery id data
  return db.createOutbox (.created now id availableAt attemptNumber)

def markFailedAndSchedule (now : Time) (db : Database) (input : DeliveryFailureInput) :
    Option Database :=
  db.schedule now input.id (Delivery.fail input) input.nextAttemptAt input.nextAttemptNumber

def markRateLimitedAndSchedule (now : Time) (db : Database) (id : Nat) (nextAttemptAt : Time)
    (attemptNumber : Nat) : Option Database :=
  db.schedule now id (Delivery.rateLimit nextAttemptAt) nextAttemptAt attemptNumber

def resetForReplay (now : Time) (db : Database) (id : Nat) : Option Database := do
  let (db, updated) ← db.updateDelivery id (Delivery.reset now)
  let db ← db.updateEvent now updated.eventId .processing
  return db.createOutbox (.created now id now 1)

/-- The tenant read of `createForTenant`: the active endpoints of the tenant that
subscribe to the type or to everything. -/
def subscribedEndpoints (db : Database) (input : CreateWebhookEventInput) : Option (List Nat) :=
  (db.tenants.row input.tenantId).map fun _ =>
    (db.endpoints.select fun i e =>
      e.tenantId == input.tenantId && e.isActive &&
        db.subscriptions.any fun s =>
          s.endpointId == i && (s.eventType == input.type || s.eventType == "*")).map Prod.fst

/-- The transaction of `createForTenant`, under the foreign keys and the unique
index on `(tenantId, idempotencyKey)`. -/
def createForTenant (now : Time) (db : Database) (input : CreateWebhookEventInput)
    (endpointIds : List Nat) : Option Database :=
  if (db.tenants.row input.tenantId).isSome ∧
      (db.events.select fun _ e =>
        e.tenantId == input.tenantId && e.idempotencyKey == input.idempotencyKey) = [] ∧
      ∀ e ∈ endpointIds, (db.endpoints.row e).isSome then
    let event : WebhookEvent :=
      { tenantId := input.tenantId
        idempotencyKey := input.idempotencyKey
        type := input.type
        payload := input.payload
        status := if endpointIds.length = 0 then .noSubscribers else .pending
        createdAt := now
        updatedAt := now }
    let eventId := db.events.next
    let deliveryIds := List.range' db.deliveries.next endpointIds.length
    some { db with
      events := db.events.insert event
      deliveries := db.deliveries.insertAll (endpointIds.map (Delivery.created now eventId))
      deliveryOutbox := db.deliveryOutbox.insertAll (deliveryIds.map fun id => .created now id now 1) }
  else none

end Database

end WebhookEngine
