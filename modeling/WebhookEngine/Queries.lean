import WebhookEngine.Endpoints

/-! What a tenant reads of its events and deliveries, and the replay of a delivery. A query that
leaves an order open may answer in any of its orders. -/

namespace WebhookEngine

open Relational

structure Paging where
  page : Nat
  limit : Nat
  page_pos : 0 < page
  limit_pos : 0 < limit

structure Pagination where
  page : Nat
  limit : Nat
  total : Nat
  totalPages : Nat
  hasNext : Bool
  hasPrev : Bool
  deriving DecidableEq, Repr

structure Page (α : Type) where
  items : List α
  pagination : Pagination

def Paging.cut {α : Type} (p : Paging) (rows : List α) : List α :=
  (rows.drop ((p.page - 1) * p.limit)).take p.limit

theorem Paging.cut_subset {α : Type} (p : Paging) (rows : List α) : p.cut rows ⊆ rows :=
  List.Subset.trans (List.take_subset _ _) (List.drop_subset _ _)

def Paging.pagination (p : Paging) (total : Nat) : Pagination where
  page := p.page
  limit := p.limit
  total := total
  totalPages := (total + p.limit - 1) / p.limit
  hasNext := p.page * p.limit < total
  hasPrev := p.page > 1

structure TenantRef where
  id : Nat
  name : String
  deriving DecidableEq, Repr

structure EndpointRef where
  id : Nat
  url : String
  isActive : Bool
  deriving DecidableEq, Repr

/-- A delivery in a list of events. -/
structure DeliveryRef where
  id : Nat
  status : DeliveryStatus
  endpointId : Nat
  url : String
  deriving DecidableEq, Repr

structure EventItem where
  id : Nat
  row : WebhookEvent
  tenant : TenantRef
  deliveries : Multiset DeliveryRef

structure EventDetails where
  id : Nat
  row : WebhookEvent
  tenant : TenantRef
  deliveries : Multiset (Nat × Delivery × EndpointRef)

structure DeliveryItem where
  id : Nat
  row : Delivery
  type : String
  eventCreatedAt : Time
  tenant : TenantRef
  endpoint : EndpointRef
  deriving DecidableEq, Repr

structure DeliveryDetails where
  id : Nat
  row : Delivery
  event : WebhookEvent
  tenant : TenantRef
  endpoint : EndpointRef
  deriving DecidableEq, Repr

structure EventListQuery where
  status : Option EventStatus
  type : Option String
  after : Option Time
  before : Option Time
  paging : Paging

structure DeliveryListQuery where
  status : Option DeliveryStatus
  eventId : Option Nat
  endpointId : Option Nat
  after : Option Time
  before : Option Time
  paging : Paging

/-- `createdAt` between `from` and `to`, where they are given. -/
def within (after before : Option Time) (createdAt : Time) : Bool :=
  after.all (· ≤ createdAt) && before.all (createdAt ≤ ·)

/-- An empty type is no filter. -/
def EventListQuery.accepts (query : EventListQuery) (tenantId : Nat) (e : WebhookEvent) : Bool :=
  e.tenantId == tenantId && query.status.all (· == e.status) &&
    (query.type.filter (· != "")).all (· == e.type) && within query.after query.before e.createdAt

namespace Database

def tenantRef (db : Database) (id : Nat) : Option TenantRef :=
  (db.tenants.row id).map fun t => ⟨id, t.name⟩

def endpointRef (db : Database) (id : Nat) : Option EndpointRef :=
  (db.endpoints.row id).map fun e => ⟨id, e.url, e.isActive⟩

def eventDeliveries {α : Type} (db : Database) (eventId : Nat) (f : Nat → Delivery → EndpointRef → α) :
    Multiset α :=
  ((db.deliveries.select fun _ r => r.eventId == eventId).filterMap fun p =>
    (db.endpointRef p.2.endpointId).map (f p.1 p.2) : List α)

/-- The event of the delivery is the tenant's. -/
def ownsDelivery (db : Database) (tenantId : Nat) (r : Delivery) : Bool :=
  (db.events.row r.eventId).any (·.tenantId == tenantId)

end Database

def DeliveryListQuery.accepts (query : DeliveryListQuery) (db : Database) (tenantId : Nat) (r : Delivery) :
    Bool :=
  db.ownsDelivery tenantId r && query.status.all (· == r.status) && query.eventId.all (· == r.eventId) &&
    query.endpointId.all (· == r.endpointId) && within query.after query.before r.createdAt

namespace PrismaEventsRepository

def item (db : Database) (id : Nat) (e : WebhookEvent) : Option EventItem :=
  (db.tenantRef e.tenantId).map fun tenant =>
    ⟨id, e, tenant, db.eventDeliveries id fun d r endpoint => ⟨d, r.status, endpoint.id, endpoint.url⟩⟩

def findAll (db : Database) (tenantId : Nat) (query : EventListQuery) (answer : Page EventItem) : Prop :=
  ∃ rows, db.events.Ordered (fun _ e => query.accepts tenantId e) WebhookEvent.createdAt rows ∧
    answer = ⟨(query.paging.cut rows).filterMap fun p => item db p.1 p.2,
      query.paging.pagination (db.events.select fun _ e => query.accepts tenantId e).length⟩

def findById (db : Database) (id tenantId : Nat) : Option EventDetails := do
  let e ← db.events.row id
  if e.tenantId = tenantId then
    let tenant ← db.tenantRef e.tenantId
    some ⟨id, e, tenant, db.eventDeliveries id fun d r endpoint => (d, r, endpoint)⟩
  else none

end PrismaEventsRepository

namespace PrismaDeliveriesRepository

def item (db : Database) (id : Nat) (r : Delivery) : Option DeliveryItem := do
  let e ← db.events.row r.eventId
  let tenant ← db.tenantRef e.tenantId
  let endpoint ← db.endpointRef r.endpointId
  some ⟨id, r, e.type, e.createdAt, tenant, endpoint⟩

def findAll (db : Database) (tenantId : Nat) (query : DeliveryListQuery) (answer : Page DeliveryItem) :
    Prop :=
  ∃ rows, db.deliveries.Ordered (fun _ r => query.accepts db tenantId r) Delivery.createdAt rows ∧
    answer = ⟨(query.paging.cut rows).filterMap fun p => item db p.1 p.2,
      query.paging.pagination (db.deliveries.select fun _ r => query.accepts db tenantId r).length⟩

def findById (db : Database) (id tenantId : Nat) : Option DeliveryDetails := do
  let r ← db.deliveries.row id
  let e ← db.events.row r.eventId
  if e.tenantId = tenantId then
    let tenant ← db.tenantRef e.tenantId
    let endpoint ← db.endpointRef r.endpointId
    some ⟨id, r, e, tenant, endpoint⟩
  else none

/-- The transaction with the row it answers. -/
def resetForReplay (now : Time) (db : Database) (id : Nat) : Except PrismaError (Database × Delivery) :=
  match db.deliveries.row id, db.resetForReplay now id with
  | some r, some db' => .ok (db', r.reset now)
  | _, _ => .error .p2025

end PrismaDeliveriesRepository

inductive ReplayAnswer where
  | unchanged (delivery : DeliveryDetails)
  | reset (row : Delivery)
  deriving DecidableEq, Repr

section UseCases

variable (now : Time) (db : Database) (id tenantId : Nat)

def GetEventUseCase.execute : Except ApiError EventDetails :=
  match PrismaEventsRepository.findById db id tenantId with
  | some event => .ok event
  | none => .error (.notFound s!"Event with ID {id} not found")

def GetDeliveryUseCase.execute : Except ApiError DeliveryDetails :=
  match PrismaDeliveriesRepository.findById db id tenantId with
  | some delivery => .ok delivery
  | none => .error (.notFound s!"Delivery with ID {id} not found")

def ReplayDeliveryUseCase.execute : Except ApiError (Database × ReplayAnswer) :=
  match PrismaDeliveriesRepository.findById db id tenantId with
  | none => .error (.notFound s!"Delivery with ID {id} not found")
  | some delivery =>
    if delivery.row.status = .success then .ok (db, .unchanged delivery)
    else rethrow ((PrismaDeliveriesRepository.resetForReplay now db id).map fun p => (p.1, .reset p.2))

end UseCases

end WebhookEngine
