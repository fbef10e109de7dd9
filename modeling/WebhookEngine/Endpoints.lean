import Mathlib.Data.Multiset.Basic
import Mathlib.Data.List.Dedup
import WebhookEngine.Outbox

/-! The endpoints' repository and the use cases over it. A use case is given its database
operations one after the other; the outcome of `assertSafeWebhookUrl` and the generated
secret come from outside. -/

namespace WebhookEngine

open Relational

/-- The client's errors: a broken unique index, a broken foreign key, a missing record. -/
inductive PrismaError where
  | p2002
  | p2003
  | p2025
  deriving DecidableEq, Repr

inductive ApiError where
  | badRequest (message : String)
  | unauthorized (message : String)
  | notFound (message : String)
  | conflict (message : String)
  | thrown (error : PrismaError)
  deriving DecidableEq, Repr

structure EndpointInput where
  url : String
  eventTypes : List String
  rateLimit : Option Nat
  deriving DecidableEq, Repr

/-- A field that is not given stays as it is; a rate limit may be taken away. -/
structure EndpointUpdate where
  url : Option String
  eventTypes : Option (List String)
  rateLimit : Option (Option Nat)
  isActive : Option Bool
  deriving DecidableEq, Repr

structure EndpointSummary where
  id : Nat
  url : String
  isActive : Bool
  rateLimit : Option Nat
  createdAt : Option Time
  subscriptions : Multiset String
  deriving DecidableEq

def EndpointUpdate.data (input : EndpointUpdate) (e : Endpoint) : Endpoint :=
  { e with
    url := input.url.getD e.url
    isActive := input.isActive.getD e.isActive
    rateLimit := input.rateLimit.getD e.rateLimit }

def Endpoint.created (now : Time) (tenantId : Nat) (input : EndpointInput) (secretKey : String) :
    Endpoint where
  tenantId := tenantId
  url := input.url
  secretKey := secretKey
  previousSecretKey := none
  previousSecretExpiresAt := none
  rateLimit := input.rateLimit
  isActive := true
  createdAt := now

def Endpoint.rotate (secretKey current : String) (previousSecretExpiresAt : Time) (e : Endpoint) :
    Endpoint :=
  { e with
    secretKey := secretKey
    previousSecretKey := some current
    previousSecretExpiresAt := some previousSecretExpiresAt }

namespace Database

def eventTypes (db : Database) (id : Nat) : Multiset String :=
  ((db.subscriptions.filter fun s => s.endpointId == id).map EndpointSubscription.eventType : List String)

def endpointSummary (db : Database) (id : Nat) (e : Endpoint) : EndpointSummary where
  id := id
  url := e.url
  isActive := e.isActive
  rateLimit := e.rateLimit
  createdAt := none
  subscriptions := db.eventTypes id

/-- Another endpoint than `id` holds the place in the unique index on `(tenantId, url)`. -/
def urlTaken (db : Database) (tenantId id : Nat) (url : String) : Bool :=
  !(db.endpoints.select fun i e => i != id && e.tenantId == tenantId && e.url == url).isEmpty

def updateEndpoint (db : Database) (id : Nat) (data : Endpoint → Endpoint) : Except PrismaError Database :=
  if (db.endpoints.row id).isSome then .ok { db with endpoints := db.endpoints.modify id data }
  else .error .p2025

/-- The rows are a set: the repository drops repeated types. -/
def subscribe (db : Database) (id : Nat) (types : List String) : Database :=
  { db with subscriptions := db.subscriptions ++ types.dedup.map fun t => ⟨id, t⟩ }

def unsubscribe (db : Database) (id : Nat) : Database :=
  { db with subscriptions := db.subscriptions.filter fun s => s.endpointId != id }

end Database

namespace PrismaEndpointsRepository

def list (db : Database) (tenantId : Nat) (answer : List EndpointSummary) : Prop :=
  ∃ rows, db.endpoints.Ordered (fun _ e => e.tenantId == tenantId) Endpoint.createdAt rows ∧
    answer = rows.map fun p => { db.endpointSummary p.1 p.2 with createdAt := some p.2.createdAt }

def create (now : Time) (db : Database) (tenantId : Nat) (input : EndpointInput) (secretKey : String) :
    Except PrismaError (Database × EndpointSummary) :=
  let id := db.endpoints.next
  if db.urlTaken tenantId id input.url then .error .p2002
  else if (db.tenants.row tenantId).isNone then .error .p2003
  else
    let endpoint := Endpoint.created now tenantId input secretKey
    let db := { db with endpoints := db.endpoints.insert endpoint }.subscribe id input.eventTypes
    .ok (db, db.endpointSummary id endpoint)

/-- The rows of `createMany` have to point to an endpoint. -/
def replaceSubscriptions (db : Database) (id : Nat) : Option (List String) → Except PrismaError Database
  | none => .ok db
  | some types =>
    if types ≠ [] ∧ (db.endpoints.row id).isNone then .error .p2003
    else .ok ((db.unsubscribe id).subscribe id types)

def update (db : Database) (tenantId id : Nat) (input : EndpointUpdate) :
    Except PrismaError (Database × EndpointSummary) := do
  let db ← replaceSubscriptions db id input.eventTypes
  match db.endpoints.row id with
  | none => .error .p2025
  | some e =>
    if e.tenantId ≠ tenantId then .error .p2025
    else if db.urlTaken tenantId id (input.data e).url then .error .p2002
    else
      let db := { db with endpoints := db.endpoints.modify id input.data }
      .ok (db, db.endpointSummary id (input.data e))

def findOwned (db : Database) (tenantId id : Nat) : Option Nat :=
  (db.endpoints.row id).bind fun e => if e.tenantId = tenantId then some id else none

def softDelete (db : Database) (id : Nat) : Except PrismaError Database :=
  db.updateEndpoint id fun e => { e with isActive := false }

def findSecret (db : Database) (id : Nat) : Except PrismaError String :=
  match db.endpoints.row id with
  | some e => .ok e.secretKey
  | none => .error .p2025

/-- The second half of `rotateSecret`, with what `findSecret` has answered. -/
def writeSecret (db : Database) (id : Nat) (secretKey current : String) (previousSecretExpiresAt : Time) :
    Except PrismaError Database :=
  db.updateEndpoint id (.rotate secretKey current previousSecretExpiresAt)

def rotateSecret (db : Database) (id : Nat) (secretKey : String) (previousSecretExpiresAt : Time) :
    Except PrismaError Database := do
  let current ← findSecret db id
  writeSecret db id secretKey current previousSecretExpiresAt

section Effects

variable {now : Time} {db db' : Database} {tenantId id : Nat} {answer : EndpointSummary}

theorem updateEndpoint_eq_ok {data : Endpoint → Endpoint} :
    db.updateEndpoint id data = .ok db' ↔ (db.endpoints.row id).isSome = true ∧
      { db with endpoints := db.endpoints.modify id data } = db' := by
  simp only [Database.updateEndpoint]
  split <;> simp_all

theorem create_eq_ok {input : EndpointInput} {secretKey : String} :
    create now db tenantId input secretKey = .ok (db', answer) ↔
      db.urlTaken tenantId db.endpoints.next input.url = false ∧
      (db.tenants.row tenantId).isSome = true ∧
      { db with endpoints := db.endpoints.insert (.created now tenantId input secretKey) }.subscribe
        db.endpoints.next input.eventTypes = db' ∧
      db'.endpointSummary db.endpoints.next (.created now tenantId input secretKey) = answer := by
  simp only [create]
  split
  · simp_all
  · split
    · simp_all
    · rename_i htaken htenant
      have hsome : (db.tenants.row tenantId).isSome = true := by
        cases hrow : db.tenants.row tenantId with
        | none => simp [hrow] at htenant
        | some _ => rfl
      simp only [Bool.not_eq_true] at htaken
      simp only [htaken, hsome, Except.ok.injEq, Prod.mk.injEq, true_and]
      constructor
      · rintro ⟨rfl, rfl⟩
        exact ⟨rfl, rfl⟩
      · rintro ⟨rfl, rfl⟩
        exact ⟨rfl, rfl⟩

def resubscribed (db : Database) (id : Nat) (types : Option (List String)) : Database :=
  types.elim db ((db.unsubscribe id).subscribe id)

theorem replaceSubscriptions_endpoints {types : Option (List String)}
    (h : replaceSubscriptions db id types = .ok db') : db'.endpoints = db.endpoints := by
  cases types with
  | none =>
    cases h
    rfl
  | some types =>
    simp only [replaceSubscriptions] at h
    split at h
    · cases h
    · cases h
      rfl

theorem update_of_owned {input : EndpointUpdate} {e : Endpoint} (hrow : db.endpoints.row id = some e)
    (htenant : e.tenantId = tenantId) :
    update db tenantId id input =
      if db.urlTaken tenantId id (input.data e).url then .error .p2002
      else
        let db := { resubscribed db id input.eventTypes with endpoints := db.endpoints.modify id input.data }
        .ok (db, db.endpointSummary id (input.data e)) := by
  have hreplaced : replaceSubscriptions db id input.eventTypes = .ok (resubscribed db id input.eventTypes) := by
    cases htypes : input.eventTypes with
    | none => rfl
    | some types => simp [replaceSubscriptions, resubscribed, hrow]
  have hendpoints : (resubscribed db id input.eventTypes).endpoints = db.endpoints := by
    cases input.eventTypes <;> rfl
  have htaken : ∀ url, (resubscribed db id input.eventTypes).urlTaken tenantId id url =
      db.urlTaken tenantId id url := by
    intro url
    simp only [Database.urlTaken, hendpoints]
  simp only [update, hreplaced, bind, Except.bind, hendpoints, hrow, htaken, htenant, ne_eq, not_true_eq_false,
    if_false]

theorem update_eq_ok {input : EndpointUpdate} :
    update db tenantId id input = .ok (db', answer) ↔ ∃ e, db.endpoints.row id = some e ∧
      e.tenantId = tenantId ∧ db.urlTaken tenantId id (input.data e).url = false ∧
      { resubscribed db id input.eventTypes with endpoints := db.endpoints.modify id input.data } = db' ∧
      db'.endpointSummary id (input.data e) = answer := by
  by_cases howned : ∃ e, db.endpoints.row id = some e ∧ e.tenantId = tenantId
  · obtain ⟨e, hrow, htenant⟩ := howned
    rw [update_of_owned hrow htenant]
    cases htaken : db.urlTaken tenantId id (input.data e).url with
    | true =>
      simp only [if_true, reduceCtorEq, hrow, Option.some.injEq, exists_eq_left', htaken, Bool.true_eq_false,
        false_and, and_false]
    | false =>
      simp only [Bool.false_eq_true, if_false, Except.ok.injEq, Prod.mk.injEq, hrow, Option.some.injEq,
        exists_eq_left', htenant, htaken, true_and]
      constructor
      · rintro ⟨rfl, rfl⟩
        exact ⟨rfl, rfl⟩
      · rintro ⟨rfl, rfl⟩
        exact ⟨rfl, rfl⟩
  · constructor
    · intro hok
      exfalso
      simp only [update, bind, Except.bind] at hok
      split at hok
      · cases hok
      · rename_i db₁ hreplaced
        have hendpoints : db₁.endpoints = db.endpoints := replaceSubscriptions_endpoints hreplaced
        rw [hendpoints] at hok
        split at hok
        · cases hok
        · rename_i e hrow
          split at hok
          · cases hok
          · rename_i htenant
            exact howned ⟨e, hrow, not_not.mp htenant⟩
    · rintro ⟨e, hrow, htenant, _⟩
      exact absurd ⟨e, hrow, htenant⟩ howned

end Effects

end PrismaEndpointsRepository

def rethrow {α : Type} : Except PrismaError α → Except ApiError α :=
  Except.mapError ApiError.thrown

theorem rethrow_eq_ok {α : Type} {x : Except PrismaError α} {a : α} : rethrow x = .ok a ↔ x = .ok a := by
  cases x <;> simp [rethrow, Except.mapError]

def requireOwnedEndpoint (db : Database) (tenantId id : Nat) : Except ApiError Unit :=
  if (PrismaEndpointsRepository.findOwned db tenantId id).isSome then .ok ()
  else .error (.notFound "Endpoint not found")

section UseCases

variable (assertSafeWebhookUrl : String → Except ApiError String) (now : Time) (db : Database)
  (tenantId : Nat)

def CreateEndpointUseCase.execute (input : EndpointInput) (secretKey : String) :
    Except ApiError (Database × EndpointSummary × String) := do
  let normalizedUrl ← assertSafeWebhookUrl input.url
  match PrismaEndpointsRepository.create now db tenantId { input with url := normalizedUrl } secretKey with
  | .ok (db, endpoint) => .ok (db, endpoint, secretKey)
  | .error .p2002 => .error (.conflict "This endpoint URL already exists")
  | .error error => .error (.thrown error)

def UpdateEndpointUseCase.execute (id : Nat) (input : EndpointUpdate) :
    Except ApiError (Database × EndpointSummary) := do
  requireOwnedEndpoint db tenantId id
  let url ← input.url.mapM assertSafeWebhookUrl
  rethrow (PrismaEndpointsRepository.update db tenantId id { input with url := url })

def DeleteEndpointUseCase.execute (id : Nat) : Except ApiError Database := do
  requireOwnedEndpoint db tenantId id
  rethrow (PrismaEndpointsRepository.softDelete db id)

def rotationWindow : Nat := 24 * 60 * 60 * 1000

/-- The answer is the endpoint, its new secret and the end of the old one's time. -/
def RotateEndpointSecretUseCase.execute (id : Nat) (secretKey : String) :
    Except ApiError (Database × Nat × String × Time) := do
  requireOwnedEndpoint db tenantId id
  let previousSecretExpiresAt := now + rotationWindow
  let db ← rethrow (PrismaEndpointsRepository.rotateSecret db id secretKey previousSecretExpiresAt)
  return (db, id, secretKey, previousSecretExpiresAt)

end UseCases

end WebhookEngine
