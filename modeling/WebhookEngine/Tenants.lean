import WebhookEngine.Endpoints

/-! The tenants' repository, the API keys and the guard that reads them. -/

namespace WebhookEngine

open Relational

structure TenantEndpointInput where
  url : String
  secretKey : String
  eventTypes : List String
  rateLimit : Option Nat
  deriving DecidableEq, Repr

structure CreateTenantInput where
  name : String
  apiKeyHash : String
  rateLimit : Option Nat
  endpoints : List TenantEndpointInput
  deriving DecidableEq, Repr

structure UpdateTenantInput where
  name : Option String
  rateLimit : Option Nat
  deriving DecidableEq, Repr

def UpdateTenantInput.data (input : UpdateTenantInput) (t : Tenant) : Tenant :=
  { t with
    name := input.name.getD t.name
    rateLimit := input.rateLimit.getD t.rateLimit }

namespace Database

/-- Another tenant than `id` holds the place in the unique index on `apiKeyHash`. -/
def hashTaken (db : Database) (id : Nat) (apiKeyHash : String) : Bool :=
  !(db.tenants.select fun i t => i != id && t.apiKeyHash == apiKeyHash).isEmpty

def updateTenant (db : Database) (id : Nat) (data : Tenant → Tenant) : Except PrismaError Database :=
  match db.tenants.row id with
  | none => .error .p2025
  | some t =>
    if db.hashTaken id (data t).apiKeyHash then .error .p2002
    else .ok { db with tenants := db.tenants.modify id data }

end Database

namespace PrismaTenantsRepository

def endpoint (now : Time) (tenantId : Nat) (input : TenantEndpointInput) : Endpoint where
  tenantId := tenantId
  url := input.url
  secretKey := input.secretKey
  previousSecretKey := none
  previousSecretExpiresAt := none
  rateLimit := input.rateLimit
  isActive := true
  createdAt := now

def tenant (input : CreateTenantInput) : Tenant where
  name := input.name
  apiKeyHash := input.apiKeyHash
  rateLimit := input.rateLimit.getD 10
  isActive := true

/-- The tenant with its endpoints and their subscriptions, which are not made unique here. -/
def create (now : Time) (db : Database) (input : CreateTenantInput) : Except PrismaError Database :=
  let id := db.tenants.next
  if db.hashTaken id input.apiKeyHash ∨ ¬(input.endpoints.map TenantEndpointInput.url).Nodup ∨
      (∃ e ∈ input.endpoints, ¬e.eventTypes.Nodup) then .error .p2002
  else
    let ids := List.range' db.endpoints.next input.endpoints.length
    .ok { db with
      tenants := db.tenants.insert (tenant input)
      endpoints := db.endpoints.insertAll (input.endpoints.map (endpoint now id))
      subscriptions := db.subscriptions ++
        (ids.zip input.endpoints).flatMap fun p => p.2.eventTypes.map fun t => ⟨p.1, t⟩ }

def findById (db : Database) (id : Nat) : Option Tenant := db.tenants.row id

def update (db : Database) (id : Nat) (input : UpdateTenantInput) : Except PrismaError Database :=
  db.updateTenant id input.data

def delete (db : Database) (id : Nat) : Except PrismaError Database :=
  db.updateTenant id fun t => { t with isActive := false }

def updateApiKeyHash (db : Database) (id : Nat) (apiKeyHash : String) : Except PrismaError Database :=
  db.updateTenant id fun t => { t with apiKeyHash := apiKeyHash }

theorem create_eq_ok {now : Time} {db db' : Database} {input : CreateTenantInput} :
    create now db input = .ok db' ↔
      (db.hashTaken db.tenants.next input.apiKeyHash = false ∧
        (input.endpoints.map TenantEndpointInput.url).Nodup ∧
        ∀ e ∈ input.endpoints, e.eventTypes.Nodup) ∧
      { db with
        tenants := db.tenants.insert (tenant input)
        endpoints := db.endpoints.insertAll (input.endpoints.map (endpoint now db.tenants.next))
        subscriptions := db.subscriptions ++
          ((List.range' db.endpoints.next input.endpoints.length).zip input.endpoints).flatMap
            fun p => p.2.eventTypes.map fun t => ⟨p.1, t⟩ } = db' := by
  simp only [create]
  split
  · rename_i hbroken
    simp only [reduceCtorEq, false_iff, not_and]
    rintro ⟨hhash, hurls, htypes⟩
    rcases hbroken with h | h | ⟨e, he, h⟩
    · rw [hhash] at h
      cases h
    · exact absurd hurls h
    · exact absurd (htypes e he) h
  · rename_i hkept
    simp only [not_or, not_exists, not_and, not_not, Bool.not_eq_true] at hkept
    simp only [hkept, true_and, Except.ok.injEq]
    exact ⟨fun h => ⟨hkept.2.2, h⟩, fun h => h.2⟩

theorem updateTenant_eq_ok {db db' : Database} {id : Nat} {data : Tenant → Tenant} :
    db.updateTenant id data = .ok db' ↔ ∃ t, db.tenants.row id = some t ∧
      db.hashTaken id (data t).apiKeyHash = false ∧
      { db with tenants := db.tenants.modify id data } = db' := by
  cases h : db.tenants.row id with
  | none => simp [Database.updateTenant, h]
  | some t =>
    simp only [Database.updateTenant, h, Option.some.injEq, exists_eq_left']
    split <;> simp_all

end PrismaTenantsRepository

/-! ### Keys -/

def isLowerHex (c : Char) : Bool := ('0' ≤ c && c ≤ '9') || ('a' ≤ c && c ≤ 'f')

/-- The texts `generateApiKey` can return. -/
def isApiKey (text : String) : Bool :=
  text.toList.take 4 == "whk_".toList && (text.toList.drop 4).length == 64 &&
    (text.toList.drop 4).all isLowerHex

/-- The credential in `/^Bearer (whk_[a-f0-9]\x7b64\x7d)$/i`: the pattern ignores the case of its
letters, and the credential is handed on as it stands in the header. -/
def bearerCredential (authorization : String) : Option String :=
  let scheme := authorization.toList.take 7
  let credential := authorization.toList.drop 7
  if scheme.map Char.toLower == "bearer ".toList && (credential.take 4).map Char.toLower == "whk_".toList &&
      (credential.drop 4).length == 64 && (credential.drop 4).all fun c => isLowerHex c.toLower then
    some (String.ofList credential)
  else none

/-- `TenantApiKeyGuard.canActivate`, with the tenant the request is let in as. -/
def canActivate (hashApiKey : String → String) (db : Database) (authorization : Option String) :
    Except ApiError Nat :=
  match authorization.bind bearerCredential with
  | none => .error (.unauthorized "A valid tenant API key is required")
  | some credential =>
    match (db.tenants.select fun _ t => t.apiKeyHash == hashApiKey credential && t.isActive).head? with
    | none => .error (.unauthorized "Invalid tenant API key")
    | some tenant => .ok tenant.1

end WebhookEngine
