import WebhookEngine.System
import WebhookEngine.Tenants

/-! The service: the running system together with the calls of its HTTP interface that write
tenants and endpoints. A call performs one database operation at a time. -/

namespace WebhookEngine

open Relational

/-- What follows the ownership check. -/
inductive OwnedRequest where
  | update (input : EndpointUpdate)
  | softDelete
  | rotateSecret
  deriving DecidableEq, Repr

/-- What follows the look-up of a tenant. -/
inductive TenantRequest where
  | update (input : UpdateTenantInput)
  | delete
  | rotateApiKey
  deriving DecidableEq, Repr

structure Rotation where
  tenantId : Nat
  id : Nat
  secretKey : String
  previousSecretExpiresAt : Time
  deriving DecidableEq, Repr

/-- A call between two of its operations. -/
inductive Session where
  | owned (tenantId id : Nat) (request : OwnedRequest)
  | generated (r : Rotation)
  | rotating (r : Rotation) (current : String)
  | found (id : Nat) (request : TenantRequest)
  | keyed (id : Nat) (apiKey : String)
  deriving DecidableEq, Repr

/-- `replayers` keeps the tenants whose replays are under way, `issued` the API keys generated
so far, and `keys` the ones whose hash has been written, newest first. -/
structure Service where
  system : System
  sessions : Nat → Option Session
  replayers : Nat → Nat
  issued : List String
  keys : List (Nat × String)

/-- URLs are normalised, secrets and keys generated before the operation that uses them. -/
inductive Operation where
  | system (a : Act)
  | createEndpoint (tenantId : Nat) (input : EndpointInput) (secretKey : String)
  | requireOwned (c tenantId id : Nat) (request : OwnedRequest)
  | updateEndpoint (c : Nat)
  | softDelete (c : Nat)
  | generateSecret (c : Nat) (secretKey : String)
  | findSecret (c : Nat)
  | rotateSecret (c : Nat)
  | createTenant (name : String) (rateLimit : Option Nat) (endpoints : List TenantEndpointInput)
      (apiKey : String)
  | findTenant (c id : Nat) (request : TenantRequest)
  | updateTenant (c : Nat)
  | deleteTenant (c : Nat)
  | generateApiKey (c : Nat) (apiKey : String)
  | updateApiKeyHash (c : Nat)

namespace Service

variable (cfg : Config) (hashApiKey : String → String) (s : Service)

abbrev db : Database := s.system.db

abbrev now : Time := s.system.now

@[simps]
def setSession (c : Nat) (v : Option Session) : Service :=
  { s with sessions := Function.update s.sessions c v }

/-- A statement that throws leaves the store alone. -/
@[simps]
def commit (result : Except PrismaError Database) : Service :=
  { s with system := { s.system with db := result.toOption.getD s.system.db } }

@[simps]
def record (id : Nat) (apiKey : String) (written : Bool) : Service :=
  { s with keys := if written then (id, apiKey) :: s.keys else s.keys }

@[simps]
def issue (apiKey : String) : Service := { s with issued := apiKey :: s.issued }

def isOk {α : Type} (result : Except PrismaError α) : Bool := result.toOption.isSome

/-- One operation of the system or of a call. A generated key is a new one. -/
def step (a : Operation) : Option Service :=
  match a with
  | .system a =>
    (s.system.step cfg a).map fun t =>
      { s with
        system := t
        replayers :=
          match a with
          | .replayRead q _ tenantId => Function.update s.replayers q tenantId
          | _ => s.replayers }
  | .createEndpoint tenantId input secretKey =>
    some (s.commit ((PrismaEndpointsRepository.create s.now s.db tenantId input secretKey).map Prod.fst))
  | .requireOwned c tenantId id request =>
    if s.sessions c = none ∧ (PrismaEndpointsRepository.findOwned s.db tenantId id).isSome then
      some (s.setSession c (some (.owned tenantId id request)))
    else none
  | .updateEndpoint c =>
    match s.sessions c with
    | some (.owned tenantId id (.update input)) =>
      some ((s.commit ((PrismaEndpointsRepository.update s.db tenantId id input).map Prod.fst)).setSession c none)
    | _ => none
  | .softDelete c =>
    match s.sessions c with
    | some (.owned _ id .softDelete) =>
      some ((s.commit (PrismaEndpointsRepository.softDelete s.db id)).setSession c none)
    | _ => none
  | .generateSecret c secretKey =>
    match s.sessions c with
    | some (.owned tenantId id .rotateSecret) =>
      some (s.setSession c (some (.generated ⟨tenantId, id, secretKey, s.now + rotationWindow⟩)))
    | _ => none
  | .findSecret c =>
    match s.sessions c with
    | some (.generated r) =>
      match PrismaEndpointsRepository.findSecret s.db r.id with
      | .ok current => some (s.setSession c (some (.rotating r current)))
      | .error _ => some (s.setSession c none)
    | _ => none
  | .rotateSecret c =>
    match s.sessions c with
    | some (.rotating r current) =>
      some ((s.commit (PrismaEndpointsRepository.writeSecret s.db r.id r.secretKey current
        r.previousSecretExpiresAt)).setSession c none)
    | _ => none
  | .createTenant name rateLimit endpoints apiKey =>
    if isApiKey apiKey ∧ apiKey ∉ s.issued then
      let result := PrismaTenantsRepository.create s.now s.db ⟨name, hashApiKey apiKey, rateLimit, endpoints⟩
      some (((s.issue apiKey).commit result).record s.db.tenants.next apiKey (isOk result))
    else none
  | .findTenant c id request =>
    if s.sessions c = none ∧ (PrismaTenantsRepository.findById s.db id).isSome then
      some (s.setSession c (some (.found id request)))
    else none
  | .updateTenant c =>
    match s.sessions c with
    | some (.found id (.update input)) =>
      some ((s.commit (PrismaTenantsRepository.update s.db id input)).setSession c none)
    | _ => none
  | .deleteTenant c =>
    match s.sessions c with
    | some (.found id .delete) =>
      some ((s.commit (PrismaTenantsRepository.delete s.db id)).setSession c none)
    | _ => none
  | .generateApiKey c apiKey =>
    match s.sessions c with
    | some (.found id .rotateApiKey) =>
      if isApiKey apiKey ∧ apiKey ∉ s.issued then
        some ((s.issue apiKey).setSession c (some (.keyed id apiKey)))
      else none
    | _ => none
  | .updateApiKeyHash c =>
    match s.sessions c with
    | some (.keyed id apiKey) =>
      let result := PrismaTenantsRepository.updateApiKeyHash s.db id (hashApiKey apiKey)
      some (((s.commit result).setSession c none).record id apiKey (isOk result))
    | _ => none

def boot (u : Setup) : Service where
  system := .boot u
  sessions := fun _ => none
  replayers := fun _ => 0
  issued := []
  keys := []

def Reached (u : Setup) (as : List Operation) (s : Service) : Prop :=
  Transition.run (step cfg hashApiKey) (boot u) as = some s

def after (u : Setup) (as : List Operation) : Service :=
  Transition.ending (step cfg hashApiKey) (boot u) as

end Service

end WebhookEngine
