import WebhookEngine.Calls
import WebhookEngine.Operations

/-! Signing secrets are carried, never looked at: whatever they are renamed to, the service takes
the same steps, and every response but that to a creation or a rotation is the same. -/

namespace WebhookEngine

open Relational

/-! ### Renaming -/

def Endpoint.mapSecrets (f : String → String) (e : Endpoint) : Endpoint :=
  { e with secretKey := f e.secretKey, previousSecretKey := e.previousSecretKey.map f }

@[simps]
def Database.mapSecrets (f : String → String) (db : Database) : Database :=
  { db with endpoints := db.endpoints.mapRows fun _ => Endpoint.mapSecrets f }

@[simps]
def DispatchableDelivery.mapSecrets (f : String → String) (delivery : DispatchableDelivery) :
    DispatchableDelivery :=
  { delivery with endpoint := delivery.endpoint.mapSecrets f }

@[simps]
def Claimed.mapSecrets (f : String → String) (c : Claimed) : Claimed :=
  { c with delivery := c.delivery.mapSecrets f }

def Point.mapSecrets (f : String → String) : Point → Point
  | .sending c => .sending (c.mapSecrets f)
  | .awaiting c => .awaiting (c.mapSecrets f)
  | .settling c result => .settling (c.mapSecrets f) result
  | p => p

@[simps]
def Task.mapSecrets (f : String → String) (k : Task) : Task := { k with point := k.point.mapSecrets f }

@[simps]
def System.mapSecrets (f : String → String) (s : System) : System :=
  { s with
    db := s.db.mapSecrets f
    workers := Option.map (Task.mapSecrets f) ∘ s.workers }

def Rotation.mapSecrets (f : String → String) (r : Rotation) : Rotation :=
  { r with secretKey := f r.secretKey }

def Session.mapSecrets (f : String → String) : Session → Session
  | .generated r => .generated (r.mapSecrets f)
  | .rotating r current => .rotating (r.mapSecrets f) (f current)
  | v => v

@[simps]
def Service.mapSecrets (f : String → String) (s : Service) : Service :=
  { s with
    system := s.system.mapSecrets f
    sessions := Option.map (Session.mapSecrets f) ∘ s.sessions }

def TenantEndpointInput.mapSecrets (f : String → String) (input : TenantEndpointInput) :
    TenantEndpointInput :=
  { input with secretKey := f input.secretKey }

/-- The secrets that are generated for an operation. -/
def Operation.mapSecrets (f : String → String) : Operation → Operation
  | .createEndpoint tenantId input secretKey => .createEndpoint tenantId input (f secretKey)
  | .generateSecret c secretKey => .generateSecret c (f secretKey)
  | .createTenant name rateLimit endpoints apiKey =>
    .createTenant name rateLimit (endpoints.map (TenantEndpointInput.mapSecrets f)) apiKey
  | a => a

def Setup.mapSecrets (f : String → String) (u : Setup) : Setup :=
  { u with endpoints := u.endpoints.mapRows fun _ => Endpoint.mapSecrets f }

/-- Only two responses show a secret. -/
def Response.mapSecrets (f : String → String) : Response → Response
  | .created endpoint secretKey => .created endpoint (f secretKey)
  | .rotated id secretKey previousSecretExpiresAt => .rotated id (f secretKey) previousSecretExpiresAt
  | response => response

/-! ### The store -/

namespace Database

variable {f : String → String} {cfg : Config} {now : Time} {db : Database} {id n : Nat}

theorem select_mapSecrets {p p' : Nat → Endpoint → Bool} (hp : ∀ i e, p' i (e.mapSecrets f) = p i e) :
    ((db.mapSecrets f).endpoints.select p').map Prod.fst = (db.endpoints.select p).map Prod.fst := by
  have hsame : (fun i r => p' i (Endpoint.mapSecrets f r)) = p := funext fun i => funext (hp i)
  rw [mapSecrets_endpoints, Table.select_fst_mapRows, hsame]

theorem findById_mapSecrets : (db.mapSecrets f).findById id = (db.findById id).map (.mapSecrets f) := by
  simp only [findById, mapSecrets_deliveries, mapSecrets_endpoints, mapSecrets_events, mapSecrets_tenants,
    Table.mapRows_row]
  cases hr : db.deliveries.row id with
  | none => rfl
  | some r =>
    cases he : db.endpoints.row r.endpointId with
    | none => simp [he]
    | some e =>
      cases hev : db.events.row r.eventId with
      | none => simp [he, hev]
      | some ev =>
        cases ht : db.tenants.row ev.tenantId with
        | none => simp [he, hev, ht]
        | some t =>
          simp [he, hev, ht]
          rfl

theorem subscribedEndpoints_mapSecrets (input : CreateWebhookEventInput) :
    (db.mapSecrets f).subscribedEndpoints input = db.subscribedEndpoints input := by
  simp only [subscribedEndpoints]
  refine congrFun (congrArg Option.map (funext fun _ => ?_)) (db.tenants.row input.tenantId)
  exact select_mapSecrets fun _ _ => rfl

theorem updateEvent_mapSecrets {status : EventStatus} :
    (db.mapSecrets f).updateEvent now id status = (db.updateEvent now id status).map (.mapSecrets f) := by
  simp only [updateEvent, mapSecrets_events]
  split <;> rfl

theorem refreshEventStatus_mapSecrets (db : Database) :
    (db.mapSecrets f).refreshEventStatus now id = (db.refreshEventStatus now id).map (.mapSecrets f) :=
  updateEvent_mapSecrets

theorem settle_mapSecrets {data : Delivery → Delivery} :
    (db.mapSecrets f).settle now id data = (db.settle now id data).map (.mapSecrets f) := by
  simp only [settle, updateDelivery, mapSecrets_deliveries, Option.bind_eq_bind]
  cases db.deliveries.row id with
  | none => rfl
  | some r => exact refreshEventStatus_mapSecrets { db with deliveries := db.deliveries.modify id data }

theorem schedule_mapSecrets {data : Delivery → Delivery} {availableAt : Time} :
    (db.mapSecrets f).schedule now id data availableAt n =
      (db.schedule now id data availableAt n).map (.mapSecrets f) := by
  simp only [schedule, updateDelivery, mapSecrets_deliveries]
  cases db.deliveries.row id <;> rfl

theorem resetForReplay_mapSecrets :
    (db.mapSecrets f).resetForReplay now id = (db.resetForReplay now id).map (.mapSecrets f) := by
  simp only [resetForReplay, updateDelivery, mapSecrets_deliveries]
  cases db.deliveries.row id with
  | none => rfl
  | some r =>
    simp only [updateEvent, mapSecrets_events, Option.map_some, Option.bind_eq_bind, Option.bind_some]
    split <;> rfl

theorem claimForProcessing_mapSecrets : (db.mapSecrets f).claimForProcessing now id n =
    Prod.map (.mapSecrets f) (Option.map (.mapSecrets f)) (db.claimForProcessing now id n) := by
  simp only [claimForProcessing, mapSecrets_deliveries]
  cases hr : db.deliveries.row id with
  | none => rfl
  | some r =>
    dsimp only
    split
    · have hfind (db : Database) : (db.mapSecrets f).findById id = (db.findById id).map (.mapSecrets f) :=
        findById_mapSecrets
      have hclaimed : Database.findById
          { db.mapSecrets f with deliveries := db.deliveries.modify id (Delivery.claim now) } id = _ :=
        hfind { db with deliveries := db.deliveries.modify id (Delivery.claim now) }
      rw [hclaimed]
      cases Database.findById { db with deliveries := db.deliveries.modify id (Delivery.claim now) } id <;> rfl
    · rfl

theorem createForTenant_mapSecrets (input : CreateWebhookEventInput) (endpointIds : List Nat) :
    (db.mapSecrets f).createForTenant now input endpointIds =
      (db.createForTenant now input endpointIds).map (.mapSecrets f) := by
  simp only [createForTenant, mapSecrets_tenants, mapSecrets_events, mapSecrets_endpoints, Table.mapRows_row,
    Option.isSome_map]
  split <;> rfl

theorem recoverStaleDelivery_mapSecrets {cutoff : Time} : (db.mapSecrets f).recoverStaleDelivery now id n cutoff =
    (db.recoverStaleDelivery now id n cutoff).mapSecrets f := by
  simp only [recoverStaleDelivery, mapSecrets_deliveries]
  cases db.deliveries.row id with
  | none => rfl
  | some r =>
    dsimp only
    split <;> rfl

theorem updateOutbox_mapSecrets {data : DeliveryOutbox → DeliveryOutbox} :
    (db.mapSecrets f).updateOutbox id data = (db.updateOutbox id data).map (.mapSecrets f) := by
  simp only [updateOutbox, mapSecrets_deliveryOutbox]
  cases db.deliveryOutbox.row id <;> rfl

theorem cleanupExpiredEndpointSecrets_mapSecrets : (db.mapSecrets f).cleanupExpiredEndpointSecrets now =
    (db.cleanupExpiredEndpointSecrets now).mapSecrets f := by
  have hdrops (e : Endpoint) : (e.dropExpiredSecret now).mapSecrets f = (e.mapSecrets f).dropExpiredSecret now := by
    by_cases hexpired : e.previousSecretExpiresAt.any (· < now) = true <;>
      simp [Endpoint.dropExpiredSecret, Endpoint.mapSecrets, hexpired]
  simp only [cleanupExpiredEndpointSecrets, mapSecrets, Table.mapRows_updateAll _ _ hdrops]

theorem cleanupOldEvents_mapSecrets : (db.mapSecrets f).cleanupOldEvents n now =
    (db.cleanupOldEvents n now).mapSecrets f := by
  simp only [cleanupOldEvents]
  split <;> rfl

theorem setEndpointActive_mapSecrets {isActive : Bool} : (db.mapSecrets f).setEndpointActive id isActive =
    (db.setEndpointActive id isActive).map (.mapSecrets f) := by
  have hsets : (db.endpoints.modify id fun e => { e with isActive := isActive }).mapRows
      (fun _ => Endpoint.mapSecrets f) =
      (db.endpoints.mapRows fun _ => Endpoint.mapSecrets f).modify id fun e => { e with isActive := isActive } := by
    refine Table.mapRows_modify _ _ ?_ id
    intro e
    rfl
  simp only [setEndpointActive, mapSecrets_endpoints, Table.mapRows_row]
  cases db.endpoints.row id with
  | none => rfl
  | some e => simp only [mapSecrets, Option.map_some, hsets]

end Database

open Database in
/-- A transaction writes the same rows, whatever the secrets. -/
theorem Txn.apply_mapSecrets {f : String → String} {cfg : Config} {now : Time} {db : Database} (x : Txn) :
    x.apply cfg now (db.mapSecrets f) = (x.apply cfg now db).map (.mapSecrets f) := by
  cases x with
  | createForTenant input endpointIds => exact createForTenant_mapSecrets input endpointIds
  | claimForProcessing id n => exact congrArg (fun p => some p.1) claimForProcessing_mapSecrets
  | markSuccess => exact settle_mapSecrets
  | markDeadLetter => exact settle_mapSecrets
  | markCancelled => exact settle_mapSecrets
  | markFailedAndSchedule => exact schedule_mapSecrets
  | markRateLimitedAndSchedule => exact schedule_mapSecrets
  | recoverStaleDelivery => exact congrArg some recoverStaleDelivery_mapSecrets
  | resetForReplay => exact resetForReplay_mapSecrets
  | markPublished => exact updateOutbox_mapSecrets
  | recordPublishError => exact updateOutbox_mapSecrets
  | reopenOutbox => exact updateOutbox_mapSecrets
  | cleanupExpiredEndpointSecrets => exact congrArg some cleanupExpiredEndpointSecrets_mapSecrets
  | cleanupPublishedOutboxRows => rfl
  | cleanupOldEvents => exact congrArg some cleanupOldEvents_mapSecrets
  | setEndpointActive => exact setEndpointActive_mapSecrets

/-! ### The system -/

theorem afterFind_mapSecrets (f : String → String) (found : Option DispatchableDelivery) :
    afterFind (found.map (.mapSecrets f)) = (afterFind found).mapSecrets f := by
  cases found with
  | none => rfl
  | some delivery =>
    have hactive : (delivery.endpoint.mapSecrets f).isActive = delivery.endpoint.isActive := rfl
    simp only [Option.map_some, afterFind, DispatchableDelivery.mapSecrets_row,
      DispatchableDelivery.mapSecrets_endpoint, hactive]
    split
    · rfl
    · split <;> rfl

theorem OutcomeWrite.onThrow_mapSecrets (f : String → String) (c : Claimed) (v : OutcomeWrite) :
    v.onThrow (c.mapSecrets f) = (v.onThrow c).mapSecrets f := by
  cases v <;> rfl

namespace System

variable {f : String → String} {cfg : Config} {s t : System} {a : Act} {w : Nat} {k : Task}

theorem mapSecrets_goto (p : Point) : (s.goto w k p).mapSecrets f =
    (s.mapSecrets f).goto w (k.mapSecrets f) (p.mapSecrets f) := by
  simp only [mapSecrets, goto, Function.comp_update]
  rfl

theorem mapSecrets_worker (h : s.workers w = some k) : (s.mapSecrets f).workers w = some (k.mapSecrets f) := by
  simp only [mapSecrets_workers, Function.comp_apply, h, Option.map_some]

theorem mapSecrets_worker_none (h : s.workers w = none) : (s.mapSecrets f).workers w = none := by
  simp only [mapSecrets_workers, Function.comp_apply, h, Option.map_none]

theorem mapSecrets_point {p : Point} (hp : k.point = p) : (k.mapSecrets f).point = p.mapSecrets f := by
  rw [Task.mapSecrets_point, hp]

theorem outcome_mapSecrets (c : Claimed) (result : SendResult) (delayMs : Nat) :
    (s.mapSecrets f).outcome cfg (c.mapSecrets f) result delayMs = s.outcome cfg c result delayMs := by
  cases result <;> rfl

theorem txn_mapSecrets (a : Act) : (s.mapSecrets f).txn cfg a = s.txn cfg a := by
  cases a with
  | cancel w | claim w =>
    simp only [txn, mapSecrets_workers, Function.comp_apply]
    cases s.workers w <;> rfl
  | defer w =>
    simp only [txn, mapSecrets_workers, Function.comp_apply]
    cases s.workers w with
    | none => rfl
    | some k => cases hp : k.point <;> simp [hp, Point.mapSecrets]
  | settle w delayMs =>
    simp only [txn, mapSecrets_workers, Function.comp_apply]
    cases s.workers w with
    | none => rfl
    | some k => cases hp : k.point <;> simp [hp, Point.mapSecrets, outcome_mapSecrets]
  | _ => rfl

theorem store_mapSecrets (a : Act) : (s.mapSecrets f).store cfg a = (s.store cfg a).mapSecrets f := by
  have hdb : (((s.mapSecrets f).txn cfg a).bind fun x => x.apply cfg s.now (s.db.mapSecrets f)).getD
      (s.db.mapSecrets f) = (((s.txn cfg a).bind fun x => x.apply cfg s.now s.db).getD s.db).mapSecrets f := by
    rw [txn_mapSecrets]
    cases s.txn cfg a with
    | none => rfl
    | some x =>
      simp only [Option.bind_some, Txn.apply_mapSecrets]
      cases x.apply cfg s.now s.db <;> rfl
  exact congrArg (fun db => { s.mapSecrets f with db := db }) hdb

theorem ok_mapSecrets (a : Act) : (s.mapSecrets f).ok cfg a = s.ok cfg a := by
  simp only [ok, txn_mapSecrets, mapSecrets_db, mapSecrets_now, Txn.apply_mapSecrets, Option.isSome_map]

theorem claimed_mapSecrets (s : System) (k : Task) :
    ((s.db.mapSecrets f).claimForProcessing s.now k.deliveryId k.expectedAttempt).2 =
      (s.db.claimForProcessing s.now k.deliveryId k.expectedAttempt).2.map (.mapSecrets f) := by
  rw [Database.claimForProcessing_mapSecrets, Prod.map_snd]

theorem mapSecrets_log (e : Entry) : (s.log e).mapSecrets f = (s.mapSecrets f).log e := rfl

theorem mapSecrets_claimed (delivery : DispatchableDelivery) :
    (s.mapSecrets f).claimed cfg w (k.mapSecrets f) (delivery.mapSecrets f) =
      (s.claimed cfg w k delivery).mapSecrets f := by
  simp only [claimed, mapSecrets_log, mapSecrets_goto, store_mapSecrets]
  rfl

theorem mapSecrets_settled (c : Claimed) (result : SendResult) (delayMs : Nat) :
    (s.mapSecrets f).settled cfg w (k.mapSecrets f) (c.mapSecrets f) result delayMs =
      (s.settled cfg w k c result delayMs).mapSecrets f := by
  simp only [settled, mapSecrets_goto, store_mapSecrets, ok_mapSecrets, outcome_mapSecrets,
    OutcomeWrite.onThrow_mapSecrets]
  split <;> rfl

theorem step_mapSecrets (h : Step cfg s a t) : step cfg (s.mapSecrets f) a = some (t.mapSecrets f) := by
  have hstore (a : Act) : (s.mapSecrets f).store cfg a = (s.store cfg a).mapSecrets f := store_mapSecrets a
  have hok (a : Act) : (s.mapSecrets f).ok cfg a = s.ok cfg a := ok_mapSecrets a
  cases h with
  | ingestRead h h' =>
    have hsubscribed := (Database.subscribedEndpoints_mapSecrets (f := f) _).trans h'
    simp only [step, mapSecrets_ingests, mapSecrets_db, h, hsubscribed]
    rfl
  | ingestCommit h =>
    simp only [step, mapSecrets_ingests, h, hstore]
    rfl
  | publishRead h h' => exact if_pos ⟨h, h'⟩
  | publishAdd h =>
    simp only [step, mapSecrets_publishers, h]
    rfl
  | publishMark h =>
    simp only [step, mapSecrets_publishers, h, hstore, hok]
    rfl
  | publishError h =>
    simp only [step, mapSecrets_publishers, h, hstore, if_false]
    rfl
  | take h h' hu =>
    simp only [step, mapSecrets_worker_none h, mapSecrets_queue, h', hu, if_true]
    simp only [mapSecrets, Function.comp_update]
    rfl
  | @find w k hw hp =>
    have hfind : (s.db.mapSecrets f).findById k.deliveryId = (s.db.findById k.deliveryId).map (.mapSecrets f) :=
      Database.findById_mapSecrets
    simp only [step, mapSecrets_worker hw, mapSecrets_point hp, Task.mapSecrets_deliveryId, mapSecrets_db, hfind,
      afterFind_mapSecrets, mapSecrets_goto]
    rfl
  | cancel hw hp =>
    simp only [step, mapSecrets_worker hw, mapSecrets_point hp, mapSecrets_goto, hstore, hok]
    rfl
  | @limit w k delayMs hw hp =>
    simp only [step, mapSecrets_worker hw, mapSecrets_point hp, mapSecrets_goto]
    cases delayMs <;> rfl
  | defer hw hp =>
    simp only [step, mapSecrets_worker hw, mapSecrets_point hp, mapSecrets_goto, Point.mapSecrets, hstore, hok]
  | @claimMiss w k hw hp hc =>
    have hclaim := claimed_mapSecrets (f := f) s k
    rw [hc, Option.map_none] at hclaim
    simp only [step, mapSecrets_worker hw, mapSecrets_point hp, Task.mapSecrets_deliveryId,
      Task.mapSecrets_expectedAttempt, mapSecrets_db, mapSecrets_now, hclaim, hstore, mapSecrets_goto]
    rfl
  | @claimHit w k delivery hw hp hc =>
    have hclaim := claimed_mapSecrets (f := f) s k
    rw [hc, Option.map_some] at hclaim
    simp only [step, mapSecrets_worker hw, mapSecrets_point hp, Task.mapSecrets_deliveryId,
      Task.mapSecrets_expectedAttempt, mapSecrets_db, mapSecrets_now, hclaim, mapSecrets_claimed]
    rfl
  | send hw hp =>
    simp only [step, mapSecrets_worker hw, mapSecrets_point hp, Point.mapSecrets, mapSecrets_log, mapSecrets_goto]
    rfl
  | answer hw hp =>
    simp only [step, mapSecrets_worker hw, mapSecrets_point hp, mapSecrets_goto, Point.mapSecrets]
  | settle hw hp =>
    simp only [step, mapSecrets_worker hw, mapSecrets_point hp, Point.mapSecrets, mapSecrets_settled]
  | finish hw hp =>
    simp only [step, mapSecrets_worker hw, mapSecrets_point hp, Point.mapSecrets]
    simp only [retire, mapSecrets, Function.comp_update]
    rfl
  | crash hw =>
    simp only [step, mapSecrets_worker hw]
    simp only [leave, mapSecrets, Function.comp_update]
    rfl
  | staleSelect h h' => exact if_pos ⟨h, h'⟩
  | staleRecover h =>
    simp only [step, mapSecrets_staleScans, h, hstore]
    rfl
  | strandedSelect h h' => exact if_pos ⟨h, h'⟩
  | strandedInspect h =>
    simp only [step, mapSecrets_strandedScans, h]
    rfl
  | strandedReopen h =>
    simp only [step, mapSecrets_strandedScans, h, hstore, hok]
    rfl
  | replayRead h h' ht hs =>
    have hfind := Database.findById_mapSecrets.trans (congrArg (Option.map (DispatchableDelivery.mapSecrets f)) h')
    simp only [step, mapSecrets_replays, mapSecrets_db, h, hfind, Option.map_some]
    exact if_pos ⟨ht, hs⟩
  | replayReset h hok' =>
    simp only [step, mapSecrets_replays, h, hok, hok', hstore, if_true]
    rfl
  | replayMiss h hok' =>
    simp only [step, mapSecrets_replays, h, hok, hok', hstore]
    rfl
  | duplicate h hk =>
    simp only [step, mapSecrets_queue, h]
    exact if_neg hk
  | foreign hk => exact if_neg hk
  | evict h hf =>
    simp only [step, mapSecrets_queue, h, hf]
    rfl
  | lose h hf =>
    simp only [step, mapSecrets_queue, h, hf, if_true]
    rfl
  | tick => rfl
  | _ => exact congrArg some (hstore _)

end System

/-! ### The calls -/

section Repositories

variable {f : String → String} {now : Time} {db : Database} {tenantId id : Nat}

theorem Database.urlTaken_mapSecrets (url : String) :
    (db.mapSecrets f).urlTaken tenantId id url = db.urlTaken tenantId id url := by
  simp only [Database.urlTaken, Database.mapSecrets_endpoints, Table.select_mapRows, List.isEmpty_map]
  rfl

theorem Database.updateEndpoint_mapSecrets {data data' : Endpoint → Endpoint}
    (h : ∀ e, (data e).mapSecrets f = data' (e.mapSecrets f)) :
    (db.mapSecrets f).updateEndpoint id data' = (db.updateEndpoint id data).map (.mapSecrets f) := by
  have hmodify : (db.endpoints.modify id data).mapRows (fun _ => Endpoint.mapSecrets f) =
      (db.endpoints.mapRows fun _ => Endpoint.mapSecrets f).modify id data' := Table.mapRows_modify _ _ h id
  simp only [Database.updateEndpoint, Database.mapSecrets_endpoints, Table.mapRows_row, Option.isSome_map]
  split
  · simp only [Except.map, Database.mapSecrets, hmodify]
  · rfl

namespace PrismaEndpointsRepository

theorem findOwned_mapSecrets : findOwned (db.mapSecrets f) tenantId id = findOwned db tenantId id := by
  simp only [findOwned, Database.mapSecrets_endpoints, Table.mapRows_row]
  cases db.endpoints.row id <;> rfl

theorem findSecret_mapSecrets : findSecret (db.mapSecrets f) id = (findSecret db id).map f := by
  simp only [findSecret, Database.mapSecrets_endpoints, Table.mapRows_row]
  cases db.endpoints.row id <;> rfl

theorem create_mapSecrets (input : EndpointInput) (secretKey : String) :
    create now (db.mapSecrets f) tenantId input (f secretKey) =
      (create now db tenantId input secretKey).map fun p => (p.1.mapSecrets f, p.2) := by
  have hinsert : (db.endpoints.insert (.created now tenantId input secretKey)).mapRows
      (fun _ => Endpoint.mapSecrets f) = (db.endpoints.mapRows fun _ => Endpoint.mapSecrets f).insert
        (.created now tenantId input (f secretKey)) := Table.mapRows_insert ..
  simp only [create, Database.urlTaken_mapSecrets, Database.mapSecrets_endpoints, Table.mapRows_next,
    Database.mapSecrets_tenants]
  split
  · rfl
  · split
    · rfl
    · rw [← hinsert]
      rfl

theorem replaceSubscriptions_mapSecrets (types : Option (List String)) :
    replaceSubscriptions (db.mapSecrets f) id types = (replaceSubscriptions db id types).map (.mapSecrets f) := by
  cases types with
  | none => rfl
  | some types =>
    simp only [replaceSubscriptions, Database.mapSecrets_endpoints, Table.mapRows_row, Option.isNone_map]
    split <;> rfl

theorem update_mapSecrets (input : EndpointUpdate) : update (db.mapSecrets f) tenantId id input =
    (update db tenantId id input).map fun p => (p.1.mapSecrets f, p.2) := by
  simp only [update, replaceSubscriptions_mapSecrets, bind, Except.bind]
  cases replaceSubscriptions db id input.eventTypes with
  | error e => rfl
  | ok db =>
    have hdata (e : Endpoint) : (input.data e).mapSecrets f = input.data (e.mapSecrets f) := rfl
    have hmodify := Table.mapRows_modify _ db.endpoints hdata id
    simp only [Except.map, Database.mapSecrets_endpoints, Table.mapRows_row]
    cases db.endpoints.row id with
    | none => rfl
    | some e =>
      have htenant : (e.mapSecrets f).tenantId = e.tenantId := rfl
      have hurl : (input.data (e.mapSecrets f)).url = (input.data e).url := rfl
      simp only [Option.map_some, Database.urlTaken_mapSecrets, htenant, hurl]
      split
      · rfl
      · split
        · rfl
        · rw [← hmodify]
          rfl

theorem softDelete_mapSecrets : softDelete (db.mapSecrets f) id = (softDelete db id).map (.mapSecrets f) :=
  Database.updateEndpoint_mapSecrets fun _ => rfl

theorem writeSecret_mapSecrets (secretKey current : String) (previousSecretExpiresAt : Time) :
    writeSecret (db.mapSecrets f) id (f secretKey) (f current) previousSecretExpiresAt =
      (writeSecret db id secretKey current previousSecretExpiresAt).map (.mapSecrets f) :=
  Database.updateEndpoint_mapSecrets fun _ => rfl

end PrismaEndpointsRepository

namespace PrismaTenantsRepository

theorem create_mapSecrets (name apiKeyHash : String) (rateLimit : Option Nat)
    (endpoints : List TenantEndpointInput) :
    create now (db.mapSecrets f) ⟨name, apiKeyHash, rateLimit, endpoints.map (.mapSecrets f)⟩ =
      (create now db ⟨name, apiKeyHash, rateLimit, endpoints⟩).map (.mapSecrets f) := by
  have hinsert : (db.endpoints.insertAll (endpoints.map (endpoint now db.tenants.next))).mapRows
      (fun _ => Endpoint.mapSecrets f) = (db.endpoints.mapRows fun _ => Endpoint.mapSecrets f).insertAll
        ((endpoints.map (.mapSecrets f)).map (endpoint now db.tenants.next)) := by
    rw [Table.mapRows_insertAll, List.map_map, List.map_map]
    rfl
  have hurls : (endpoints.map (.mapSecrets f)).map TenantEndpointInput.url =
      endpoints.map TenantEndpointInput.url := by
    rw [List.map_map]
    rfl
  have htypes : (∃ e ∈ endpoints.map (.mapSecrets f), ¬(TenantEndpointInput.eventTypes e).Nodup) ↔
      ∃ e ∈ endpoints, ¬e.eventTypes.Nodup := by
    simp [TenantEndpointInput.mapSecrets]
  have hsubscriptions (ids : List Nat) : ((ids.zip (endpoints.map (.mapSecrets f))).flatMap fun p =>
      (TenantEndpointInput.eventTypes p.2).map fun t => (⟨p.1, t⟩ : EndpointSubscription)) =
      (ids.zip endpoints).flatMap fun p => p.2.eventTypes.map fun t => ⟨p.1, t⟩ := by
    rw [List.zip_map_right, List.flatMap_map]
    rfl
  have hhash : (db.mapSecrets f).hashTaken db.tenants.next apiKeyHash =
      db.hashTaken db.tenants.next apiKeyHash := rfl
  -- What can go wrong is about keys, URLs and event types.
  simp only [create, Database.mapSecrets_tenants, hhash, hurls, htypes, hsubscriptions, List.length_map]
  split
  · rfl
  · simp only [Database.mapSecrets_endpoints, Table.mapRows_next, ← hinsert]
    rfl

theorem updateTenant_mapSecrets {data : Tenant → Tenant} :
    (db.mapSecrets f).updateTenant id data = (db.updateTenant id data).map (.mapSecrets f) := by
  simp only [Database.updateTenant, Database.mapSecrets_tenants]
  cases db.tenants.row id with
  | none => rfl
  | some t =>
    have hhash : (db.mapSecrets f).hashTaken id (data t).apiKeyHash = db.hashTaken id (data t).apiKeyHash := rfl
    simp only [hhash]
    split <;> rfl

end PrismaTenantsRepository

end Repositories

namespace Service

open PrismaEndpointsRepository PrismaTenantsRepository

variable {f : String → String} {cfg : Config} {hashApiKey : String → String} {u : Setup} {s t : Service}
  {a : Operation} {as : List Operation} {c : Nat}

theorem mapSecrets_session {v : Session} (h : s.sessions c = some v) :
    (s.mapSecrets f).sessions c = some (v.mapSecrets f) := by
  simp only [mapSecrets_sessions, Function.comp_apply, h, Option.map_some]

theorem mapSecrets_setSession (v : Option Session) : (s.setSession c v).mapSecrets f =
    (s.mapSecrets f).setSession c (v.map (.mapSecrets f)) := by
  simp only [mapSecrets, setSession, Function.comp_update]

theorem mapSecrets_commit (result : Except PrismaError Database) :
    (s.commit result).mapSecrets f = (s.mapSecrets f).commit (result.map (.mapSecrets f)) := by
  cases result <;> rfl

theorem mapSecrets_record (id : Nat) (apiKey : String) (written : Bool) :
    (s.record id apiKey written).mapSecrets f = (s.mapSecrets f).record id apiKey written := rfl

theorem map_fst_mapSecrets {α : Type} (result : Except PrismaError (Database × α)) :
    (result.map Prod.fst).map (Database.mapSecrets f) =
      (result.map fun p => (p.1.mapSecrets f, p.2)).map Prod.fst := by
  cases result <;> rfl

theorem isOk_mapSecrets (result : Except PrismaError Database) :
    isOk (result.map (Database.mapSecrets f)) = isOk result := by
  cases result <;> rfl

/-- Under other secrets an operation does the same. -/
theorem step_mapSecrets (h : step cfg hashApiKey s a = some t) :
    step cfg hashApiKey (s.mapSecrets f) (a.mapSecrets f) = some (t.mapSecrets f) := by
  have hidle {c : Nat} (hc : s.sessions c = none) : (s.mapSecrets f).sessions c = none := by
    simp only [mapSecrets_sessions, Function.comp_apply, hc, Option.map_none]
  have hsecret (r : Rotation) : PrismaEndpointsRepository.findSecret (s.mapSecrets f).db (r.mapSecrets f).id =
      (PrismaEndpointsRepository.findSecret s.db r.id).map f := findSecret_mapSecrets
  cases Step.of_step h with
  | @system b r hb =>
    simp only [Operation.mapSecrets, step, mapSecrets_system, System.step_mapSecrets hb, Option.map_some]
    cases b <;> rfl
  | createEndpoint =>
    simp only [Operation.mapSecrets, step, mapSecrets_commit, map_fst_mapSecrets,
      ← PrismaEndpointsRepository.create_mapSecrets]
    rfl
  | @requireOwned c tenantId id request howned =>
    simp only [step] at h
    split at h
    · rename_i hc
      rw [← findOwned_mapSecrets (f := f)] at howned
      simp only [Operation.mapSecrets, step]
      rw [if_pos ⟨hidle hc.1, howned⟩, mapSecrets_setSession]
      rfl
    · cases h
  | updateEndpoint hc =>
    simp only [Operation.mapSecrets, step, mapSecrets_session hc, Session.mapSecrets, mapSecrets_setSession,
      mapSecrets_commit, map_fst_mapSecrets, ← update_mapSecrets]
    rfl
  | softDelete hc =>
    simp only [Operation.mapSecrets, step, mapSecrets_session hc, Session.mapSecrets, mapSecrets_setSession,
      mapSecrets_commit, ← softDelete_mapSecrets]
    rfl
  | generateSecret hc =>
    simp only [Operation.mapSecrets, step, mapSecrets_session hc, Session.mapSecrets, mapSecrets_setSession]
    rfl
  | @findSecret c r current hc hcurrent =>
    -- A secret is read in order to be kept as the previous one, renamed like any other.
    simp only [Operation.mapSecrets, step, mapSecrets_session hc, Session.mapSecrets, mapSecrets_setSession,
      hsecret, hcurrent, Except.map]
    rfl
  | @findSecretThrows c r hc =>
    simp only [step, hc] at h
    split at h
    · rename_i current hcurrent
      have hrotating := congrArg (fun v => v.sessions c) (Option.some.inj h)
      simp only [setSession_sessions, Function.update_self] at hrotating
      cases hrotating
    · rename_i e hthrows
      simp only [Operation.mapSecrets, step, mapSecrets_session hc, Session.mapSecrets, mapSecrets_setSession,
        hsecret, hthrows, Except.map]
      rfl
  | rotateSecret hc =>
    simp only [Operation.mapSecrets, step, mapSecrets_session hc, Session.mapSecrets, mapSecrets_setSession,
      mapSecrets_commit, ← writeSecret_mapSecrets]
    rfl
  | @createTenant name rateLimit endpoints apiKey result hkey hnew hresult =>
    have hcreate : PrismaTenantsRepository.create (s.mapSecrets f).now (s.mapSecrets f).db
        ⟨name, hashApiKey apiKey, rateLimit, endpoints.map (.mapSecrets f)⟩ = result.map (.mapSecrets f) := by
      rw [hresult]
      exact PrismaTenantsRepository.create_mapSecrets ..
    simp only [Operation.mapSecrets, step]
    rw [if_pos ⟨hkey, hnew⟩]
    simp only [hcreate, isOk_mapSecrets]
    cases result <;> rfl
  | @findTenant c id request hfound =>
    simp only [step] at h
    split at h
    · rename_i hc
      simp only [Operation.mapSecrets, step]
      rw [if_pos ⟨hidle hc.1, hfound⟩, mapSecrets_setSession]
      rfl
    · cases h
  | updateTenant hc =>
    simp only [Operation.mapSecrets, step, mapSecrets_session hc, Session.mapSecrets, mapSecrets_setSession,
      mapSecrets_commit, PrismaTenantsRepository.update, ← updateTenant_mapSecrets]
    rfl
  | deleteTenant hc =>
    simp only [Operation.mapSecrets, step, mapSecrets_session hc, Session.mapSecrets, mapSecrets_setSession,
      mapSecrets_commit, delete, ← updateTenant_mapSecrets]
    rfl
  | generateApiKey hc hkey hnew =>
    simp only [Operation.mapSecrets, step, mapSecrets_session hc, Session.mapSecrets]
    rw [if_pos ⟨hkey, hnew⟩, mapSecrets_setSession]
    rfl
  | @updateApiKeyHash c id apiKey result hc hresult =>
    have hupdate : PrismaTenantsRepository.updateApiKeyHash (s.mapSecrets f).db id (hashApiKey apiKey) =
        result.map (Database.mapSecrets f) := by
      rw [hresult]
      exact updateTenant_mapSecrets
    simp only [Operation.mapSecrets, step, mapSecrets_session hc, Session.mapSecrets, hupdate, isOk_mapSecrets]
    rw [mapSecrets_record, mapSecrets_setSession, mapSecrets_commit]
    rfl

theorem Reached.mapSecrets (f : String → String) (h : Reached cfg hashApiKey u as s) :
    Reached cfg hashApiKey (u.mapSecrets f) (as.map (.mapSecrets f)) (s.mapSecrets f) := by
  have has : List.Forall₂ (fun a b => b = Operation.mapSecrets f a) as (as.map (.mapSecrets f)) := by
    rw [List.forall₂_map_right_iff]
    exact List.forall₂_same.mpr fun _ _ => rfl
  have hboot : boot (u.mapSecrets f) = (boot u).mapSecrets f := rfl
  obtain ⟨t, ht, rfl⟩ := Transition.run_simulated (R := fun s t => t = Service.mapSecrets f s)
    (by
      rintro s a t _ _ rfl rfl hstep
      exact ⟨_, step_mapSecrets hstep, rfl⟩)
    hboot has h
  exact ht

end Service

section Answers

variable {f : String → String} {assertSafeWebhookUrl : String → Except ApiError String} {now : Time}
  {db : Database} {tenantId id : Nat} {secretKey : String}

theorem requireOwned_mapSecrets :
    requireOwnedEndpoint (db.mapSecrets f) tenantId id = requireOwnedEndpoint db tenantId id := by
  rw [requireOwnedEndpoint, PrismaEndpointsRepository.findOwned_mapSecrets, requireOwnedEndpoint]

theorem endpointRef_mapSecrets : (db.mapSecrets f).endpointRef id = db.endpointRef id := by
  simp only [Database.endpointRef, Database.mapSecrets_endpoints, Table.mapRows_row, Option.map_map]
  rfl

theorem eventDeliveries_mapSecrets {α : Type} (g : Nat → Delivery → EndpointRef → α) :
    (db.mapSecrets f).eventDeliveries id g = db.eventDeliveries id g := by
  simp only [Database.eventDeliveries, endpointRef_mapSecrets, Database.mapSecrets_deliveries]

theorem createEndpoint_mapSecrets (input : EndpointInput) :
    CreateEndpointUseCase.execute assertSafeWebhookUrl now (db.mapSecrets f) tenantId input (f secretKey) =
      (CreateEndpointUseCase.execute assertSafeWebhookUrl now db tenantId input secretKey).map
        fun p => (p.1.mapSecrets f, p.2.1, f p.2.2) := by
  simp only [CreateEndpointUseCase.execute, PrismaEndpointsRepository.create_mapSecrets, bind, Except.bind]
  cases assertSafeWebhookUrl input.url with
  | error e => rfl
  | ok url =>
    dsimp only
    cases PrismaEndpointsRepository.create now db tenantId { input with url := url } secretKey with
    | error e => cases e <;> rfl
    | ok p => rfl

theorem updateEndpoint_mapSecrets (input : EndpointUpdate) :
    UpdateEndpointUseCase.execute assertSafeWebhookUrl (db.mapSecrets f) tenantId id input =
      (UpdateEndpointUseCase.execute assertSafeWebhookUrl db tenantId id input).map
        fun p => (p.1.mapSecrets f, p.2) := by
  simp only [UpdateEndpointUseCase.execute, requireOwned_mapSecrets, PrismaEndpointsRepository.update_mapSecrets,
    bind, Except.bind]
  cases requireOwnedEndpoint db tenantId id with
  | error e => rfl
  | ok =>
    dsimp only
    cases input.url.mapM assertSafeWebhookUrl with
    | error e => rfl
    | ok url =>
      dsimp only
      cases PrismaEndpointsRepository.update db tenantId id { input with url := url } <;> rfl

theorem deleteEndpoint_mapSecrets : DeleteEndpointUseCase.execute (db.mapSecrets f) tenantId id =
    (DeleteEndpointUseCase.execute db tenantId id).map (.mapSecrets f) := by
  simp only [DeleteEndpointUseCase.execute, requireOwned_mapSecrets,
    PrismaEndpointsRepository.softDelete_mapSecrets, bind, Except.bind]
  cases requireOwnedEndpoint db tenantId id with
  | error e => rfl
  | ok => cases PrismaEndpointsRepository.softDelete db id <;> rfl

theorem rotateSecret_mapSecrets {previousSecretExpiresAt : Time} :
    PrismaEndpointsRepository.rotateSecret (db.mapSecrets f) id (f secretKey) previousSecretExpiresAt =
      (PrismaEndpointsRepository.rotateSecret db id secretKey previousSecretExpiresAt).map (.mapSecrets f) := by
  simp only [PrismaEndpointsRepository.rotateSecret, PrismaEndpointsRepository.findSecret_mapSecrets, bind,
    Except.bind]
  cases PrismaEndpointsRepository.findSecret db id with
  | error e => rfl
  | ok current => exact PrismaEndpointsRepository.writeSecret_mapSecrets ..

theorem rotateEndpointSecret_mapSecrets :
    RotateEndpointSecretUseCase.execute now (db.mapSecrets f) tenantId id (f secretKey) =
      (RotateEndpointSecretUseCase.execute now db tenantId id secretKey).map
        fun p => (p.1.mapSecrets f, p.2.1, f p.2.2.1, p.2.2.2) := by
  simp only [RotateEndpointSecretUseCase.execute, requireOwned_mapSecrets, rotateSecret_mapSecrets, bind,
    Except.bind]
  cases requireOwnedEndpoint db tenantId id with
  | error e => rfl
  | ok => cases PrismaEndpointsRepository.rotateSecret db id secretKey (now + rotationWindow) <;> rfl

theorem createEvent_mapSecrets (idempotencyKey : Option String) (type payload : String) :
    EventsController.createEvent now (db.mapSecrets f) tenantId idempotencyKey type payload =
      (EventsController.createEvent now db tenantId idempotencyKey type payload).map
        fun p => (p.1.mapSecrets f, p.2) := by
  have hcreate (input : CreateWebhookEventInput) :
      PrismaEventsRepository.createForTenant now (db.mapSecrets f) input =
        (PrismaEventsRepository.createForTenant now db input).map fun p => (p.1.mapSecrets f, p.2) := by
    simp only [PrismaEventsRepository.createForTenant, Database.subscribedEndpoints_mapSecrets]
    cases db.subscribedEndpoints input with
    | none => rfl
    | some endpointIds =>
      have hkey : (db.mapSecrets f).keyTaken input.tenantId input.idempotencyKey =
        db.keyTaken input.tenantId input.idempotencyKey := rfl
      simp only [PrismaEventsRepository.transaction, hkey, Database.createForTenant_mapSecrets]
      split
      · rfl
      · cases db.createForTenant now input endpointIds <;> rfl
  simp only [EventsController.createEvent]
  split
  · rfl
  · rename_i key _
    simp only [IngestEventUseCase.execute, hcreate]
    cases PrismaEventsRepository.createForTenant now db ⟨tenantId, key, type, payload⟩ with
    | ok p => rfl
    | error e =>
      simp only [Except.map]
      cases IngestEventUseCase.answer key (.error e) <;> rfl

theorem findEvent_mapSecrets :
    PrismaEventsRepository.findById (db.mapSecrets f) id tenantId =
      PrismaEventsRepository.findById db id tenantId := by
  simp only [PrismaEventsRepository.findById, eventDeliveries_mapSecrets]
  rfl

theorem findDelivery_mapSecrets :
    PrismaDeliveriesRepository.findById (db.mapSecrets f) id tenantId =
      PrismaDeliveriesRepository.findById db id tenantId := by
  simp only [PrismaDeliveriesRepository.findById, endpointRef_mapSecrets]
  rfl

theorem replayDelivery_mapSecrets : ReplayDeliveryUseCase.execute now (db.mapSecrets f) id tenantId =
    (ReplayDeliveryUseCase.execute now db id tenantId).map fun p => (p.1.mapSecrets f, p.2) := by
  have hreset : PrismaDeliveriesRepository.resetForReplay now (db.mapSecrets f) id =
      (PrismaDeliveriesRepository.resetForReplay now db id).map fun p => (p.1.mapSecrets f, p.2) := by
    simp only [PrismaDeliveriesRepository.resetForReplay, Database.mapSecrets_deliveries,
      Database.resetForReplay_mapSecrets]
    cases db.deliveries.row id with
    | none => rfl
    | some r => cases db.resetForReplay now id <;> rfl
  simp only [ReplayDeliveryUseCase.execute, findDelivery_mapSecrets, hreset]
  cases PrismaDeliveriesRepository.findById db id tenantId with
  | none => rfl
  | some delivery =>
    dsimp only
    split
    · rfl
    · cases PrismaDeliveriesRepository.resetForReplay now db id <;> rfl

theorem listEndpoints_mapSecrets {answer : List EndpointSummary}
    (h : PrismaEndpointsRepository.list db tenantId answer) :
    PrismaEndpointsRepository.list (db.mapSecrets f) tenantId answer := by
  obtain ⟨rows, hrows, rfl⟩ := h
  refine ⟨_, Table.Ordered.mapRows (Endpoint.mapSecrets f) (fun _ => rfl) hrows, ?_⟩
  rw [List.map_map]
  rfl

theorem listEvents_mapSecrets {query : EventListQuery} {answer : Page EventItem}
    (h : PrismaEventsRepository.findAll db tenantId query answer) :
    PrismaEventsRepository.findAll (db.mapSecrets f) tenantId query answer := by
  have hitem (id : Nat) (e : WebhookEvent) :
      PrismaEventsRepository.item (db.mapSecrets f) id e = PrismaEventsRepository.item db id e := by
    simp only [PrismaEventsRepository.item, eventDeliveries_mapSecrets]
    rfl
  obtain ⟨rows, hrows, rfl⟩ := h
  refine ⟨rows, hrows, ?_⟩
  simp only [hitem]
  rfl

theorem listDeliveries_mapSecrets {query : DeliveryListQuery} {answer : Page DeliveryItem}
    (h : PrismaDeliveriesRepository.findAll db tenantId query answer) :
    PrismaDeliveriesRepository.findAll (db.mapSecrets f) tenantId query answer := by
  have hitem (id : Nat) (r : Delivery) :
      PrismaDeliveriesRepository.item (db.mapSecrets f) id r = PrismaDeliveriesRepository.item db id r := by
    simp only [PrismaDeliveriesRepository.item, endpointRef_mapSecrets]
    rfl
  obtain ⟨rows, hrows, rfl⟩ := h
  refine ⟨rows, hrows, ?_⟩
  simp only [hitem]
  rfl

/-- Under other secrets a call comes to the same. -/
theorem TenantCall.Answers.mapSecrets (f : String → String) {call : TenantCall}
    {result : Except ApiError (Database × Response)}
    (h : TenantCall.Answers assertSafeWebhookUrl now secretKey db tenantId call result) :
    TenantCall.Answers assertSafeWebhookUrl now (f secretKey) (db.mapSecrets f) tenantId call
      (result.map fun p => (p.1.mapSecrets f, p.2.mapSecrets f)) := by
  cases call with
  | createEndpoint input =>
    cases h
    simp only [TenantCall.Answers, createEndpoint_mapSecrets, Effects.map_map]
    rfl
  | listEndpoints =>
    obtain ⟨answer, hlist, rfl⟩ := h
    exact ⟨answer, listEndpoints_mapSecrets hlist, rfl⟩
  | updateEndpoint id input =>
    cases h
    simp only [TenantCall.Answers, updateEndpoint_mapSecrets, Effects.map_map]
    rfl
  | deleteEndpoint id =>
    cases h
    simp only [TenantCall.Answers, deleteEndpoint_mapSecrets, Effects.map_map]
    rfl
  | rotateEndpointSecret id =>
    cases h
    simp only [TenantCall.Answers, rotateEndpointSecret_mapSecrets, Effects.map_map]
    rfl
  | createEvent idempotencyKey type payload =>
    cases h
    simp only [TenantCall.Answers, createEvent_mapSecrets, Effects.map_map]
    rfl
  | listEvents query =>
    obtain ⟨answer, hlist, rfl⟩ := h
    exact ⟨answer, listEvents_mapSecrets hlist, rfl⟩
  | getEvent id =>
    cases h
    simp only [TenantCall.Answers, GetEventUseCase.execute, findEvent_mapSecrets, Effects.map_map]
    rfl
  | listDeliveries query =>
    obtain ⟨answer, hlist, rfl⟩ := h
    exact ⟨answer, listDeliveries_mapSecrets hlist, rfl⟩
  | getDelivery id =>
    cases h
    simp only [TenantCall.Answers, GetDeliveryUseCase.execute, findDelivery_mapSecrets, Effects.map_map]
    rfl
  | replayDelivery id =>
    cases h
    simp only [TenantCall.Answers, replayDelivery_mapSecrets, Effects.map_map]
    rfl

end Answers

namespace Service

/-- A run and every call on what it leaves go as they would with other secrets: a secret is told
to the tenant it is made for, and nothing else that is written or answered depends on it. -/
theorem secrets_carried (f : String → String) {cfg : Config} {hashApiKey : String → String} {u : Setup}
    {as : List Operation} {s : Service} (h : Reached cfg hashApiKey u as s) :
    Reached cfg hashApiKey (u.mapSecrets f) (as.map (.mapSecrets f)) (s.mapSecrets f) ∧
    ∀ (assertSafeWebhookUrl : String → Except ApiError String) (secretKey : String) (tenantId : Nat)
      (call : TenantCall) (result : Except ApiError (Database × Response)),
      TenantCall.Answers assertSafeWebhookUrl s.now secretKey s.db tenantId call result →
      TenantCall.Answers assertSafeWebhookUrl (s.mapSecrets f).now (f secretKey) (s.mapSecrets f).db tenantId call
        (result.map fun p => (p.1.mapSecrets f, p.2.mapSecrets f)) :=
  ⟨h.mapSecrets f, fun _ _ _ _ _ hanswers => hanswers.mapSecrets f⟩

/-- A rotation with its secret blanked out. -/
def blankedRun (secretKey : String) : List Operation :=
  [.requireOwned 0 0 0 .rotateSecret, .generateSecret 0 secretKey, .findSecret 0, .rotateSecret 0]

theorem secrets_carried_blanked :
    Reached .defaults id ((Setup.subscribed 1).mapSecrets fun _ => "") (blankedRun "")
      ((after .defaults id (.subscribed 1) (blankedRun "whsec_1")).mapSecrets fun _ => "") ∧
    ∃ db, TenantCall.Answers .ok 0 ""
      ((after .defaults id (.subscribed 1) (blankedRun "whsec_1")).mapSecrets fun _ => "").db 0
      (.rotateEndpointSecret 0) (.ok (db, .rotated 0 "" rotationWindow)) := by
  have hreached : Reached .defaults id (.subscribed 1) (blankedRun "whsec_1")
      (after .defaults id (.subscribed 1) (blankedRun "whsec_1")) := Transition.run_ending (by decide +kernel)
  obtain ⟨hrun, hcalls⟩ := secrets_carried (fun _ => "") hreached
  exact ⟨hrun, _, hcalls .ok "whsec_2" 0 (.rotateEndpointSecret 0)
    (.ok (_, .rotated 0 "whsec_2" rotationWindow)) rfl⟩

end Service

end WebhookEngine
