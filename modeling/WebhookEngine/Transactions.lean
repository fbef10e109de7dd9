import WebhookEngine.Outbox

/-! The committed transactions as data, and what each of them can do to a row.
Every invariant of the store is derived from the row lemmas of this file. -/

namespace WebhookEngine

open Relational

inductive Txn where
  | createForTenant (input : CreateWebhookEventInput) (endpointIds : List Nat)
  | claimForProcessing (id expectedAttempt : Nat)
  | markSuccess (id statusCode : Nat) (responseSnippet : String)
  | markDeadLetter (id statusCode : Nat) (responseSnippet : String)
  | markCancelled (id : Nat) (reason : String)
  | markFailedAndSchedule (input : DeliveryFailureInput)
  | markRateLimitedAndSchedule (id : Nat) (nextAttemptAt : Time) (attemptNumber : Nat)
  | recoverStaleDelivery (id attempts : Nat) (cutoff : Time)
  | resetForReplay (id : Nat)
  | markPublished (outboxId : Nat)
  | recordPublishError (outboxId : Nat) (message : String)
  | reopenOutbox (outboxId : Nat) (state : String)
  | cleanupExpiredEndpointSecrets
  | cleanupPublishedOutboxRows
  | cleanupOldEvents
  | setEndpointActive (id : Nat) (isActive : Bool)

def Txn.apply (cfg : Config) (now : Time) (db : Database) : Txn → Option Database
  | .createForTenant input endpointIds => db.createForTenant now input endpointIds
  | .claimForProcessing id expectedAttempt => some (db.claimForProcessing now id expectedAttempt).1
  | .markSuccess id statusCode responseSnippet => db.markSuccess now id statusCode responseSnippet
  | .markDeadLetter id statusCode responseSnippet =>
    db.markDeadLetter now id statusCode responseSnippet
  | .markCancelled id reason => db.markCancelled now id reason
  | .markFailedAndSchedule input => db.markFailedAndSchedule now input
  | .markRateLimitedAndSchedule id nextAttemptAt attemptNumber =>
    db.markRateLimitedAndSchedule now id nextAttemptAt attemptNumber
  | .recoverStaleDelivery id attempts cutoff => some (db.recoverStaleDelivery now id attempts cutoff)
  | .resetForReplay id => db.resetForReplay now id
  | .markPublished outboxId => db.updateOutbox outboxId (.published now)
  | .recordPublishError outboxId message => db.updateOutbox outboxId (.publishFailed message)
  | .reopenOutbox outboxId state => db.updateOutbox outboxId (.reopened state)
  | .cleanupExpiredEndpointSecrets => some (db.cleanupExpiredEndpointSecrets now)
  | .cleanupPublishedOutboxRows => some (db.cleanupPublishedOutboxRows now)
  | .cleanupOldEvents => some (db.cleanupOldEvents cfg.eventRetentionDays now)
  | .setEndpointActive id isActive => db.setEndpointActive id isActive

/-- What a transaction makes of a delivery row it finds. -/
def Txn.rewrite (now : Time) (d : Nat) (r : Delivery) : Txn → Delivery
  | .claimForProcessing id expectedAttempt =>
    if d = id ∧ r.claimableAs expectedAttempt then r.claim now else r
  | .markSuccess id statusCode responseSnippet =>
    if d = id then r.succeed statusCode responseSnippet else r
  | .markDeadLetter id statusCode responseSnippet =>
    if d = id then r.deadLetter statusCode responseSnippet else r
  | .markCancelled id reason => if d = id then r.cancel reason else r
  | .markFailedAndSchedule input => if d = input.id then r.fail input else r
  | .markRateLimitedAndSchedule id nextAttemptAt _ => if d = id then r.rateLimit nextAttemptAt else r
  | .recoverStaleDelivery id _ cutoff => if d = id ∧ r.staleBefore cutoff then r.recover now else r
  | .resetForReplay id => if d = id then r.reset now else r
  | _ => r

/-- The delivery a worker's write overwrites by identifier, and the status it leaves. -/
def Txn.overwrites : Txn → Option (Nat × DeliveryStatus)
  | .markSuccess id _ _ => some (id, .success)
  | .markDeadLetter id _ _ => some (id, .dlq)
  | .markCancelled id _ => some (id, .cancelled)
  | .markFailedAndSchedule input => some (input.id, .failed)
  | .markRateLimitedAndSchedule id _ _ => some (id, .pending)
  | _ => none

def Txn.resets : Txn → Option Nat
  | .resetForReplay id => some id
  | _ => none

/-- What a transaction can do to one delivery row: nothing, a claim, a write by identifier, a
recovery or a replay. -/
inductive Txn.Rewrites (now : Time) (d : Nat) (r : Delivery) : Txn → Delivery → Prop where
  | same {x} : Rewrites now d r x r
  | claim {n} (hc : r.claimableAs n = true) : Rewrites now d r (.claimForProcessing d n) (r.claim now)
  | overwrite {x st q} (h : x.overwrites = some (d, st)) (hst : q.status = st)
      (hatt : q.attempts = r.attempts) : Rewrites now d r x q
  | recover {m cutoff} (hs : r.staleBefore cutoff = true) :
      Rewrites now d r (.recoverStaleDelivery d m cutoff) (r.recover now)
  | reset : Rewrites now d r (.resetForReplay d) (r.reset now)

def Txn.keepsDelivery (cfg : Config) (now : Time) (db : Database) : Txn → Delivery → Bool
  | .cleanupOldEvents, r =>
    cfg.eventRetentionDays == 0 || !db.doomed cfg.eventRetentionDays now r
  | _, _ => true

def Txn.created (now : Time) (db : Database) : Txn → List Delivery
  | .createForTenant _ endpointIds => endpointIds.map (Delivery.created now db.events.next)
  | _ => []

def Txn.keepsOutbox (cfg : Config) (now : Time) (db : Database) : Txn → DeliveryOutbox → Bool
  | .cleanupPublishedOutboxRows, o => !o.publishedAt.any fun t => t + publishedRetention < now
  | .cleanupOldEvents, o =>
    cfg.eventRetentionDays == 0 ||
      !(db.deliveries.row o.deliveryId).any (db.doomed cfg.eventRetentionDays now)
  | _, _ => true

def Txn.rewriteOutbox (now : Time) (i : Nat) (o : DeliveryOutbox) : Txn → DeliveryOutbox
  | .markPublished id => if i = id then o.published now else o
  | .recordPublishError id message => if i = id then o.publishFailed message else o
  | .reopenOutbox id state => if i = id then o.reopened state else o
  | _ => o

def Txn.scheduled (now : Time) (db : Database) : Txn → List DeliveryOutbox
  | .createForTenant _ endpointIds =>
    (List.range' db.deliveries.next endpointIds.length).map fun id => .created now id now 1
  | .markFailedAndSchedule input =>
    [.created now input.id input.nextAttemptAt input.nextAttemptNumber]
  | .markRateLimitedAndSchedule id nextAttemptAt attemptNumber =>
    [.created now id nextAttemptAt attemptNumber]
  | .recoverStaleDelivery id attempts cutoff =>
    if (db.deliveries.row id).any (·.staleBefore cutoff) then [.created now id now (attempts + 1)]
    else []
  | .resetForReplay id => [.created now id now 1]
  | _ => []

/-- What an event was accepted with; no transaction changes it. -/
def WebhookEvent.request (e : WebhookEvent) : CreateWebhookEventInput where
  tenantId := e.tenantId
  idempotencyKey := e.idempotencyKey
  type := e.type
  payload := e.payload

def WebhookEvent.accepted (now : Time) (input : CreateWebhookEventInput) (subscribers : Nat) :
    WebhookEvent where
  tenantId := input.tenantId
  idempotencyKey := input.idempotencyKey
  type := input.type
  payload := input.payload
  status := if subscribers = 0 then .noSubscribers else .pending
  createdAt := now
  updatedAt := now

def Txn.keepsEvent (cfg : Config) (now : Time) : Txn → WebhookEvent → Bool
  | .cleanupOldEvents, e => cfg.eventRetentionDays == 0 || !e.expired cfg.eventRetentionDays now
  | _, _ => true

def Txn.accepts (now : Time) : Txn → List WebhookEvent
  | .createForTenant input endpointIds => [.accepted now input endpointIds.length]
  | _ => []

def Txn.rewriteEndpoint (now : Time) (i : Nat) (e : Endpoint) : Txn → Endpoint
  | .cleanupExpiredEndpointSecrets => e.dropExpiredSecret now
  | .setEndpointActive id isActive => if i = id then { e with isActive := isActive } else e
  | _ => e

namespace Database

variable {cfg : Config} {now : Time} {db db' : Database} {id : Nat} {f : Delivery → Delivery}

theorem updateEvent_eq_some {eventId : Nat} {status : EventStatus} :
    db.updateEvent now eventId status = some db' ↔
      (db.events.row eventId).isSome = true ∧
        { db with events := db.events.modify eventId (.setStatus now status) } = db' := by
  simp only [updateEvent]
  split <;> simp_all

theorem settle_eq_some :
    db.settle now id f = some db' ↔ ∃ r, db.deliveries.row id = some r ∧
      (db.events.row (f r).eventId).isSome = true ∧
      { db with
        deliveries := db.deliveries.modify id f
        events := db.events.modify (f r).eventId (.setStatus now (calculateEventStatus
          ({ db with deliveries := db.deliveries.modify id f }.statuses (f r).eventId))) } = db' := by
  cases h : db.deliveries.row id with
  | none => simp [settle, updateDelivery, h]
  | some r => simp [settle, updateDelivery, h, refreshEventStatus, updateEvent_eq_some]

theorem schedule_eq_some {availableAt attemptNumber : Nat} :
    db.schedule now id f availableAt attemptNumber = some db' ↔
      ∃ r, db.deliveries.row id = some r ∧
      { db with
        deliveries := db.deliveries.modify id f
        deliveryOutbox := db.deliveryOutbox.insert (.created now id availableAt attemptNumber) } =
          db' := by
  cases h : db.deliveries.row id with
  | none => simp [schedule, updateDelivery, h]
  | some r => simp [schedule, updateDelivery, h, createOutbox]

theorem settle_absent (hr : db.deliveries.row id = none) : db.settle now id f = none := by
  rw [Option.eq_none_iff_forall_not_mem]
  intro db' h
  obtain ⟨r, hr', _⟩ := settle_eq_some.mp h
  rw [hr] at hr'
  cases hr'

theorem schedule_absent {availableAt attemptNumber : Nat} (hr : db.deliveries.row id = none) :
    db.schedule now id f availableAt attemptNumber = none := by
  rw [Option.eq_none_iff_forall_not_mem]
  intro db' h
  obtain ⟨r, hr', _⟩ := schedule_eq_some.mp h
  rw [hr] at hr'
  cases hr'

theorem resetForReplay_eq_some :
    db.resetForReplay now id = some db' ↔ ∃ r, db.deliveries.row id = some r ∧
      (db.events.row r.eventId).isSome = true ∧
      { db with
        deliveries := db.deliveries.modify id (.reset now)
        events := db.events.modify r.eventId (.setStatus now .processing)
        deliveryOutbox := db.deliveryOutbox.insert (.created now id now 1) } = db' := by
  cases h : db.deliveries.row id with
  | none => simp [resetForReplay, updateDelivery, h]
  | some r =>
    have hev : (r.reset now).eventId = r.eventId := rfl
    simp [resetForReplay, updateDelivery, h, createOutbox, hev, Option.bind_eq_some_iff,
      updateEvent_eq_some, and_assoc]

theorem updateOutbox_eq_some {g : DeliveryOutbox → DeliveryOutbox} :
    db.updateOutbox id g = some db' ↔ ∃ o, db.deliveryOutbox.row id = some o ∧
      { db with deliveryOutbox := db.deliveryOutbox.modify id g } = db' := by
  simp [updateOutbox, Option.map_eq_some_iff]

theorem recoverStaleDelivery_cases (now : Time) (db : Database) (id attempts : Nat) (cutoff : Time) :
    (db.deliveries.row id).any (·.staleBefore cutoff) = false ∧
        db.recoverStaleDelivery now id attempts cutoff = db ∨
      ∃ r, db.deliveries.row id = some r ∧ r.staleBefore cutoff = true ∧
        db.recoverStaleDelivery now id attempts cutoff =
          { db with
            deliveries := db.deliveries.modify id (.recover now)
            deliveryOutbox := db.deliveryOutbox.insert (.created now id now (attempts + 1)) } := by
  cases h : db.deliveries.row id with
  | none => simp [recoverStaleDelivery, h]
  | some r =>
    by_cases hs : r.staleBefore cutoff = true
    · exact .inr ⟨r, rfl, hs, by simp [recoverStaleDelivery, h, hs, createOutbox]⟩
    · exact .inl ⟨by simp [hs], by simp [recoverStaleDelivery, h, hs]⟩

theorem findById_eq_some {db : Database} {id : Nat} {delivery : DispatchableDelivery} :
    db.findById id = some delivery ↔ delivery.id = id ∧ db.deliveries.row id = some delivery.row ∧
      db.endpoints.row delivery.row.endpointId = some delivery.endpoint ∧
      db.events.row delivery.row.eventId = some delivery.event ∧
      db.tenants.row delivery.event.tenantId = some delivery.tenant := by
  simp only [findById, Option.bind_eq_bind, Option.bind_eq_some_iff, Option.pure_def, Option.some.injEq]
  constructor
  · rintro ⟨r, hr, ep, hep, ev, hev, tenant, htenant, rfl⟩
    exact ⟨rfl, hr, hep, hev, htenant⟩
  · rintro ⟨rfl, hr, hep, hev, htenant⟩
    exact ⟨_, hr, _, hep, _, hev, _, htenant, rfl⟩

theorem claimForProcessing_answer {now : Time} {db : Database} {id expectedAttempt : Nat}
    {delivery : DispatchableDelivery}
    (h : (db.claimForProcessing now id expectedAttempt).2 = some delivery) :
    db.endpoints.row delivery.row.endpointId = some delivery.endpoint ∧
      db.events.row delivery.row.eventId = some delivery.event := by
  simp only [claimForProcessing] at h
  split at h
  · cases h
  · split at h
    · split at h
      · cases h
      · rename_i hfind
        cases h
        obtain ⟨_, _, hep, hev, _⟩ := findById_eq_some.mp hfind
        exact ⟨hep, hev⟩
    · cases h

/-- An unclaimable row stays, a claimable one is claimed and answered with the rows
it includes, provided they are there. -/
theorem claimForProcessing_cases (now : Time) (db : Database) (id expectedAttempt : Nat) :
    (db.deliveries.row id).any (·.claimableAs expectedAttempt) = false ∧
        db.claimForProcessing now id expectedAttempt = (db, none) ∨
      ∃ r, db.deliveries.row id = some r ∧ r.claimableAs expectedAttempt = true ∧
        (db.claimForProcessing now id expectedAttempt).1.deliveries =
          db.deliveries.modify id (.claim now) ∧
        (db.claimForProcessing now id expectedAttempt).1.deliveryOutbox = db.deliveryOutbox := by
  cases h : db.deliveries.row id with
  | none => simp [claimForProcessing, h]
  | some r =>
    by_cases hc : r.claimableAs expectedAttempt = true
    · refine .inr ⟨r, rfl, hc, ?_⟩
      simp only [claimForProcessing, h, hc, if_true]
      split <;> exact ⟨rfl, rfl⟩
    · exact .inl ⟨by simp [hc], by simp [claimForProcessing, h, hc]⟩

end Database

namespace Txn

variable {cfg : Config} {now : Time} {db db' : Database} {x : Txn}

theorem conditional_becomes {p : Delivery → Bool} {g : Delivery → Delivery} {t' : Table Delivery}
    {id : Nat} (h : (db.deliveries.row id).any p = false ∧ t' = db.deliveries ∨
      ∃ r, db.deliveries.row id = some r ∧ p r = true ∧ t' = db.deliveries.modify id g) :
    db.deliveries.Becomes t' (fun _ => true) (fun d r => if d = id ∧ p r then g r else r) [] := by
  rcases h with ⟨hno, rfl⟩ | ⟨q, hq, hp, rfl⟩
  · refine Table.becomes_self fun d r hr => ?_
    by_cases hd : d = id
    · subst d
      have hpr : p r = false := by simpa [hr] using hno
      simp [hpr]
    · simp [hd]
  · refine Table.becomes_modify (fun r hr => ?_) fun d r hd => by simp [hd]
    rw [hq] at hr
    cases hr
    simp [hp]

theorem deliveries_becomes (h : x.apply cfg now db = some db') :
    db.deliveries.Becomes db'.deliveries (x.keepsDelivery cfg now db)
      (fun d r => x.rewrite now d r) (x.created now db) := by
  have hmod : ∀ (id : Nat) (g : Delivery → Delivery),
      db.deliveries.Becomes (db.deliveries.modify id g) (fun _ => true)
        (fun d r => if d = id then g r else r) [] :=
    fun id g => Table.becomes_modify (by simp) (by simp +contextual)
  have hself : db.deliveries.Becomes db.deliveries (fun _ => true) (fun _ r => r) [] :=
    Table.becomes_self fun _ _ _ => rfl
  cases x with
  | createForTenant input endpointIds =>
    simp only [apply, Database.createForTenant] at h
    split at h
    · cases h
      exact hself.insertAll _
    · cases h
  | claimForProcessing id n =>
    cases h
    refine conditional_becomes ?_
    rcases Database.claimForProcessing_cases now db id n with
      ⟨hno, he⟩ | ⟨q, hq, hc, he, _⟩
    · exact .inl ⟨hno, by rw [he]⟩
    · exact .inr ⟨q, hq, hc, he⟩
  | markSuccess id c t =>
    obtain ⟨q, _, _, rfl⟩ := Database.settle_eq_some.mp h
    exact hmod _ _
  | markDeadLetter id c t =>
    obtain ⟨q, _, _, rfl⟩ := Database.settle_eq_some.mp h
    exact hmod _ _
  | markCancelled id t =>
    obtain ⟨q, _, _, rfl⟩ := Database.settle_eq_some.mp h
    exact hmod _ _
  | markFailedAndSchedule input =>
    obtain ⟨q, _, rfl⟩ := Database.schedule_eq_some.mp h
    exact hmod _ _
  | markRateLimitedAndSchedule id t n =>
    obtain ⟨q, _, rfl⟩ := Database.schedule_eq_some.mp h
    exact hmod _ _
  | recoverStaleDelivery id a cutoff =>
    cases h
    refine conditional_becomes ?_
    rcases Database.recoverStaleDelivery_cases now db id a cutoff with
      ⟨hno, he⟩ | ⟨q, hq, hs, he⟩
    · exact .inl ⟨hno, by rw [he]⟩
    · exact .inr ⟨q, hq, hs, by rw [he]⟩
  | resetForReplay id =>
    obtain ⟨q, _, _, rfl⟩ := Database.resetForReplay_eq_some.mp h
    exact hmod _ _
  | markPublished id =>
    obtain ⟨o, _, rfl⟩ := Database.updateOutbox_eq_some.mp h
    exact hself
  | recordPublishError id m =>
    obtain ⟨o, _, rfl⟩ := Database.updateOutbox_eq_some.mp h
    exact hself
  | reopenOutbox id m =>
    obtain ⟨o, _, rfl⟩ := Database.updateOutbox_eq_some.mp h
    exact hself
  | cleanupExpiredEndpointSecrets =>
    cases h
    exact hself
  | cleanupPublishedOutboxRows =>
    cases h
    exact hself
  | cleanupOldEvents =>
    cases h
    simp only [Database.cleanupOldEvents]
    split
    · rename_i h0
      have hk : keepsDelivery cfg now db .cleanupOldEvents = fun _ => true :=
        funext fun r => by simp [keepsDelivery, h0]
      rw [hk]
      exact hself
    · rename_i h0
      exact Table.becomes_deleteWhere fun r => by simp [keepsDelivery, h0]
  | setEndpointActive id b =>
    simp only [apply, Database.setEndpointActive, Option.map_eq_some_iff] at h
    obtain ⟨e, _, rfl⟩ := h
    exact hself

theorem outbox_becomes (h : x.apply cfg now db = some db') :
    db.deliveryOutbox.Becomes db'.deliveryOutbox (x.keepsOutbox cfg now db)
      (fun i o => x.rewriteOutbox now i o) (x.scheduled now db) := by
  have hself : db.deliveryOutbox.Becomes db.deliveryOutbox (fun _ => true) (fun _ o => o) [] :=
    Table.becomes_self fun _ _ _ => rfl
  have hmod : ∀ (id : Nat) (g : DeliveryOutbox → DeliveryOutbox),
      db.deliveryOutbox.Becomes (db.deliveryOutbox.modify id g) (fun _ => true)
        (fun i o => if i = id then g o else o) [] :=
    fun id g => Table.becomes_modify (by simp) (by simp +contextual)
  cases x with
  | createForTenant input endpointIds =>
    simp only [apply, Database.createForTenant] at h
    split at h
    · cases h
      exact hself.insertAll _
    · cases h
  | claimForProcessing id n =>
    cases h
    have he : (db.claimForProcessing now id n).1.deliveryOutbox = db.deliveryOutbox := by
      rcases Database.claimForProcessing_cases now db id n with
        ⟨_, he⟩ | ⟨_, _, _, _, he⟩
      · rw [he]
      · exact he
    rw [he]
    exact hself
  | markSuccess id c t =>
    obtain ⟨q, _, _, rfl⟩ := Database.settle_eq_some.mp h
    exact hself
  | markDeadLetter id c t =>
    obtain ⟨q, _, _, rfl⟩ := Database.settle_eq_some.mp h
    exact hself
  | markCancelled id t =>
    obtain ⟨q, _, _, rfl⟩ := Database.settle_eq_some.mp h
    exact hself
  | markFailedAndSchedule input =>
    obtain ⟨q, _, rfl⟩ := Database.schedule_eq_some.mp h
    exact hself.insertAll [_]
  | markRateLimitedAndSchedule id t n =>
    obtain ⟨q, _, rfl⟩ := Database.schedule_eq_some.mp h
    exact hself.insertAll [_]
  | recoverStaleDelivery id a cutoff =>
    cases h
    rcases Database.recoverStaleDelivery_cases now db id a cutoff with
      ⟨hno, he⟩ | ⟨q, hq, hs, he⟩
    · have hsch : scheduled now db (.recoverStaleDelivery id a cutoff) = [] := by
        simp [scheduled, hno]
      rw [he, hsch]
      exact hself
    · have hsch : scheduled now db (.recoverStaleDelivery id a cutoff) =
          [.created now id now (a + 1)] := by simp [scheduled, hq, hs]
      rw [he, hsch]
      exact hself.insertAll [_]
  | resetForReplay id =>
    obtain ⟨q, _, _, rfl⟩ := Database.resetForReplay_eq_some.mp h
    exact hself.insertAll [_]
  | markPublished id =>
    obtain ⟨o, _, rfl⟩ := Database.updateOutbox_eq_some.mp h
    exact hmod _ _
  | recordPublishError id m =>
    obtain ⟨o, _, rfl⟩ := Database.updateOutbox_eq_some.mp h
    exact hmod _ _
  | reopenOutbox id m =>
    obtain ⟨o, _, rfl⟩ := Database.updateOutbox_eq_some.mp h
    exact hmod _ _
  | cleanupExpiredEndpointSecrets =>
    cases h
    exact hself
  | cleanupPublishedOutboxRows =>
    cases h
    exact Table.becomes_deleteWhere fun o => by simp [keepsOutbox]
  | cleanupOldEvents =>
    cases h
    simp only [Database.cleanupOldEvents]
    split
    · rename_i h0
      have hk : keepsOutbox cfg now db .cleanupOldEvents = fun _ => true :=
        funext fun o => by simp [keepsOutbox, h0]
      rw [hk]
      exact hself
    · rename_i h0
      exact Table.becomes_deleteWhere fun o => by simp [keepsOutbox, h0]
  | setEndpointActive id b =>
    simp only [apply, Database.setEndpointActive, Option.map_eq_some_iff] at h
    obtain ⟨e, _, rfl⟩ := h
    exact hself

theorem events_becomes (h : x.apply cfg now db = some db') : ∃ f : Nat → WebhookEvent → WebhookEvent,
    db.events.Becomes db'.events (x.keepsEvent cfg now) f (x.accepts now) ∧
      ∀ e ev, (f e ev).request = ev.request ∧ (f e ev).createdAt = ev.createdAt := by
  have hself : db.events.Becomes db.events (fun _ => true) (fun _ e => e) [] :=
    Table.becomes_self fun _ _ _ => rfl
  have hset : ∀ (i : Nat) (st : EventStatus), ∃ f : Nat → WebhookEvent → WebhookEvent,
      db.events.Becomes (db.events.modify i (.setStatus now st)) (fun _ => true) f [] ∧
        ∀ e ev, (f e ev).request = ev.request ∧ (f e ev).createdAt = ev.createdAt := by
    intro i st
    refine ⟨fun e ev => if e = i then ev.setStatus now st else ev,
      Table.becomes_modify (by simp) (by simp +contextual), fun e ev => ?_⟩
    by_cases he : e = i
    · simp only [he, if_true]
      exact ⟨rfl, rfl⟩
    · simp [he]
  have hsame := fun (e : Nat) (ev : WebhookEvent) => And.intro (Eq.refl ev.request) (Eq.refl ev.createdAt)
  cases x with
  | createForTenant input endpointIds =>
    simp only [apply, Database.createForTenant] at h
    split at h
    · cases h
      exact ⟨_, hself.insertAll [_], hsame⟩
    · cases h
  | claimForProcessing id n =>
    cases h
    simp only [Database.claimForProcessing]
    split
    · exact ⟨_, hself, hsame⟩
    · split
      · split
        · exact ⟨_, hself, hsame⟩
        · exact hset _ _
      · exact ⟨_, hself, hsame⟩
  | markSuccess id c t =>
    obtain ⟨q, _, _, rfl⟩ := Database.settle_eq_some.mp h
    exact hset _ _
  | markDeadLetter id c t =>
    obtain ⟨q, _, _, rfl⟩ := Database.settle_eq_some.mp h
    exact hset _ _
  | markCancelled id t =>
    obtain ⟨q, _, _, rfl⟩ := Database.settle_eq_some.mp h
    exact hset _ _
  | markFailedAndSchedule input =>
    obtain ⟨q, _, rfl⟩ := Database.schedule_eq_some.mp h
    exact ⟨_, hself, hsame⟩
  | markRateLimitedAndSchedule id t n =>
    obtain ⟨q, _, rfl⟩ := Database.schedule_eq_some.mp h
    exact ⟨_, hself, hsame⟩
  | recoverStaleDelivery id a cutoff =>
    cases h
    rcases Database.recoverStaleDelivery_cases now db id a cutoff with ⟨_, he⟩ | ⟨_, _, _, he⟩
    · rw [he]
      exact ⟨_, hself, hsame⟩
    · rw [he]
      exact ⟨_, hself, hsame⟩
  | resetForReplay id =>
    obtain ⟨q, _, _, rfl⟩ := Database.resetForReplay_eq_some.mp h
    exact hset _ _
  | markPublished id =>
    obtain ⟨o, _, rfl⟩ := Database.updateOutbox_eq_some.mp h
    exact ⟨_, hself, hsame⟩
  | recordPublishError id m =>
    obtain ⟨o, _, rfl⟩ := Database.updateOutbox_eq_some.mp h
    exact ⟨_, hself, hsame⟩
  | reopenOutbox id m =>
    obtain ⟨o, _, rfl⟩ := Database.updateOutbox_eq_some.mp h
    exact ⟨_, hself, hsame⟩
  | cleanupExpiredEndpointSecrets =>
    cases h
    exact ⟨_, hself, hsame⟩
  | cleanupPublishedOutboxRows =>
    cases h
    exact ⟨_, hself, hsame⟩
  | cleanupOldEvents =>
    cases h
    simp only [Database.cleanupOldEvents]
    split
    · rename_i h0
      have hk : keepsEvent cfg now .cleanupOldEvents = fun _ => true :=
        funext fun e => by simp [keepsEvent, h0]
      rw [hk]
      exact ⟨_, hself, hsame⟩
    · rename_i h0
      exact ⟨_, Table.becomes_deleteWhere fun e => by simp [keepsEvent, h0], hsame⟩
  | setEndpointActive id b =>
    simp only [apply, Database.setEndpointActive, Option.map_eq_some_iff] at h
    obtain ⟨e, _, rfl⟩ := h
    exact ⟨_, hself, hsame⟩

theorem rewrite_eventId (d : Nat) (r : Delivery) : (x.rewrite now d r).eventId = r.eventId := by
  cases x <;> simp only [rewrite] <;> (try split) <;> rfl

theorem rewrite_endpointId (d : Nat) (r : Delivery) :
    (x.rewrite now d r).endpointId = r.endpointId := by
  cases x <;> simp only [rewrite] <;> (try split) <;> rfl

theorem rewrites (x : Txn) (now : Time) (d : Nat) (r : Delivery) :
    Rewrites now d r x (x.rewrite now d r) := by
  have overwrite : ∀ (id : Nat) (q : Delivery), x.overwrites = some (id, q.status) →
      q.attempts = r.attempts → Rewrites now d r x (if d = id then q else r) := by
    intro id q h hatt
    split
    · rename_i hd
      exact .overwrite (hd ▸ h) rfl hatt
    · exact .same
  cases x with
  | claimForProcessing id n =>
    simp only [rewrite]
    split
    · rename_i hc
      obtain ⟨rfl, hc⟩ := hc
      exact .claim hc
    · exact .same
  | markSuccess id code snippet => exact overwrite id _ rfl rfl
  | markDeadLetter id code snippet => exact overwrite id _ rfl rfl
  | markCancelled id reason => exact overwrite id _ rfl rfl
  | markFailedAndSchedule input => exact overwrite input.id _ rfl rfl
  | markRateLimitedAndSchedule id at' n => exact overwrite id _ rfl rfl
  | recoverStaleDelivery id m cutoff =>
    simp only [rewrite]
    split
    · rename_i hs
      obtain ⟨rfl, hs⟩ := hs
      exact .recover hs
    · exact .same
  | resetForReplay id =>
    simp only [rewrite]
    split
    · rename_i hd
      subst hd
      exact .reset
    · exact .same
  | _ => exact .same

theorem overwrites_ne_processing {d : Nat} {st : DeliveryStatus} (h : x.overwrites = some (d, st)) :
    st ≠ .processing := by
  rintro rfl
  cases x <;> cases h

theorem scheduled_of_overwrites {d : Nat} {st : DeliveryStatus} {o : DeliveryOutbox}
    (h : x.overwrites = some (d, st)) (ho : o ∈ x.scheduled now db) : o.deliveryId = d := by
  cases x with
  | markFailedAndSchedule input =>
    cases h
    rw [scheduled, List.mem_singleton] at ho
    rw [ho]
    rfl
  | markRateLimitedAndSchedule id at' n =>
    cases h
    rw [scheduled, List.mem_singleton] at ho
    rw [ho]
    rfl
  | createForTenant => cases h
  | recoverStaleDelivery => cases h
  | resetForReplay => cases h
  | _ => cases ho

theorem rewrite_attempts {d : Nat} (r : Delivery) (hc : ∀ n, x ≠ .claimForProcessing d n)
    (hr : x ≠ .resetForReplay d) : (x.rewrite now d r).attempts = r.attempts := by
  generalize hq : x.rewrite now d r = q
  cases hq ▸ x.rewrites now d r with
  | same => rfl
  | claim _ => exact absurd rfl (hc _)
  | overwrite _ _ hatt => exact hatt
  | recover _ => rfl
  | reset => exact absurd rfl hr

theorem rewriteOutbox_ids (x : Txn) (now : Time) (i : Nat) (o : DeliveryOutbox) :
    (x.rewriteOutbox now i o).deliveryId = o.deliveryId ∧
      (x.rewriteOutbox now i o).attemptNumber = o.attemptNumber := by
  cases x <;> simp only [rewriteOutbox, and_self] <;> split <;> exact ⟨rfl, rfl⟩

theorem scheduled_unpublished {o : DeliveryOutbox} (ho : o ∈ x.scheduled now db) : o.publishedAt = none := by
  cases x with
  | createForTenant input endpointIds =>
    simp only [scheduled, List.mem_map] at ho
    obtain ⟨_, _, rfl⟩ := ho
    rfl
  | markFailedAndSchedule input =>
    simp only [scheduled, List.mem_singleton] at ho
    rw [ho]
    rfl
  | markRateLimitedAndSchedule id at' m =>
    simp only [scheduled, List.mem_singleton] at ho
    rw [ho]
    rfl
  | recoverStaleDelivery id attempts cutoff =>
    simp only [scheduled] at ho
    split at ho
    · rw [List.mem_singleton] at ho
      rw [ho]
      rfl
    · cases ho
  | resetForReplay id =>
    simp only [scheduled, List.mem_singleton] at ho
    rw [ho]
    rfl
  | _ => cases ho

theorem createForTenant_eq_some {input : CreateWebhookEventInput} {endpointIds : List Nat} :
    db.createForTenant now input endpointIds = some db' ↔
      (db.tenants.row input.tenantId).isSome = true ∧
      (db.events.select fun _ e =>
        e.tenantId == input.tenantId && e.idempotencyKey == input.idempotencyKey) = [] ∧
      (∀ e ∈ endpointIds, (db.endpoints.row e).isSome = true) ∧
      { db with
        events := db.events.insert
          { tenantId := input.tenantId
            idempotencyKey := input.idempotencyKey
            type := input.type
            payload := input.payload
            status := if endpointIds.length = 0 then .noSubscribers else .pending
            createdAt := now
            updatedAt := now }
        deliveries := db.deliveries.insertAll (endpointIds.map (Delivery.created now db.events.next))
        deliveryOutbox := db.deliveryOutbox.insertAll
          ((List.range' db.deliveries.next endpointIds.length).map fun id => .created now id now 1) } =
        db' := by
  simp only [Database.createForTenant]
  split
  · rename_i hc
    simp only [hc.1, hc.2.1, true_and, Option.some.injEq]
    exact ⟨fun he => ⟨hc.2.2, he⟩, fun he => he.2⟩
  · rename_i hc
    simp only [reduceCtorEq, false_iff]
    rintro ⟨h1, h2, h3, _⟩
    exact hc ⟨h1, h2, h3⟩

/-- No transaction of the pipeline writes a tenant or a subscription, and none adds an endpoint. -/
theorem setup_kept (h : x.apply cfg now db = some db') :
    db'.tenants = db.tenants ∧ db'.subscriptions = db.subscriptions ∧
      db'.endpoints.next = db.endpoints.next ∧
      ∀ i, db'.endpoints.row i = (db.endpoints.row i).map fun e => x.rewriteEndpoint now i e := by
  have hsame : ∀ i, db.endpoints.row i = (db.endpoints.row i).map fun e => e :=
    fun _ => Option.map_id'.symm
  cases x with
  | createForTenant input endpointIds =>
    obtain ⟨_, _, _, rfl⟩ := createForTenant_eq_some.mp h
    exact ⟨rfl, rfl, rfl, hsame⟩
  | claimForProcessing id n =>
    cases h
    simp only [Database.claimForProcessing]
    split
    · exact ⟨rfl, rfl, rfl, hsame⟩
    · split
      · split <;> exact ⟨rfl, rfl, rfl, hsame⟩
      · exact ⟨rfl, rfl, rfl, hsame⟩
  | markSuccess id c t =>
    obtain ⟨q, _, _, rfl⟩ := Database.settle_eq_some.mp h
    exact ⟨rfl, rfl, rfl, hsame⟩
  | markDeadLetter id c t =>
    obtain ⟨q, _, _, rfl⟩ := Database.settle_eq_some.mp h
    exact ⟨rfl, rfl, rfl, hsame⟩
  | markCancelled id t =>
    obtain ⟨q, _, _, rfl⟩ := Database.settle_eq_some.mp h
    exact ⟨rfl, rfl, rfl, hsame⟩
  | markFailedAndSchedule input =>
    obtain ⟨q, _, rfl⟩ := Database.schedule_eq_some.mp h
    exact ⟨rfl, rfl, rfl, hsame⟩
  | markRateLimitedAndSchedule id t n =>
    obtain ⟨q, _, rfl⟩ := Database.schedule_eq_some.mp h
    exact ⟨rfl, rfl, rfl, hsame⟩
  | recoverStaleDelivery id a cutoff =>
    cases h
    rcases Database.recoverStaleDelivery_cases now db id a cutoff with ⟨_, he⟩ | ⟨_, _, _, he⟩ <;>
      rw [he] <;> exact ⟨rfl, rfl, rfl, hsame⟩
  | resetForReplay id =>
    obtain ⟨q, _, _, rfl⟩ := Database.resetForReplay_eq_some.mp h
    exact ⟨rfl, rfl, rfl, hsame⟩
  | markPublished id =>
    obtain ⟨o, _, rfl⟩ := Database.updateOutbox_eq_some.mp h
    exact ⟨rfl, rfl, rfl, hsame⟩
  | recordPublishError id m =>
    obtain ⟨o, _, rfl⟩ := Database.updateOutbox_eq_some.mp h
    exact ⟨rfl, rfl, rfl, hsame⟩
  | reopenOutbox id m =>
    obtain ⟨o, _, rfl⟩ := Database.updateOutbox_eq_some.mp h
    exact ⟨rfl, rfl, rfl, hsame⟩
  | cleanupExpiredEndpointSecrets =>
    cases h
    exact ⟨rfl, rfl, rfl, fun _ => rfl⟩
  | cleanupPublishedOutboxRows =>
    cases h
    exact ⟨rfl, rfl, rfl, hsame⟩
  | cleanupOldEvents =>
    cases h
    simp only [Database.cleanupOldEvents]
    split <;> exact ⟨rfl, rfl, rfl, hsame⟩
  | setEndpointActive id b =>
    simp only [apply, Database.setEndpointActive, Option.map_eq_some_iff] at h
    obtain ⟨q, _, rfl⟩ := h
    exact ⟨rfl, rfl, rfl, fun i => Table.modify_row_eq_map _ _ _ _⟩

theorem parents_kept (h : x.apply cfg now db = some db')
    (hc : ∀ input endpointIds, x ≠ .createForTenant input endpointIds) (ho : x ≠ .cleanupOldEvents) :
    db'.tenants = db.tenants ∧
      (∀ e, (db'.endpoints.row e).isSome = (db.endpoints.row e).isSome) ∧
      ∀ e, (db'.events.row e).map WebhookEvent.tenantId =
        (db.events.row e).map WebhookEvent.tenantId := by
  obtain ⟨htenants, _, _, hendpoints⟩ := setup_kept h
  obtain ⟨f, hevents, hf⟩ := events_becomes h
  have hkeeps : x.keepsEvent cfg now = fun _ => true := by
    cases x with
    | cleanupOldEvents => exact absurd rfl ho
    | _ => rfl
  have haccepts : x.accepts now = [] := by
    cases x with
    | createForTenant input endpointIds => exact absurd rfl (hc input endpointIds)
    | _ => rfl
  refine ⟨htenants, fun e => by rw [hendpoints, Option.isSome_map], fun e => ?_⟩
  rw [hkeeps, haccepts] at hevents
  rw [hevents.row]
  by_cases hlt : e < db.events.next
  · have htenant : ∀ ev, (f e ev).tenantId = ev.tenantId :=
      fun ev => congrArg CreateWebhookEventInput.tenantId (hf e ev).1
    cases hrow : db.events.row e with
    | none => simp [hlt]
    | some ev => simp [hlt, htenant]
  · rw [if_neg hlt, db.events.fresh e (by omega)]
    simp

end Txn

/-- The foreign keys the pipeline's joins rest on. -/
structure Database.Linked (db : Database) : Prop where
  event : ∀ d r, db.deliveries.row d = some r → (db.events.row r.eventId).isSome = true
  endpoint : ∀ d r, db.deliveries.row d = some r → (db.endpoints.row r.endpointId).isSome = true
  tenant : ∀ e ev, db.events.row e = some ev → (db.tenants.row ev.tenantId).isSome = true

namespace Database.Linked

variable {cfg : Config} {now : Time} {db db' : Database} {x : Txn}

theorem createForTenant {input : CreateWebhookEventInput} {endpointIds : List Nat} (hl : db.Linked)
    (h : db.createForTenant now input endpointIds = some db') : db'.Linked := by
  obtain ⟨htenant, _, hendpoints, rfl⟩ := Txn.createForTenant_eq_some.mp h
  have hself : db.deliveries.Becomes db.deliveries (fun _ => true) (fun _ r => r) [] :=
    Table.becomes_self fun _ _ _ => rfl
  have hb := hself.insertAll (endpointIds.map (Delivery.created now db.events.next))
  refine ⟨fun d r' hr => ?_, fun d r' hr => ?_, fun e ev he => ?_⟩
  · rcases hb.origin hr with ⟨r, hold, _, rfl⟩ | ⟨_, hnew⟩
    · obtain ⟨ev, he⟩ := Option.isSome_iff_exists.mp (hl.event d r' hold)
      have hne : r'.eventId ≠ db.events.next := by
        have := Table.lt_next he
        omega
      simp [Table.insert_row, hne, he]
    · simp only [List.getElem?_map, Option.map_eq_some_iff] at hnew
      obtain ⟨e, _, rfl⟩ := hnew
      simp [Delivery.created, Table.insert_row]
  · rcases hb.origin hr with ⟨r, hold, _, rfl⟩ | ⟨_, hnew⟩
    · exact hl.endpoint d r' hold
    · simp only [List.getElem?_map, Option.map_eq_some_iff] at hnew
      obtain ⟨e, he, rfl⟩ := hnew
      exact hendpoints e (List.mem_of_getElem? he)
  · rw [Table.insert_row] at he
    split at he
    · cases he
      exact htenant
    · exact hl.tenant e ev he

theorem cleanupOldEvents (retentionDays : Nat) (hl : db.Linked) :
    (db.cleanupOldEvents retentionDays now).Linked := by
  by_cases h0 : retentionDays = 0
  · simpa [Database.cleanupOldEvents, h0] using hl
  · simp only [Database.cleanupOldEvents, h0, if_false]
    refine ⟨fun d r hr => ?_, fun d r hr => ?_, fun e ev he => ?_⟩
    · obtain ⟨hr, hd⟩ := Table.deleteWhere_row_eq_some.mp hr
      obtain ⟨ev, he⟩ := Option.isSome_iff_exists.mp (hl.event d r hr)
      have hexp : ev.expired retentionDays now = false := by simpa [doomed, he] using hd
      simp [Table.deleteWhere_row_eq_some.mpr ⟨he, hexp⟩]
    · exact hl.endpoint d r (Table.deleteWhere_row_eq_some.mp hr).1
    · exact hl.tenant e ev (Table.deleteWhere_row_eq_some.mp he).1

theorem apply (hl : db.Linked) (h : x.apply cfg now db = some db') : db'.Linked := by
  by_cases hc : ∃ input endpointIds, x = .createForTenant input endpointIds
  · obtain ⟨input, endpointIds, rfl⟩ := hc
    exact hl.createForTenant h
  by_cases ho : x = .cleanupOldEvents
  · subst ho
    cases h
    exact hl.cleanupOldEvents _
  have hne : ∀ input endpointIds, x ≠ .createForTenant input endpointIds :=
    fun input endpointIds he => hc ⟨input, endpointIds, he⟩
  obtain ⟨htenants, hendpoints, hevents⟩ := Txn.parents_kept h hne ho
  have hold : ∀ d r', db'.deliveries.row d = some r' → ∃ r, db.deliveries.row d = some r ∧
      r'.eventId = r.eventId ∧ r'.endpointId = r.endpointId := by
    intro d r' hr
    rcases (Txn.deliveries_becomes h).origin hr with ⟨r, hold, _, he⟩ | ⟨_, hnew⟩
    · rw [he]
      exact ⟨r, hold, Txn.rewrite_eventId d r, Txn.rewrite_endpointId d r⟩
    · cases x with
      | createForTenant input endpointIds => exact absurd rfl (hne input endpointIds)
      | _ => simp [Txn.created] at hnew
  refine ⟨fun d r' hr => ?_, fun d r' hr => ?_, fun e ev' he => ?_⟩
  · obtain ⟨r, hr, he, _⟩ := hold d r' hr
    have hs := congrArg Option.isSome (hevents r.eventId)
    simp only [Option.isSome_map] at hs
    rw [he, hs]
    exact hl.event d r hr
  · obtain ⟨r, hr, _, he⟩ := hold d r' hr
    rw [he, hendpoints]
    exact hl.endpoint d r hr
  · have hm := hevents e
    rw [he, Option.map_some, eq_comm, Option.map_eq_some_iff] at hm
    obtain ⟨ev, hev, ht⟩ := hm
    rw [htenants, ← ht]
    exact hl.tenant e ev hev

theorem findById_isSome (hl : db.Linked) {id : Nat} {r : Delivery}
    (hr : db.deliveries.row id = some r) :
    ∃ delivery, db.findById id = some delivery ∧ delivery.id = id ∧ delivery.row = r := by
  obtain ⟨endpoint, he⟩ := Option.isSome_iff_exists.mp (hl.endpoint id r hr)
  obtain ⟨event, hev⟩ := Option.isSome_iff_exists.mp (hl.event id r hr)
  obtain ⟨tenant, ht⟩ := Option.isSome_iff_exists.mp (hl.tenant _ event hev)
  exact ⟨⟨id, r, endpoint, event, tenant⟩, by simp [findById, hr, he, hev, ht], rfl, rfl⟩

theorem claimForProcessing_eq (now : Time) (hl : db.Linked) {id n : Nat} {r : Delivery}
    (hr : db.deliveries.row id = some r) (hc : r.claimableAs n = true) :
    ∃ delivery, (db.claimForProcessing now id n).2 = some delivery ∧ delivery.id = id ∧
      delivery.row = r.claim now ∧
      (db.claimForProcessing now id n).1 =
        { db with
          deliveries := db.deliveries.modify id (.claim now)
          events := db.events.modify r.eventId (.setStatus now .processing) } := by
  have hl' : Linked { db with deliveries := db.deliveries.modify id (.claim now) } := by
    refine ⟨fun d q hq => ?_, fun d q hq => ?_, hl.tenant⟩
    · rw [Table.modify_row_eq_map, Option.map_eq_some_iff] at hq
      obtain ⟨p, hp, rfl⟩ := hq
      have := hl.event d p hp
      split <;> exact this
    · rw [Table.modify_row_eq_map, Option.map_eq_some_iff] at hq
      obtain ⟨p, hp, rfl⟩ := hq
      have := hl.endpoint d p hp
      split <;> exact this
  have hself : (db.deliveries.modify id (.claim now)).row id = some (r.claim now) := by simp [hr]
  obtain ⟨delivery, hf, hid, hrow⟩ := hl'.findById_isSome hself
  refine ⟨delivery, ?_, hid, hrow, ?_⟩
  · simp [claimForProcessing, hr, hc, hf]
  · have hev : delivery.row.eventId = r.eventId := by simp [hrow, Delivery.claim]
    simp [claimForProcessing, hr, hc, hf, hev]

theorem claimable_of_claim (hl : db.Linked) {id n : Nat} {delivery : DispatchableDelivery}
    (h : (db.claimForProcessing now id n).2 = some delivery) :
    ∃ r, db.deliveries.row id = some r ∧ r.claimableAs n = true ∧ delivery.id = id ∧
      delivery.row = r.claim now := by
  rcases claimForProcessing_cases now db id n with ⟨_, he⟩ | ⟨r, hr, hc, _⟩
  · rw [he] at h
    cases h
  · obtain ⟨delivery', h', hid, hrow, _⟩ := hl.claimForProcessing_eq now hr hc
    rw [h] at h'
    cases h'
    exact ⟨r, hr, hc, hid, hrow⟩

theorem claimForProcessing_isSome (now : Time) (hl : db.Linked) {id n : Nat} :
    (db.claimForProcessing now id n).2.isSome = true ↔
      ∃ r, db.deliveries.row id = some r ∧ r.claimableAs n = true := by
  constructor
  · intro hsome
    obtain ⟨delivery, hhit⟩ := Option.isSome_iff_exists.mp hsome
    obtain ⟨r, hr, hc, _⟩ := hl.claimable_of_claim hhit
    exact ⟨r, hr, hc⟩
  · rintro ⟨r, hr, hc⟩
    obtain ⟨delivery, hhit, _⟩ := hl.claimForProcessing_eq now hr hc
    rw [hhit]
    rfl

end Database.Linked

end WebhookEngine
