import Mathlib.Algebra.Group.Nat.Defs
import WebhookEngine.Transactions

/-! The migration to subscriptions, tenant keys and the outbox: every store of the first schema
goes on as it did under the programs that read the new one. -/

namespace WebhookEngine

open Relational

inductive InitEventStatus where
  | pending | processing | done | failed
  deriving DecidableEq, Repr

inductive InitDeliveryStatus where
  | pending | processing | success | failed | dlq
  deriving DecidableEq, Repr

structure InitTenant where
  name : String
  secretKey : String
  deriving DecidableEq, Repr

structure InitEndpoint where
  tenantId : Nat
  url : String
  isActive : Bool
  createdAt : Time
  deriving DecidableEq, Repr

structure InitEvent where
  tenantId : Nat
  idempotencyKey : String
  type : String
  payload : String
  status : InitEventStatus
  createdAt : Time
  updatedAt : Time
  deriving DecidableEq, Repr

structure InitDelivery where
  eventId : Nat
  endpointId : Nat
  status : InitDeliveryStatus
  attempts : Nat
  lastAttemptAt : Option Time
  nextAttemptAt : Option Time
  httpStatusCode : Option Nat
  responseSnippet : Option String
  createdAt : Time
  deriving DecidableEq, Repr

/-- The first schema with its foreign keys, its unique index and the range of its counters. -/
structure InitDatabase where
  tenants : Table InitTenant
  endpoints : Table InitEndpoint
  events : Table InitEvent
  deliveries : Table InitDelivery
  endpoint_tenant : ∀ i e, endpoints.row i = some e → (tenants.row e.tenantId).isSome = true
  event_tenant : ∀ i e, events.row i = some e → (tenants.row e.tenantId).isSome = true
  event_key : ∀ i j e f, events.row i = some e → events.row j = some f → e.tenantId = f.tenantId →
    e.idempotencyKey = f.idempotencyKey → i = j
  delivery_event : ∀ d r, deliveries.row d = some r → (events.row r.eventId).isSome = true
  delivery_endpoint : ∀ d r, deliveries.row d = some r → (endpoints.row r.endpointId).isSome = true
  attempts_lt : ∀ d r, deliveries.row d = some r → r.attempts < 2 ^ 31

def InitEventStatus.migrated : InitEventStatus → EventStatus
  | .pending => .pending
  | .processing => .processing
  | .done => .done
  | .failed => .failed

def InitDeliveryStatus.migrated : InitDeliveryStatus → DeliveryStatus
  | .pending => .pending
  | .processing => .processing
  | .success => .success
  | .failed => .failed
  | .dlq => .dlq

/-- `'legacy_' || id`; `idText` is the text behind an identifier. -/
def InitTenant.migrated (idText : Nat → String) (id : Nat) (t : InitTenant) : Tenant where
  name := t.name
  apiKeyHash := "legacy_" ++ idText id
  rateLimit := 10
  isActive := true

def InitEndpoint.migrated (e : InitEndpoint) (t : InitTenant) : Endpoint where
  tenantId := e.tenantId
  url := e.url
  secretKey := t.secretKey
  previousSecretKey := none
  previousSecretExpiresAt := none
  rateLimit := none
  isActive := e.isActive
  createdAt := e.createdAt

def InitEvent.migrated (e : InitEvent) : WebhookEvent where
  tenantId := e.tenantId
  idempotencyKey := e.idempotencyKey
  type := e.type
  payload := e.payload
  status := e.status.migrated
  createdAt := e.createdAt
  updatedAt := e.updatedAt

def InitDelivery.migrated (r : InitDelivery) : Delivery where
  eventId := r.eventId
  endpointId := r.endpointId
  status := r.status.migrated
  attempts := r.attempts
  lastAttemptAt := r.lastAttemptAt
  nextAttemptAt := r.nextAttemptAt
  httpStatusCode := r.httpStatusCode
  responseSnippet := r.responseSnippet
  createdAt := r.createdAt

/-- The sum of two INTEGER values has to be one. -/
def int4 (n : Nat) : Option Nat := if n < 2 ^ 31 then some n else none

/-- `COALESCE("nextAttemptAt", CURRENT_TIMESTAMP)` and `"attempts" + 1`. -/
def migrationOutbox (now : Time) (id : Nat) (r : Delivery) : Option DeliveryOutbox :=
  (int4 (r.attempts + 1)).map (.created now id (r.nextAttemptAt.getD now))

/-- The deliveries `WHERE "status" IN ('PENDING', 'FAILED')`. -/
def InitDatabase.unfinished (old : InitDatabase) : Table Delivery :=
  (old.deliveries.mapRows fun _ r => r.migrated).filterRows fun r => [.pending, .failed].contains r.status

/-- The statements in their order; `none` where one fails and the migration is rolled back. The
outbox row `'migration-' || id` keeps the number of its delivery. -/
def migrate (idText : Nat → String) (now : Time) (old : InitDatabase) : Option Database :=
  let tenants := old.tenants.mapRows (InitTenant.migrated idText)
  if tenants.AllDistinct fun _ t => t.apiKeyHash then do
    let endpoints ← old.endpoints.traverse fun _ e => (old.tenants.row e.tenantId).map e.migrated
    if endpoints.AllDistinct fun _ e => (e.tenantId, e.url) then do
      if old.unfinished.AllDistinct fun id _ => "migration-" ++ idText id then do
        let deliveryOutbox ← old.unfinished.traverse (migrationOutbox now)
        some
          { tenants := tenants
            endpoints := endpoints
            subscriptions := (endpoints.select fun _ _ => true).map fun p => ⟨p.1, "*"⟩
            events := old.events.mapRows fun _ e => e.migrated
            deliveries := old.deliveries.mapRows fun _ r => r.migrated
            deliveryOutbox := deliveryOutbox }
      else none
    else none
  else none

/-- The endpoints the old program sent every event of the tenant to. -/
def InitDatabase.broadcast (old : InitDatabase) (tenantId : Nat) : List Nat :=
  (old.endpoints.select fun _ e => e.tenantId == tenantId && e.isActive).map Prod.fst

def InitDatabase.UrlsUnique (old : InitDatabase) : Prop :=
  ∀ i j e f, old.endpoints.row i = some e → old.endpoints.row j = some f → e.tenantId = f.tenantId →
    e.url = f.url → i = j

/-- The constraints the migration adds; the columns without `Option` are those made `NOT NULL`. -/
structure Database.Constrained (db : Database) : Prop where
  apiKeyHash : ∀ i j t q, db.tenants.row i = some t → db.tenants.row j = some q →
    t.apiKeyHash = q.apiKeyHash → i = j
  url : ∀ i j e f, db.endpoints.row i = some e → db.endpoints.row j = some f → e.tenantId = f.tenantId →
    e.url = f.url → i = j
  subscriptions : db.subscriptions.Nodup
  subscription_endpoint : ∀ s ∈ db.subscriptions, (db.endpoints.row s.endpointId).isSome = true
  outbox_delivery : ∀ i o, db.deliveryOutbox.row i = some o → (db.deliveries.row o.deliveryId).isSome = true

/-- What the new programs find is what the old store meant. -/
structure Preserved (old : InitDatabase) (db : Database) : Prop where
  selected : ∀ input : CreateWebhookEventInput, (old.tenants.row input.tenantId).isSome = true →
    db.subscribedEndpoints input = some (old.broadcast input.tenantId)
  secretKey : ∀ i e, old.endpoints.row i = some e → ∃ e' t, db.endpoints.row i = some e' ∧
    old.tenants.row e.tenantId = some t ∧ e'.secretKey = t.secretKey
  scheduled : ∀ d r, old.deliveries.row d = some r → r.status = .pending ∨ r.status = .failed →
    ∃ i o, (∀ j q, db.deliveryOutbox.row j = some q ∧ q.deliveryId = d ↔ j = i ∧ q = o) ∧
      o.publishedAt = none ∧ (∀ availableAt, r.nextAttemptAt = some availableAt → o.availableAt = availableAt) ∧
      ∀ now n, (db.claimForProcessing now d n).2.isSome = true ↔ n = o.attemptNumber
  unscheduled : ∀ i o, db.deliveryOutbox.row i = some o → ∃ r, old.deliveries.row o.deliveryId = some r ∧
    (r.status = .pending ∨ r.status = .failed)
  constrained : db.Constrained

/-- The migration goes through and preserves what the store meant. -/
def MigrationPreserves (idText : Nat → String) (now : Time) (old : InitDatabase) : Prop :=
  ∃ db, migrate idText now old = some db ∧ Preserved old db

variable {idText : Nat → String} {now : Time} {old : InitDatabase} {db : Database}

@[simp] theorem InitDeliveryStatus.migrated_open {s : InitDeliveryStatus} :
    [DeliveryStatus.pending, .failed].contains s.migrated = true ↔ s = .pending ∨ s = .failed := by
  cases s <;> decide

theorem InitDatabase.unfinished_row {d : Nat} {q : Delivery} :
    old.unfinished.row d = some q ↔ ∃ r, old.deliveries.row d = some r ∧
      (r.status = .pending ∨ r.status = .failed) ∧ r.migrated = q := by
  rw [InitDatabase.unfinished, Table.filterRows_row_eq_some, Table.mapRows_row, Option.map_eq_some_iff]
  constructor
  · rintro ⟨⟨r, hr, rfl⟩, hstatus⟩
    exact ⟨r, hr, InitDeliveryStatus.migrated_open.mp hstatus, rfl⟩
  · rintro ⟨r, hr, hstatus, rfl⟩
    exact ⟨⟨r, hr, rfl⟩, InitDeliveryStatus.migrated_open.mpr hstatus⟩

theorem migrationOutbox_eq_some {d : Nat} {q : Delivery} {o : DeliveryOutbox} :
    migrationOutbox now d q = some o ↔ q.attempts + 1 < 2 ^ 31 ∧
      .created now d (q.nextAttemptAt.getD now) (q.attempts + 1) = o := by
  simp only [migrationOutbox, int4]
  split <;> simp_all

structure Migrated (idText : Nat → String) (now : Time) (old : InitDatabase) (db : Database) : Prop where
  tenants : db.tenants = old.tenants.mapRows (InitTenant.migrated idText)
  hashes : db.tenants.AllDistinct fun _ t => t.apiKeyHash
  endpoints_next : db.endpoints.next = old.endpoints.next
  endpoints : ∀ i, db.endpoints.row i =
    (old.endpoints.row i).bind fun e => (old.tenants.row e.tenantId).map e.migrated
  urls : db.endpoints.AllDistinct fun _ e => (e.tenantId, e.url)
  subscriptions : db.subscriptions = (db.endpoints.select fun _ _ => true).map fun p => ⟨p.1, "*"⟩
  events : db.events = old.events.mapRows fun _ e => e.migrated
  deliveries : db.deliveries = old.deliveries.mapRows fun _ r => r.migrated
  deliveryOutbox : ∀ i, db.deliveryOutbox.row i = (old.unfinished.row i).bind (migrationOutbox now i)

theorem append_idText_inj (hid : Function.Injective idText) {stem : String} {i j : Nat}
    (h : stem ++ idText i = stem ++ idText j) : i = j := by
  have hlists := congrArg String.toList h
  simp only [String.toList_append, List.append_cancel_left_eq] at hlists
  exact hid (String.toList_inj.mp hlists)

theorem allDistinct_prefixed {ρ : Type} (hid : Function.Injective idText) (t : Table ρ) (stem : String) :
    t.AllDistinct fun id _ => stem ++ idText id :=
  Table.allDistinct_iff.mpr fun _ _ _ _ _ _ hkey => append_idText_inj hid hkey

theorem migrate_migrated (h : migrate idText now old = some db) :
    Migrated idText now old db ∧
      ∀ d q, old.unfinished.row d = some q → q.attempts + 1 < 2 ^ 31 := by
  simp only [migrate, Option.bind_eq_bind] at h
  split at h
  · rename_i hhashes
    obtain ⟨endpoints, hendpoints, h⟩ := Option.bind_eq_some_iff.mp h
    split at h
    · rename_i hurls
      split at h
      · obtain ⟨outbox, houtbox, h⟩ := Option.bind_eq_some_iff.mp h
        obtain ⟨_, hnext, hrow⟩ := Table.traverse_eq_some.mp hendpoints
        obtain ⟨hfull, _, hbox⟩ := Table.traverse_eq_some.mp houtbox
        cases h
        refine ⟨⟨rfl, hhashes, hnext, hrow, hurls, rfl, rfl, rfl, hbox⟩, fun d q hq => ?_⟩
        obtain ⟨o, ho⟩ := Option.isSome_iff_exists.mp (hfull d q hq)
        exact (migrationOutbox_eq_some.mp ho).1
      · cases h
    · cases h
  · cases h

theorem exists_migrate (hid : Function.Injective idText) (hurls : old.UrlsUnique)
    (hroom : ∀ d q, old.unfinished.row d = some q → q.attempts + 1 < 2 ^ 31) :
    ∃ db, migrate idText now old = some db := by
  have hhash : (old.tenants.mapRows (InitTenant.migrated idText)).AllDistinct fun _ t => t.apiKeyHash := by
    refine Table.allDistinct_iff.mpr fun i j t q ht hq hkey => ?_
    rw [Table.mapRows_row, Option.map_eq_some_iff] at ht hq
    obtain ⟨_, _, rfl⟩ := ht
    obtain ⟨_, _, rfl⟩ := hq
    exact append_idText_inj hid hkey
  obtain ⟨endpoints, hendpoints⟩ : ∃ t', old.endpoints.traverse
      (fun _ e => (old.tenants.row e.tenantId).map e.migrated) = some t' := by
    refine Table.exists_traverse fun i e he => ?_
    rw [Option.isSome_map]
    exact old.endpoint_tenant i e he
  obtain ⟨_, _, hrow⟩ := Table.traverse_eq_some.mp hendpoints
  have hurl : endpoints.AllDistinct fun _ e => (e.tenantId, e.url) := by
    refine Table.allDistinct_iff.mpr fun i j e f he hf hkey => ?_
    rw [hrow, Option.bind_eq_some_iff] at he hf
    obtain ⟨e₀, he₀, he⟩ := he
    obtain ⟨f₀, hf₀, hf⟩ := hf
    obtain ⟨_, _, rfl⟩ := Option.map_eq_some_iff.mp he
    obtain ⟨_, _, rfl⟩ := Option.map_eq_some_iff.mp hf
    obtain ⟨htenant, hsame⟩ := Prod.ext_iff.mp hkey
    exact hurls i j e₀ f₀ he₀ hf₀ htenant hsame
  obtain ⟨outbox, houtbox⟩ : ∃ t', old.unfinished.traverse (migrationOutbox now) = some t' := by
    refine Table.exists_traverse fun d q hq => ?_
    rw [Option.isSome_iff_exists]
    exact ⟨_, migrationOutbox_eq_some.mpr ⟨hroom d q hq, rfl⟩⟩
  refine Option.isSome_iff_exists.mp ?_
  simp only [migrate, Option.bind_eq_bind]
  rw [if_pos hhash, hendpoints, Option.bind_some, if_pos hurl, if_pos (allDistinct_prefixed hid _ _), houtbox]
  rfl

namespace Migrated

theorem endpoint_row (h : Migrated idText now old db) {i : Nat} {e : InitEndpoint}
    (he : old.endpoints.row i = some e) :
    ∃ t, old.tenants.row e.tenantId = some t ∧ db.endpoints.row i = some (e.migrated t) := by
  obtain ⟨t, ht⟩ := Option.isSome_iff_exists.mp (old.endpoint_tenant i e he)
  exact ⟨t, ht, by rw [h.endpoints, he, Option.bind_some, ht, Option.map_some]⟩

theorem mem_subscriptions (h : Migrated idText now old db) {s : EndpointSubscription} :
    s ∈ db.subscriptions ↔ s.eventType = "*" ∧ (db.endpoints.row s.endpointId).isSome = true := by
  rw [h.subscriptions, List.mem_map]
  constructor
  · rintro ⟨⟨i, e⟩, hmem, rfl⟩
    exact ⟨rfl, by simp [(Table.mem_select.mp hmem).1]⟩
  · rintro ⟨htype, hrow⟩
    obtain ⟨e, he⟩ := Option.isSome_iff_exists.mp hrow
    exact ⟨(s.endpointId, e), Table.mem_select.mpr ⟨he, rfl⟩, by rw [← htype]⟩

theorem outbox_row (h : Migrated idText now old db) {i : Nat} {o : DeliveryOutbox} :
    db.deliveryOutbox.row i = some o ↔ ∃ r, old.deliveries.row i = some r ∧
      (r.status = .pending ∨ r.status = .failed) ∧ r.attempts + 1 < 2 ^ 31 ∧
      .created now i (r.nextAttemptAt.getD now) (r.attempts + 1) = o := by
  rw [h.deliveryOutbox, Option.bind_eq_some_iff]
  constructor
  · rintro ⟨q, hq, ho⟩
    obtain ⟨r, hr, hstatus, rfl⟩ := InitDatabase.unfinished_row.mp hq
    exact ⟨r, hr, hstatus, migrationOutbox_eq_some.mp ho⟩
  · rintro ⟨r, hr, hstatus, hroom, ho⟩
    exact ⟨r.migrated, InitDatabase.unfinished_row.mpr ⟨r, hr, hstatus, rfl⟩,
      migrationOutbox_eq_some.mpr ⟨hroom, ho⟩⟩

theorem linked (h : Migrated idText now old db) : db.Linked := by
  refine ⟨fun d q hq => ?_, fun d q hq => ?_, fun i e he => ?_⟩
  · rw [h.deliveries, Table.mapRows_row, Option.map_eq_some_iff] at hq
    obtain ⟨r, hr, rfl⟩ := hq
    rw [h.events, Table.mapRows_row, Option.isSome_map]
    exact old.delivery_event d r hr
  · rw [h.deliveries, Table.mapRows_row, Option.map_eq_some_iff] at hq
    obtain ⟨r, hr, rfl⟩ := hq
    obtain ⟨e, he⟩ := Option.isSome_iff_exists.mp (old.delivery_endpoint d r hr)
    obtain ⟨t, _, hrow⟩ := h.endpoint_row he
    exact Option.isSome_iff_exists.mpr ⟨_, hrow⟩
  · rw [h.events, Table.mapRows_row, Option.map_eq_some_iff] at he
    obtain ⟨e₀, he₀, rfl⟩ := he
    rw [h.tenants, Table.mapRows_row, Option.isSome_map]
    exact old.event_tenant i e₀ he₀

theorem subscribedEndpoints_eq (h : Migrated idText now old db) (input : CreateWebhookEventInput)
    (ht : (old.tenants.row input.tenantId).isSome = true) :
    db.subscribedEndpoints input = some (old.broadcast input.tenantId) := by
  obtain ⟨t, ht⟩ := Option.isSome_iff_exists.mp ht
  have htenant : db.tenants.row input.tenantId = some (t.migrated idText input.tenantId) := by
    rw [h.tenants, Table.mapRows_row, ht, Option.map_some]
  rw [Database.subscribedEndpoints, htenant, Option.map_some, InitDatabase.broadcast, Table.select_fst,
    Table.select_fst, h.endpoints_next]
  refine congrArg some (List.filter_congr fun i _ => ?_)
  cases he : old.endpoints.row i with
  | none => rw [h.endpoints, he]; rfl
  | some e =>
    obtain ⟨q, _, hrow⟩ := h.endpoint_row he
    have hsub : (⟨i, "*"⟩ : EndpointSubscription) ∈ db.subscriptions :=
      h.mem_subscriptions.mpr ⟨rfl, by simp [hrow]⟩
    have hany : (db.subscriptions.any fun s =>
        s.endpointId == i && (s.eventType == input.type || s.eventType == "*")) = true :=
      List.any_eq_true.mpr ⟨_, hsub, by simp⟩
    rw [hrow, Option.any_some, Option.any_some, hany, Bool.and_true]
    rfl

theorem scheduled (h : Migrated idText now old db) {d : Nat} {r : InitDelivery}
    (hr : old.deliveries.row d = some r) (hstatus : r.status = .pending ∨ r.status = .failed)
    (hroom : r.attempts + 1 < 2 ^ 31) :
    ∃ i o, (∀ j q, db.deliveryOutbox.row j = some q ∧ q.deliveryId = d ↔ j = i ∧ q = o) ∧
      o.publishedAt = none ∧ (∀ availableAt, r.nextAttemptAt = some availableAt → o.availableAt = availableAt) ∧
      ∀ now n, (db.claimForProcessing now d n).2.isSome = true ↔ n = o.attemptNumber := by
  have hrow : db.deliveries.row d = some r.migrated := by
    rw [h.deliveries, Table.mapRows_row, hr, Option.map_some]
  refine ⟨d, .created now d (r.nextAttemptAt.getD now) (r.attempts + 1), fun j q => ?_, rfl,
    fun availableAt hat => by simp [hat, DeliveryOutbox.created], fun now' n => ?_⟩
  · constructor
    · rintro ⟨hq, hd⟩
      obtain ⟨r', hr', _, _, rfl⟩ := h.outbox_row.mp hq
      obtain rfl : j = d := hd
      rw [hr, Option.some.injEq] at hr'
      exact ⟨rfl, by rw [hr']⟩
    · rintro ⟨rfl, rfl⟩
      exact ⟨h.outbox_row.mpr ⟨r, hr, hstatus, hroom, rfl⟩, rfl⟩
  · constructor
    · intro hsome
      obtain ⟨delivery, hclaim⟩ := Option.isSome_iff_exists.mp hsome
      obtain ⟨q, hq, hclaimable, _⟩ := h.linked.claimable_of_claim hclaim
      rw [hrow, Option.some.injEq] at hq
      subst hq
      simp only [Delivery.claimableAs, Bool.and_eq_true, beq_iff_eq] at hclaimable
      exact hclaimable.1.symm
    · rintro rfl
      have hclaimable : r.migrated.claimableAs (r.attempts + 1) = true := by
        rcases hstatus with hs | hs <;>
          simp [Delivery.claimableAs, InitDelivery.migrated, InitDeliveryStatus.migrated, hs]
      obtain ⟨delivery, hclaim, _⟩ := h.linked.claimForProcessing_eq now' hrow hclaimable
      exact Option.isSome_iff_exists.mpr ⟨delivery, hclaim⟩

theorem constrained (h : Migrated idText now old db) : db.Constrained where
  apiKeyHash := Table.allDistinct_iff.mp h.hashes
  url i j e f he hf htenant hurl :=
    Table.allDistinct_iff.mp h.urls i j e f he hf (by rw [htenant, hurl])
  subscriptions := by
    have hids := db.endpoints.select_ids_nodup fun _ _ => true
    rw [h.subscriptions]
    refine List.Nodup.of_map EndpointSubscription.endpointId ?_
    rw [List.map_map]
    exact hids
  subscription_endpoint s hs := (h.mem_subscriptions.mp hs).2
  outbox_delivery i o ho := by
    obtain ⟨r, hr, _, _, rfl⟩ := h.outbox_row.mp ho
    rw [h.deliveries, Table.mapRows_row, Option.isSome_map]
    exact Option.isSome_iff_exists.mpr ⟨r, hr⟩

end Migrated

/-- The migration preserves what a store of the first schema meant, save that it is rolled back
where the next attempt of an unfinished delivery has no number. -/
theorem migration_preserves (hid : Function.Injective idText) (hurls : old.UrlsUnique) :
    MigrationPreserves idText now old ↔ ∀ d r, old.deliveries.row d = some r →
      r.status = .pending ∨ r.status = .failed → r.attempts ≠ 2147483647 := by
  constructor
  · rintro ⟨db, hdb, _⟩ d r hr hstatus
    have hroom := (migrate_migrated hdb).2 d r.migrated (InitDatabase.unfinished_row.mpr ⟨r, hr, hstatus, rfl⟩)
    have hlt : r.attempts + 1 < 2 ^ 31 := hroom
    omega
  · intro hfull
    have hroom : ∀ d r, old.deliveries.row d = some r → r.status = .pending ∨ r.status = .failed →
        r.attempts + 1 < 2 ^ 31 := by
      intro d r hr hstatus
      have hne := hfull d r hr hstatus
      have hlt := old.attempts_lt d r hr
      omega
    obtain ⟨db, hdb⟩ : ∃ db, migrate idText now old = some db := exists_migrate hid hurls fun d q hq => by
      obtain ⟨r, hr, hstatus, rfl⟩ := InitDatabase.unfinished_row.mp hq
      exact hroom d r hr hstatus
    have hm := (migrate_migrated hdb).1
    refine ⟨db, hdb, hm.subscribedEndpoints_eq, fun i e he => ?_, fun d r hr hstatus =>
      hm.scheduled hr hstatus (hroom d r hr hstatus), fun i o ho => ?_, hm.constrained⟩
    · obtain ⟨t, ht, hrow⟩ := hm.endpoint_row he
      exact ⟨_, t, hrow, ht, rfl⟩
    · obtain ⟨r, hr, hstatus, _, rfl⟩ := hm.outbox_row.mp ho
      exact ⟨r, hr, hstatus⟩

theorem single_row {ρ : Type} {r q : ρ} {i : Nat} :
    (Table.empty.insert r).row i = some q ↔ i = 0 ∧ q = r := by
  simp only [Table.insert_row, Table.empty]
  split <;> simp_all [eq_comm]

/-- One tenant with one endpoint, and one delivery that has failed. -/
def InitDatabase.failed (attempts : Nat) (h : attempts < 2 ^ 31) : InitDatabase where
  tenants := Table.empty.insert ⟨"tenant", "whsec"⟩
  endpoints := Table.empty.insert ⟨0, "https://example.com/0", true, 0⟩
  events := Table.empty.insert ⟨0, "key", "order.created", "", .processing, 0, 0⟩
  deliveries := Table.empty.insert ⟨0, 0, .failed, attempts, some 0, some 1000, some 500, some "HTTP 500", 0⟩
  endpoint_tenant i e he := by
    obtain ⟨_, rfl⟩ := single_row.mp he
    rfl
  event_tenant i e he := by
    obtain ⟨_, rfl⟩ := single_row.mp he
    rfl
  event_key i j e f he hf _ _ := (single_row.mp he).1.trans (single_row.mp hf).1.symm
  delivery_event d r hr := by
    obtain ⟨_, rfl⟩ := single_row.mp hr
    rfl
  delivery_endpoint d r hr := by
    obtain ⟨_, rfl⟩ := single_row.mp hr
    rfl
  attempts_lt d r hr := by
    obtain ⟨_, rfl⟩ := single_row.mp hr
    exact h

theorem InitDatabase.failed_urlsUnique {attempts : Nat} (h : attempts < 2 ^ 31) :
    (InitDatabase.failed attempts h).UrlsUnique :=
  fun _ _ _ _ he hf _ _ => (single_row.mp he).1.trans (single_row.mp hf).1.symm

theorem toString_injective : Function.Injective (toString : Nat → String) := by
  intro m n h
  have hdigits : Nat.toDigits 10 m = Nat.toDigits 10 n := by
    have hlists := congrArg String.toList h
    rwa [Nat.toString_eq_repr, Nat.toString_eq_repr, Nat.toList_repr, Nat.toList_repr] at hlists
  rw [← Nat.ofDigitChars_ten_toDigits (n := m), hdigits, Nat.ofDigitChars_ten_toDigits]

theorem migration_preserves_failed :
    MigrationPreserves toString 5000 (.failed 2 (by decide)) :=
  (migration_preserves toString_injective (InitDatabase.failed_urlsUnique _)).mpr fun d r hr _ => by
    obtain ⟨_, rfl⟩ := single_row.mp hr
    decide

theorem migration_stopped :
    (InitDatabase.failed 2147483647 (by decide)).UrlsUnique ∧
      ¬ MigrationPreserves toString 5000 (.failed 2147483647 (by decide)) := by
  refine ⟨InitDatabase.failed_urlsUnique _, ?_⟩
  rintro ⟨db, hdb, _⟩
  have hroom := (migrate_migrated hdb).2 0 _ (InitDatabase.unfinished_row.mpr
    ⟨_, single_row.mpr ⟨rfl, rfl⟩, .inr rfl, rfl⟩)
  exact absurd hroom (by decide)

end WebhookEngine
