import WebhookEngine.Operations

/-! Ingestion under an idempotency key: what the read of the tenant, the transaction and the
use case make of a key that is new or taken, whatever runs in between. -/

namespace WebhookEngine

open Relational

structure CreateWebhookEventResult where
  eventId : Nat
  deliveryIds : List Nat
  deriving DecidableEq, Repr

/-- What `createForTenant` throws: its own `TENANT_NOT_FOUND`, or an error of the client. -/
inductive CreateError where
  | tenantNotFound
  | prisma (error : PrismaError)
  deriving DecidableEq, Repr

inductive IngestAnswer where
  | accepted (message : String) (eventId deliveriesCreated : Nat)
  | replayed (message idempotencyKey : String)
  deriving DecidableEq, Repr

/-- The unique index on `(tenantId, idempotencyKey)` has the key already. -/
def Database.keyTaken (db : Database) (tenantId : Nat) (idempotencyKey : String) : Bool :=
  !(db.events.select fun _ e => e.tenantId == tenantId && e.idempotencyKey == idempotencyKey).isEmpty

namespace PrismaEventsRepository

/-- The transaction with its errors. The unique index is checked before the foreign keys. -/
def transaction (now : Time) (db : Database) (input : CreateWebhookEventInput) (endpointIds : List Nat) :
    Except PrismaError (Database × CreateWebhookEventResult) :=
  if db.keyTaken input.tenantId input.idempotencyKey then .error .p2002
  else
    match db.createForTenant now input endpointIds with
    | some db' => .ok (db', ⟨db.events.next, List.range' db.deliveries.next endpointIds.length⟩)
    | none => .error .p2003

/-- Both halves of `createForTenant` at one moment. -/
def createForTenant (now : Time) (db : Database) (input : CreateWebhookEventInput) :
    Except CreateError (Database × CreateWebhookEventResult) :=
  match db.subscribedEndpoints input with
  | none => .error .tenantNotFound
  | some endpointIds => (transaction now db input endpointIds).mapError .prisma

end PrismaEventsRepository

/-- `IngestEventUseCase.execute` after `createForTenant`. -/
def IngestEventUseCase.answer (idempotencyKey : String) :
    Except CreateError CreateWebhookEventResult → Except ApiError IngestAnswer
  | .ok result => .ok (.accepted "Event accepted for processing" result.eventId result.deliveryIds.length)
  | .error (.prisma .p2002) => .ok (.replayed "Event already accepted" idempotencyKey)
  | .error .tenantNotFound => .error (.notFound "Tenant not found")
  | .error (.prisma error) => .error (.thrown error)

/-- One event with this request, one delivery for each endpoint and one outbox row for each
delivery have come in, and nothing else has changed. -/
structure FannedOut (now : Time) (db db' : Database) (input : CreateWebhookEventInput)
    (endpointIds : List Nat) : Prop where
  event : db'.events.row db.events.next = some (.accepted now input endpointIds.length)
  status : ∀ ev, db'.events.row db.events.next = some ev → (ev.status = .noSubscribers ↔ endpointIds = [])
  events : ∀ e, e ≠ db.events.next → db'.events.row e = db.events.row e
  deliveries : ∀ d, db'.deliveries.row d = db.deliveries.row d ∨ ∃ e ∈ endpointIds,
    db.deliveries.row d = none ∧ db'.deliveries.row d = some (.created now db.events.next e)
  delivery : ∀ e ∈ endpointIds, ∃! d,
    db.deliveries.row d = none ∧ db'.deliveries.row d = some (.created now db.events.next e)
  outboxes : ∀ i, db'.deliveryOutbox.row i = db.deliveryOutbox.row i ∨ ∃ d,
    db.deliveries.row d = none ∧ (db'.deliveries.row d).isSome = true ∧
      db.deliveryOutbox.row i = none ∧ db'.deliveryOutbox.row i = some (.created now d now 1)
  outbox : ∀ d, db.deliveries.row d = none → (db'.deliveries.row d).isSome = true → ∃! i,
    db.deliveryOutbox.row i = none ∧ db'.deliveryOutbox.row i = some (.created now d now 1)

section Transaction

variable {now : Time} {db db' : Database} {input : CreateWebhookEventInput} {endpointIds : List Nat}

theorem keyTaken_iff {tenantId : Nat} {idempotencyKey : String} :
    db.keyTaken tenantId idempotencyKey = true ↔
      ∃ e ev, db.events.row e = some ev ∧ ev.tenantId = tenantId ∧ ev.idempotencyKey = idempotencyKey := by
  simp only [Database.keyTaken, Bool.not_eq_true', List.isEmpty_eq_false_iff_exists_mem]
  constructor
  · rintro ⟨⟨e, ev⟩, hmem⟩
    obtain ⟨hrow, hp⟩ := Table.mem_select.mp hmem
    simp only [Bool.and_eq_true, beq_iff_eq] at hp
    exact ⟨e, ev, hrow, hp⟩
  · rintro ⟨e, ev, hrow, ht, hk⟩
    exact ⟨(e, ev), Table.mem_select.mpr ⟨hrow, by simp [ht, hk]⟩⟩

theorem mem_subscribedEndpoints (h : db.subscribedEndpoints input = some endpointIds) (e : Nat) :
    e ∈ endpointIds ↔ ∃ ep, db.endpoints.row e = some ep ∧ ep.tenantId = input.tenantId ∧
      ep.isActive = true ∧ ∃ s ∈ db.subscriptions, s.endpointId = e ∧
        (s.eventType = input.type ∨ s.eventType = "*") := by
  simp only [Database.subscribedEndpoints, Option.map_eq_some_iff] at h
  obtain ⟨_, _, rfl⟩ := h
  simp only [List.mem_map, Prod.exists, Table.mem_select, Bool.and_eq_true, beq_iff_eq, List.any_eq_true,
    Bool.or_eq_true, and_assoc]
  constructor
  · rintro ⟨i, ep, hrow, ht, hactive, hs, rfl⟩
    exact ⟨ep, hrow, ht, hactive, hs⟩
  · rintro ⟨ep, hrow, ht, hactive, hs⟩
    exact ⟨e, ep, hrow, ht, hactive, hs, rfl⟩

theorem subscribedEndpoints_nodup (h : db.subscribedEndpoints input = some endpointIds) :
    endpointIds.Nodup ∧ (db.tenants.row input.tenantId).isSome = true := by
  simp only [Database.subscribedEndpoints, Option.map_eq_some_iff] at h
  obtain ⟨T, hT, rfl⟩ := h
  exact ⟨Table.select_ids_nodup _ _, by simp [hT]⟩

theorem fannedOut (h : db.createForTenant now input endpointIds = some db') (hnodup : endpointIds.Nodup) :
    FannedOut now db db' input endpointIds := by
  obtain ⟨_, _, _, rfl⟩ := Txn.createForTenant_eq_some.mp h
  have hdeliveries : (endpointIds.map (Delivery.created now db.events.next)).Nodup :=
    hnodup.map fun e e' he => congrArg Delivery.endpointId he
  have hids : (List.range' db.deliveries.next endpointIds.length).Nodup := List.nodup_range'
  have houtbox : ((List.range' db.deliveries.next endpointIds.length).map
      fun d => DeliveryOutbox.created now d now 1).Nodup :=
    hids.map fun d d' hd => congrArg DeliveryOutbox.deliveryId hd
  -- the new deliveries are the identifiers the outbox rows are for
  have hnew : ∀ d, db.deliveries.row d = none →
      (((db.deliveries.insertAll (endpointIds.map (Delivery.created now db.events.next))).row d).isSome = true ↔
        d ∈ List.range' db.deliveries.next endpointIds.length) := by
    intro d hd
    rw [Table.insertAll_row, List.mem_range'_1]
    by_cases hlt : d < db.deliveries.next
    · simp only [hlt, if_true, hd, Option.isSome_none, Bool.false_eq_true, false_iff]
      omega
    · simp only [hlt, if_false, List.getElem?_map, Option.isSome_map, isSome_getElem?]
      omega
  have hself : (db.events.insert (.accepted now input endpointIds.length)).row db.events.next =
      some (.accepted now input endpointIds.length) := by simp [Table.insert_row]
  have hstatus : (WebhookEvent.accepted now input endpointIds.length).status = .noSubscribers ↔
      endpointIds = [] := by
    cases endpointIds <;> simp [WebhookEvent.accepted]
  refine ⟨hself, fun ev hev => ?_, fun e he => by simp [Table.insert_row, he],
    fun d => ?_, fun e he => ?_, fun i => ?_, fun d hd hsome => ?_⟩
  · obtain rfl := Option.some.inj (hself.symm.trans hev)
    exact hstatus
  · rcases db.deliveries.insertAll_row_cases (endpointIds.map (Delivery.created now db.events.next)) d with
      hsame | ⟨r, hr, hnone, hrow⟩
    · exact .inl hsame
    · obtain ⟨e, he, rfl⟩ := List.mem_map.mp hr
      exact .inr ⟨e, he, hnone, hrow⟩
  · exact db.deliveries.insertAll_unique hdeliveries (List.mem_map_of_mem he)
  · rcases db.deliveryOutbox.insertAll_row_cases ((List.range' db.deliveries.next endpointIds.length).map
      fun d => DeliveryOutbox.created now d now 1) i with hsame | ⟨o, ho, hnone, hrow⟩
    · exact .inl hsame
    · obtain ⟨d, hd, rfl⟩ := List.mem_map.mp ho
      have hfresh : db.deliveries.row d = none := db.deliveries.fresh d (List.mem_range'_1.mp hd).1
      exact .inr ⟨d, hfresh, (hnew d hfresh).mpr hd, hnone, hrow⟩
  · exact db.deliveryOutbox.insertAll_unique houtbox (List.mem_map_of_mem ((hnew d hd).mp hsome))

end Transaction

namespace Service

variable {cfg : Config} {hashApiKey : String → String} {u : Setup} {s t : Service} {a : Operation}
  {as : List Operation}

theorem ingest_origin (h : s.step cfg hashApiKey a = some t) {c : Nat}
    {p : CreateWebhookEventInput × List Nat} (hp : t.system.ingests c = some p) :
    s.system.ingests c = some p ∨
      a = .system (.ingestRead c p.1) ∧ s.db.subscribedEndpoints p.1 = some p.2 := by
  rcases step_system_or h with ⟨b, rfl, hstep⟩ | ⟨_, db, hdb, _⟩
  · generalize t.system = r at hstep hp
    cases hstep with
    | @ingestRead k input endpointIds _ hread =>
      rcases set_origin hp with hold | ⟨rfl, hnew⟩
      · exact .inl hold
      · cases hnew
        exact .inr ⟨rfl, hread⟩
    | ingestCommit _ =>
      rcases set_origin hp with hold | ⟨_, hnew⟩
      · exact .inl hold
      · cases hnew
    | _ => exact .inl hp
  · rw [hdb] at hp
    exact .inl hp

theorem event_kept (h : s.step cfg hashApiKey a = some t) {e : Nat} {ev : WebhookEvent}
    (he : s.db.events.row e = some ev) :
    (∃ ev', t.db.events.row e = some ev' ∧ ev'.request = ev.request) ∨
      a = .system .cleanupOldEvents ∧ t.db.events.row e = none := by
  rcases step_system_or h with ⟨b, rfl, hstep⟩ | ⟨_, db, hdb, hw⟩
  · rw [Service.db, hstep.db]
    rcases s.system.store_cases cfg b with hsame | ⟨x, hx, _, happ⟩
    · exact .inl ⟨ev, by rw [hsame]; exact he, rfl⟩
    · obtain ⟨f, hbecomes, hf⟩ := Txn.events_becomes happ
      cases hk : x.keepsEvent cfg s.system.now ev with
      | true => exact .inl ⟨f e ev, hbecomes.kept he hk, (hf e ev).1⟩
      | false =>
        cases x with
        | cleanupOldEvents =>
          cases System.attempts_of_txn hx with
          | cleanupOldEvents => exact .inr ⟨rfl, hbecomes.gone he hk⟩
        | _ => cases hk
  · refine .inl ⟨ev, ?_, rfl⟩
    rw [Service.db, hdb]
    exact hw.pipeline.1 ▸ he

theorem event_origin (h : s.step cfg hashApiKey a = some t) {e : Nat} {ev' : WebhookEvent}
    (he : t.db.events.row e = some ev') :
    (∃ ev, s.db.events.row e = some ev ∧ ev'.request = ev.request) ∨
      s.db.events.next = e ∧ s.db.keyTaken ev'.tenantId ev'.idempotencyKey = false := by
  rcases step_system_or h with ⟨b, rfl, hstep⟩ | ⟨_, db, hdb, hw⟩
  · rw [Service.db, hstep.db] at he
    rcases s.system.store_cases cfg b with hsame | ⟨x, _, _, happ⟩
    · rw [hsame] at he
      exact .inl ⟨ev', he, rfl⟩
    · obtain ⟨f, hbecomes, hf⟩ := Txn.events_becomes happ
      rcases hbecomes.origin he with ⟨ev, hev, _, rfl⟩ | ⟨hge, hnew⟩
      · exact .inl ⟨ev, hev, (hf e ev).1⟩
      · cases x with
        | createForTenant input endpointIds =>
          obtain ⟨_, hfree, _, _⟩ := Txn.createForTenant_eq_some.mp happ
          obtain ⟨hlt, hrow⟩ := List.getElem?_eq_some_iff.mp hnew
          have hlast : s.system.db.events.next = e := by
            simp only [Txn.accepts, List.length_singleton] at hlt
            omega
          simp only [Txn.accepts, List.getElem_singleton] at hrow
          subst hrow
          exact .inr ⟨hlast, by
            simp only [Database.keyTaken, WebhookEvent.accepted, hfree, List.isEmpty_nil, Bool.not_true]⟩
        | _ => simp [Txn.accepts] at hnew
  · rw [Service.db, hdb, hw.pipeline.1] at he
    exact .inl ⟨ev', he, rfl⟩

def KeysUnique (db : Database) : Prop :=
  ∀ e e' ev ev', db.events.row e = some ev → db.events.row e' = some ev' →
    ev'.tenantId = ev.tenantId → ev'.idempotencyKey = ev.idempotencyKey → e' = e

def ReadsStand (s : Service) : Prop :=
  ∀ c p, s.system.ingests c = some p → (s.db.tenants.row p.1.tenantId).isSome = true ∧ p.2.Nodup ∧
    ∀ e ∈ p.2, (s.db.endpoints.row e).isSome = true

theorem KeysUnique.step (hk : KeysUnique s.db) (h : s.step cfg hashApiKey a = some t) : KeysUnique t.db := by
  have htaken : ∀ {e : Nat} {ev ev' : WebhookEvent}, s.db.events.row e = some ev →
      ev'.tenantId = ev.tenantId → ev'.idempotencyKey = ev.idempotencyKey →
        s.db.keyTaken ev'.tenantId ev'.idempotencyKey = true :=
    fun he ht hkey => keyTaken_iff.mpr ⟨_, _, he, ht.symm, hkey.symm⟩
  intro e e' ev ev' he he' ht hkey
  rcases event_origin h he with ⟨q, hq, hreq⟩ | ⟨hlast, hfree⟩
  · have hqt : ev.tenantId = q.tenantId := congrArg CreateWebhookEventInput.tenantId hreq
    have hqk : ev.idempotencyKey = q.idempotencyKey := congrArg CreateWebhookEventInput.idempotencyKey hreq
    rcases event_origin h he' with ⟨q', hq', hreq'⟩ | ⟨_, hfree'⟩
    · have hqt' : ev'.tenantId = q'.tenantId := congrArg CreateWebhookEventInput.tenantId hreq'
      have hqk' : ev'.idempotencyKey = q'.idempotencyKey := congrArg CreateWebhookEventInput.idempotencyKey hreq'
      exact hk e e' q q' hq hq' (by rw [← hqt', ht, hqt]) (by rw [← hqk', hkey, hqk])
    · rw [htaken hq (ht.trans hqt) (hkey.trans hqk)] at hfree'
      cases hfree'
  · rcases event_origin h he' with ⟨q', hq', hreq'⟩ | ⟨hlast', _⟩
    · have hqt' : ev'.tenantId = q'.tenantId := congrArg CreateWebhookEventInput.tenantId hreq'
      have hqk' : ev'.idempotencyKey = q'.idempotencyKey := congrArg CreateWebhookEventInput.idempotencyKey hreq'
      rw [htaken hq' (ht.symm.trans hqt') (hkey.symm.trans hqk')] at hfree
      cases hfree
    · exact hlast'.symm.trans hlast

theorem ReadsStand.step (hr : ReadsStand s) (h : s.step cfg hashApiKey a = some t) : ReadsStand t := by
  intro c p hp
  have hold : (s.db.tenants.row p.1.tenantId).isSome = true ∧ p.2.Nodup ∧
      ∀ e ∈ p.2, (s.db.endpoints.row e).isSome = true := by
    rcases ingest_origin h hp with hold | ⟨_, hread⟩
    · exact hr c p hold
    · obtain ⟨hnodup, htenant⟩ := subscribedEndpoints_nodup hread
      refine ⟨htenant, hnodup, fun e he => ?_⟩
      obtain ⟨ep, hep, _⟩ := (mem_subscribedEndpoints hread e).mp he
      simp [hep]
  obtain ⟨htenant, hnodup, hendpoints⟩ := hold
  obtain ⟨T, hT⟩ := Option.isSome_iff_exists.mp htenant
  obtain ⟨T', hT', _⟩ := tenant_kept h hT
  refine ⟨by simp [hT'], hnodup, fun e he => ?_⟩
  obtain ⟨ep, hep⟩ := Option.isSome_iff_exists.mp (hendpoints e he)
  obtain ⟨ep', hep', _⟩ := endpoint_kept h hep
  simp [hep']

theorem Reached.keysUnique (h : Reached cfg hashApiKey u as s) : KeysUnique s.db := by
  refine Transition.run_invariant (I := fun s : Service => KeysUnique s.db) (fun _ _ _ hk hstep => hk.step hstep) ?_ h
  intro e e' ev ev' he
  cases he

theorem Reached.readsStand (h : Reached cfg hashApiKey u as s) : ReadsStand s := by
  refine Transition.run_invariant (fun _ _ _ hr hstep => hr.step hstep) ?_ h
  intro c p hp
  cases hp

/-- A retention pass of the run deletes the event. -/
def Retires (cfg : Config) (hashApiKey : String → String) (s : Service) (as : List Operation) (e : Nat) : Prop :=
  ∃ before after v w, as = before ++ .system .cleanupOldEvents :: after ∧
    Transition.run (step cfg hashApiKey) s before = some v ∧
    v.step cfg hashApiKey (.system .cleanupOldEvents) = some w ∧
    (v.db.events.row e).isSome = true ∧ w.db.events.row e = none

theorem event_run (h : Transition.run (step cfg hashApiKey) s as = some t) {e : Nat} {ev : WebhookEvent}
    (he : s.db.events.row e = some ev) :
    (∃ ev', t.db.events.row e = some ev' ∧ ev'.request = ev.request) ∨ Retires cfg hashApiKey s as e := by
  induction as generalizing s ev with
  | nil =>
    cases h
    exact .inl ⟨ev, he, rfl⟩
  | cons a as ih =>
    obtain ⟨v, hv, hrest⟩ := Transition.run_cons_eq_some.mp h
    rcases event_kept hv he with ⟨ev₁, he₁, hreq₁⟩ | ⟨rfl, hgone⟩
    · rcases ih hrest he₁ with ⟨ev', he', hreq⟩ | ⟨before, after, w, z, rfl, hw, hz, hthere, hgone⟩
      · exact .inl ⟨ev', he', hreq.trans hreq₁⟩
      · exact .inr ⟨a :: before, after, w, z, rfl, Transition.run_cons_eq_some.mpr ⟨v, hv, hw⟩, hz, hthere, hgone⟩
    · exact .inr ⟨[], as, s, v, rfl, rfl, hv, by simp [he], hgone⟩

/-- The call read the tenant earlier in the run, and its endpoints were then the tenant's active
ones with a subscription to the type or to everything. -/
def ReadBefore (cfg : Config) (hashApiKey : String → String) (u : Setup) (as : List Operation) (c : Nat)
    (input : CreateWebhookEventInput) (endpointIds : List Nat) : Prop :=
  ∃ before after s₀, as = before ++ .system (.ingestRead c input) :: after ∧
    Reached cfg hashApiKey u before s₀ ∧ endpointIds.Nodup ∧
    ∀ e, e ∈ endpointIds ↔ ∃ ep, s₀.db.endpoints.row e = some ep ∧ ep.tenantId = input.tenantId ∧
      ep.isActive = true ∧ ∃ sub ∈ s₀.db.subscriptions, sub.endpointId = e ∧
        (sub.eventType = input.type ∨ sub.eventType = "*")

theorem Reached.readBefore (h : Reached cfg hashApiKey u as s) {c : Nat} {input : CreateWebhookEventInput}
    {endpointIds : List Nat} (hc : s.system.ingests c = some (input, endpointIds)) :
    ReadBefore cfg hashApiKey u as c input endpointIds := by
  obtain ⟨before, a, after, v, w, rfl, hv, hw, _, hno, hyes, _⟩ :=
    Transition.run_origin (I := fun s : Service => s.system.ingests c = some (input, endpointIds)) h (fun hboot => by cases hboot) hc
  rcases ingest_origin hw hyes with hold | ⟨rfl, hread⟩
  · exact absurd hold hno
  · exact ⟨before, after, v, rfl, hv, (subscribedEndpoints_nodup hread).1, mem_subscribedEndpoints hread⟩

theorem commit_db {c : Nat} {input : CreateWebhookEventInput} {endpointIds : List Nat}
    (hc : s.system.ingests c = some (input, endpointIds))
    (h : s.step cfg hashApiKey (.system (.ingestCommit c)) = some t) :
    t.db = (s.db.createForTenant s.now input endpointIds).getD s.db := by
  obtain ⟨hstep, _⟩ := step_system h
  rw [Service.db, (System.Step.of_step hstep).db]
  simp [System.store, System.txn, hc, Txn.apply]

theorem createForTenant_of_taken {now : Time} {db : Database} {input : CreateWebhookEventInput}
    {endpointIds : List Nat} (h : db.keyTaken input.tenantId input.idempotencyKey = true) :
    db.createForTenant now input endpointIds = none := by
  rw [Option.eq_none_iff_forall_not_mem]
  intro db' hdb
  obtain ⟨_, hfree, _⟩ := Txn.createForTenant_eq_some.mp hdb
  rw [Database.keyTaken, hfree] at h
  cases h

theorem createForTenant_of_free (now : Time) {db : Database} {input : CreateWebhookEventInput}
    {endpointIds : List Nat} (h : db.keyTaken input.tenantId input.idempotencyKey = false)
    (htenant : (db.tenants.row input.tenantId).isSome = true)
    (hendpoints : ∀ e ∈ endpointIds, (db.endpoints.row e).isSome = true) :
    ∃ db', db.createForTenant now input endpointIds = some db' := by
  have hfree : (db.events.select fun _ e =>
      e.tenantId == input.tenantId && e.idempotencyKey == input.idempotencyKey) = [] := by
    simpa [Database.keyTaken] using h
  exact ⟨_, Txn.createForTenant_eq_some.mpr ⟨htenant, hfree, hendpoints, rfl⟩⟩

def answered (s : Service) (input : CreateWebhookEventInput) (endpointIds : List Nat) :
    Except ApiError IngestAnswer :=
  IngestEventUseCase.answer input.idempotencyKey
    (((PrismaEventsRepository.transaction s.now s.db input endpointIds).map Prod.snd).mapError .prisma)

/-- A key has one event, whatever calls race for it; the call that finds the key free makes the
event and its fan-out, and any other leaves the store as it is. -/
theorem idempotent_ingestion (h : Reached cfg hashApiKey u as s) :
    (∀ before after s₀ e ev e' ev', as = before ++ after → Reached cfg hashApiKey u before s₀ →
      s₀.db.events.row e = some ev → s.db.events.row e' = some ev' → ev'.tenantId = ev.tenantId →
      ev'.idempotencyKey = ev.idempotencyKey → e' = e ∨ Retires cfg hashApiKey s₀ after e) ∧
    (∀ c input t, s.step cfg hashApiKey (.system (.ingestRead c input)) = some t → t.db = s.db) ∧
    ∀ c input endpointIds t, s.system.ingests c = some (input, endpointIds) →
      s.step cfg hashApiKey (.system (.ingestCommit c)) = some t →
      ReadBefore cfg hashApiKey u as c input endpointIds ∧
      (s.db.keyTaken input.tenantId input.idempotencyKey = false →
        FannedOut s.now s.db t.db input endpointIds ∧
        s.answered input endpointIds =
          .ok (.accepted "Event accepted for processing" s.db.events.next endpointIds.length)) ∧
      (s.db.keyTaken input.tenantId input.idempotencyKey = true → t.db = s.db ∧
        s.answered input endpointIds = .ok (.replayed "Event already accepted" input.idempotencyKey)) := by
  refine ⟨?_, fun c input t hstep => ?_, fun c input endpointIds t hc hstep => ⟨h.readBefore hc, ?_, ?_⟩⟩
  · rintro before after s₀ e ev e' ev' rfl hs₀ he he' ht hkey
    have hrun : Transition.run (step cfg hashApiKey) s₀ after = some s := by
      have hall := h
      rw [Reached, Transition.run_append, hs₀] at hall
      exact hall
    rcases event_run hrun he with ⟨q, hq, hreq⟩ | hretired
    · have hqt : q.tenantId = ev.tenantId := congrArg CreateWebhookEventInput.tenantId hreq
      have hqk : q.idempotencyKey = ev.idempotencyKey := congrArg CreateWebhookEventInput.idempotencyKey hreq
      exact .inl (h.keysUnique e e' q ev' hq he' (ht.trans hqt.symm) (hkey.trans hqk.symm))
    · exact .inr hretired
  · obtain ⟨hread, _⟩ := step_system hstep
    have hsame := (System.Step.of_step hread).db
    simpa [System.store, System.txn] using hsame
  · intro hfree
    obtain ⟨htenant, hnodup, hendpoints⟩ := h.readsStand c (input, endpointIds) hc
    obtain ⟨db', hdb'⟩ := createForTenant_of_free s.now hfree htenant hendpoints
    have hdb : t.db = db' := by rw [commit_db hc hstep, hdb']; rfl
    rw [hdb]
    refine ⟨fannedOut hdb' hnodup, ?_⟩
    simp [answered, PrismaEventsRepository.transaction, hfree, hdb', Except.map, Except.mapError,
      IngestEventUseCase.answer]
  · intro htaken
    refine ⟨by rw [commit_db hc hstep, createForTenant_of_taken htaken]; rfl, ?_⟩
    simp [answered, PrismaEventsRepository.transaction, htaken, Except.map, Except.mapError,
      IngestEventUseCase.answer]

/-- Two calls with one key have both read the tenant before either commits. -/
def racingRun : List Operation :=
  let input : CreateWebhookEventInput := ⟨0, "key", "order.created", "{}"⟩
  [.system (.ingestRead 0 input), .system (.ingestRead 1 input), .system (.ingestCommit 0)]

theorem idempotent_ingestion_raced :
    ∃ t, (after .defaults id (.subscribed 2) racingRun).step .defaults id (.system (.ingestCommit 1)) = some t ∧
      t.db = (after .defaults id (.subscribed 2) racingRun).db := by
  obtain ⟨t, ht⟩ := Option.isSome_iff_exists.mp (show ((after .defaults id (.subscribed 2) racingRun).step
    .defaults id (.system (.ingestCommit 1))).isSome = true by decide +kernel)
  have hreached : Reached .defaults id (.subscribed 2) racingRun (after .defaults id (.subscribed 2) racingRun) :=
    Transition.run_ending (by decide +kernel)
  have hall := (idempotent_ingestion hreached).2.2 1 ⟨0, "key", "order.created", "{}"⟩ [0, 1] t
    (by decide +kernel) ht
  exact ⟨t, ht, (hall.2.2 (by decide +kernel)).1⟩

end Service

end WebhookEngine
