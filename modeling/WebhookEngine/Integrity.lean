import WebhookEngine.Authentication
import WebhookEngine.Constraint
import WebhookEngine.Ownership

/-! What the schema declares holds in every state: its unique indexes and its foreign keys.
The statements check some of them; the others rest on what the programs have read before. -/

namespace WebhookEngine

open Relational PrismaEndpointsRepository PrismaTenantsRepository

/-- The indexes and keys of the tables that the HTTP interface writes. -/
structure Catalogued (tenants : Table Tenant) (endpoints : Table Endpoint)
    (subscriptions : List EndpointSubscription) : Prop where
  apiKeyHash : tenants.Unique Tenant.apiKeyHash
  url : endpoints.Unique fun e => (e.tenantId, e.url)
  subscription : subscriptions.Nodup
  endpointTenant : endpoints.References Endpoint.tenantId tenants
  subscriptionEndpoint : ∀ sub ∈ subscriptions, (endpoints.row sub.endpointId).isSome = true

/-- Every unique index and every foreign key of the schema holds. -/
structure Database.Integral (db : Database) : Prop where
  catalogue : Catalogued db.tenants db.endpoints db.subscriptions
  idempotencyKey : db.events.Unique fun e => (e.tenantId, e.idempotencyKey)
  eventTenant : db.events.References WebhookEvent.tenantId db.tenants
  deliveryEvent : db.deliveries.References Delivery.eventId db.events
  deliveryEndpoint : db.deliveries.References Delivery.endpointId db.endpoints
  outboxDelivery : db.deliveryOutbox.References DeliveryOutbox.deliveryId db.deliveries

namespace Database.Integral

variable {cfg : Config} {now : Time} {db db' : Database} {x : Txn}

theorem linked (h : db.Integral) : db.Linked := ⟨h.deliveryEvent, h.deliveryEndpoint, h.eventTenant⟩

theorem rewriteEndpoint_keys (x : Txn) (now : Time) (i : Nat) (e : Endpoint) :
    (x.rewriteEndpoint now i e).tenantId = e.tenantId ∧ (x.rewriteEndpoint now i e).url = e.url := by
  cases x with
  | cleanupExpiredEndpointSecrets =>
    simp only [Txn.rewriteEndpoint, Endpoint.dropExpiredSecret]
    split <;> exact ⟨rfl, rfl⟩
  | setEndpointActive id isActive =>
    simp only [Txn.rewriteEndpoint]
    split <;> exact ⟨rfl, rfl⟩
  | _ => exact ⟨rfl, rfl⟩

theorem catalogue_apply (hc : Catalogued db.tenants db.endpoints db.subscriptions)
    (h : x.apply cfg now db = some db') : Catalogued db'.tenants db'.endpoints db'.subscriptions := by
  obtain ⟨htenants, hsubscriptions, hnext, hrow⟩ := Txn.setup_kept h
  have hbecomes : db.endpoints.Becomes db'.endpoints (fun _ => true) (fun i e => x.rewriteEndpoint now i e) [] := by
    refine .of_row hnext fun i => ?_
    rw [hrow]
    cases db.endpoints.row i <;> rfl
  have hkeys := rewriteEndpoint_keys x now
  rw [htenants, hsubscriptions]
  refine ⟨hc.apiKeyHash, ?_, hc.subscription, ?_, fun sub hsub => ?_⟩
  · exact hc.url.becomes hbecomes (fun i e _ => by simp only [hkeys]) List.nodup_nil fun _ hr => by cases hr
  · exact hc.endpointTenant.becomes hbecomes (fun i e _ => (hkeys i e).1) (fun _ _ _ _ h => h) fun _ hr => by cases hr
  · rw [hrow, Option.isSome_map]
    exact hc.subscriptionEndpoint sub hsub

theorem idempotencyKey_apply (hk : db.events.Unique fun e => (e.tenantId, e.idempotencyKey))
    (h : x.apply cfg now db = some db') : db'.events.Unique fun e => (e.tenantId, e.idempotencyKey) := by
  obtain ⟨f, hbecomes, hf⟩ := Txn.events_becomes h
  refine hk.becomes hbecomes (fun i e _ => ?_) ?_ fun r hr i q hq hkey => ?_
  · have hrequest := (hf i e).1
    simp only [WebhookEvent.request, CreateWebhookEventInput.mk.injEq] at hrequest
    rw [hrequest.1, hrequest.2.1]
  · cases x <;> simp [Txn.accepts]
  · cases x with
    | createForTenant input endpointIds =>
      obtain ⟨_, hfree, _, _⟩ := Txn.createForTenant_eq_some.mp h
      rw [Txn.accepts, List.mem_singleton] at hr
      subst hr
      simp only [WebhookEvent.accepted, Prod.mk.injEq] at hkey
      have hmem : (i, q) ∈ db.events.select fun _ e =>
          e.tenantId == input.tenantId && e.idempotencyKey == input.idempotencyKey :=
        Table.mem_select.mpr ⟨hq, by simp [hkey.1, hkey.2]⟩
      rw [hfree] at hmem
      cases hmem
    | _ => cases hr

theorem scheduled_there (h : x.apply cfg now db = some db') {o : DeliveryOutbox} (ho : o ∈ x.scheduled now db) :
    (db'.deliveries.row o.deliveryId).isSome = true := by
  have hbecomes := Txn.deliveries_becomes h
  have hthere : ∀ d r, db.deliveries.row d = some r → x.keepsDelivery cfg now db r = true → o.deliveryId = d →
      (db'.deliveries.row o.deliveryId).isSome = true := by
    intro d r hr hkeep hd
    rw [hd, hbecomes.kept hr hkeep]
    rfl
  cases x with
  | createForTenant input endpointIds =>
    simp only [Txn.scheduled, List.mem_map, List.mem_range'_1] at ho
    obtain ⟨d, ⟨hge, hlt⟩, rfl⟩ := ho
    have hindex : d - db.deliveries.next < endpointIds.length := by omega
    have hnew : (Txn.created now db (.createForTenant input endpointIds))[d - db.deliveries.next]? =
        some (.created now db.events.next endpointIds[d - db.deliveries.next]) := by
      simp [Txn.created, hindex]
    have hrow := hbecomes.new_row hnew
    rw [Nat.add_sub_cancel' hge] at hrow
    simp [DeliveryOutbox.created, hrow]
  | markFailedAndSchedule input =>
    obtain ⟨r, hr, _⟩ := Database.schedule_eq_some.mp h
    rw [Txn.scheduled, List.mem_singleton] at ho
    exact hthere _ r hr rfl (by rw [ho]; rfl)
  | markRateLimitedAndSchedule id nextAttemptAt attemptNumber =>
    obtain ⟨r, hr, _⟩ := Database.schedule_eq_some.mp h
    rw [Txn.scheduled, List.mem_singleton] at ho
    exact hthere _ r hr rfl (by rw [ho]; rfl)
  | recoverStaleDelivery id attempts cutoff =>
    simp only [Txn.scheduled] at ho
    cases hr : db.deliveries.row id with
    | none => simp [hr] at ho
    | some r =>
      split at ho
      · rw [List.mem_singleton] at ho
        exact hthere _ r hr rfl (by rw [ho]; rfl)
      · cases ho
  | resetForReplay id =>
    obtain ⟨r, hr, _⟩ := Database.resetForReplay_eq_some.mp h
    rw [Txn.scheduled, List.mem_singleton] at ho
    exact hthere _ r hr rfl (by rw [ho]; rfl)
  | _ => cases ho

theorem keepsDelivery_of_keepsOutbox {o : DeliveryOutbox} {r : Delivery} (hr : db.deliveries.row o.deliveryId = some r)
    (hkeep : x.keepsOutbox cfg now db o = true) : x.keepsDelivery cfg now db r = true := by
  cases x with
  | cleanupOldEvents => simpa [Txn.keepsOutbox, Txn.keepsDelivery, hr] using hkeep
  | _ => rfl

theorem apply (hi : db.Integral) (h : x.apply cfg now db = some db') : db'.Integral := by
  have hlinked := hi.linked.apply h
  refine ⟨catalogue_apply hi.catalogue h, idempotencyKey_apply hi.idempotencyKey h, hlinked.tenant, hlinked.event,
    hlinked.endpoint, ?_⟩
  refine hi.outboxDelivery.becomes (Txn.outbox_becomes h) (fun i o _ => (x.rewriteOutbox_ids now i o).1)
    (fun i o _ hkeep hsome => ?_) fun o ho => scheduled_there h ho
  obtain ⟨r, hr⟩ := Option.isSome_iff_exists.mp hsome
  rw [(Txn.deliveries_becomes h).kept hr (keepsDelivery_of_keepsOutbox hr hkeep)]
  rfl

end Database.Integral

section Indexes

variable {db : Database} {id : Nat}

theorem url_free {tenantId : Nat} {url : String} (h : db.urlTaken tenantId id url = false) {j : Nat} {q : Endpoint}
    (hj : j ≠ id) (hq : db.endpoints.row j = some q) : (q.tenantId, q.url) ≠ (tenantId, url) := by
  intro heq
  rw [Prod.mk.injEq] at heq
  have hmem : (j, q) ∈ db.endpoints.select fun i e => i != id && e.tenantId == tenantId && e.url == url :=
    Table.mem_select.mpr ⟨hq, by simp [hj, heq.1, heq.2]⟩
  simp only [Database.urlTaken, Bool.not_eq_false', List.isEmpty_iff] at h
  rw [h] at hmem
  cases hmem

theorem hash_free {apiKeyHash : String} (h : db.hashTaken id apiKeyHash = false) {j : Nat} {q : Tenant} (hj : j ≠ id)
    (hq : db.tenants.row j = some q) : q.apiKeyHash ≠ apiKeyHash := by
  intro heq
  have hmem : (j, q) ∈ db.tenants.select fun i T => i != id && T.apiKeyHash == apiKeyHash :=
    Table.mem_select.mpr ⟨hq, by simp [hj, heq]⟩
  simp only [Database.hashTaken, Bool.not_eq_false', List.isEmpty_iff] at h
  rw [h] at hmem
  cases hmem

end Indexes

namespace Catalogued

variable {tenants : Table Tenant} {endpoints : Table Endpoint} {subscriptions : List EndpointSubscription} {id : Nat}

theorem modifyTenant {data : Tenant → Tenant} (h : Catalogued tenants endpoints subscriptions)
    (hfree : ∀ T, tenants.row id = some T → ∀ j Q, j ≠ id → tenants.row j = some Q →
      Q.apiKeyHash ≠ (data T).apiKeyHash) : Catalogued (tenants.modify id data) endpoints subscriptions := by
  refine ⟨h.apiKeyHash.modify hfree, h.url, h.subscription, fun i e he => ?_, h.subscriptionEndpoint⟩
  rw [Table.modify_row_eq_map, Option.isSome_map]
  exact h.endpointTenant i e he

theorem modifyEndpoint {data : Endpoint → Endpoint} (h : Catalogued tenants endpoints subscriptions)
    (htenant : ∀ e, (data e).tenantId = e.tenantId)
    (hfree : ∀ e, endpoints.row id = some e → ∀ j q, j ≠ id → endpoints.row j = some q →
      (q.tenantId, q.url) ≠ ((data e).tenantId, (data e).url)) :
    Catalogued tenants (endpoints.modify id data) subscriptions := by
  refine ⟨h.apiKeyHash, h.url.modify hfree, h.subscription, h.endpointTenant.modify fun e _ => htenant e,
    fun sub hsub => ?_⟩
  rw [Table.modify_row_eq_map, Option.isSome_map]
  exact h.subscriptionEndpoint sub hsub

/-- A write that leaves the two columns of the index alone cannot break it. -/
theorem rewriteEndpoint {data : Endpoint → Endpoint} (h : Catalogued tenants endpoints subscriptions)
    (hkeys : ∀ e, (data e).tenantId = e.tenantId ∧ (data e).url = e.url) :
    Catalogued tenants (endpoints.modify id data) subscriptions := by
  refine h.modifyEndpoint (fun e => (hkeys e).1) fun e he j q hj hq heq => ?_
  rw [(hkeys e).1, (hkeys e).2] at heq
  exact hj (h.url j id q e hq he heq)

theorem nodup_subscribed {types : List String} (hn : subscriptions.Nodup)
    (hnone : ∀ sub ∈ subscriptions, sub.endpointId ≠ id) (htypes : types.Nodup) :
    (subscriptions ++ types.map fun t => (⟨id, t⟩ : EndpointSubscription)).Nodup := by
  refine hn.append (htypes.map fun t t' heq => (EndpointSubscription.mk.inj heq).2) ?_
  intro sub hsub hnew
  obtain ⟨t, _, rfl⟩ := List.mem_map.mp hnew
  exact hnone _ hsub rfl

theorem resubscribe {types : List String} (h : Catalogued tenants endpoints subscriptions)
    (hid : (endpoints.row id).isSome = true) (htypes : types.Nodup) :
    Catalogued tenants endpoints ((subscriptions.filter fun sub => sub.endpointId != id) ++
      types.map fun t => ⟨id, t⟩) := by
  refine ⟨h.apiKeyHash, h.url, nodup_subscribed (h.subscription.filter _) (fun sub hsub => ?_) htypes,
    h.endpointTenant, fun sub hsub => ?_⟩
  · simpa using (List.mem_filter.mp hsub).2
  · rcases List.mem_append.mp hsub with hold | hnew
    · exact h.subscriptionEndpoint sub (List.mem_filter.mp hold).1
    · obtain ⟨t, _, rfl⟩ := List.mem_map.mp hnew
      exact hid

theorem endpointId_lt (h : Catalogued tenants endpoints subscriptions) {sub : EndpointSubscription}
    (hsub : sub ∈ subscriptions) : sub.endpointId < endpoints.next := by
  obtain ⟨e, he⟩ := Option.isSome_iff_exists.mp (h.subscriptionEndpoint sub hsub)
  exact Table.lt_next he

theorem createEndpoint {e : Endpoint} {types : List String} (h : Catalogued tenants endpoints subscriptions)
    (htenant : (tenants.row e.tenantId).isSome = true) (htypes : types.Nodup)
    (hfree : ∀ j q, endpoints.row j = some q → (q.tenantId, q.url) ≠ (e.tenantId, e.url)) :
    Catalogued tenants (endpoints.insert e) (subscriptions ++ types.map fun t => ⟨endpoints.next, t⟩) := by
  have hkept : ∀ j, (endpoints.row j).isSome = true → ((endpoints.insert e).row j).isSome = true := by
    intro j hj
    rw [Table.insert_row]
    split
    · rfl
    · exact hj
  refine ⟨h.apiKeyHash, h.url.insert hfree,
    nodup_subscribed h.subscription (fun sub hsub => (h.endpointId_lt hsub).ne) htypes, fun i q hq => ?_,
    fun sub hsub => ?_⟩
  · rw [Table.insert_row] at hq
    split at hq
    · cases hq
      exact htenant
    · exact h.endpointTenant i q hq
  · rcases List.mem_append.mp hsub with hold | hnew
    · exact hkept _ (h.subscriptionEndpoint sub hold)
    · obtain ⟨t, _, rfl⟩ := List.mem_map.mp hnew
      simp [Table.insert_row]

theorem nodup_provisioned {first : Nat} {inputs : List TenantEndpointInput}
    (htypes : ∀ input ∈ inputs, input.eventTypes.Nodup) :
    (((List.range' first inputs.length).zip inputs).flatMap fun p =>
      p.2.eventTypes.map fun t => (⟨p.1, t⟩ : EndpointSubscription)).Nodup := by
  refine List.nodup_flatMap.mpr ⟨fun p hp => ?_, ?_⟩
  · exact (htypes _ (List.of_mem_zip hp).2).map fun t t' heq => (EndpointSubscription.mk.inj heq).2
  · have hids : (((List.range' first inputs.length).zip inputs).map Prod.fst).Nodup := by
      rw [List.map_fst_zip (by simp)]
      exact List.nodup_range'
    refine (List.pairwise_map.mp hids).imp fun {p q} hne sub hp hq => ?_
    obtain ⟨_, _, rfl⟩ := List.mem_map.mp hp
    obtain ⟨_, _, heq⟩ := List.mem_map.mp hq
    exact hne (EndpointSubscription.mk.inj heq).1.symm

theorem createTenant {T : Tenant} {now : Time} {inputs : List TenantEndpointInput}
    (h : Catalogued tenants endpoints subscriptions)
    (hhash : ∀ j Q, tenants.row j = some Q → Q.apiKeyHash ≠ T.apiKeyHash)
    (hurls : (inputs.map TenantEndpointInput.url).Nodup) (htypes : ∀ input ∈ inputs, input.eventTypes.Nodup) :
    Catalogued (tenants.insert T)
      (endpoints.insertAll (inputs.map (PrismaTenantsRepository.endpoint now tenants.next)))
      (subscriptions ++ ((List.range' endpoints.next inputs.length).zip inputs).flatMap fun p =>
        p.2.eventTypes.map fun t => ⟨p.1, t⟩) := by
  have htenants : ∀ i, (tenants.row i).isSome = true → ((tenants.insert T).row i).isSome = true := by
    intro i hi
    rw [Table.insert_row]
    split
    · rfl
    · exact hi
  -- the tenant is a new one, so none of the endpoints that are there can be in its way
  have hurl : endpoints.insertAll (inputs.map (PrismaTenantsRepository.endpoint now tenants.next)) |>.Unique
      fun e => (e.tenantId, e.url) := by
    refine h.url.insertAll ?_ fun e he i q hq heq => ?_
    · rw [List.map_map]
      refine List.Nodup.of_map Prod.snd ?_
      rw [List.map_map]
      exact hurls
    · obtain ⟨input, _, rfl⟩ := List.mem_map.mp he
      have hlt : q.tenantId < tenants.next := h.endpointTenant.lt_next hq
      have hlast : q.tenantId = tenants.next := (Prod.mk.inj heq).1
      omega
  have hprovisioned : ∀ sub ∈ ((List.range' endpoints.next inputs.length).zip inputs).flatMap fun p =>
      p.2.eventTypes.map fun t => (⟨p.1, t⟩ : EndpointSubscription),
      endpoints.next ≤ sub.endpointId ∧ sub.endpointId - endpoints.next < inputs.length := by
    intro sub hsub
    obtain ⟨p, hp, hin⟩ := List.mem_flatMap.mp hsub
    obtain ⟨t, _, rfl⟩ := List.mem_map.mp hin
    obtain ⟨hge, hlt⟩ : endpoints.next ≤ p.1 ∧ p.1 < endpoints.next + inputs.length :=
      List.mem_range'_1.mp (List.of_mem_zip hp).1
    exact ⟨hge, Nat.sub_lt_left_of_lt_add hge hlt⟩
  refine ⟨h.apiKeyHash.insert hhash, hurl, h.subscription.append (nodup_provisioned htypes) ?_,
    h.endpointTenant.insertAll htenants fun e he => ?_, fun sub hsub => ?_⟩
  · intro sub hold hnew
    have hlt := h.endpointId_lt hold
    have hge := (hprovisioned sub hnew).1
    omega
  · obtain ⟨input, _, rfl⟩ := List.mem_map.mp he
    simp [PrismaTenantsRepository.endpoint, Table.insert_row]
  · rcases List.mem_append.mp hsub with hold | hnew
    · obtain ⟨e, he⟩ := Option.isSome_iff_exists.mp (h.subscriptionEndpoint sub hold)
      rw [Table.insertAll_row, if_pos (Table.lt_next he), he]
      rfl
    · obtain ⟨hge, hlt⟩ := hprovisioned sub hnew
      rw [Table.insertAll_row, if_neg (by omega), List.getElem?_map, List.getElem?_eq_getElem hlt]
      rfl

end Catalogued

namespace Service

variable {cfg : Config} {hashApiKey : String → String} {u : Setup} {s t : Service} {a : Operation}
  {as : List Operation}

theorem Writes.catalogued {db : Database} (hc : Catalogued s.db.tenants s.db.endpoints s.db.subscriptions)
    (h : Writes hashApiKey s a db) : Catalogued db.tenants db.endpoints db.subscriptions := by
  cases h with
  | none => exact hc
  | @createEndpoint tenantId input secretKey db answer h =>
    obtain ⟨hfree, htenant, rfl, _⟩ := create_eq_ok.mp h
    exact hc.createEndpoint htenant (List.nodup_dedup _) fun j q hq => url_free hfree (Table.lt_next hq).ne hq
  | @updateEndpoint c tenantId id input db answer _ h =>
    obtain ⟨e, hrow, htenant, hfree, rfl, _⟩ := update_eq_ok.mp h
    have hmodified : Catalogued s.db.tenants (s.db.endpoints.modify id input.data) s.db.subscriptions := by
      refine hc.modifyEndpoint (fun _ => rfl) fun e' he' j q hj hq => ?_
      rw [hrow, Option.some.injEq] at he'
      subst he'
      have hother := url_free hfree hj hq
      rwa [← htenant] at hother
    cases htypes : input.eventTypes with
    | none => exact hmodified
    | some types => exact hmodified.resubscribe (by simp [hrow]) (List.nodup_dedup _)
  | softDelete _ h =>
    obtain ⟨_, rfl⟩ := updateEndpoint_eq_ok.mp h
    exact hc.rewriteEndpoint fun _ => ⟨rfl, rfl⟩
  | rotateSecret _ h =>
    obtain ⟨_, rfl⟩ := updateEndpoint_eq_ok.mp h
    exact hc.rewriteEndpoint fun _ => ⟨rfl, rfl⟩
  | createTenant h =>
    obtain ⟨⟨hfree, hurls, htypes⟩, rfl⟩ := PrismaTenantsRepository.create_eq_ok.mp h
    exact hc.createTenant (fun j Q hQ => hash_free hfree (Table.lt_next hQ).ne hQ) hurls htypes
  | updateTenant _ h =>
    obtain ⟨T, hT, hfree, rfl⟩ := updateTenant_eq_ok.mp h
    refine hc.modifyTenant fun T' hT' j Q hj hQ => ?_
    rw [hT, Option.some.injEq] at hT'
    exact hT' ▸ hash_free hfree hj hQ
  | deleteTenant _ h =>
    obtain ⟨T, hT, hfree, rfl⟩ := updateTenant_eq_ok.mp h
    refine hc.modifyTenant fun T' hT' j Q hj hQ => ?_
    rw [hT, Option.some.injEq] at hT'
    exact hT' ▸ hash_free hfree hj hQ
  | updateApiKeyHash _ h =>
    obtain ⟨T, hT, hfree, rfl⟩ := updateTenant_eq_ok.mp h
    exact hc.modifyTenant fun T' hT' j Q hj hQ => hash_free hfree hj hQ

theorem integral_step (hi : s.db.Integral) (h : s.step cfg hashApiKey a = some t) : t.db.Integral := by
  rcases step_system_or h with ⟨b, rfl, hstep⟩ | ⟨_, db, hdb, hw⟩
  · rw [Service.db, hstep.db]
    rcases s.system.store_cases cfg b with hsame | ⟨x, _, _, happ⟩
    · rw [hsame]
      exact hi
    · exact hi.apply happ
  · have hlinked : t.db.Linked := linked_step hi.linked h
    obtain ⟨hevents, hdeliveries, houtbox⟩ := hw.pipeline
    rw [Service.db, hdb] at hlinked ⊢
    refine ⟨hw.catalogued hi.catalogue, ?_, hlinked.tenant, hlinked.event, hlinked.endpoint, ?_⟩
    · rw [hevents]
      exact hi.idempotencyKey
    · rw [houtbox, hdeliveries]
      exact hi.outboxDelivery

/-- What a service is started over: an empty pipeline, or what the migration makes of an older store. -/
inductive Founded : Service → Prop where
  | boot {u : Setup} (hu : Catalogued u.tenants u.endpoints u.subscriptions) : Founded (boot u)
  | migrated {idText : Nat → String} {migratedAt now : Time} {old : InitDatabase} {db : Database}
      (hold : migrate idText migratedAt old = some db) : Founded (start db now)

theorem integral_of_migrated {idText : Nat → String} {migratedAt : Time} {old : InitDatabase} {db : Database}
    (h : Migrated idText migratedAt old db) : db.Integral := by
  have hlinked := h.linked
  refine ⟨⟨Table.unique_iff_allDistinct.mpr h.hashes, Table.unique_iff_allDistinct.mpr h.urls,
    h.constrained.subscriptions, fun i e he => ?_, h.constrained.subscription_endpoint⟩, fun i j e f he hf hkey => ?_,
    hlinked.tenant, hlinked.event, hlinked.endpoint, h.constrained.outbox_delivery⟩
  · rw [h.endpoints, Option.bind_eq_some_iff] at he
    obtain ⟨e₀, he₀, hmigrated⟩ := he
    obtain ⟨T, hT, rfl⟩ := Option.map_eq_some_iff.mp hmigrated
    rw [h.tenants, Table.mapRows_row, Option.isSome_map]
    exact Option.isSome_iff_exists.mpr ⟨T, hT⟩
  · rw [h.events, Table.mapRows_row, Option.map_eq_some_iff] at he hf
    obtain ⟨e₀, he₀, rfl⟩ := he
    obtain ⟨f₀, hf₀, rfl⟩ := hf
    obtain ⟨htenant, hidempotency⟩ := Prod.mk.inj hkey
    exact old.event_key i j e₀ f₀ he₀ hf₀ htenant hidempotency

theorem Founded.integral (h : Founded s) : s.db.Integral := by
  cases h with
  | boot hu =>
    exact ⟨hu, Table.unique_empty _, Table.references_empty _ _, Table.references_empty _ _,
      Table.references_empty _ _, Table.references_empty _ _⟩
  | migrated hold => exact integral_of_migrated (migrate_migrated hold).1

/-- Whatever the processes and the calls do, and however they interleave, no statement ever
breaks a unique index or a foreign key of the schema. -/
theorem schema_holds (hs : Founded s) (h : Transition.run (step cfg hashApiKey) s as = some t) : t.db.Integral :=
  Transition.run_invariant (I := fun s : Service => s.db.Integral) (fun _ _ _ hi hstep => integral_step hi hstep)
    hs.integral h

theorem schema_holds_raced : (after .defaults id (.subscribed 2) racingRun).db.Integral := by
  have hreached : Reached .defaults id (.subscribed 2) racingRun (after .defaults id (.subscribed 2) racingRun) :=
    Transition.run_ending (by decide +kernel)
  exact schema_holds (.boot ⟨by decide +kernel, by decide +kernel, by decide +kernel, by decide +kernel,
    by decide +kernel⟩) hreached

end Service

end WebhookEngine
