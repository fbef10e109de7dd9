import WebhookEngine.Calls

/-! Whose rows are whose: the deliveries of an event go to endpoints of its tenant, and calls
under way act on rows of the tenant they were let in as. -/

namespace WebhookEngine

open Relational

/-- The delivery is, or was as long as it was there, one of an event of the tenant. -/
def Database.BelongsTo (db : Database) (d tenantId : Nat) : Prop :=
  d < db.deliveries.next ∧
    ∀ r ev, db.deliveries.row d = some r → db.events.row r.eventId = some ev → ev.tenantId = tenantId

namespace Service

/-- Rows and calls belong to one tenant. -/
structure Owned (s : Service) : Prop where
  delivery : ∀ d r, s.db.deliveries.row d = some r → ∃ ev ep, s.db.events.row r.eventId = some ev ∧
    s.db.endpoints.row r.endpointId = some ep ∧ ep.tenantId = ev.tenantId
  ingest : ∀ c p, s.system.ingests c = some p → ∀ e ∈ p.2, ∃ ep, s.db.endpoints.row e = some ep ∧
    ep.tenantId = p.1.tenantId
  session : ∀ c v tenantId id, s.sessions c = some v → v.endpoint? = some (tenantId, id) →
    ∃ ep, s.db.endpoints.row id = some ep ∧ ep.tenantId = tenantId
  replay : ∀ q d, s.system.replays q = some d → d < s.db.deliveries.next ∧
    ∀ r ev, s.db.deliveries.row d = some r → s.db.events.row r.eventId = some ev → ev.tenantId = s.replayers q

variable {cfg : Config} {hashApiKey : String → String} {u : Setup} {s t : Service} {a : Operation}
  {as : List Operation}

theorem endpoint_tenant (h : s.step cfg hashApiKey a = some t) {i : Nat} {e : Endpoint}
    (he : s.db.endpoints.row i = some e) : ∃ e', t.db.endpoints.row i = some e' ∧ e'.tenantId = e.tenantId := by
  obtain ⟨e', he', hchange⟩ := endpoint_kept h he
  refine ⟨e', he', ?_⟩
  cases hchange with
  | dropped =>
    simp only [Endpoint.dropExpiredSecret]
    split <;> rfl
  | _ => rfl

theorem linked_step (hl : s.db.Linked) (h : s.step cfg hashApiKey a = some t) : t.db.Linked := by
  rcases step_system_or h with ⟨b, rfl, hstep⟩ | ⟨_, db, hdb, hw⟩
  · exact hstep.linked hl
  · obtain ⟨hevents, hdeliveries, _⟩ := hw.pipeline
    rw [Service.db, hdb]
    refine ⟨fun d r hr => ?_, fun d r hr => ?_, fun i ev hev => ?_⟩
    · rw [hdeliveries] at hr
      rw [hevents]
      exact hl.event d r hr
    · rw [hdeliveries] at hr
      obtain ⟨e, he⟩ := Option.isSome_iff_exists.mp (hl.endpoint d r hr)
      obtain ⟨e', he', _⟩ := hw.endpoint_kept he
      exact Option.isSome_iff_exists.mpr ⟨e', he'⟩
    · rw [hevents] at hev
      obtain ⟨T, hT⟩ := Option.isSome_iff_exists.mp (hl.tenant i ev hev)
      obtain ⟨T', hT', _⟩ := hw.tenant_kept hT
      exact Option.isSome_iff_exists.mpr ⟨T', hT'⟩

theorem delivery_origin (h : s.step cfg hashApiKey a = some t) {d : Nat} {r' : Delivery}
    (hr : t.db.deliveries.row d = some r') :
    (∃ r, s.db.deliveries.row d = some r ∧ r'.eventId = r.eventId ∧ r'.endpointId = r.endpointId) ∨
      ∃ c p e, a = .system (.ingestCommit c) ∧ s.system.ingests c = some p ∧ e ∈ p.2 ∧
        s.db.deliveries.next ≤ d ∧ r' = .created s.now s.db.events.next e ∧
        t.db.events.row s.db.events.next = some (.accepted s.now p.1 p.2.length) := by
  rcases step_system_or h with ⟨b, rfl, hstep⟩ | ⟨_, db, hdb, hw⟩
  · rw [Service.db, hstep.db] at hr
    rcases s.system.store_cases cfg b with hsame | ⟨x, hx, _, happ⟩
    · rw [hsame] at hr
      exact .inl ⟨r', hr, rfl, rfl⟩
    · rcases (Txn.deliveries_becomes happ).origin hr with ⟨r, hold, _, rfl⟩ | ⟨hge, hnew⟩
      · exact .inl ⟨r, hold, Txn.rewrite_eventId d r, Txn.rewrite_endpointId d r⟩
      · cases x with
        | createForTenant input endpointIds =>
          simp only [Txn.created, List.getElem?_map, Option.map_eq_some_iff] at hnew
          obtain ⟨e, he, rfl⟩ := hnew
          cases System.attempts_of_txn hx with
          | @ingestCommit c p hc =>
            obtain ⟨_, _, _, hdb⟩ := Txn.createForTenant_eq_some.mp happ
            refine .inr ⟨c, p, e, rfl, hc, List.mem_of_getElem? he, hge, rfl, ?_⟩
            rw [Service.db, hstep.db, ← hdb, Table.insert_row, if_pos rfl]
            rfl
        | _ => simp [Txn.created] at hnew
  · rw [Service.db, hdb, hw.pipeline.2.1] at hr
    exact .inl ⟨r', hr, rfl, rfl⟩

theorem deliveries_next_le (h : s.step cfg hashApiKey a = some t) :
    s.db.deliveries.next ≤ t.db.deliveries.next := by
  rcases step_system_or h with ⟨b, rfl, hstep⟩ | ⟨_, db, hdb, hw⟩
  · exact hstep.next_le
  · rw [Service.db, Service.db, hdb, hw.pipeline.2.1]

theorem belongsTo_of_find {d : Nat} {delivery : DispatchableDelivery} (h : s.db.findById d = some delivery) :
    s.db.BelongsTo d delivery.event.tenantId := by
  obtain ⟨_, hr₀, _, hev₀, _⟩ := Database.findById_eq_some.mp h
  refine ⟨Table.lt_next hr₀, fun r ev hr hev => ?_⟩
  rw [hr₀, Option.some.injEq] at hr
  subst hr
  rw [hev₀, Option.some.injEq] at hev
  rw [hev]

theorem belongsTo_step (hl : s.db.Linked) (h : s.step cfg hashApiKey a = some t) {d T : Nat}
    (hb : s.db.BelongsTo d T) : t.db.BelongsTo d T := by
  obtain ⟨hlt, hrow⟩ := hb
  refine ⟨hlt.trans_le (deliveries_next_le h), fun r' ev' hr hev => ?_⟩
  rcases delivery_origin h hr with ⟨r, hr₀, heq, _⟩ | ⟨_, _, _, _, _, _, hge, _⟩
  · obtain ⟨ev, hev₀⟩ := Option.isSome_iff_exists.mp (hl.event d r hr₀)
    rcases event_origin h hev with ⟨q', hq', hreq⟩ | ⟨hlast, _⟩
    · rw [heq, hev₀, Option.some.injEq] at hq'
      subst hq'
      exact (congrArg CreateWebhookEventInput.tenantId hreq).trans (hrow r ev hr₀ hev₀)
    · have hbelow := Table.lt_next hev₀
      rw [← heq, ← hlast] at hbelow
      exact absurd hbelow (Nat.lt_irrefl _)
  · exact absurd hlt (not_lt.mpr hge)

theorem replay_origin (h : s.step cfg hashApiKey a = some t) {q d : Nat} (hq : t.system.replays q = some d) :
    s.system.replays q = some d ∧ t.replayers q = s.replayers q ∨
      ∃ delivery, s.db.findById d = some delivery ∧ t.replayers q = delivery.event.tenantId ∧
        t.db = s.db := by
  cases Step.of_step h with
  | system hstep =>
    have hclosed : ∀ k, (s.system.setReplay k none).replays q = some d → s.system.replays q = some d := by
      intro k hclose
      rcases set_origin hclose with hold | ⟨_, hnew⟩
      · exact hold
      · cases hnew
    cases hstep with
    | @replayRead k _ _ delivery _ hfind htenant _ =>
      by_cases hk : q = k
      · subst hk
        have hplayer : Function.update s.replayers q delivery.event.tenantId q = delivery.event.tenantId :=
          Function.update_self ..
        simp only [System.setReplay_replays, Function.update_self, Option.some.injEq] at hq
        subst hq htenant
        exact .inr ⟨delivery, hfind, hplayer, rfl⟩
      · rcases set_origin hq with hold | ⟨he, _⟩
        · exact .inl ⟨hold, Function.update_of_ne hk ..⟩
        · exact absurd he hk
    | replayReset _ _ => exact .inl ⟨hclosed _ hq, rfl⟩
    | replayMiss _ _ => exact .inl ⟨hclosed _ hq, rfl⟩
    | _ => exact .inl ⟨hq, rfl⟩
  | _ => exact .inl ⟨hq, rfl⟩

namespace Owned

theorem step (ho : Owned s) (hl : s.db.Linked) (h : s.step cfg hashApiKey a = some t) : Owned t where
  delivery d r' hr := by
    have hl' : t.db.Linked := linked_step hl h
    obtain ⟨ev', hev⟩ := Option.isSome_iff_exists.mp (hl'.event d r' hr)
    rcases delivery_origin h hr with ⟨r, hold, heq, hep⟩ | ⟨c, p, e, rfl, hc, he, _, rfl, hrow⟩
    · obtain ⟨ev, ep, hev₀, hep₀, htenant⟩ := ho.delivery d r hold
      obtain ⟨ep', hep', hept⟩ := endpoint_tenant h hep₀
      refine ⟨ev', ep', hev, hep ▸ hep', ?_⟩
      rcases event_origin h hev with ⟨q, hq, hreq⟩ | ⟨hlast, _⟩
      · rw [heq, hev₀, Option.some.injEq] at hq
        subst hq
        rw [hept, htenant]
        exact (congrArg CreateWebhookEventInput.tenantId hreq).symm
      · have hlt := Table.lt_next hev₀
        rw [← heq, ← hlast] at hlt
        exact absurd hlt (Nat.lt_irrefl _)
    · obtain ⟨ep, hep, htenant⟩ := ho.ingest c p hc e he
      obtain ⟨ep', hep', hept⟩ := endpoint_tenant h hep
      exact ⟨_, ep', hrow, hep', hept.trans htenant⟩
  ingest c p hp e he := by
    have hold : ∃ ep, s.db.endpoints.row e = some ep ∧ ep.tenantId = p.1.tenantId := by
      rcases ingest_origin h hp with hold | ⟨_, hread⟩
      · exact ho.ingest c p hold e he
      · obtain ⟨ep, hep, htenant, _⟩ := (mem_subscribedEndpoints hread e).mp he
        exact ⟨ep, hep, htenant⟩
    obtain ⟨ep, hep, htenant⟩ := hold
    obtain ⟨ep', hep', hept⟩ := endpoint_tenant h hep
    exact ⟨ep', hep', hept.trans htenant⟩
  session c v tenantId id hc hv := by
    have hold : ∃ ep, s.db.endpoints.row id = some ep ∧ ep.tenantId = tenantId := by
      rcases session_origin h hc with hold | hopens
      · exact ho.session c v tenantId id hold hv
      · cases hopens with
        | @owned tenantId' id' request hfound =>
          cases hv
          obtain ⟨i, hi⟩ := Option.isSome_iff_exists.mp hfound
          obtain ⟨ep, hep, hif⟩ := Option.bind_eq_some_iff.mp hi
          split at hif
          · rename_i htenant
            exact ⟨ep, hep, htenant⟩
          · cases hif
        | generated hc' => exact ho.session c _ tenantId id hc' hv
        | rotating hc' _ => exact ho.session c _ tenantId id hc' hv
        | found _ => cases hv
        | keyed _ _ _ => cases hv
    obtain ⟨ep, hep, htenant⟩ := hold
    obtain ⟨ep', hep', hept⟩ := endpoint_tenant h hep
    exact ⟨ep', hep', hept.trans htenant⟩
  replay q d hq := by
    rcases replay_origin h hq with ⟨hold, hsame⟩ | ⟨delivery, hfind, hplayer, hdb⟩
    · rw [hsame]
      exact belongsTo_step hl h (ho.replay q d hold)
    · rw [hdb, hplayer]
      exact belongsTo_of_find hfind

end Owned

section Subscriptions

open PrismaEndpointsRepository PrismaTenantsRepository

/-- The foreign key of the subscriptions. -/
def SubscriptionsStand (db : Database) : Prop :=
  ∀ sub ∈ db.subscriptions, (db.endpoints.row sub.endpointId).isSome = true

theorem Writes.subscription_origin {db : Database} (h : Writes hashApiKey s a db) {sub : EndpointSubscription}
    (hsub : sub ∈ db.subscriptions) :
    sub ∈ s.db.subscriptions ∨ (db.endpoints.row sub.endpointId).isSome = true := by
  cases h with
  | none => exact .inl hsub
  | createEndpoint h =>
    obtain ⟨_, _, rfl, _⟩ := create_eq_ok.mp h
    rcases List.mem_append.mp hsub with hold | hnew
    · exact .inl hold
    · obtain ⟨ty, _, rfl⟩ := List.mem_map.mp hnew
      exact .inr (by simp [Database.subscribe, Table.insert_row])
  | @updateEndpoint c tenantId id input db answer hc h =>
    obtain ⟨e, hrow, _, _, rfl, _⟩ := update_eq_ok.mp h
    cases htypes : input.eventTypes with
    | none =>
      rw [htypes] at hsub
      exact .inl hsub
    | some types =>
      rw [htypes] at hsub
      rcases List.mem_append.mp hsub with hold | hnew
      · exact .inl (List.mem_filter.mp hold).1
      · obtain ⟨ty, _, rfl⟩ := List.mem_map.mp hnew
        exact .inr (by simp [hrow])
  | softDelete _ h =>
    obtain ⟨_, rfl⟩ := updateEndpoint_eq_ok.mp h
    exact .inl hsub
  | rotateSecret _ h =>
    obtain ⟨_, rfl⟩ := updateEndpoint_eq_ok.mp h
    exact .inl hsub
  | @createTenant name rateLimit endpoints apiKey db h =>
    obtain ⟨_, rfl⟩ := PrismaTenantsRepository.create_eq_ok.mp h
    rcases List.mem_append.mp hsub with hold | hnew
    · exact .inl hold
    · obtain ⟨⟨i, input⟩, hmem, hin⟩ := List.mem_flatMap.mp hnew
      obtain ⟨ty, _, rfl⟩ := List.mem_map.mp hin
      obtain ⟨hle, hlt⟩ : s.db.endpoints.next ≤ i ∧ i < s.db.endpoints.next + endpoints.length :=
        List.mem_range'_1.mp (List.of_mem_zip hmem).1
      have hlen : i - s.db.endpoints.next < endpoints.length := by omega
      refine .inr ?_
      rw [Table.insertAll_row, if_neg (not_lt.mpr hle), List.getElem?_map, List.getElem?_eq_getElem hlen]
      rfl
  | updateTenant _ h =>
    obtain ⟨_, _, _, rfl⟩ := updateTenant_eq_ok.mp h
    exact .inl hsub
  | deleteTenant _ h =>
    obtain ⟨_, _, _, rfl⟩ := updateTenant_eq_ok.mp h
    exact .inl hsub
  | updateApiKeyHash _ h =>
    obtain ⟨_, _, _, rfl⟩ := updateTenant_eq_ok.mp h
    exact .inl hsub

theorem SubscriptionsStand.step (hs : SubscriptionsStand s.db) (h : s.step cfg hashApiKey a = some t) :
    SubscriptionsStand t.db := by
  intro sub hsub
  have hold : sub ∈ s.db.subscriptions → (t.db.endpoints.row sub.endpointId).isSome = true := by
    intro hmem
    obtain ⟨e, he⟩ := Option.isSome_iff_exists.mp (hs sub hmem)
    obtain ⟨e', he', _⟩ := endpoint_kept h he
    simp [he']
  rcases step_system_or h with ⟨b, rfl, _⟩ | ⟨_, db, hdb, hw⟩
  · rw [(system_setup h).2.1] at hsub
    exact hold hsub
  · rw [Service.db, hdb] at hsub
    rcases hw.subscription_origin hsub with hmem | hnew
    · exact hold hmem
    · rw [Service.db, hdb]
      exact hnew

end Subscriptions

/-- What the operations keep up about whose rows are whose. -/
structure Tenanted (s : Service) : Prop where
  linked : s.db.Linked
  owned : Owned s
  subscriptions : SubscriptionsStand s.db

theorem Tenanted.step (hk : Tenanted s) (h : s.step cfg hashApiKey a = some t) : Tenanted t :=
  ⟨linked_step hk.linked h, hk.owned.step hk.linked h, hk.subscriptions.step h⟩

theorem Tenanted.boot (hu : ∀ sub ∈ u.subscriptions, (u.endpoints.row sub.endpointId).isSome = true) :
    Tenanted (boot u) where
  linked := System.boot_linked u
  owned := ⟨fun _ _ h => (by cases h), fun _ _ h => (by cases h), fun _ _ _ _ h => (by cases h),
    fun _ _ h => (by cases h)⟩
  subscriptions := hu

theorem Reached.tenanted (hu : ∀ sub ∈ u.subscriptions, (u.endpoints.row sub.endpointId).isSome = true)
    (h : Reached cfg hashApiKey u as s) : Tenanted s :=
  Transition.run_invariant (fun _ _ _ hk hstep => hk.step hstep) (.boot hu) h

end Service

end WebhookEngine
