import Mathlib.Data.Multiset.AddSub
import WebhookEngine.Ownership

/-! Tenants apart: what one tenant does leaves the rows of the others alone, and what it is
answered does not depend on them. -/

namespace WebhookEngine

open Relational PrismaEndpointsRepository

structure Database.AgreeOn (tenantId : Nat) (db db' : Database) : Prop where
  tenant : db.tenants.row tenantId = db'.tenants.row tenantId
  endpoints : db.endpoints.AgreeOn (fun e => e.tenantId = tenantId) db'.endpoints
  subscriptions : ∀ i e, e.tenantId = tenantId → db.endpoints.row i = some e →
    db.eventTypes i = db'.eventTypes i
  events : db.events.AgreeOn (fun ev => ev.tenantId = tenantId) db'.events
  deliveries : db.deliveries.AgreeOn
    (fun r => ∃ ev, db.events.row r.eventId = some ev ∧ ev.tenantId = tenantId) db'.deliveries

section Frames

variable {now : Time} {db db' : Database} {tenantId id i : Nat}

theorem Database.AgreeOn.refl (tenantId : Nat) (db : Database) : db.AgreeOn tenantId db :=
  ⟨rfl, .refl _ _, fun _ _ _ _ => rfl, .refl _ _, .refl _ _⟩

theorem Database.AgreeOn.trans {db'' : Database} (h : db.AgreeOn tenantId db') (h' : db'.AgreeOn tenantId db'') :
    db.AgreeOn tenantId db'' where
  tenant := h.tenant.trans h'.tenant
  endpoints i e he := (h.endpoints i e he).trans (h'.endpoints i e he)
  subscriptions i e he hrow :=
    (h.subscriptions i e he hrow).trans (h'.subscriptions i e he ((h.endpoints i e he).mp hrow))
  events i ev hev := (h.events i ev hev).trans (h'.events i ev hev)
  deliveries d r hr := by
    obtain ⟨ev, hev, htenant⟩ := hr
    exact (h.deliveries d r ⟨ev, hev, htenant⟩).trans
      (h'.deliveries d r ⟨ev, (h.events _ ev htenant).mp hev, htenant⟩)

theorem eventTypes_subscribe (db : Database) (id i : Nat) (types : List String) :
    (db.subscribe id types).eventTypes i =
      db.eventTypes i + if id = i then (types.dedup : Multiset String) else 0 := by
  have hnew : ((types.dedup.map fun t => (⟨id, t⟩ : EndpointSubscription)).filter fun s =>
      s.endpointId == i).map EndpointSubscription.eventType = if id = i then types.dedup else [] := by
    by_cases hi : id = i <;> simp [List.filter_map, Function.comp_def, hi]
  simp only [Database.eventTypes, Database.subscribe, List.filter_append, List.map_append, hnew,
    ← Multiset.coe_add]
  split <;> rfl

theorem eventTypes_unsubscribe (db : Database) (id i : Nat) :
    (db.unsubscribe id).eventTypes i = if id = i then 0 else db.eventTypes i := by
  simp only [Database.eventTypes, Database.unsubscribe, List.filter_filter]
  by_cases hi : id = i
  · subst hi
    simp
  · rw [if_neg hi]
    congr 2
    refine List.filter_congr fun s _ => ?_
    by_cases hs : s.endpointId = i
    · simp [hs, Ne.symm hi]
    · simp [hs]

theorem eventTypes_resubscribed (db : Database) (id i : Nat) (types : Option (List String)) :
    (resubscribed db id types).eventTypes i =
      if id = i then types.elim (db.eventTypes i) fun types => (types.dedup : Multiset String)
      else db.eventTypes i := by
  cases types with
  | none => simp [resubscribed]
  | some types =>
    simp only [resubscribed, Option.elim_some, eventTypes_subscribe, eventTypes_unsubscribe]
    split <;> simp

theorem agreeOn_create {input : EndpointInput} {secretKey : String} {answer : EndpointSummary} {A : Nat}
    (h : create now db A input secretKey = .ok (db', answer)) (hne : tenantId ≠ A) :
    db.AgreeOn tenantId db' := by
  obtain ⟨_, _, rfl, _⟩ := create_eq_ok.mp h
  refine ⟨rfl, Table.agreeOn_insert (Ne.symm hne), fun i e _ he => ?_, .refl _ _, .refl _ _⟩
  have hi : db.endpoints.next ≠ i := (Table.lt_next he).ne'
  rw [eventTypes_subscribe, if_neg hi, Multiset.add_zero]
  rfl

theorem agreeOn_update {input : EndpointUpdate} {answer : EndpointSummary} {A : Nat}
    (h : update db A id input = .ok (db', answer)) (hne : tenantId ≠ A) : db.AgreeOn tenantId db' := by
  obtain ⟨e, hrow, htenant, _, rfl, _⟩ := update_eq_ok.mp h
  have hendpoints : db.endpoints.AgreeOn (fun e => e.tenantId = tenantId)
      (db.endpoints.modify id input.data) := by
    refine Table.agreeOn_modify fun r hr => ?_
    rw [hrow, Option.some.injEq] at hr
    subst hr
    have hother : e.tenantId ≠ tenantId := fun heq => hne (heq.symm.trans htenant)
    exact ⟨hother, hother⟩
  have hsubscriptions : ∀ i r, r.tenantId = tenantId → db.endpoints.row i = some r →
      db.eventTypes i = (resubscribed db id input.eventTypes).eventTypes i := by
    intro i r hr hi
    have hid : id ≠ i := by
      rintro rfl
      rw [hrow, Option.some.injEq] at hi
      exact hne (hr.symm.trans (hi ▸ htenant))
    rw [eventTypes_resubscribed, if_neg hid]
  cases htypes : input.eventTypes with
  | none => exact ⟨rfl, hendpoints, fun _ _ _ _ => rfl, .refl _ _, .refl _ _⟩
  | some types =>
    rw [htypes] at hsubscriptions
    exact ⟨rfl, hendpoints, hsubscriptions, .refl _ _, .refl _ _⟩

theorem agreeOn_updateEndpoint {data : Endpoint → Endpoint} {e : Endpoint}
    (h : db.updateEndpoint id data = .ok db') (hrow : db.endpoints.row id = some e)
    (hdata : (data e).tenantId = e.tenantId) (hne : tenantId ≠ e.tenantId) : db.AgreeOn tenantId db' := by
  obtain ⟨_, rfl⟩ := updateEndpoint_eq_ok.mp h
  refine ⟨rfl, Table.agreeOn_modify fun r hr => ?_, fun _ _ _ _ => rfl, .refl _ _, .refl _ _⟩
  rw [hrow, Option.some.injEq] at hr
  subst hr
  exact ⟨Ne.symm hne, fun heq => hne (heq.symm.trans hdata)⟩

theorem agreeOn_createForTenant {input : CreateWebhookEventInput} {endpointIds : List Nat}
    (h : db.createForTenant now input endpointIds = some db') (hne : tenantId ≠ input.tenantId) :
    db.AgreeOn tenantId db' := by
  obtain ⟨_, _, _, rfl⟩ := Txn.createForTenant_eq_some.mp h
  refine ⟨rfl, .refl _ _, fun _ _ _ _ => rfl, Table.agreeOn_insert (Ne.symm hne),
    Table.agreeOn_insertAll fun r hr => ?_⟩
  rintro ⟨ev, hev, _⟩
  obtain ⟨e, _, rfl⟩ := List.mem_map.mp hr
  exact absurd (Table.lt_next hev) (Nat.lt_irrefl _)

theorem agreeOn_resetForReplay {r : Delivery} {ev : WebhookEvent} (h : db.resetForReplay now id = some db')
    (hr : db.deliveries.row id = some r) (hev : db.events.row r.eventId = some ev)
    (hne : tenantId ≠ ev.tenantId) : db.AgreeOn tenantId db' := by
  obtain ⟨r', hr', _, rfl⟩ := Database.resetForReplay_eq_some.mp h
  rw [hr, Option.some.injEq] at hr'
  subst hr'
  refine ⟨rfl, .refl _ _, fun _ _ _ _ => rfl, Table.agreeOn_modify fun q hq => ?_,
    Table.agreeOn_modify fun q hq => ?_⟩
  · rw [hev, Option.some.injEq] at hq
    subst hq
    exact ⟨Ne.symm hne, Ne.symm hne⟩
  · rw [hr, Option.some.injEq] at hq
    subst hq
    have hother : ¬∃ q, db.events.row r.eventId = some q ∧ q.tenantId = tenantId := by
      rintro ⟨q, hq, htenant⟩
      rw [hev, Option.some.injEq] at hq
      subst hq
      exact hne htenant.symm
    exact ⟨hother, hother⟩

end Frames

namespace Service

variable {cfg : Config} {hashApiKey : String → String} {u : Setup} {s t : Service} {a : Operation}
  {as : List Operation}

theorem Tenanted.frame_session (hk : Tenanted s) {c tenantId id : Nat} {v : Session} {db : Database}
    {data : Endpoint → Endpoint} {B : Nat} (hc : s.sessions c = some v)
    (hv : v.endpoint? = some (tenantId, id)) (h : s.db.updateEndpoint id data = .ok db)
    (hdata : ∀ e, (data e).tenantId = e.tenantId) (hB : B ≠ tenantId) : s.db.AgreeOn B db := by
  obtain ⟨e, he, htenant⟩ := hk.owned.session c v tenantId id hc hv
  exact agreeOn_updateEndpoint h he (hdata e) (htenant ▸ hB)

theorem Tenanted.frame (hk : Tenanted s) (h : s.step cfg hashApiKey a = some t) {A B : Nat}
    (hA : s.performedFor a = some A) (hB : B ≠ A) : s.db.AgreeOn B t.db := by
  rcases step_system_or h with ⟨b, rfl, hstep⟩ | ⟨_, db, hdb, hw⟩
  · cases b with
    | ingestRead c input =>
      have hsame : t.db = s.db := hstep.db
      rw [hsame]
      exact .refl B s.db
    | replayRead q d tenantId =>
      have hsame : t.db = s.db := hstep.db
      rw [hsame]
      exact .refl B s.db
    | ingestCommit c =>
      simp only [performedFor, Option.map_eq_some_iff] at hA
      obtain ⟨p, hc, rfl⟩ := hA
      rw [commit_db hc h]
      cases hcreate : s.db.createForTenant s.now p.1 p.2 with
      | none => exact .refl B s.db
      | some db' => exact agreeOn_createForTenant hcreate hB
    | replayReset q =>
      simp only [performedFor, Option.map_eq_some_iff] at hA
      obtain ⟨d, hq, rfl⟩ := hA
      rw [reset_db hq h]
      cases hreset : s.db.resetForReplay s.now d with
      | none => exact .refl B s.db
      | some db' =>
        obtain ⟨r, hr, hevent, _⟩ := Database.resetForReplay_eq_some.mp hreset
        obtain ⟨ev, hev⟩ := Option.isSome_iff_exists.mp hevent
        have htenant : ev.tenantId = s.replayers q := (hk.owned.replay q d hq).2 r ev hr hev
        exact agreeOn_resetForReplay hreset hr hev (htenant ▸ hB)
    | _ => cases hA
  · rw [Service.db, Service.db, hdb]
    cases hw with
    | none => exact .refl B s.db
    | createEndpoint hok =>
      cases hA
      exact agreeOn_create hok hB
    | updateEndpoint hc hok =>
      have htenant := (session_tenant hc rfl).symm.trans hA
      cases htenant
      exact agreeOn_update hok hB
    | softDelete hc hok =>
      have htenant := (session_tenant hc rfl).symm.trans hA
      cases htenant
      exact hk.frame_session hc rfl hok (fun _ => rfl) hB
    | rotateSecret hc hok =>
      have htenant := (session_tenant hc rfl).symm.trans hA
      cases htenant
      exact hk.frame_session hc rfl hok (fun _ => rfl) hB
    | createTenant _ => cases hA
    | updateTenant _ _ => cases hA
    | deleteTenant _ _ => cases hA
    | updateApiKeyHash _ _ => cases hA

theorem Tenanted.frame_run {A B : Nat} {db : Database} (hk : Tenanted s) (h : Comes cfg hashApiKey A s db)
    (hB : B ≠ A) : s.db.AgreeOn B db := by
  induction h with
  | here => exact .refl B _
  | step hfor hstep _ ih => exact (hk.frame hstep hfor hB).trans (ih (hk.step hstep))

/-- The service with the same store, and no call under way. -/
def quiet (s : Service) (now : Time) : Service :=
  { s with
    system := { s.system with now := now, ingests := fun _ => none, replays := fun _ => none }
    sessions := fun _ => none }

theorem Tenanted.quiet (hk : Tenanted s) (now : Time) : Tenanted (s.quiet now) where
  linked := hk.linked
  owned := ⟨hk.owned.delivery, fun _ _ h => (by cases h), fun _ _ _ _ h => (by cases h), fun _ _ h => (by cases h)⟩
  subscriptions := hk.subscriptions

theorem Tenanted.frame_call (hk : Tenanted s) {assertSafeWebhookUrl : String → Except ApiError String} {now : Time}
    {secretKey : String} {A B : Nat} {call : TenantCall} {db : Database} {response : Response}
    (h : call.Answers assertSafeWebhookUrl now secretKey s.db A (.ok (db, response))) (hB : B ≠ A) :
    s.db.AgreeOn B db := by
  have hcomes : Comes .defaults id A (s.quiet now) db := answers_comes (c := 0) h rfl rfl rfl
  exact (hk.quiet now).frame_run hcomes hB

end Service

namespace Database.AgreeOn

variable {db db' : Database} {tenantId id : Nat}

theorem tenantRef (h : db.AgreeOn tenantId db') : db.tenantRef tenantId = db'.tenantRef tenantId := by
  rw [Database.tenantRef, Database.tenantRef, h.tenant]

theorem endpointRef (h : db.AgreeOn tenantId db') {e : Endpoint} (he : db.endpoints.row id = some e)
    (htenant : e.tenantId = tenantId) : db.endpointRef id = db'.endpointRef id := by
  rw [Database.endpointRef, Database.endpointRef, he, (h.endpoints id e htenant).mp he]

theorem urlTaken (h : db.AgreeOn tenantId db') {id' : Nat} (url : String)
    (hid : ∀ i e, db.endpoints.row i = some e → e.tenantId = tenantId → (i ≠ id ↔ i ≠ id')) :
    db.urlTaken tenantId id url = db'.urlTaken tenantId id' url := by
  have hselect : (db.endpoints.select fun i e => i != id && e.tenantId == tenantId && e.url == url) =
      db'.endpoints.select fun i e => i != id' && e.tenantId == tenantId && e.url == url := by
    refine Table.select_congr fun i e => ?_
    simp only [Bool.and_eq_true, bne_iff_ne, beq_iff_eq]
    constructor
    · rintro ⟨hrow, ⟨hi, htenant⟩, hurl⟩
      exact ⟨(h.endpoints i e htenant).mp hrow, ⟨(hid i e hrow htenant).mp hi, htenant⟩, hurl⟩
    · rintro ⟨hrow', ⟨hi, htenant⟩, hurl⟩
      have hrow := (h.endpoints i e htenant).mpr hrow'
      exact ⟨hrow, ⟨(hid i e hrow htenant).mpr hi, htenant⟩, hurl⟩
  rw [Database.urlTaken, Database.urlTaken, hselect]

theorem keyTaken (h : db.AgreeOn tenantId db') (idempotencyKey : String) :
    db.keyTaken tenantId idempotencyKey = db'.keyTaken tenantId idempotencyKey := by
  have hselect := h.events.select
    (p := fun _ e => e.tenantId == tenantId && e.idempotencyKey == idempotencyKey)
    (fun i e _ hp => ⟨by simp_all, hp⟩) (fun i e _ hp => ⟨by simp_all, hp⟩)
  rw [Database.keyTaken, Database.keyTaken, hselect]

theorem subscribedEndpoints (h : db.AgreeOn tenantId db') {input : CreateWebhookEventInput}
    (hinput : input.tenantId = tenantId) : db.subscribedEndpoints input = db'.subscribedEndpoints input := by
  subst hinput
  have hsubscribed : ∀ (db : Database) (i : Nat), (db.subscriptions.any fun s =>
      s.endpointId == i && (s.eventType == input.type || s.eventType == "*")) = true ↔
        input.type ∈ db.eventTypes i ∨ "*" ∈ db.eventTypes i := by
    intro db i
    simp only [List.any_eq_true, Bool.and_eq_true, Bool.or_eq_true, beq_iff_eq, Database.eventTypes,
      Multiset.mem_coe, List.mem_map, List.mem_filter]
    constructor
    · rintro ⟨s, hs, hi, htype | htype⟩
      · exact .inl ⟨s, ⟨hs, hi⟩, htype⟩
      · exact .inr ⟨s, ⟨hs, hi⟩, htype⟩
    · rintro (⟨s, ⟨hs, hi⟩, htype⟩ | ⟨s, ⟨hs, hi⟩, htype⟩)
      · exact ⟨s, hs, hi, .inl htype⟩
      · exact ⟨s, hs, hi, .inr htype⟩
  have hselect : (db.endpoints.select fun i e => e.tenantId == input.tenantId && e.isActive &&
      db.subscriptions.any fun s => s.endpointId == i && (s.eventType == input.type || s.eventType == "*")) =
      db'.endpoints.select fun i e => e.tenantId == input.tenantId && e.isActive &&
        db'.subscriptions.any fun s =>
          s.endpointId == i && (s.eventType == input.type || s.eventType == "*") := by
    refine Table.select_congr fun i e => ?_
    simp only [Bool.and_eq_true, hsubscribed, beq_iff_eq]
    constructor
    · rintro ⟨hrow, ⟨htenant, hactive⟩, htype⟩
      rw [h.subscriptions i e htenant hrow] at htype
      exact ⟨(h.endpoints i e htenant).mp hrow, ⟨htenant, hactive⟩, htype⟩
    · rintro ⟨hrow', ⟨htenant, hactive⟩, htype⟩
      have hrow := (h.endpoints i e htenant).mpr hrow'
      rw [← h.subscriptions i e htenant hrow] at htype
      exact ⟨hrow, ⟨htenant, hactive⟩, htype⟩
  rw [Database.subscribedEndpoints, Database.subscribedEndpoints, h.tenant, hselect]

end Database.AgreeOn

namespace Service

section Responses

variable {s s' : Service} {A : Nat} {assertSafeWebhookUrl : String → Except ApiError String}

theorem Tenanted.eventTypes_fresh (hk : Tenanted s) : s.db.eventTypes s.db.endpoints.next = 0 := by
  have hnone : (s.db.subscriptions.filter fun sub => sub.endpointId == s.db.endpoints.next) = [] := by
    rw [List.filter_eq_nil_iff]
    intro sub hsub heq
    obtain ⟨e, he⟩ := Option.isSome_iff_exists.mp (hk.subscriptions sub hsub)
    have hlt := Table.lt_next he
    rw [beq_iff_eq] at heq
    omega
  simp [Database.eventTypes, hnone]

theorem Tenanted.told_create (hk : Tenanted s) (hk' : Tenanted s') (hA : s.db.AgreeOn A s'.db) (now now' : Time)
    (input : EndpointInput) (secretKey secretKey' : String) :
    told ((CreateEndpointUseCase.execute assertSafeWebhookUrl now s.db A input secretKey).map
        fun p => (p.1, .created p.2.1 p.2.2)) =
      told ((CreateEndpointUseCase.execute assertSafeWebhookUrl now' s'.db A input secretKey').map
        fun p => (p.1, .created p.2.1 p.2.2)) := by
  simp only [CreateEndpointUseCase.execute]
  cases assertSafeWebhookUrl input.url with
  | error e => rfl
  | ok url =>
    have hne : ∀ (t : Table Endpoint) i e, t.row i = some e → i ≠ t.next := fun t i e hrow =>
      (Table.lt_next hrow).ne
    have htaken : s.db.urlTaken A s.db.endpoints.next url = s'.db.urlTaken A s'.db.endpoints.next url :=
      hA.urlTaken url fun i e hrow htenant =>
        ⟨fun _ => hne _ i e ((hA.endpoints i e htenant).mp hrow), fun _ => hne _ i e hrow⟩
    simp only [create, htaken, hA.tenant, bind, Except.bind]
    cases s'.db.urlTaken A s'.db.endpoints.next url with
    | true => rfl
    | false =>
      cases s'.db.tenants.row A with
      | none => rfl
      | some T =>
        have htypes : ∀ (t : Table Endpoint), { s.db with endpoints := t }.eventTypes s.db.endpoints.next = 0 :=
          fun _ => hk.eventTypes_fresh
        have htypes' : ∀ (t : Table Endpoint), { s'.db with endpoints := t }.eventTypes s'.db.endpoints.next = 0 :=
          fun _ => hk'.eventTypes_fresh
        simp only [told, Response.masked, Except.map, Database.endpointSummary, eventTypes_subscribe, if_true,
          htypes, htypes', Endpoint.created, Option.isNone_some, Bool.false_eq_true, if_false]

theorem owned_cases (hA : s.db.AgreeOn A s'.db) (id : Nat) :
    (∃ e, e.tenantId = A ∧ s.db.endpoints.row id = some e ∧ s'.db.endpoints.row id = some e ∧
      requireOwnedEndpoint s.db A id = .ok () ∧ requireOwnedEndpoint s'.db A id = .ok ()) ∨
    requireOwnedEndpoint s.db A id = .error (.notFound "Endpoint not found") ∧
      requireOwnedEndpoint s'.db A id = .error (.notFound "Endpoint not found") := by
  have hmissing : ∀ (db : Database), (¬∃ e, db.endpoints.row id = some e ∧ e.tenantId = A) →
      requireOwnedEndpoint db A id = .error (.notFound "Endpoint not found") := by
    intro db hno
    cases hrow : db.endpoints.row id with
    | none => simp [requireOwnedEndpoint, findOwned, hrow]
    | some e =>
      have htenant : e.tenantId ≠ A := fun heq => hno ⟨e, hrow, heq⟩
      simp [requireOwnedEndpoint, findOwned, hrow, htenant]
  by_cases howned : ∃ e, s.db.endpoints.row id = some e ∧ e.tenantId = A
  · obtain ⟨e, hrow, htenant⟩ := howned
    have hrow' := (hA.endpoints id e htenant).mp hrow
    exact .inl ⟨e, htenant, hrow, hrow', requireOwned_eq_ok.mpr ⟨e, hrow, htenant⟩,
      requireOwned_eq_ok.mpr ⟨e, hrow', htenant⟩⟩
  · refine .inr ⟨hmissing s.db howned, hmissing s'.db ?_⟩
    rintro ⟨e, hrow', htenant⟩
    exact howned ⟨e, (hA.endpoints id e htenant).mpr hrow', htenant⟩

theorem told_update (hA : s.db.AgreeOn A s'.db) (id : Nat) (input : EndpointUpdate) :
    told ((UpdateEndpointUseCase.execute assertSafeWebhookUrl s.db A id input).map
        fun p => (p.1, .updated p.2)) =
      told ((UpdateEndpointUseCase.execute assertSafeWebhookUrl s'.db A id input).map
        fun p => (p.1, .updated p.2)) := by
  rcases owned_cases hA id with ⟨e, htenant, hrow, hrow', hok, hok'⟩ | ⟨hno, hno'⟩
  · simp only [UpdateEndpointUseCase.execute, hok, hok', bind, Except.bind]
    cases input.url.mapM assertSafeWebhookUrl with
    | error e => rfl
    | ok url =>
      simp only [update_of_owned hrow htenant, update_of_owned hrow' htenant, hA.urlTaken _ fun _ _ _ _ => Iff.rfl]
      split
      · rfl
      · have htypes : ∀ (db : Database) (t : Table Endpoint),
            { db with endpoints := t }.eventTypes id = db.eventTypes id := fun _ _ => rfl
        simp only [told, Response.masked, Except.map, rethrow, Except.mapError, Database.endpointSummary, htypes,
          eventTypes_resubscribed, if_true, hA.subscriptions id e htenant hrow]
  · simp only [UpdateEndpointUseCase.execute, hno, hno', bind, Except.bind]

theorem told_delete (hA : s.db.AgreeOn A s'.db) (id : Nat) :
    told ((DeleteEndpointUseCase.execute s.db A id).map fun db => (db, .deleted)) =
      told ((DeleteEndpointUseCase.execute s'.db A id).map fun db => (db, .deleted)) := by
  rcases owned_cases hA id with ⟨e, _, hrow, hrow', hok, hok'⟩ | ⟨hno, hno'⟩
  · simp only [DeleteEndpointUseCase.execute, hok, hok', bind, Except.bind, softDelete, Database.updateEndpoint,
      hrow, hrow', Option.isSome_some, if_true]
    rfl
  · simp only [DeleteEndpointUseCase.execute, hno, hno', bind, Except.bind]

theorem told_rotate (hA : s.db.AgreeOn A s'.db) (now now' : Time) (id : Nat) (secretKey secretKey' : String) :
    told ((RotateEndpointSecretUseCase.execute now s.db A id secretKey).map
        fun p => (p.1, .rotated p.2.1 p.2.2.1 p.2.2.2)) =
      told ((RotateEndpointSecretUseCase.execute now' s'.db A id secretKey').map
        fun p => (p.1, .rotated p.2.1 p.2.2.1 p.2.2.2)) := by
  rcases owned_cases hA id with ⟨e, _, hrow, hrow', hok, hok'⟩ | ⟨hno, hno'⟩
  · simp only [RotateEndpointSecretUseCase.execute, hok, hok', bind, Except.bind, rotateSecret, findSecret,
      writeSecret, Database.updateEndpoint, hrow, hrow', Option.isSome_some, if_true]
    rfl
  · simp only [RotateEndpointSecretUseCase.execute, hno, hno', bind, Except.bind]

theorem told_createEvent (hA : s.db.AgreeOn A s'.db) (now now' : Time) (idempotencyKey : Option String)
    (type payload : String) :
    told ((EventsController.createEvent now s.db A idempotencyKey type payload).map
        fun p => (p.1, .ingested p.2)) =
      told ((EventsController.createEvent now' s'.db A idempotencyKey type payload).map
        fun p => (p.1, .ingested p.2)) := by
  simp only [EventsController.createEvent]
  split
  · rfl
  · rename_i key _
    let input : CreateWebhookEventInput := ⟨A, key, type, payload⟩
    have hread : s.db.subscribedEndpoints input = s'.db.subscribedEndpoints input :=
      hA.subscribedEndpoints rfl
    simp only [IngestEventUseCase.execute, PrismaEventsRepository.createForTenant]
    cases hids : s'.db.subscribedEndpoints input with
    | none =>
      simp only [input] at hread hids
      simp only [hread, hids]
      rfl
    | some endpointIds =>
      have htaken : s.db.keyTaken A key = s'.db.keyTaken A key := hA.keyTaken key
      have hmem := mem_subscribedEndpoints (hread.trans hids)
      have hmem' := mem_subscribedEndpoints hids
      have htenant' := (subscribedEndpoints_nodup hids).2
      have htenant := (subscribedEndpoints_nodup (hread.trans hids)).2
      cases hkey : s'.db.keyTaken A key with
      | true =>
        simp only [input] at hread hids
        simp only [hread, hids, PrismaEventsRepository.transaction, htaken, hkey, if_true]
        rfl
      | false =>
        obtain ⟨db, hdb⟩ := createForTenant_of_free now (htaken.trans hkey) htenant fun e he => by
          obtain ⟨ep, hep, _⟩ := (hmem e).mp he
          simp [hep]
        obtain ⟨db', hdb'⟩ := createForTenant_of_free now' hkey htenant' fun e he => by
          obtain ⟨ep, hep, _⟩ := (hmem' e).mp he
          simp [hep]
        simp only [input] at hread hids hdb hdb'
        simp only [hread, hids, PrismaEventsRepository.transaction, htaken, hkey, Bool.false_eq_true, if_false,
          hdb, hdb', Except.mapError, IngestEventUseCase.answer, Except.map, told, Response.masked,
          List.length_range']

end Responses
section Reads

variable {s s' : Service} {A : Nat}

theorem list_agree (hA : s.db.AgreeOn A s'.db) {answer : List EndpointSummary}
    (h : PrismaEndpointsRepository.list s.db A answer) : PrismaEndpointsRepository.list s'.db A answer := by
  obtain ⟨rows, hrows, rfl⟩ := h
  have hselect : (s.db.endpoints.select fun _ e => e.tenantId == A) =
      s'.db.endpoints.select fun _ e => e.tenantId == A :=
    hA.endpoints.select (fun _ e _ hp => ⟨beq_iff_eq.mp hp, hp⟩) fun _ e _ hp => ⟨beq_iff_eq.mp hp, hp⟩
  refine ⟨rows, ⟨hselect ▸ hrows.1, hrows.2⟩, List.map_congr_left fun x hx => ?_⟩
  obtain ⟨hrow, htenant⟩ := Table.mem_select.mp (hrows.1.subset hx)
  simp only [Database.endpointSummary, hA.subscriptions x.1 x.2 (beq_iff_eq.mp htenant) hrow]

theorem ownsDelivery_iff {db : Database} {r : Delivery} :
    db.ownsDelivery A r = true ↔ ∃ ev, db.events.row r.eventId = some ev ∧ ev.tenantId = A := by
  simp only [Database.ownsDelivery, Option.any_eq_true, beq_iff_eq]

theorem Tenanted.join (hk : Tenanted s) (hA : s.db.AgreeOn A s'.db) {d : Nat} {r : Delivery}
    (hr : s.db.deliveries.row d = some r) (how : s.db.ownsDelivery A r = true) :
    s.db.endpointRef r.endpointId = s'.db.endpointRef r.endpointId := by
  obtain ⟨ev, hev, htenant⟩ := ownsDelivery_iff.mp how
  obtain ⟨ev', ep, hev', hep, hsame⟩ := hk.owned.delivery d r hr
  rw [hev, Option.some.injEq] at hev'
  subst hev'
  exact hA.endpointRef hep (hsame.trans htenant)

theorem ownsDelivery_agree (hA : s.db.AgreeOn A s'.db) (r : Delivery) :
    s.db.ownsDelivery A r = s'.db.ownsDelivery A r := by
  rw [Bool.eq_iff_iff, ownsDelivery_iff, ownsDelivery_iff]
  constructor
  · rintro ⟨ev, hev, htenant⟩
    exact ⟨ev, (hA.events _ ev htenant).mp hev, htenant⟩
  · rintro ⟨ev, hev, htenant⟩
    exact ⟨ev, (hA.events _ ev htenant).mpr hev, htenant⟩

theorem Tenanted.eventDeliveries_agree {α : Type} (hk : Tenanted s) (hA : s.db.AgreeOn A s'.db) {id : Nat} {ev : WebhookEvent}
    (hev : s.db.events.row id = some ev) (htenant : ev.tenantId = A) (f : Nat → Delivery → EndpointRef → α) :
    s.db.eventDeliveries id f = s'.db.eventDeliveries id f := by
  have hselect : (s.db.deliveries.select fun _ r => r.eventId == id) =
      s'.db.deliveries.select fun _ r => r.eventId == id := by
    refine hA.deliveries.select (fun d r _ hp => ⟨⟨ev, ?_, htenant⟩, hp⟩) fun d r _ hp => ⟨⟨ev, ?_, htenant⟩, hp⟩
    · rw [beq_iff_eq.mp hp, hev]
    · rw [beq_iff_eq.mp hp, hev]
  simp only [Database.eventDeliveries, ← hselect]
  refine congrArg _ (List.filterMap_congr fun x hx => ?_)
  obtain ⟨hr, hid⟩ := Table.mem_select.mp hx
  have how : s.db.ownsDelivery A x.2 = true :=
    ownsDelivery_iff.mpr ⟨ev, by rw [beq_iff_eq.mp hid, hev], htenant⟩
  rw [hk.join hA hr how]

theorem Tenanted.eventItem_agree (hk : Tenanted s) (hA : s.db.AgreeOn A s'.db) {id : Nat} {ev : WebhookEvent}
    (hev : s.db.events.row id = some ev) (htenant : ev.tenantId = A) :
    PrismaEventsRepository.item s.db id ev = PrismaEventsRepository.item s'.db id ev := by
  simp only [PrismaEventsRepository.item, htenant, hA.tenantRef, hk.eventDeliveries_agree hA hev htenant]

theorem Tenanted.findAll_agree (hk : Tenanted s) (hA : s.db.AgreeOn A s'.db) {query : EventListQuery}
    {answer : Page EventItem} (h : PrismaEventsRepository.findAll s.db A query answer) :
    PrismaEventsRepository.findAll s'.db A query answer := by
  obtain ⟨rows, hrows, rfl⟩ := h
  have howner : ∀ ev, query.accepts A ev = true → ev.tenantId = A := by
    intro ev hev
    simp only [EventListQuery.accepts, Bool.and_eq_true, beq_iff_eq] at hev
    exact hev.1.1.1
  have hselect : (s.db.events.select fun _ ev => query.accepts A ev) =
      s'.db.events.select fun _ ev => query.accepts A ev :=
    hA.events.select (fun _ ev _ hp => ⟨howner ev hp, hp⟩) fun _ ev _ hp => ⟨howner ev hp, hp⟩
  have hitems : (query.paging.cut rows).filterMap (fun x => PrismaEventsRepository.item s.db x.1 x.2) =
      (query.paging.cut rows).filterMap fun x => PrismaEventsRepository.item s'.db x.1 x.2 := by
    refine List.filterMap_congr fun x hx => ?_
    obtain ⟨hrow, hp⟩ := Table.mem_select.mp (hrows.1.subset (query.paging.cut_subset rows hx))
    exact hk.eventItem_agree hA hrow (howner x.2 hp)
  exact ⟨rows, ⟨hselect ▸ hrows.1, hrows.2⟩, by rw [hitems, hselect]⟩

theorem Tenanted.findById_agree (hk : Tenanted s) (hA : s.db.AgreeOn A s'.db) (id : Nat) :
    PrismaEventsRepository.findById s.db id A = PrismaEventsRepository.findById s'.db id A := by
  by_cases howned : ∃ ev, s.db.events.row id = some ev ∧ ev.tenantId = A
  · obtain ⟨ev, hev, htenant⟩ := howned
    simp only [PrismaEventsRepository.findById, hev, (hA.events id ev htenant).mp hev, Option.bind_eq_bind,
      Option.bind_some, htenant, if_true, hA.tenantRef, hk.eventDeliveries_agree hA hev htenant]
  · have hnone : ∀ (db : Database), (¬∃ ev, db.events.row id = some ev ∧ ev.tenantId = A) →
        PrismaEventsRepository.findById db id A = none := by
      intro db hno
      cases hrow : db.events.row id with
      | none => simp [PrismaEventsRepository.findById, hrow]
      | some ev =>
        have htenant : ev.tenantId ≠ A := fun heq => hno ⟨ev, hrow, heq⟩
        simp [PrismaEventsRepository.findById, hrow, htenant]
    rw [hnone s.db howned, hnone s'.db]
    rintro ⟨ev, hev, htenant⟩
    exact howned ⟨ev, (hA.events id ev htenant).mpr hev, htenant⟩

end Reads
section Deliveries

variable {s s' : Service} {A : Nat}

theorem owns_of_accepts {db : Database} {query : DeliveryListQuery} {r : Delivery}
    (h : query.accepts db A r = true) : db.ownsDelivery A r = true := by
  simp only [DeliveryListQuery.accepts, Bool.and_eq_true] at h
  exact h.1.1.1.1

theorem Tenanted.deliveryItem_agree (hk : Tenanted s) (hA : s.db.AgreeOn A s'.db) {d : Nat} {r : Delivery}
    (hr : s.db.deliveries.row d = some r) (how : s.db.ownsDelivery A r = true) :
    PrismaDeliveriesRepository.item s.db d r = PrismaDeliveriesRepository.item s'.db d r := by
  obtain ⟨ev, hev, htenant⟩ := ownsDelivery_iff.mp how
  simp only [PrismaDeliveriesRepository.item, hev, (hA.events _ ev htenant).mp hev, Option.bind_eq_bind,
    Option.bind_some, htenant, hA.tenantRef, hk.join hA hr how]

theorem Tenanted.findAllDeliveries_agree (hk : Tenanted s) (hA : s.db.AgreeOn A s'.db)
    {query : DeliveryListQuery} {answer : Page DeliveryItem}
    (h : PrismaDeliveriesRepository.findAll s.db A query answer) :
    PrismaDeliveriesRepository.findAll s'.db A query answer := by
  obtain ⟨rows, hrows, rfl⟩ := h
  have haccepts : ∀ r, query.accepts s.db A r = query.accepts s'.db A r := by
    intro r
    rw [DeliveryListQuery.accepts, DeliveryListQuery.accepts, ownsDelivery_agree hA r]
  have hselect : (s.db.deliveries.select fun _ r => query.accepts s.db A r) =
      s'.db.deliveries.select fun _ r => query.accepts s'.db A r := by
    refine hA.deliveries.select (fun _ r _ hp => ?_) fun _ r _ hp => ?_
    · exact ⟨ownsDelivery_iff.mp (owns_of_accepts hp), haccepts r ▸ hp⟩
    · rw [← haccepts r] at hp
      exact ⟨ownsDelivery_iff.mp (owns_of_accepts hp), hp⟩
  have hitems : (query.paging.cut rows).filterMap (fun x => PrismaDeliveriesRepository.item s.db x.1 x.2) =
      (query.paging.cut rows).filterMap fun x => PrismaDeliveriesRepository.item s'.db x.1 x.2 := by
    refine List.filterMap_congr fun x hx => ?_
    obtain ⟨hrow, hp⟩ := Table.mem_select.mp (hrows.1.subset (query.paging.cut_subset rows hx))
    exact hk.deliveryItem_agree hA hrow (owns_of_accepts hp)
  exact ⟨rows, ⟨hselect ▸ hrows.1, hrows.2⟩, by rw [hitems, hselect]⟩

theorem Tenanted.delivery_cases (hk : Tenanted s) (hA : s.db.AgreeOn A s'.db) (id : Nat) :
    (∃ r delivery, s.db.deliveries.row id = some r ∧ s'.db.deliveries.row id = some r ∧ delivery.row = r ∧
      PrismaDeliveriesRepository.findById s.db id A = some delivery ∧
      PrismaDeliveriesRepository.findById s'.db id A = some delivery) ∨
    PrismaDeliveriesRepository.findById s.db id A = none ∧
      PrismaDeliveriesRepository.findById s'.db id A = none := by
  by_cases howned : ∃ r, s.db.deliveries.row id = some r ∧ s.db.ownsDelivery A r = true
  · obtain ⟨r, hr, how⟩ := howned
    obtain ⟨ev, hev, htenant⟩ := ownsDelivery_iff.mp how
    obtain ⟨ep, hep⟩ := Option.isSome_iff_exists.mp (hk.linked.endpoint id r hr)
    obtain ⟨T, hT⟩ := Option.isSome_iff_exists.mp (hk.linked.tenant _ ev hev)
    rw [htenant] at hT
    have hr' := (hA.deliveries id r ⟨ev, hev, htenant⟩).mp hr
    have hev' := (hA.events _ ev htenant).mp hev
    have hfind : PrismaDeliveriesRepository.findById s.db id A =
        some ⟨id, r, ev, ⟨A, T.name⟩, ⟨r.endpointId, ep.url, ep.isActive⟩⟩ := by
      simp [PrismaDeliveriesRepository.findById, hr, hev, htenant, Database.tenantRef, hT,
        Database.endpointRef, hep]
    have hsame : PrismaDeliveriesRepository.findById s.db id A = PrismaDeliveriesRepository.findById s'.db id A := by
      simp only [PrismaDeliveriesRepository.findById, hr, hr', hev, hev', Option.bind_eq_bind, Option.bind_some,
        htenant, if_true, hA.tenantRef, hk.join hA hr how]
    exact .inl ⟨r, _, hr, hr', rfl, hfind, hsame ▸ hfind⟩
  · have hnone : ∀ (db : Database), (¬∃ r, db.deliveries.row id = some r ∧ db.ownsDelivery A r = true) →
        PrismaDeliveriesRepository.findById db id A = none := by
      intro db hno
      cases hr : db.deliveries.row id with
      | none => simp [PrismaDeliveriesRepository.findById, hr]
      | some r =>
        cases hev : db.events.row r.eventId with
        | none => simp [PrismaDeliveriesRepository.findById, hr, hev]
        | some ev =>
          have htenant : ev.tenantId ≠ A := fun heq => hno ⟨r, hr, ownsDelivery_iff.mpr ⟨ev, hev, heq⟩⟩
          simp [PrismaDeliveriesRepository.findById, hr, hev, htenant]
    refine .inr ⟨hnone s.db howned, hnone s'.db ?_⟩
    rintro ⟨r, hr', how'⟩
    have how : s.db.ownsDelivery A r = true := ownsDelivery_agree hA r ▸ how'
    exact howned ⟨r, (hA.deliveries id r (ownsDelivery_iff.mp how)).mpr hr', how⟩

theorem Tenanted.told_replay (hk : Tenanted s) (hk' : Tenanted s') (hA : s.db.AgreeOn A s'.db)
    (now now' : Time) (id : Nat) :
    told ((ReplayDeliveryUseCase.execute now s.db id A).map fun p => (p.1, .replayed p.2)) =
      told ((ReplayDeliveryUseCase.execute now' s'.db id A).map fun p => (p.1, .replayed p.2)) := by
  rcases hk.delivery_cases hA id with ⟨r, delivery, hr, hr', hrow, hfind, hfind'⟩ | ⟨hno, hno'⟩
  · obtain ⟨db, hdb⟩ : ∃ db, s.db.resetForReplay now id = some db :=
      ⟨_, Database.resetForReplay_eq_some.mpr ⟨r, hr, hk.linked.event id r hr, rfl⟩⟩
    obtain ⟨db', hdb'⟩ : ∃ db, s'.db.resetForReplay now' id = some db :=
      ⟨_, Database.resetForReplay_eq_some.mpr ⟨r, hr', hk'.linked.event id r hr', rfl⟩⟩
    simp only [ReplayDeliveryUseCase.execute, hfind, hfind']
    split
    · rfl
    · simp only [PrismaDeliveriesRepository.resetForReplay, hr, hr', hdb, hdb']
      rfl
  · simp only [ReplayDeliveryUseCase.execute, hno, hno']

end Deliveries

section Isolation

variable {cfg : Config} {hashApiKey : String → String} {u : Setup} {s s' : Service} {as : List Operation}
  {A : Nat} {assertSafeWebhookUrl : String → Except ApiError String} {now : Time} {secretKey : String}

/-- What a tenant is told in one store it can be told in any other with the same rows of its own. -/
theorem Tenanted.told_agree (hk : Tenanted s) (hk' : Tenanted s') (hA : s.db.AgreeOn A s'.db) {call : TenantCall}
    {result : Except ApiError (Database × Response)}
    (h : call.Answers assertSafeWebhookUrl now secretKey s.db A result) (now' : Time) (secretKey' : String) :
    ∃ result', call.Answers assertSafeWebhookUrl now' secretKey' s'.db A result' ∧
      told result' = told result := by
  cases call with
  | createEndpoint input =>
    subst h
    exact ⟨_, rfl, (hk.told_create hk' hA now now' input secretKey secretKey').symm⟩
  | updateEndpoint id input =>
    subst h
    exact ⟨_, rfl, (told_update hA id input).symm⟩
  | deleteEndpoint id =>
    subst h
    exact ⟨_, rfl, (told_delete hA id).symm⟩
  | rotateEndpointSecret id =>
    subst h
    exact ⟨_, rfl, (told_rotate hA now now' id secretKey secretKey').symm⟩
  | createEvent idempotencyKey type payload =>
    subst h
    exact ⟨_, rfl, (told_createEvent hA now now' idempotencyKey type payload).symm⟩
  | replayDelivery id =>
    subst h
    exact ⟨_, rfl, (hk.told_replay hk' hA now now' id).symm⟩
  | listEndpoints =>
    obtain ⟨answer, hlist, rfl⟩ := h
    exact ⟨_, ⟨answer, list_agree hA hlist, rfl⟩, rfl⟩
  | listEvents query =>
    obtain ⟨answer, hfind, rfl⟩ := h
    exact ⟨_, ⟨answer, hk.findAll_agree hA hfind, rfl⟩, rfl⟩
  | listDeliveries query =>
    obtain ⟨answer, hfind, rfl⟩ := h
    exact ⟨_, ⟨answer, hk.findAllDeliveries_agree hA hfind, rfl⟩, rfl⟩
  | getEvent id =>
    subst h
    refine ⟨_, rfl, ?_⟩
    simp only [GetEventUseCase.execute, hk.findById_agree hA id]
    split <;> rfl
  | getDelivery id =>
    subst h
    refine ⟨_, rfl, ?_⟩
    rcases hk.delivery_cases hA id with ⟨_, delivery, _, _, _, hfind, hfind'⟩ | ⟨hno, hno'⟩
    · simp only [GetDeliveryUseCase.execute, hfind, hfind']
      rfl
    · simp only [GetDeliveryUseCase.execute, hno, hno']
      rfl

/-- In every state of a run the rows belong together by tenant; no operation performed for a tenant
touches the rows of another; and what a call comes to in two such states that have the same rows of
its tenant can only differ in what is made for it. -/
theorem tenants_isolated (hu : ∀ sub ∈ u.subscriptions, (u.endpoints.row sub.endpointId).isSome = true)
    (h : Reached cfg hashApiKey u as s) :
    (∀ d r, s.db.deliveries.row d = some r → ∃ ev ep, s.db.events.row r.eventId = some ev ∧
      s.db.endpoints.row r.endpointId = some ep ∧ ep.tenantId = ev.tenantId) ∧
    (∀ a t A B, s.step cfg hashApiKey a = some t → s.performedFor a = some A → B ≠ A →
      s.db.AgreeOn B t.db) ∧
    ∀ assertSafeWebhookUrl now secretKey A call result,
      TenantCall.Answers assertSafeWebhookUrl now secretKey s.db A call result →
      (∀ db response B, result = .ok (db, response) → B ≠ A → s.db.AgreeOn B db) ∧
      ∀ cfg' hashApiKey' u' as' s' now' secretKey',
        (∀ sub ∈ u'.subscriptions, (u'.endpoints.row sub.endpointId).isSome = true) →
        Reached cfg' hashApiKey' u' as' s' → s.db.AgreeOn A s'.db →
        ∃ result', TenantCall.Answers assertSafeWebhookUrl now' secretKey' s'.db A call result' ∧
          told result' = told result := by
  have hk : Tenanted s := h.tenanted hu
  refine ⟨hk.owned.delivery, fun a t A B hstep hA hB => hk.frame hstep hA hB,
    fun assertSafeWebhookUrl now secretKey A call result hcall => ⟨?_, ?_⟩⟩
  · rintro db response B rfl hB
    exact hk.frame_call hcall hB
  · intro cfg' hashApiKey' u' as' s' now' secretKey' hu' h' hA
    exact hk.told_agree (h'.tenanted hu') hA hcall now' secretKey'

def neighbours : Setup where
  tenants := (Table.empty.insert ⟨"first", "hash 0", 100, true⟩).insert ⟨"second", "hash 1", 100, true⟩
  endpoints := Table.empty.insertAll
    [⟨0, "https://example.com/0", "whsec", none, none, none, true, 0⟩,
      ⟨1, "https://example.com/1", "whsec", none, none, none, true, 0⟩]
  subscriptions := [⟨0, "*"⟩, ⟨1, "*"⟩]
  now := 0

def readingRun : List Operation := [.system (.ingestRead 0 ⟨0, "key", "order.created", "{}"⟩)]

theorem tenants_isolated_neighbours :
    ∃ t, (after .defaults id neighbours readingRun).step .defaults id (.system (.ingestCommit 0)) = some t ∧
      (after .defaults id neighbours readingRun).db.AgreeOn 1 t.db := by
  obtain ⟨t, ht⟩ := Option.isSome_iff_exists.mp (show ((after .defaults id neighbours readingRun).step
    .defaults id (.system (.ingestCommit 0))).isSome = true by decide +kernel)
  have hreached : Reached .defaults id neighbours readingRun (after .defaults id neighbours readingRun) :=
    Transition.run_ending (by decide +kernel)
  have hall := tenants_isolated (by decide) hreached
  exact ⟨t, ht, hall.2.1 _ t 0 1 ht (by decide +kernel) (by decide)⟩

end Isolation

end Service

end WebhookEngine
