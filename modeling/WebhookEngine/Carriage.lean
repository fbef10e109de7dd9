import WebhookEngine.FanOut
import WebhookEngine.Signing

/-! What a request carries: the event as it was posted, to an endpoint that took its type when
the event was accepted, however long ago that was and whatever has been written since. -/

namespace WebhookEngine

open Relational

theorem EventWrite.request {now : Time} {db : Database} {e : Nat} {ev ev' : WebhookEvent}
    (h : EventWrite now db e ev ev') : ev'.request = ev.request ∧ ev'.createdAt = ev.createdAt := by
  cases h <;> exact ⟨rfl, rfl⟩

/-- What the payload's column answers with for a text that is posted: one with the same JSON value. -/
structure JsonbColumn (α : Type) where
  jsonb : String → String
  value : String → α
  value_jsonb : ∀ text, value (jsonb text) = value text

section Columns

variable {α : Type} (column : JsonbColumn α)

def CreateWebhookEventInput.stored (input : CreateWebhookEventInput) : CreateWebhookEventInput :=
  { input with payload := column.jsonb input.payload }

/-- The operation as the store sees it. -/
def Operation.stored : Operation → Operation
  | .system (.ingestRead c input) => .system (.ingestRead c (input.stored column))
  | a => a

variable {column}

theorem mem_stored {posted : List Operation} {c : Nat} {input : CreateWebhookEventInput}
    (h : .system (.ingestRead c input) ∈ posted.map (Operation.stored column)) :
    ∃ request, .system (.ingestRead c request) ∈ posted ∧ input = request.stored column := by
  obtain ⟨a, ha, heq⟩ := List.mem_map.mp h
  cases a with
  | system b =>
    cases b with
    | ingestRead c' request =>
      simp only [Operation.stored, Operation.system.injEq, Act.ingestRead.injEq] at heq
      obtain ⟨rfl, rfl⟩ := heq
      exact ⟨request, ha, rfl⟩
    | _ => cases heq
  | _ => cases heq

end Columns

namespace Service

/-- One accepted call has made the event, at that moment and from that request, and has fanned it
out to the endpoint. -/
structure AcceptedAt (cfg : Config) (hashApiKey : String → String) (u : Setup) (as before : List Operation)
    (m : Nat) (endpointIds : List Nat) (v : Service) (request : CreateWebhookEventInput) : Prop where
  past : ∃ after, as = before ++ .system (.ingestCommit m) :: after
  reached : Reached cfg hashApiKey u before v
  committed : v.system.ingests m = some (request, endpointIds)

def ComesFrom (cfg : Config) (hashApiKey : String → String) (u : Setup) (as : List Operation)
    (eventId endpointId : Nat) (request : CreateWebhookEventInput) (createdAt : Time) : Prop :=
  ∃ before m endpointIds v, AcceptedAt cfg hashApiKey u as before m endpointIds v request ∧
    v.db.events.next = eventId ∧ v.now = createdAt ∧ endpointId ∈ endpointIds

variable {cfg : Config} {hashApiKey : String → String} {u : Setup} {s t : Service} {a : Operation}
  {as : List Operation}

theorem ComesFrom.concat {eventId endpointId : Nat} {request : CreateWebhookEventInput} {createdAt : Time}
    (h : ComesFrom cfg hashApiKey u as eventId endpointId request createdAt) (a : Operation) :
    ComesFrom cfg hashApiKey u (as ++ [a]) eventId endpointId request createdAt := by
  obtain ⟨before, m, endpointIds, v, ⟨⟨after, rfl⟩, hv, hm⟩, hrest⟩ := h
  exact ⟨before, m, endpointIds, v, ⟨⟨after ++ [a], by simp⟩, hv, hm⟩, hrest⟩

/-- Where the events behind the deliveries, and behind the workers' claims, come from. -/
structure Carried (cfg : Config) (hashApiKey : String → String) (u : Setup) (as : List Operation)
    (s : Service) : Prop where
  linked : s.db.Linked
  owned : Owned s
  delivery : ∀ d r ev, s.db.deliveries.row d = some r → s.db.events.row r.eventId = some ev →
    ComesFrom cfg hashApiKey u as r.eventId r.endpointId ev.request ev.createdAt
  claim : ∀ w k c, s.system.workers w = some k → k.point.claimed? = some c →
    ComesFrom cfg hashApiKey u as c.delivery.row.eventId c.delivery.row.endpointId c.delivery.event.request
      c.delivery.event.createdAt ∧ c.delivery.endpoint.tenantId = c.delivery.event.tenantId

namespace Carried

theorem delivery_step (hs : Reached cfg hashApiKey u as s) (hc : Carried cfg hashApiKey u as s)
    (h : s.step cfg hashApiKey a = some t) {d : Nat} {r' : Delivery} {ev' : WebhookEvent}
    (hr' : t.db.deliveries.row d = some r') (hev' : t.db.events.row r'.eventId = some ev') :
    ComesFrom cfg hashApiKey u (as ++ [a]) r'.eventId r'.endpointId ev'.request ev'.createdAt := by
  rcases delivery_origin h hr' with ⟨r, hr, hevent, hendpoint⟩ | ⟨m, p, k, rfl, hm, hk, _, rfl, hnew⟩
  · rw [hevent, hendpoint]
    rw [hevent] at hev'
    rcases event_written h hev' with ⟨ev, hev, hwrite⟩ | ⟨hlast, _⟩
    · rw [hwrite.request.1, hwrite.request.2]
      exact (hc.delivery d r ev hr hev).concat a
    · obtain ⟨q, hq⟩ := Option.isSome_iff_exists.mp (hc.linked.event d r hr)
      have hlt := Table.lt_next hq
      omega
  · simp only [Delivery.created] at hev' ⊢
    rw [hnew, Option.some.injEq] at hev'
    subst hev'
    exact ⟨as, m, p.2, s, ⟨⟨[], rfl⟩, hs, hm⟩, rfl, rfl, hk⟩

theorem claim_step (hc : Carried cfg hashApiKey u as s) (h : s.step cfg hashApiKey a = some t) {w : Nat} {k' : Task}
    {c : Claimed} (hk' : t.system.workers w = some k') (hp' : k'.point.claimed? = some c) :
    ComesFrom cfg hashApiKey u (as ++ [a]) c.delivery.row.eventId c.delivery.row.endpointId c.delivery.event.request
      c.delivery.event.createdAt ∧ c.delivery.endpoint.tenantId = c.delivery.event.tenantId := by
  have hold : ∀ k, s.system.workers w = some k → k.point.claimed? = some c →
      ComesFrom cfg hashApiKey u (as ++ [a]) c.delivery.row.eventId c.delivery.row.endpointId
        c.delivery.event.request c.delivery.event.createdAt ∧
      c.delivery.endpoint.tenantId = c.delivery.event.tenantId := by
    intro k hk hp
    obtain ⟨hfrom, htenant⟩ := hc.claim w k c hk hp
    exact ⟨hfrom.concat a, htenant⟩
  rcases step_system_or h with ⟨b, rfl, hstep⟩ | ⟨_, db, hdb, _⟩
  · rcases hstep.claimed_origin hk' hp' with ⟨k, hk, hp, _⟩ | ⟨k, delivery, rfl, hk, _, hhit, _, _, rfl⟩
    · exact hold k hk hp
    · obtain ⟨r, hr, _, _, hrow⟩ := hc.linked.claimable_of_claim hhit
      obtain ⟨hendpoint, hevent⟩ := Database.claimForProcessing_answer hhit
      have hids : delivery.row.eventId = r.eventId ∧ delivery.row.endpointId = r.endpointId := by
        rw [hrow]
        exact ⟨rfl, rfl⟩
      rw [hids.1] at hevent
      rw [hids.2] at hendpoint
      simp only [hids.1, hids.2]
      refine ⟨(hc.delivery _ r delivery.event hr hevent).concat _, ?_⟩
      obtain ⟨ev, ep, hev, hep, htenant⟩ := hc.owned.delivery _ r hr
      rw [Service.db, hevent, Option.some.injEq] at hev
      rw [Service.db, hendpoint, Option.some.injEq] at hep
      rw [hev, hep]
      exact htenant
  · rw [hdb] at hk'
    exact hold k' hk' hp'

theorem step (hs : Reached cfg hashApiKey u as s) (hc : Carried cfg hashApiKey u as s)
    (h : s.step cfg hashApiKey a = some t) : Carried cfg hashApiKey u (as ++ [a]) t where
  linked := linked_step hc.linked h
  owned := hc.owned.step hc.linked h
  delivery _ _ _ hr hev := hc.delivery_step hs h hr hev
  claim _ _ _ hk hp := hc.claim_step h hk hp

theorem boot (u : Setup) : Carried cfg hashApiKey u [] (boot u) where
  linked := System.boot_linked u
  owned := ⟨fun _ _ h => (by cases h), fun _ _ h => (by cases h), fun _ _ _ _ h => (by cases h),
    fun _ _ h => (by cases h)⟩
  delivery _ _ _ hr := by cases hr
  claim _ _ _ hk := by cases hk

end Carried

theorem Reached.carried (h : Reached cfg hashApiKey u as s) : Carried cfg hashApiKey u as s :=
  Transition.run_history (H := Carried cfg hashApiKey u) (.boot u) (fun _ _ _ _ hs hc hstep => hc.step hs hstep) h

/-- Every request carries the JSON value that one call has posted, in the text its column keeps,
goes to an endpoint of that caller, and to one that took the event's type when the call looked. -/
theorem requests_carry_posted_events {α : Type} (column : JsonbColumn α) {posted : List Operation}
    (h : Reached cfg hashApiKey u (posted.map (.stored column)) s) {w : Nat} {k : Task} {c : Claimed}
    (hw : s.system.workers w = some k) (hp : k.point.claimed? = some c) :
    ∃ before m endpointIds v request, .system (.ingestRead m request) ∈ posted ∧
      AcceptedAt cfg hashApiKey u (posted.map (.stored column)) before m endpointIds v (request.stored column) ∧
      ReadBefore cfg hashApiKey u before m (request.stored column) endpointIds ∧
      c.delivery.row.endpointId ∈ endpointIds ∧ c.delivery.endpoint.tenantId = request.tenantId ∧
      c.delivery.envelope = ⟨v.db.events.next, request.type, "1", v.now, column.jsonb request.payload⟩ ∧
      column.value c.delivery.envelope.data = column.value request.payload := by
  obtain ⟨⟨before, m, endpointIds, v, haccepted, hid, hcreated, hmem⟩, htenant⟩ := h.carried.claim w k c hw hp
  have hread := haccepted.reached.readBefore haccepted.committed
  obtain ⟨after, hpast⟩ := haccepted.past
  have hmade := hread
  obtain ⟨earlier, between, _, hbefore, _⟩ := hmade
  have hstored : Operation.system (.ingestRead m c.delivery.event.request) ∈ posted.map (.stored column) := by
    rw [hpast, hbefore]
    simp
  obtain ⟨request, hposted, hrequest⟩ := mem_stored hstored
  have henvelope : c.delivery.envelope =
      ⟨v.db.events.next, request.type, "1", v.now, column.jsonb request.payload⟩ := by
    have hfields := congrArg (fun r => (r.type, r.payload)) hrequest
    obtain ⟨htype, hpayload⟩ := Prod.mk.inj hfields
    rw [DispatchableDelivery.envelope, ← hid, ← hcreated]
    exact congrArg₂ (fun type payload => Envelope.mk _ type "1" _ payload) htype hpayload
  refine ⟨before, m, endpointIds, v, request, hposted, hrequest ▸ haccepted, hrequest ▸ hread, hmem, ?_, henvelope,
    henvelope ▸ column.value_jsonb request.payload⟩
  exact htenant.trans (congrArg CreateWebhookEventInput.tenantId hrequest)

/-- A worker has claimed the first attempt. -/
def claimedRun : List Operation :=
  (Script.ingest ++ Script.publish 0 ++ Script.claim 0 (jobId 0 0)).map .system

/-- A worker has claimed the first attempt for an event with this payload. -/
def postedRun (payload : String) : List Operation :=
  (Act.ingestRead 0 ⟨0, "key", "order.created", payload⟩ :: .ingestCommit 0 :: Script.publish 0 ++
    Script.claim 0 (jobId 0 0)).map .system

/-- The column keeps the keys of one object in another order. -/
def reordering : JsonbColumn String where
  jsonb text := if text = "\x7b\"to\":1,\"a\":2\x7d" then "\x7b\"a\":2,\"to\":1\x7d" else text
  value text := if text = "\x7b\"to\":1,\"a\":2\x7d" then "\x7b\"a\":2,\"to\":1\x7d" else text
  value_jsonb text := by
    by_cases h : text = "\x7b\"to\":1,\"a\":2\x7d"
    · simp only [if_pos h]
      decide
    · simp only [if_neg h]

theorem requests_carry_posted_events_reordered : ∃ k c,
    (after .defaults id (.subscribed 1) (postedRun "\x7b\"a\":2,\"to\":1\x7d")).system.workers 0 = some k ∧
      k.point.claimed? = some c ∧ ∃ m request,
        .system (.ingestRead m request) ∈ postedRun "\x7b\"to\":1,\"a\":2\x7d" ∧
        c.delivery.envelope.data = reordering.jsonb request.payload ∧
        reordering.value c.delivery.envelope.data = reordering.value request.payload := by
  have hstored : (postedRun "\x7b\"to\":1,\"a\":2\x7d").map (.stored reordering) =
      postedRun "\x7b\"a\":2,\"to\":1\x7d" := by
    simp [postedRun, Script.publish, Script.claim, Operation.stored, CreateWebhookEventInput.stored, reordering]
  have hreached : Reached .defaults id (.subscribed 1)
      ((postedRun "\x7b\"to\":1,\"a\":2\x7d").map (.stored reordering))
      (after .defaults id (.subscribed 1) (postedRun "\x7b\"a\":2,\"to\":1\x7d")) := by
    rw [hstored]
    exact Transition.run_ending (by decide +kernel)
  obtain ⟨c, hclaimed⟩ := Option.isSome_iff_exists.mp (show
    (((after .defaults id (.subscribed 1) (postedRun "\x7b\"a\":2,\"to\":1\x7d")).system.workers 0).bind
      fun k => k.point.claimed?).isSome = true by decide +kernel)
  obtain ⟨k, hk, hc⟩ := Option.bind_eq_some_iff.mp hclaimed
  obtain ⟨_, m, _, _, request, hposted, _, _, _, _, henvelope, hvalue⟩ :=
    requests_carry_posted_events reordering hreached hk hc
  exact ⟨k, c, hk, hc, m, request, hposted, by rw [henvelope], hvalue⟩

end Service

end WebhookEngine
