import WebhookEngine.Effects
import WebhookEngine.Ingestion
import WebhookEngine.Queries

/-! The calls of a tenant: what each comes to at one moment, and the run of operations that
brings the store there. -/

namespace WebhookEngine

open Relational Effects PrismaEndpointsRepository

/-- `IngestEventUseCase.execute`, without the publisher it asks to flush. -/
def IngestEventUseCase.execute (now : Time) (db : Database) (command : CreateWebhookEventInput) :
    Except ApiError (Database × IngestAnswer) :=
  match PrismaEventsRepository.createForTenant now db command with
  | .ok (db', result) =>
    (IngestEventUseCase.answer command.idempotencyKey (.ok result)).map fun answer => (db', answer)
  | .error error =>
    (IngestEventUseCase.answer command.idempotencyKey (.error error)).map fun answer => (db, answer)

def EventsController.createEvent (now : Time) (db : Database) (tenantId : Nat)
    (idempotencyKey : Option String) (type payload : String) : Except ApiError (Database × IngestAnswer) :=
  match idempotencyKey.filter (· != "") with
  | none => .error (.badRequest "Idempotency-Key header is required")
  | some idempotencyKey => IngestEventUseCase.execute now db ⟨tenantId, idempotencyKey, type, payload⟩

inductive TenantCall where
  | createEndpoint (input : EndpointInput)
  | listEndpoints
  | updateEndpoint (id : Nat) (input : EndpointUpdate)
  | deleteEndpoint (id : Nat)
  | rotateEndpointSecret (id : Nat)
  | createEvent (idempotencyKey : Option String) (type payload : String)
  | listEvents (query : EventListQuery)
  | getEvent (id : Nat)
  | listDeliveries (query : DeliveryListQuery)
  | getDelivery (id : Nat)
  | replayDelivery (id : Nat)

inductive Response where
  | created (endpoint : EndpointSummary) (secretKey : String)
  | endpoints (answer : List EndpointSummary)
  | updated (endpoint : EndpointSummary)
  | deleted
  | rotated (id : Nat) (secretKey : String) (previousSecretExpiresAt : Time)
  | ingested (answer : IngestAnswer)
  | events (answer : Page EventItem)
  | event (answer : EventDetails)
  | deliveries (answer : Page DeliveryItem)
  | delivery (answer : DeliveryDetails)
  | replayed (answer : ReplayAnswer)

/-- A response without the identifiers, secrets and times that are made for it. -/
def Response.masked : Response → Response
  | .created endpoint _ => .created { endpoint with id := 0 } ""
  | .rotated id _ _ => .rotated id "" 0
  | .ingested (.accepted message _ deliveriesCreated) => .ingested (.accepted message 0 deliveriesCreated)
  | .replayed (.reset row) => .replayed (.reset { row with nextAttemptAt := none })
  | response => response

/-- What a call can come to: the store and the response, or an error that leaves the store alone. -/
def TenantCall.Answers (assertSafeWebhookUrl : String → Except ApiError String) (now : Time)
    (secretKey : String) (db : Database) (tenantId : Nat) (call : TenantCall)
    (result : Except ApiError (Database × Response)) : Prop :=
  match call with
  | .createEndpoint input =>
    result = (CreateEndpointUseCase.execute assertSafeWebhookUrl now db tenantId input secretKey).map
      fun p => (p.1, .created p.2.1 p.2.2)
  | .listEndpoints => ∃ answer, PrismaEndpointsRepository.list db tenantId answer ∧
      result = .ok (db, .endpoints answer)
  | .updateEndpoint id input =>
    result = (UpdateEndpointUseCase.execute assertSafeWebhookUrl db tenantId id input).map
      fun p => (p.1, .updated p.2)
  | .deleteEndpoint id => result = (DeleteEndpointUseCase.execute db tenantId id).map fun db => (db, .deleted)
  | .rotateEndpointSecret id =>
    result = (RotateEndpointSecretUseCase.execute now db tenantId id secretKey).map
      fun p => (p.1, .rotated p.2.1 p.2.2.1 p.2.2.2)
  | .createEvent idempotencyKey type payload =>
    result = (EventsController.createEvent now db tenantId idempotencyKey type payload).map
      fun p => (p.1, .ingested p.2)
  | .listEvents query => ∃ answer, PrismaEventsRepository.findAll db tenantId query answer ∧
      result = .ok (db, .events answer)
  | .getEvent id => result = (GetEventUseCase.execute db id tenantId).map fun event => (db, .event event)
  | .listDeliveries query => ∃ answer, PrismaDeliveriesRepository.findAll db tenantId query answer ∧
      result = .ok (db, .deliveries answer)
  | .getDelivery id =>
    result = (GetDeliveryUseCase.execute db id tenantId).map fun delivery => (db, .delivery delivery)
  | .replayDelivery id =>
    result = (ReplayDeliveryUseCase.execute now db id tenantId).map fun p => (p.1, .replayed p.2)

def told (result : Except ApiError (Database × Response)) : Except ApiError Response :=
  result.map fun p => p.2.masked

section Outcomes

variable {now : Time} {db db' : Database} {A id : Nat}

theorem requireOwned_eq_ok {u : Unit} :
    requireOwnedEndpoint db A id = .ok u ↔ ∃ e, db.endpoints.row id = some e ∧ e.tenantId = A := by
  cases hrow : db.endpoints.row id with
  | none => simp [requireOwnedEndpoint, findOwned, hrow]
  | some e => by_cases htenant : e.tenantId = A <;> simp [requireOwnedEndpoint, findOwned, hrow, htenant]

theorem createEvent_eq_ok {idempotencyKey : Option String} {type payload : String} {answer : IngestAnswer}
    (h : EventsController.createEvent now db A idempotencyKey type payload = .ok (db', answer)) :
    db' = db ∨ ∃ key endpointIds, db.subscribedEndpoints ⟨A, key, type, payload⟩ = some endpointIds ∧
      db.createForTenant now ⟨A, key, type, payload⟩ endpointIds = some db' := by
  simp only [EventsController.createEvent] at h
  split at h
  · cases h
  · rename_i key _
    simp only [IngestEventUseCase.execute] at h
    split at h
    · rename_i db₁ result hcreate
      obtain ⟨_, _, h⟩ := map_eq_ok.mp h
      cases h
      simp only [PrismaEventsRepository.createForTenant] at hcreate
      split at hcreate
      · cases hcreate
      · rename_i endpointIds hids
        simp only [PrismaEventsRepository.transaction] at hcreate
        split at hcreate
        · cases hcreate
        · split at hcreate
          · rename_i db₂ hdb
            cases hcreate
            exact .inr ⟨key, endpointIds, hids, hdb⟩
          · cases hcreate
    · obtain ⟨_, _, h⟩ := map_eq_ok.mp h
      cases h
      exact .inl rfl

theorem replayDelivery_eq_ok {answer : ReplayAnswer}
    (h : ReplayDeliveryUseCase.execute now db id A = .ok (db', answer)) :
    db' = db ∨ ∃ delivery, db.findById id = some delivery ∧ delivery.event.tenantId = A ∧
      delivery.row.status ≠ .success ∧ db.resetForReplay now id = some db' := by
  simp only [ReplayDeliveryUseCase.execute] at h
  split at h
  · cases h
  · rename_i delivery hfind
    split at h
    · cases h
      exact .inl rfl
    · rename_i hstatus
      obtain ⟨p, hreset, h⟩ := map_eq_ok.mp (rethrow_eq_ok.mp h)
      cases h
      simp only [PrismaDeliveriesRepository.resetForReplay] at hreset
      split at hreset
      · rename_i r db₁ _ hdb
        cases hreset
        simp only [PrismaDeliveriesRepository.findById, Option.bind_eq_bind, Option.bind_eq_some_iff] at hfind
        obtain ⟨r, hr, ev, hev, hif⟩ := hfind
        split at hif
        · rename_i htenant
          obtain ⟨tenant, hT, hif⟩ := Option.bind_eq_some_iff.mp hif
          obtain ⟨endpoint, hep, hif⟩ := Option.bind_eq_some_iff.mp hif
          cases hif
          obtain ⟨T, hT, _⟩ := Option.map_eq_some_iff.mp hT
          obtain ⟨ep, hep, _⟩ := Option.map_eq_some_iff.mp hep
          exact .inr ⟨⟨id, r, ep, ev, T⟩, Database.findById_eq_some.mpr ⟨rfl, hr, hep, hev, hT⟩, htenant,
            hstatus, hdb⟩
        · cases hif
      · cases hreset

end Outcomes

/-- The endpoint a call acts on, and the tenant it was let in as. -/
def Session.endpoint? : Session → Option (Nat × Nat)
  | .owned tenantId id _ => some (tenantId, id)
  | .generated r => some (r.tenantId, r.id)
  | .rotating r _ => some (r.tenantId, r.id)
  | _ => none

namespace Service

/-- The tenant an operation is performed for. -/
def performedFor (s : Service) : Operation → Option Nat
  | .createEndpoint tenantId _ _ => some tenantId
  | .requireOwned _ tenantId _ _ => some tenantId
  | .updateEndpoint c | .softDelete c | .generateSecret c _ | .findSecret c | .rotateSecret c =>
    ((s.sessions c).bind Session.endpoint?).map Prod.fst
  | .system (.ingestRead _ input) => some input.tenantId
  | .system (.ingestCommit c) => (s.system.ingests c).map fun p => p.1.tenantId
  | .system (.replayRead _ _ tenantId) => some tenantId
  | .system (.replayReset q) => (s.system.replays q).map fun _ => s.replayers q
  | _ => none

section Runs

/-- Operations performed for the tenant bring the store there. -/
inductive Comes (cfg : Config) (hashApiKey : String → String) (A : Nat) : Service → Database → Prop where
  | here {s : Service} : Comes cfg hashApiKey A s s.db
  | step {s t : Service} {a : Operation} {db : Database} (hfor : s.performedFor a = some A)
      (h : s.step cfg hashApiKey a = some t) (rest : Comes cfg hashApiKey A t db) : Comes cfg hashApiKey A s db

variable {cfg : Config} {hashApiKey : String → String} {s t : Service} {A c id : Nat} {db : Database}
  {assertSafeWebhookUrl : String → Except ApiError String} {secretKey : String}

theorem Comes.last {a : Operation} (hfor : s.performedFor a = some A) (h : s.step cfg hashApiKey a = some t)
    (hdb : t.db = db) : Comes cfg hashApiKey A s db :=
  .step hfor h (hdb ▸ .here)

def letIn (s : Service) (c tenantId id : Nat) (request : OwnedRequest) : Service :=
  s.setSession c (some (.owned tenantId id request))

theorem session_tenant {v : Session} (hc : s.sessions c = some v) (hv : v.endpoint? = some (A, id)) :
    ((s.sessions c).bind Session.endpoint?).map Prod.fst = some A := by
  rw [hc, Option.bind_some, hv]
  rfl

theorem letIn_sessions {request : OwnedRequest} :
    (s.letIn c A id request).sessions c = some (.owned A id request) :=
  Function.update_self ..

theorem step_requireOwned (hc : s.sessions c = none) {request : OwnedRequest} {x : Unit}
    (h : requireOwnedEndpoint s.db A id = .ok x) :
    s.step cfg hashApiKey (.requireOwned c A id request) = some (s.letIn c A id request) := by
  obtain ⟨e, hrow, htenant⟩ := requireOwned_eq_ok.mp h
  simp [step, hc, findOwned, hrow, htenant, letIn]

theorem comes_createEndpoint {input : EndpointInput} {x : EndpointSummary × String}
    (h : CreateEndpointUseCase.execute assertSafeWebhookUrl s.now s.db A input secretKey = .ok (db, x)) :
    Comes cfg hashApiKey A s db := by
  obtain ⟨url, _, hcreate⟩ := bind_eq_ok.mp h
  split at hcreate
  · rename_i db₁ answer hok
    cases hcreate
    exact .last (a := .createEndpoint A { input with url := url } secretKey) rfl rfl (by rw [hok]; rfl)
  · cases hcreate
  · cases hcreate

theorem comes_updateEndpoint (hc : s.sessions c = none) {input : EndpointUpdate} {answer : EndpointSummary}
    (h : UpdateEndpointUseCase.execute assertSafeWebhookUrl s.db A id input = .ok (db, answer)) :
    Comes cfg hashApiKey A s db := by
  obtain ⟨_, howned, h⟩ := bind_eq_ok.mp h
  obtain ⟨url, _, h⟩ := bind_eq_ok.mp h
  let input' : EndpointUpdate := { input with url := url }
  let s₁ := s.letIn c A id (.update input')
  have hstep : s₁.step cfg hashApiKey (.updateEndpoint c) =
      some ((s₁.commit ((update s₁.db A id input').map Prod.fst)).setSession c none) := by
    simp only [step, s₁, letIn_sessions]
  have hupdate : update s₁.db A id input' = .ok (db, answer) := rethrow_eq_ok.mp h
  rw [hupdate] at hstep
  have hfor : s₁.performedFor (.updateEndpoint c) = some A := session_tenant letIn_sessions rfl
  exact .step rfl (step_requireOwned hc howned) (.last hfor hstep rfl)

theorem comes_deleteEndpoint (hc : s.sessions c = none) (h : DeleteEndpointUseCase.execute s.db A id = .ok db) :
    Comes cfg hashApiKey A s db := by
  obtain ⟨_, howned, h⟩ := bind_eq_ok.mp h
  let s₁ := s.letIn c A id .softDelete
  have hstep : s₁.step cfg hashApiKey (.softDelete c) =
      some ((s₁.commit (softDelete s₁.db id)).setSession c none) := by
    simp only [step, s₁, letIn_sessions]
  have hdelete : softDelete s₁.db id = .ok db := rethrow_eq_ok.mp h
  rw [hdelete] at hstep
  have hfor : s₁.performedFor (.softDelete c) = some A := session_tenant letIn_sessions rfl
  exact .step rfl (step_requireOwned hc howned) (.last hfor hstep rfl)

theorem comes_rotateEndpointSecret (hc : s.sessions c = none) {x : Nat × String × Time}
    (h : RotateEndpointSecretUseCase.execute s.now s.db A id secretKey = .ok (db, x)) :
    Comes cfg hashApiKey A s db := by
  obtain ⟨_, howned, h⟩ := bind_eq_ok.mp h
  obtain ⟨_, hrotate, h⟩ := bind_eq_ok.mp h
  cases h
  obtain ⟨current, hfind, hwrite⟩ := bind_eq_ok.mp (rethrow_eq_ok.mp hrotate)
  let r : Rotation := ⟨A, id, secretKey, s.now + rotationWindow⟩
  let s₁ := s.letIn c A id .rotateSecret
  let s₂ := s₁.setSession c (some (.generated r))
  let s₃ := s₂.setSession c (some (.rotating r current))
  have hgenerate : s₁.step cfg hashApiKey (.generateSecret c secretKey) = some s₂ := by
    simp only [step, s₁, letIn_sessions]
    rfl
  have hgenerated : s₂.sessions c = some (.generated r) := Function.update_self ..
  have hrotating : s₃.sessions c = some (.rotating r current) := Function.update_self ..
  have hread : s₂.step cfg hashApiKey (.findSecret c) = some s₃ := by
    have hcurrent : findSecret s₂.db r.id = .ok current := hfind
    simp only [step, hgenerated, hcurrent]
    rfl
  have hstep : s₃.step cfg hashApiKey (.rotateSecret c) =
      some ((s₃.commit (writeSecret s₃.db r.id r.secretKey current r.previousSecretExpiresAt)).setSession c none) := by
    simp only [step, hrotating]
  have hrotated : writeSecret s₃.db r.id r.secretKey current r.previousSecretExpiresAt = .ok db := hwrite
  rw [hrotated] at hstep
  have hfor₁ : s₁.performedFor (.generateSecret c secretKey) = some A := session_tenant letIn_sessions rfl
  have hfor₂ : s₂.performedFor (.findSecret c) = some A := session_tenant hgenerated rfl
  have hfor₃ : s₃.performedFor (.rotateSecret c) = some A := session_tenant hrotating rfl
  exact .step rfl (step_requireOwned hc howned) (.step hfor₁ hgenerate (.step hfor₂ hread (.last hfor₃ hstep rfl)))

theorem comes_createEvent (hc : s.system.ingests c = none) {idempotencyKey : Option String}
    {type payload : String} {answer : IngestAnswer}
    (h : EventsController.createEvent s.now s.db A idempotencyKey type payload = .ok (db, answer)) :
    Comes cfg hashApiKey A s db := by
  rcases createEvent_eq_ok h with rfl | ⟨key, endpointIds, hids, hdb⟩
  · exact .here
  · let input : CreateWebhookEventInput := ⟨A, key, type, payload⟩
    let s₁ : Service := { s with system := s.system.setIngest c (some (input, endpointIds)) }
    have hread : s.step cfg hashApiKey (.system (.ingestRead c input)) = some s₁ := by
      have hsubscribed : s.system.db.subscribedEndpoints input = some endpointIds := hids
      simp only [step, System.step, hc, hsubscribed]
      rfl
    have hin : s₁.system.ingests c = some (input, endpointIds) := Function.update_self ..
    obtain ⟨t, ht⟩ : ∃ t, s₁.step cfg hashApiKey (.system (.ingestCommit c)) = some t := by
      simp only [step, System.step, hin]
      exact ⟨_, rfl⟩
    have hcommit : s₁.db.createForTenant s₁.now input endpointIds = some db := hdb
    have hfor : s₁.performedFor (.system (.ingestCommit c)) = some A := by simp only [performedFor, hin]; rfl
    exact .step rfl hread (.last hfor ht (by rw [commit_db hin ht, hcommit]; rfl))

theorem reset_db {q d : Nat} (hq : s.system.replays q = some d)
    (h : s.step cfg hashApiKey (.system (.replayReset q)) = some t) :
    t.db = (s.db.resetForReplay s.now d).getD s.db := by
  rw [Service.db, (System.Step.of_step (step_system h).1).db]
  simp [System.store, System.txn, hq, Txn.apply]

theorem comes_replayDelivery (hc : s.system.replays c = none) {answer : ReplayAnswer}
    (h : ReplayDeliveryUseCase.execute s.now s.db id A = .ok (db, answer)) : Comes cfg hashApiKey A s db := by
  rcases replayDelivery_eq_ok h with rfl | ⟨delivery, hfind, htenant, hstatus, hdb⟩
  · exact .here
  · let s₁ : Service :=
      { s with
        system := s.system.setReplay c (some id)
        replayers := Function.update s.replayers c A }
    have hread : s.step cfg hashApiKey (.system (.replayRead c id A)) = some s₁ := by
      have hfound : s.system.db.findById id = some delivery := hfind
      simp only [step, System.step, hc, hfound, htenant, hstatus, ne_eq, not_false_eq_true, and_self, if_true]
      rfl
    have hin : s₁.system.replays c = some id := Function.update_self ..
    obtain ⟨t, ht⟩ : ∃ t, s₁.step cfg hashApiKey (.system (.replayReset c)) = some t := by
      simp only [step, System.step, hin]
      exact ⟨_, rfl⟩
    have hreset : s₁.db.resetForReplay s₁.now id = some db := hdb
    have hfor : s₁.performedFor (.system (.replayReset c)) = some A := by
      have hplayer : s₁.replayers c = A := Function.update_self ..
      simp only [performedFor, hin, Option.map_some, hplayer]
    exact .step rfl hread (.last hfor ht (by rw [reset_db hin ht, hreset]; rfl))

theorem answers_comes {call : TenantCall} {response : Response}
    (h : call.Answers assertSafeWebhookUrl s.now secretKey s.db A (.ok (db, response)))
    (hsession : s.sessions c = none) (hingest : s.system.ingests c = none) (hreplay : s.system.replays c = none) :
    Comes cfg hashApiKey A s db := by
  have hread : ∀ {result : Except ApiError (Database × Response)} {answer : Response},
      result = .ok (s.db, answer) → result = .ok (db, response) → Comes cfg hashApiKey A s db := by
    rintro result answer rfl heq
    cases heq
    exact .here
  cases call with
  | createEndpoint input =>
    obtain ⟨⟨_, _⟩, hok, heq⟩ := map_eq_ok.mp h.symm
    cases heq
    exact comes_createEndpoint hok
  | updateEndpoint id input =>
    obtain ⟨⟨_, _⟩, hok, heq⟩ := map_eq_ok.mp h.symm
    cases heq
    exact comes_updateEndpoint hsession hok
  | deleteEndpoint id =>
    obtain ⟨_, hok, heq⟩ := map_eq_ok.mp h.symm
    cases heq
    exact comes_deleteEndpoint hsession hok
  | rotateEndpointSecret id =>
    obtain ⟨⟨_, _⟩, hok, heq⟩ := map_eq_ok.mp h.symm
    cases heq
    exact comes_rotateEndpointSecret hsession hok
  | createEvent idempotencyKey type payload =>
    obtain ⟨⟨_, _⟩, hok, heq⟩ := map_eq_ok.mp h.symm
    cases heq
    exact comes_createEvent hingest hok
  | replayDelivery id =>
    obtain ⟨⟨_, _⟩, hok, heq⟩ := map_eq_ok.mp h.symm
    cases heq
    exact comes_replayDelivery hreplay hok
  | listEndpoints =>
    obtain ⟨_, _, heq⟩ := h
    exact hread heq rfl
  | listEvents query =>
    obtain ⟨_, _, heq⟩ := h
    exact hread heq rfl
  | listDeliveries query =>
    obtain ⟨_, _, heq⟩ := h
    exact hread heq rfl
  | getEvent id =>
    obtain ⟨_, _, heq⟩ := map_eq_ok.mp h.symm
    cases heq
    exact .here
  | getDelivery id =>
    obtain ⟨_, _, heq⟩ := map_eq_ok.mp h.symm
    cases heq
    exact .here

end Runs

end Service

end WebhookEngine
