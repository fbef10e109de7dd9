import WebhookEngine.Ownership

/-! Two ways to set a tenant up: with its endpoints in one request, or the tenant first and then
one request for each endpoint. -/

namespace WebhookEngine

open Relational Effects

structure CreateTenantCommand where
  name : String
  rateLimit : Option Nat
  endpoints : Option (List EndpointInput)
  deriving DecidableEq, Repr

/-! ### What the DTO lets through -/

/-- The pattern `/^(\*|[a-z0-9]+(?:[._-][a-z0-9]+)*)$/` -/
def isEventType (text : String) : Bool :=
  text == "*" ||
    (text.toList.splitOnP fun c => c == '.' || c == '_' || c == '-').all fun word =>
      !word.isEmpty && word.all fun c => ('a' ≤ c && c ≤ 'z') || ('0' ≤ c && c ≤ '9')

def isRateLimit (rateLimit : Option Nat) : Bool := rateLimit.all fun n => 1 ≤ n && n ≤ 10000

def EndpointInput.valid (isUrl : String → Bool) (input : EndpointInput) : Bool :=
  isUrl input.url && 1 ≤ input.eventTypes.length && input.eventTypes.length ≤ 100 &&
    input.eventTypes.all isEventType && isRateLimit input.rateLimit

def CreateTenantCommand.valid (isUrl : String → Bool) (command : CreateTenantCommand) : Bool :=
  command.name != "" && isRateLimit command.rateLimit && (command.endpoints.getD []).length ≤ 50 &&
    (command.endpoints.getD []).all (EndpointInput.valid isUrl)

/-! ### The use case -/

/-- What `toJSON` shows of a tenant. -/
structure TenantItem where
  id : Nat
  name : String
  rateLimit : Nat
  isActive : Bool
  deriving DecidableEq, Repr

structure CreatedEndpoint where
  url : String
  eventTypes : List String
  secretKey : String
  deriving DecidableEq, Repr

structure CreateTenantAnswer where
  tenant : TenantItem
  apiKey : String
  endpoints : List CreatedEndpoint
  message : String
  deriving DecidableEq, Repr

def Tenant.toJSON (id : Nat) (t : Tenant) : TenantItem := ⟨id, t.name, t.rateLimit, t.isActive⟩

section UseCases

variable (assertSafeWebhookUrl : String → Except ApiError String) (hashApiKey : String → String)
  (now : Time) (db : Database)

/-- `secretKey` has the random secret of each endpoint by its place in the list. -/
def tenantEndpoints (inputs : List EndpointInput) (normalizedUrls : List String) (secretKey : Nat → String) :
    List TenantEndpointInput :=
  (inputs.zip normalizedUrls).mapIdx fun index p => ⟨p.2, secretKey index, p.1.eventTypes, p.1.rateLimit⟩

def CreateTenantUseCase.execute (command : CreateTenantCommand) (apiKey : String) (secretKey : Nat → String) :
    Except ApiError (Database × CreateTenantAnswer) := do
  let inputs := command.endpoints.getD []
  let normalizedUrls ← inputs.mapM fun endpoint => assertSafeWebhookUrl endpoint.url
  if normalizedUrls.dedup.length ≠ normalizedUrls.length then
    throw (.badRequest "A tenant cannot contain duplicate endpoint URLs")
  else
    let endpoints := tenantEndpoints inputs normalizedUrls secretKey
    let input : CreateTenantInput := ⟨command.name, hashApiKey apiKey, command.rateLimit, endpoints⟩
    let created ← rethrow (PrismaTenantsRepository.create now db input)
    return (created,
      { tenant := (PrismaTenantsRepository.tenant input).toJSON db.tenants.next
        apiKey := apiKey
        endpoints := endpoints.map fun e => ⟨e.url, e.eventTypes, e.secretKey⟩
        message := "Store this API key securely; it will not be shown again." })

/-- One request for each endpoint, each at its own time and with its own secret. -/
def createEndpoints (tenantId : Nat) : Database → List (EndpointInput × Time × String) →
    Except ApiError Database
  | db, [] => .ok db
  | db, (input, now, secretKey) :: rest => do
    let (db, _) ← CreateEndpointUseCase.execute assertSafeWebhookUrl now db tenantId input secretKey
    createEndpoints tenantId db rest

/-- The tenant without its endpoints, and then each of these by a request of its own. -/
def createOneByOne (command : CreateTenantCommand) (apiKey : String) (times : Nat → Time)
    (secretKey : Nat → String) : Except ApiError Database := do
  let (db, answer) ← CreateTenantUseCase.execute assertSafeWebhookUrl hashApiKey now db
    { command with endpoints := none } apiKey secretKey
  createEndpoints assertSafeWebhookUrl answer.tenant.id db
    ((command.endpoints.getD []).mapIdx fun index input => (input, times index, secretKey index))

end UseCases

/-! ### One store against the other -/

/-- What an endpoint is, apart from its secrets and the time of its making. -/
def Endpoint.settings (e : Endpoint) : Nat × String × Option Nat × Bool :=
  (e.tenantId, e.url, e.rateLimit, e.isActive)

structure Database.SameEndpoints (db db' : Database) : Prop where
  endpoint : ∀ id, (db.endpoints.row id).map Endpoint.settings = (db'.endpoints.row id).map Endpoint.settings
  subscription : ∀ sub, sub ∈ db.subscriptions ↔ sub ∈ db'.subscriptions

/-- Both ways succeed or neither does, and when they do their stores hold the same endpoints. -/
structure WaysAgree (assertSafeWebhookUrl : String → Except ApiError String) (hashApiKey : String → String)
    (now : Time) (db : Database) (command : CreateTenantCommand) (apiKey : String)
    (times : Nat → Time) (secretKey secretKey' : Nat → String) : Prop where
  succeed : (CreateTenantUseCase.execute assertSafeWebhookUrl hashApiKey now db command apiKey
      secretKey).isOk =
    (createOneByOne assertSafeWebhookUrl hashApiKey now db command apiKey times secretKey').isOk
  same : ∀ db₁ answer db₂,
    CreateTenantUseCase.execute assertSafeWebhookUrl hashApiKey now db command apiKey secretKey =
      .ok (db₁, answer) →
    createOneByOne assertSafeWebhookUrl hashApiKey now db command apiKey times secretKey' = .ok db₂ →
    db₁.SameEndpoints db₂

/-! ### Adding endpoints to a store -/

def Database.addEndpoint (db : Database) (e : Endpoint) (types : List String) : Database :=
  { db with
    endpoints := db.endpoints.insert e
    subscriptions := db.subscriptions ++ types.map fun t => ⟨db.endpoints.next, t⟩ }

/-- The store with more endpoints, each with the types it subscribes to. -/
def Database.provisioned (db : Database) (rows : List (Endpoint × List String)) : Database :=
  rows.foldl (fun db p => db.addEndpoint p.1 p.2) db

def Database.FreeUrl (db : Database) (tenantId : Nat) (url : String) : Prop :=
  ∀ i e, db.endpoints.row i = some e → e.tenantId = tenantId → e.url ≠ url

def tenantRows (now : Time) (tenantId : Nat) (endpoints : List TenantEndpointInput) :
    List (Endpoint × List String) :=
  endpoints.map fun e => (PrismaTenantsRepository.endpoint now tenantId e, e.eventTypes)

def endpointRows (tenantId : Nat) (calls : List (EndpointInput × Time × String)) (urls : List String) :
    List (Endpoint × List String) :=
  (calls.zip urls).map fun p =>
    (Endpoint.created p.1.2.1 tenantId { p.1.1 with url := p.2 } p.1.2.2, p.1.1.eventTypes.dedup)

section Provisioned

variable {db db' : Database} {tenantId : Nat} {now : Time} {secretKey : Nat → String}

theorem provisioned_tenantRows (endpoints : List TenantEndpointInput) :
    db.provisioned (tenantRows now tenantId endpoints) =
      { db with
        endpoints := db.endpoints.insertAll (endpoints.map (PrismaTenantsRepository.endpoint now tenantId))
        subscriptions := db.subscriptions ++
          ((List.range' db.endpoints.next endpoints.length).zip endpoints).flatMap
            fun p => p.2.eventTypes.map fun t => ⟨p.1, t⟩ } := by
  induction endpoints generalizing db with
  | nil => simp [tenantRows, Database.provisioned, Table.insertAll]
  | cons e endpoints ih =>
    have hstep := @ih (db.addEndpoint (PrismaTenantsRepository.endpoint now tenantId e) e.eventTypes)
    rw [Database.provisioned] at hstep ⊢
    rw [tenantRows, List.map_cons, List.foldl_cons, ← tenantRows, hstep]
    simp [Database.addEndpoint, Table.insertAll, List.range'_succ, List.append_assoc]

theorem urlTaken_next_eq_false {url : String} :
    db.urlTaken tenantId db.endpoints.next url = false ↔ db.FreeUrl tenantId url := by
  simp only [Database.urlTaken, Bool.not_eq_false', List.isEmpty_iff, Database.FreeUrl]
  constructor
  · intro hnone i e hrow htenant hurl
    have hne : i ≠ db.endpoints.next := (Table.lt_next hrow).ne
    have hmem : (i, e) ∈ db.endpoints.select fun i e =>
        i != db.endpoints.next && e.tenantId == tenantId && e.url == url :=
      Table.mem_select.mpr ⟨hrow, by simp [hne, htenant, hurl]⟩
    rw [hnone] at hmem
    cases hmem
  · intro hfree
    apply List.eq_nil_iff_forall_not_mem.mpr
    rintro ⟨i, e⟩ hmem
    obtain ⟨hrow, hp⟩ := Table.mem_select.mp hmem
    simp only [Bool.and_eq_true, bne_iff_ne, ne_eq, beq_iff_eq] at hp
    exact hfree i e hrow hp.1.2 hp.2

theorem freeUrl_addEndpoint {e : Endpoint} {types : List String} {url : String}
    (htenant : e.tenantId = tenantId) :
    (db.addEndpoint e types).FreeUrl tenantId url ↔ db.FreeUrl tenantId url ∧ e.url ≠ url := by
  constructor
  · intro hfree
    refine ⟨fun i r hrow => ?_, hfree db.endpoints.next e ?_ htenant⟩
    · refine hfree i r ?_
      rw [Database.addEndpoint, Table.insert_row, if_neg (Table.lt_next hrow).ne]
      exact hrow
    · exact if_pos rfl
  · rintro ⟨hfree, hurl⟩ i r hrow hr
    rw [Database.addEndpoint, Table.insert_row] at hrow
    by_cases hi : i = db.endpoints.next
    · rw [if_pos hi] at hrow
      obtain rfl := Option.some.inj hrow
      exact hurl
    · rw [if_neg hi] at hrow
      exact hfree i r hrow hr

end Provisioned

/-! ### When each way succeeds -/

section Success

variable {assertSafeWebhookUrl : String → Except ApiError String} {hashApiKey : String → String} {now : Time}
  {db db' : Database} {tenantId : Nat} {command : CreateTenantCommand} {apiKey : String} {times : Nat → Time}
  {secretKey : Nat → String} {inputs : List EndpointInput} {urls : List String}

theorem CreateEndpointUseCase.execute_eq_ok {input : EndpointInput} {secretKey : String}
    (htenant : (db.tenants.row tenantId).isSome = true) :
    (∃ answer, execute assertSafeWebhookUrl now db tenantId input secretKey = .ok (db', answer)) ↔
      ∃ url, assertSafeWebhookUrl input.url = .ok url ∧ db.FreeUrl tenantId url ∧
        db.addEndpoint (.created now tenantId { input with url := url } secretKey) input.eventTypes.dedup = db' := by
  constructor
  · rintro ⟨answer, h⟩
    obtain ⟨url, hurl, hcreated⟩ := bind_eq_ok.mp h
    split at hcreated
    · rename_i hcreate
      cases hcreated
      obtain ⟨hfree, _, rfl, _⟩ := PrismaEndpointsRepository.create_eq_ok.mp hcreate
      exact ⟨url, hurl, urlTaken_next_eq_false.mp hfree, rfl⟩
    · cases hcreated
    · cases hcreated
  · rintro ⟨url, hurl, hfree, rfl⟩
    have hcreate : PrismaEndpointsRepository.create now db tenantId { input with url := url } secretKey =
        .ok (_, _) :=
      PrismaEndpointsRepository.create_eq_ok.mpr ⟨urlTaken_next_eq_false.mpr hfree, htenant, rfl, rfl⟩
    exact ⟨_, bind_eq_ok.mpr ⟨url, hurl, by rw [hcreate]; rfl⟩⟩

/-- Each request finds its URL free of the endpoints before it and of those of the requests
before it. -/
theorem createEndpoints_eq_ok {calls : List (EndpointInput × Time × String)}
    (htenant : (db.tenants.row tenantId).isSome = true) :
    createEndpoints assertSafeWebhookUrl tenantId db calls = .ok db' ↔
      ∃ urls, List.Forall₂ (fun call url => assertSafeWebhookUrl call.1.url = .ok url) calls urls ∧
        urls.Nodup ∧ (∀ url ∈ urls, db.FreeUrl tenantId url) ∧
        db.provisioned (endpointRows tenantId calls urls) = db' := by
  induction calls generalizing db with
  | nil =>
    constructor
    · intro h
      exact ⟨[], .nil, List.nodup_nil, by simp, Except.ok.inj h⟩
    · rintro ⟨_, ⟨⟩, _, _, hdb⟩
      exact congrArg Except.ok hdb
  | cons call calls ih =>
    obtain ⟨input, now, secretKey⟩ := call
    constructor
    · intro h
      obtain ⟨⟨db₁, answer⟩, hfirst, hrest⟩ := bind_eq_ok.mp h
      obtain ⟨url, hurl, hfree, hdb₁⟩ := (CreateEndpointUseCase.execute_eq_ok htenant).mp ⟨answer, hfirst⟩
      have htenant₁ : (db₁.tenants.row tenantId).isSome = true := hdb₁ ▸ htenant
      obtain ⟨urls, hurls, hnodup, hfrees, hdb⟩ := (ih htenant₁).mp hrest
      have hothers : ∀ u ∈ urls, db.FreeUrl tenantId u ∧ url ≠ u := by
        intro u hu
        have hfree₁ := hfrees u hu
        rw [← hdb₁] at hfree₁
        exact (freeUrl_addEndpoint rfl).mp hfree₁
      refine ⟨url :: urls, .cons hurl hurls, ?_, ?_, ?_⟩
      · exact List.nodup_cons.mpr ⟨fun hmem => (hothers url hmem).2 rfl, hnodup⟩
      · intro u hu
        rcases List.mem_cons.mp hu with rfl | hu
        · exact hfree
        · exact (hothers u hu).1
      · rw [← hdb, ← hdb₁]
        rfl
    · rintro ⟨_, hurls, hnodup, hfrees, hdb⟩
      cases hurls with
      | @cons _ url _ urls hurl hurls =>
        let e : Endpoint := .created now tenantId { input with url := url } secretKey
        obtain ⟨answer, hfirst⟩ := (CreateEndpointUseCase.execute_eq_ok htenant).mpr
          ⟨url, hurl, hfrees url List.mem_cons_self, (rfl : db.addEndpoint e input.eventTypes.dedup = _)⟩
        have hothers : ∀ u ∈ urls, (db.addEndpoint e input.eventTypes.dedup).FreeUrl tenantId u := by
          intro u hu
          have hne : url ≠ u := fun hsame => (List.nodup_cons.mp hnodup).1 (hsame ▸ hu)
          exact (freeUrl_addEndpoint rfl).mpr ⟨hfrees u (List.mem_cons_of_mem _ hu), hne⟩
        have hrest := (@ih (db.addEndpoint e input.eventTypes.dedup) htenant).mpr
          ⟨urls, hurls, hnodup.of_cons, hothers, hdb⟩
        exact bind_eq_ok.mpr ⟨_, hfirst, hrest⟩

theorem tenantEndpoints_cons {input : EndpointInput} {url : String} :
    tenantEndpoints (input :: inputs) (url :: urls) secretKey =
      ⟨url, secretKey 0, input.eventTypes, input.rateLimit⟩ ::
        tenantEndpoints inputs urls (fun index => secretKey (index + 1)) := by
  simp [tenantEndpoints, List.mapIdx_cons]

theorem tenantEndpoints_urls {R : EndpointInput → String → Prop} (h : List.Forall₂ R inputs urls) :
    (tenantEndpoints inputs urls secretKey).map TenantEndpointInput.url = urls := by
  induction h generalizing secretKey with
  | nil => rfl
  | cons _ _ ih => rw [tenantEndpoints_cons, List.map_cons, ih]

theorem tenantEndpoints_eventTypes {R : EndpointInput → String → Prop} (h : List.Forall₂ R inputs urls) :
    (tenantEndpoints inputs urls secretKey).map TenantEndpointInput.eventTypes =
      inputs.map EndpointInput.eventTypes := by
  induction h generalizing secretKey with
  | nil => rfl
  | cons _ _ ih => rw [tenantEndpoints_cons, List.map_cons, ih, List.map_cons]

theorem length_dedup_eq_iff {l : List String} : l.dedup.length = l.length ↔ l.Nodup := by
  rw [(List.dedup_sublist l).length_eq, List.dedup_eq_self]

/-- The store with the tenant of a command and none of its endpoints. -/
def Database.registered (db : Database) (command : CreateTenantCommand) (apiKeyHash : String) : Database :=
  { db with
    tenants := db.tenants.insert (PrismaTenantsRepository.tenant ⟨command.name, apiKeyHash, command.rateLimit, []⟩) }

theorem CreateTenantUseCase.execute_eq_ok :
    (∃ answer, execute assertSafeWebhookUrl hashApiKey now db command apiKey secretKey = .ok (db', answer)) ↔
      ∃ urls, List.Forall₂ (fun input url => assertSafeWebhookUrl input.url = .ok url)
          (command.endpoints.getD []) urls ∧
        urls.Nodup ∧ db.hashTaken db.tenants.next (hashApiKey apiKey) = false ∧
        (∀ input ∈ command.endpoints.getD [], input.eventTypes.Nodup) ∧
        (db.registered command (hashApiKey apiKey)).provisioned (tenantRows now db.tenants.next
          (tenantEndpoints (command.endpoints.getD []) urls secretKey)) = db' := by
  have htypes : ∀ urls, List.Forall₂ (fun input url => assertSafeWebhookUrl input.url = .ok url)
      (command.endpoints.getD []) urls →
      ((∀ e ∈ tenantEndpoints (command.endpoints.getD []) urls secretKey, e.eventTypes.Nodup) ↔
        ∀ input ∈ command.endpoints.getD [], input.eventTypes.Nodup) := by
    intro urls hurls
    have hmap : (tenantEndpoints (command.endpoints.getD []) urls secretKey).map TenantEndpointInput.eventTypes =
        (command.endpoints.getD []).map EndpointInput.eventTypes := tenantEndpoints_eventTypes hurls
    constructor
    · intro h input hinput
      have hmem := List.mem_map_of_mem (f := EndpointInput.eventTypes) hinput
      rw [← hmap] at hmem
      obtain ⟨e, he, heq⟩ := List.mem_map.mp hmem
      exact heq ▸ h e he
    · intro h e he
      have hmem := List.mem_map_of_mem (f := TenantEndpointInput.eventTypes) he
      rw [hmap] at hmem
      obtain ⟨input, hinput, heq⟩ := List.mem_map.mp hmem
      exact heq ▸ h input hinput
  constructor
  · rintro ⟨answer, h⟩
    obtain ⟨urls, hurls, h⟩ := bind_eq_ok.mp h
    have hurls := mapM_eq_ok.mp hurls
    split at h
    · cases h
    · rename_i hlength
      obtain ⟨created, hcreate, h⟩ := bind_eq_ok.mp h
      cases h
      obtain ⟨⟨hhash, _, hnodup⟩, rfl⟩ := PrismaTenantsRepository.create_eq_ok.mp (rethrow_eq_ok.mp hcreate)
      exact ⟨urls, hurls, length_dedup_eq_iff.mp (not_not.mp hlength), hhash, (htypes urls hurls).mp hnodup,
        provisioned_tenantRows _⟩
  · rintro ⟨urls, hurls, hnodup, hhash, htypesNodup, rfl⟩
    have hprovisioned := @provisioned_tenantRows (db.registered command (hashApiKey apiKey)) db.tenants.next now
      (tenantEndpoints (command.endpoints.getD []) urls secretKey)
    have hcreate : PrismaTenantsRepository.create now db ⟨command.name, hashApiKey apiKey, command.rateLimit,
        tenantEndpoints (command.endpoints.getD []) urls secretKey⟩ = .ok _ :=
      PrismaTenantsRepository.create_eq_ok.mpr
        ⟨⟨hhash, (tenantEndpoints_urls hurls).symm ▸ hnodup, (htypes urls hurls).mpr htypesNodup⟩,
          hprovisioned.symm⟩
    have hlength : ¬ urls.dedup.length ≠ urls.length := not_not.mpr (length_dedup_eq_iff.mpr hnodup)
    exact ⟨_, bind_eq_ok.mpr ⟨urls, mapM_eq_ok.mpr hurls,
      (if_neg hlength).trans (bind_eq_ok.mpr ⟨_, rethrow_eq_ok.mpr hcreate, rfl⟩)⟩⟩

theorem CreateTenantUseCase.execute_tenant_id {answer : CreateTenantAnswer}
    (h : execute assertSafeWebhookUrl hashApiKey now db command apiKey secretKey = .ok (db', answer)) :
    answer.tenant.id = db.tenants.next := by
  obtain ⟨urls, _, h⟩ := bind_eq_ok.mp h
  split at h
  · cases h
  · obtain ⟨created, _, h⟩ := bind_eq_ok.mp h
    cases h
    rfl

theorem CreateTenantUseCase.execute_bare_eq_ok (hbare : command.endpoints = none) :
    (∃ answer, execute assertSafeWebhookUrl hashApiKey now db command apiKey secretKey = .ok (db', answer)) ↔
      db.hashTaken db.tenants.next (hashApiKey apiKey) = false ∧
        db.registered command (hashApiKey apiKey) = db' := by
  rw [execute_eq_ok, hbare]
  constructor
  · rintro ⟨_, ⟨⟩, _, hhash, _, hdb⟩
    exact ⟨hhash, hdb⟩
  · intro ⟨hhash, hdb⟩
    exact ⟨[], .nil, List.nodup_nil, hhash, by simp, hdb⟩

end Success

/-! ### The two ways together -/

/-- The foreign key from an endpoint to its tenant. -/
def Database.EndpointsOwned (db : Database) : Prop :=
  ∀ i e, db.endpoints.row i = some e → (db.tenants.row e.tenantId).isSome = true

section Ways

variable {assertSafeWebhookUrl : String → Except ApiError String} {hashApiKey : String → String} {now : Time}
  {db db' : Database} {tenantId : Nat} {command : CreateTenantCommand} {apiKey : String} {times : Nat → Time}
  {secretKey secretKey' : Nat → String} {inputs : List EndpointInput} {urls : List String}

theorem Database.SameEndpoints.addEndpoint {e e' : Endpoint} {types types' : List String}
    (h : db.SameEndpoints db') (hnext : db.endpoints.next = db'.endpoints.next) (he : e.settings = e'.settings)
    (htypes : ∀ t, t ∈ types ↔ t ∈ types') : (db.addEndpoint e types).SameEndpoints (db'.addEndpoint e' types') where
  endpoint id := by
    rw [Database.addEndpoint, Database.addEndpoint, Table.insert_row, Table.insert_row, hnext]
    by_cases hid : id = db'.endpoints.next
    · rw [if_pos hid, if_pos hid, Option.map_some, Option.map_some, he]
    · rw [if_neg hid, if_neg hid]
      exact h.endpoint id
  subscription sub := by
    simp only [Database.addEndpoint, List.mem_append, List.mem_map, h.subscription, htypes, hnext]

theorem sameEndpoints_provisioned {rows rows' : List (Endpoint × List String)}
    (hrows : List.Forall₂ (fun p q => p.1.settings = q.1.settings ∧ ∀ t, t ∈ p.2 ↔ t ∈ q.2) rows rows')
    (h : db.SameEndpoints db') (hnext : db.endpoints.next = db'.endpoints.next) :
    (db.provisioned rows).SameEndpoints (db'.provisioned rows') := by
  induction hrows generalizing db db' with
  | nil => exact h
  | cons hrow _ ih => exact ih (h.addEndpoint hnext hrow.1 hrow.2) (congrArg (· + 1) hnext)

theorem rows_alike {R : EndpointInput → String → Prop} (h : List.Forall₂ R inputs urls) :
    List.Forall₂ (fun p q => p.1.settings = q.1.settings ∧ ∀ t, t ∈ p.2 ↔ t ∈ q.2)
      (tenantRows now tenantId (tenantEndpoints inputs urls secretKey))
      (endpointRows tenantId (inputs.mapIdx fun index input => (input, times index, secretKey' index)) urls) := by
  induction h generalizing secretKey secretKey' times with
  | nil => exact .nil
  | cons _ _ ih =>
    rw [tenantEndpoints_cons, List.mapIdx_cons]
    exact .cons ⟨rfl, fun t => List.mem_dedup.symm⟩ ih

theorem calls_normalised :
    List.Forall₂ (fun call url => assertSafeWebhookUrl call.1.url = .ok url)
        (inputs.mapIdx fun index input => (input, times index, secretKey' index)) urls ↔
      List.Forall₂ (fun input url => assertSafeWebhookUrl input.url = .ok url) inputs urls := by
  induction inputs generalizing urls times secretKey' with
  | nil => simp
  | cons input inputs ih =>
    rw [List.mapIdx_cons, List.forall₂_cons_left_iff, List.forall₂_cons_left_iff]
    simp only [ih]

theorem Database.EndpointsOwned.freeUrl (hdb : db.EndpointsOwned) {apiKeyHash : String} (url : String) :
    (db.registered command apiKeyHash).FreeUrl db.tenants.next url := by
  intro i e hrow htenant
  have howner := hdb i e hrow
  rw [htenant, db.tenants.fresh _ (le_refl _)] at howner
  cases howner

theorem createOneByOne_eq_ok (hdb : db.EndpointsOwned) :
    createOneByOne assertSafeWebhookUrl hashApiKey now db command apiKey times secretKey' = .ok db' ↔
      ∃ urls, List.Forall₂ (fun input url => assertSafeWebhookUrl input.url = .ok url)
          (command.endpoints.getD []) urls ∧
        urls.Nodup ∧ db.hashTaken db.tenants.next (hashApiKey apiKey) = false ∧
        (db.registered command (hashApiKey apiKey)).provisioned (endpointRows db.tenants.next
          ((command.endpoints.getD []).mapIdx fun index input => (input, times index, secretKey' index)) urls) =
            db' := by
  have htenant : ((db.registered command (hashApiKey apiKey)).tenants.row db.tenants.next).isSome = true := by
    rw [Database.registered, Table.insert_row, if_pos rfl]
    rfl
  have hbare : CreateTenantCommand.endpoints { command with endpoints := none } = none := rfl
  constructor
  · intro h
    obtain ⟨⟨db₁, answer⟩, hfirst, hrest⟩ := bind_eq_ok.mp h
    obtain ⟨hhash, rfl⟩ := (CreateTenantUseCase.execute_bare_eq_ok hbare).mp ⟨answer, hfirst⟩
    change createEndpoints assertSafeWebhookUrl answer.tenant.id _ _ = _ at hrest
    rw [CreateTenantUseCase.execute_tenant_id hfirst] at hrest
    obtain ⟨urls, hurls, hnodup, _, hdb'⟩ := (createEndpoints_eq_ok htenant).mp hrest
    exact ⟨urls, calls_normalised.mp hurls, hnodup, hhash, hdb'⟩
  · rintro ⟨urls, hurls, hnodup, hhash, hdb'⟩
    obtain ⟨answer, hfirst⟩ := (CreateTenantUseCase.execute_bare_eq_ok hbare).mpr ⟨hhash, rfl⟩
    refine bind_eq_ok.mpr ⟨_, hfirst, ?_⟩
    change createEndpoints assertSafeWebhookUrl answer.tenant.id _ _ = _
    rw [CreateTenantUseCase.execute_tenant_id hfirst]
    exact (createEndpoints_eq_ok htenant).mpr
      ⟨urls, calls_normalised.mpr hurls, hnodup, fun url _ => hdb.freeUrl url, hdb'⟩

end Ways

theorem Service.endpointsOwned_step {cfg : Config} {hashApiKey : String → String} {s t : Service} {a : Operation}
    (hs : s.db.EndpointsOwned) (h : s.step cfg hashApiKey a = some t) : t.db.EndpointsOwned := by
  have hkept : ∀ T, (s.db.tenants.row T).isSome = true → (t.db.tenants.row T).isSome = true := by
    intro T hT
    obtain ⟨r, hr⟩ := Option.isSome_iff_exists.mp hT
    obtain ⟨r', hr', _⟩ := tenant_kept h hr
    exact Option.isSome_iff_exists.mpr ⟨r', hr'⟩
  intro i e' he'
  rcases endpoint_origin h he' with ⟨e, he⟩ | hborn
  · obtain ⟨e₁, he₁, htenant⟩ := endpoint_tenant h he
    have hsame : e₁ = e' := Option.some.inj (he₁.symm.trans he')
    rw [← hsame, htenant]
    exact hkept _ (hs i e he)
  · cases hborn with
    | created ht _ => exact hkept _ ht
    | withTenant _ hi =>
      obtain ⟨db, hdb, hw⟩ := step_writes h (by intro b hb; cases hb)
      rw [Service.db, hdb] at he' ⊢
      cases hw with
      | none => exact absurd (Table.lt_next he') (not_lt.mpr hi)
      | createTenant hcreate =>
        obtain ⟨_, rfl⟩ := PrismaTenantsRepository.create_eq_ok.mp hcreate
        simp [PrismaTenantsRepository.endpoint, Table.insert_row]

theorem Service.Reached.endpointsOwned {cfg : Config} {hashApiKey : String → String} {u : Setup}
    {as : List Operation} {s : Service} (hu : (boot u).db.EndpointsOwned) (h : Reached cfg hashApiKey u as s) :
    s.db.EndpointsOwned :=
  Transition.run_invariant (I := fun s => s.db.EndpointsOwned) (fun _ _ _ hs hstep => endpointsOwned_step hs hstep)
    hu h

theorem isOk_eq_true {ε α : Type} {x : Except ε α} : x.isOk = true ↔ ∃ a, x = .ok a := by
  cases x <;> simp [Except.isOk, Except.toBool]

/-- The two ways agree just when the command lists no event type twice, unless neither way gets
as far as the subscriptions. -/
theorem ways_agree_iff (assertSafeWebhookUrl : String → Except ApiError String) (hashApiKey : String → String)
    (now : Time) (db : Database) (command : CreateTenantCommand) (apiKey : String) (times : Nat → Time)
    (secretKey secretKey' : Nat → String) (hdb : db.EndpointsOwned) :
    WaysAgree assertSafeWebhookUrl hashApiKey now db command apiKey times secretKey secretKey' ↔
      ∀ urls, (command.endpoints.getD []).mapM (fun input => assertSafeWebhookUrl input.url) = .ok urls →
        urls.Nodup → db.hashTaken db.tenants.next (hashApiKey apiKey) = false →
        ∀ input ∈ command.endpoints.getD [], input.eventTypes.Nodup := by
  constructor
  · intro ⟨hsucceed, _⟩ urls hurls hnodup hhash
    have hseparate : (createOneByOne assertSafeWebhookUrl hashApiKey now db command apiKey times
        secretKey').isOk = true :=
      isOk_eq_true.mpr ⟨_, (createOneByOne_eq_ok hdb).mpr ⟨urls, mapM_eq_ok.mp hurls, hnodup, hhash, rfl⟩⟩
    rw [← hsucceed] at hseparate
    obtain ⟨⟨db₁, answer⟩, hembedded⟩ := isOk_eq_true.mp hseparate
    obtain ⟨_, _, _, _, htypes, _⟩ := CreateTenantUseCase.execute_eq_ok.mp ⟨answer, hembedded⟩
    exact htypes
  · intro htypes
    constructor
    · rw [Bool.eq_iff_iff, isOk_eq_true, isOk_eq_true]
      constructor
      · intro ⟨⟨db₁, answer⟩, hembedded⟩
        obtain ⟨urls, hurls, hnodup, hhash, _⟩ := CreateTenantUseCase.execute_eq_ok.mp ⟨answer, hembedded⟩
        exact ⟨_, (createOneByOne_eq_ok hdb).mpr ⟨urls, hurls, hnodup, hhash, rfl⟩⟩
      · intro ⟨db₂, hseparate⟩
        obtain ⟨urls, hurls, hnodup, hhash, _⟩ := (createOneByOne_eq_ok hdb).mp hseparate
        obtain ⟨answer, hembedded⟩ := CreateTenantUseCase.execute_eq_ok.mpr
          ⟨urls, hurls, hnodup, hhash, htypes urls (mapM_eq_ok.mpr hurls) hnodup hhash, rfl⟩
        exact ⟨_, hembedded⟩
    · intro db₁ answer db₂ hembedded hseparate
      obtain ⟨urls, hurls, _, _, _, rfl⟩ := CreateTenantUseCase.execute_eq_ok.mp ⟨answer, hembedded⟩
      obtain ⟨urls', hurls', _, _, rfl⟩ := (createOneByOne_eq_ok hdb).mp hseparate
      have hsame : urls = urls' := Except.ok.inj ((mapM_eq_ok.mpr hurls).symm.trans (mapM_eq_ok.mpr hurls'))
      rw [hsame] at hurls ⊢
      exact sameEndpoints_provisioned (rows_alike hurls) ⟨fun _ => rfl, fun _ => Iff.rfl⟩ rfl

/-- The store of a service where nobody has signed up. -/
def Database.unused : Database := ⟨.empty, .empty, [], .empty, .empty, .empty⟩

def oneEndpoint (eventTypes : List String) : CreateTenantCommand where
  name := "shop"
  rateLimit := none
  endpoints := some [⟨"https://example.com/hook", eventTypes, none⟩]

theorem Database.unused_endpointsOwned : Database.unused.EndpointsOwned := fun _ _ h => by cases h

theorem ways_agree_two_types : WaysAgree .ok id 0 .unused (oneEndpoint ["order.created", "order.paid"]) "whk_0"
    id toString toString :=
  (ways_agree_iff .ok id 0 .unused _ "whk_0" id toString toString Database.unused_endpointsOwned).mpr
    fun _ _ _ _ => by decide

theorem repeated_type_refused : ¬ ∀ (isUrl : String → Bool) (assertSafeWebhookUrl : String → Except ApiError String)
    (hashApiKey : String → String) (now : Time) (db : Database) (command : CreateTenantCommand) (apiKey : String)
    (times : Nat → Time) (secretKey secretKey' : Nat → String), db.EndpointsOwned →
    command.valid isUrl = true →
    WaysAgree assertSafeWebhookUrl hashApiKey now db command apiKey times secretKey secretKey' := by
  intro h
  let repeated := oneEndpoint ["order.created", "order.created"]
  have hvalid : repeated.valid (fun _ => true) = true := by decide +kernel
  have hagree := h (fun _ => true) .ok id 0 .unused repeated "whk_0" id toString toString
    Database.unused_endpointsOwned hvalid
  have hembedded : (CreateTenantUseCase.execute .ok id 0 .unused repeated "whk_0" toString).isOk = false := by
    decide +kernel
  have hseparate : (createOneByOne .ok id 0 .unused repeated "whk_0" id toString).isOk = true := by
    decide +kernel
  rw [hagree.succeed, hseparate] at hembedded
  cases hembedded

end WebhookEngine
