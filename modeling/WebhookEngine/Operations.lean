import WebhookEngine.Steps
import WebhookEngine.Service

/-! What one operation of the service can do to the store, to a call and to a row. -/

namespace WebhookEngine.Service

open Relational

/-- The tenants whose replays are under way after an action of the system. -/
def replaying (s : Service) : Act → Nat → Nat
  | .replayRead q _ tenantId => Function.update s.replayers q tenantId
  | _ => s.replayers

/-- What one operation can do, case by case. -/
inductive Step (cfg : Config) (hashApiKey : String → String) (s : Service) : Operation → Service → Prop where
  | system {b r} (h : s.system.Step cfg b r) :
      Step cfg hashApiKey s (.system b) { s with system := r, replayers := s.replaying b }
  | createEndpoint {tenantId input secretKey} :
      Step cfg hashApiKey s (.createEndpoint tenantId input secretKey)
        (s.commit ((PrismaEndpointsRepository.create s.now s.db tenantId input secretKey).map Prod.fst))
  | requireOwned {c tenantId id request}
      (h : (PrismaEndpointsRepository.findOwned s.db tenantId id).isSome = true) :
      Step cfg hashApiKey s (.requireOwned c tenantId id request)
        (s.setSession c (some (.owned tenantId id request)))
  | updateEndpoint {c tenantId id input} (hc : s.sessions c = some (.owned tenantId id (.update input))) :
      Step cfg hashApiKey s (.updateEndpoint c)
        ((s.commit ((PrismaEndpointsRepository.update s.db tenantId id input).map Prod.fst)).setSession c none)
  | softDelete {c tenantId id} (hc : s.sessions c = some (.owned tenantId id .softDelete)) :
      Step cfg hashApiKey s (.softDelete c)
        ((s.commit (PrismaEndpointsRepository.softDelete s.db id)).setSession c none)
  | generateSecret {c tenantId id secretKey} (hc : s.sessions c = some (.owned tenantId id .rotateSecret)) :
      Step cfg hashApiKey s (.generateSecret c secretKey)
        (s.setSession c (some (.generated ⟨tenantId, id, secretKey, s.now + rotationWindow⟩)))
  | findSecret {c r current} (hc : s.sessions c = some (.generated r))
      (h : PrismaEndpointsRepository.findSecret s.db r.id = .ok current) :
      Step cfg hashApiKey s (.findSecret c) (s.setSession c (some (.rotating r current)))
  | findSecretThrows {c r} (hc : s.sessions c = some (.generated r)) :
      Step cfg hashApiKey s (.findSecret c) (s.setSession c none)
  | rotateSecret {c r current} (hc : s.sessions c = some (.rotating r current)) :
      Step cfg hashApiKey s (.rotateSecret c)
        ((s.commit (PrismaEndpointsRepository.writeSecret s.db r.id r.secretKey current
          r.previousSecretExpiresAt)).setSession c none)
  | createTenant {name rateLimit endpoints apiKey result} (hkey : isApiKey apiKey = true)
      (hnew : apiKey ∉ s.issued)
      (hresult : result = PrismaTenantsRepository.create s.now s.db ⟨name, hashApiKey apiKey, rateLimit, endpoints⟩) :
      Step cfg hashApiKey s (.createTenant name rateLimit endpoints apiKey)
        (((s.issue apiKey).commit result).record s.db.tenants.next apiKey (isOk result))
  | findTenant {c id request} (h : (PrismaTenantsRepository.findById s.db id).isSome = true) :
      Step cfg hashApiKey s (.findTenant c id request) (s.setSession c (some (.found id request)))
  | updateTenant {c id input} (hc : s.sessions c = some (.found id (.update input))) :
      Step cfg hashApiKey s (.updateTenant c)
        ((s.commit (PrismaTenantsRepository.update s.db id input)).setSession c none)
  | deleteTenant {c id} (hc : s.sessions c = some (.found id .delete)) :
      Step cfg hashApiKey s (.deleteTenant c)
        ((s.commit (PrismaTenantsRepository.delete s.db id)).setSession c none)
  | generateApiKey {c id apiKey} (hc : s.sessions c = some (.found id .rotateApiKey))
      (hkey : isApiKey apiKey = true) (hnew : apiKey ∉ s.issued) :
      Step cfg hashApiKey s (.generateApiKey c apiKey)
        ((s.issue apiKey).setSession c (some (.keyed id apiKey)))
  | updateApiKeyHash {c id apiKey result} (hc : s.sessions c = some (.keyed id apiKey))
      (hresult : result = PrismaTenantsRepository.updateApiKeyHash s.db id (hashApiKey apiKey)) :
      Step cfg hashApiKey s (.updateApiKeyHash c)
        (((s.commit result).setSession c none).record id apiKey (isOk result))

theorem Step.of_step {cfg : Config} {hashApiKey : String → String} {s t : Service} {a : Operation}
    (h : s.step cfg hashApiKey a = some t) : Step cfg hashApiKey s a t := by
  cases a with
  | system b =>
    simp only [step, Option.map_eq_some_iff] at h
    obtain ⟨r, hr, rfl⟩ := h
    exact .system (.of_step hr)
  | createEndpoint tenantId input secretKey =>
    cases h
    exact .createEndpoint
  | requireOwned c tenantId id request =>
    simp only [step] at h
    split at h
    · rename_i hc
      cases h
      exact .requireOwned hc.2
    · cases h
  | updateEndpoint c =>
    simp only [step] at h
    split at h
    · rename_i hc
      cases h
      exact .updateEndpoint hc
    · cases h
  | softDelete c =>
    simp only [step] at h
    split at h
    · rename_i hc
      cases h
      exact .softDelete hc
    · cases h
  | generateSecret c secretKey =>
    simp only [step] at h
    split at h
    · rename_i hc
      cases h
      exact .generateSecret hc
    · cases h
  | findSecret c =>
    simp only [step] at h
    split at h
    · rename_i hc
      split at h
      · rename_i hcurrent
        cases h
        exact .findSecret hc hcurrent
      · cases h
        exact .findSecretThrows hc
    · cases h
  | rotateSecret c =>
    simp only [step] at h
    split at h
    · rename_i hc
      cases h
      exact .rotateSecret hc
    · cases h
  | createTenant name rateLimit endpoints apiKey =>
    simp only [step] at h
    split at h
    · rename_i hkey
      cases h
      exact .createTenant hkey.1 hkey.2 rfl
    · cases h
  | findTenant c id request =>
    simp only [step] at h
    split at h
    · rename_i hc
      cases h
      exact .findTenant hc.2
    · cases h
  | updateTenant c =>
    simp only [step] at h
    split at h
    · rename_i hc
      cases h
      exact .updateTenant hc
    · cases h
  | deleteTenant c =>
    simp only [step] at h
    split at h
    · rename_i hc
      cases h
      exact .deleteTenant hc
    · cases h
  | generateApiKey c apiKey =>
    simp only [step] at h
    split at h
    · rename_i hc
      split at h
      · rename_i hkey
        cases h
        exact .generateApiKey hc hkey.1 hkey.2
      · cases h
    · cases h
  | updateApiKeyHash c =>
    simp only [step] at h
    split at h
    · rename_i hc
      cases h
      exact .updateApiKeyHash hc rfl
    · cases h

/-- What the operation of a call can make of the store. -/
inductive Writes (hashApiKey : String → String) (s : Service) : Operation → Database → Prop where
  | none {a} : Writes hashApiKey s a s.db
  | createEndpoint {tenantId input secretKey db answer}
      (h : PrismaEndpointsRepository.create s.now s.db tenantId input secretKey = .ok (db, answer)) :
      Writes hashApiKey s (.createEndpoint tenantId input secretKey) db
  | updateEndpoint {c tenantId id input db answer}
      (hc : s.sessions c = some (.owned tenantId id (.update input)))
      (h : PrismaEndpointsRepository.update s.db tenantId id input = .ok (db, answer)) :
      Writes hashApiKey s (.updateEndpoint c) db
  | softDelete {c tenantId id db} (hc : s.sessions c = some (.owned tenantId id .softDelete))
      (h : PrismaEndpointsRepository.softDelete s.db id = .ok db) : Writes hashApiKey s (.softDelete c) db
  | rotateSecret {c r current db} (hc : s.sessions c = some (.rotating r current))
      (h : PrismaEndpointsRepository.writeSecret s.db r.id r.secretKey current
        r.previousSecretExpiresAt = .ok db) : Writes hashApiKey s (.rotateSecret c) db
  | createTenant {name rateLimit endpoints apiKey db}
      (h : PrismaTenantsRepository.create s.now s.db ⟨name, hashApiKey apiKey, rateLimit, endpoints⟩ = .ok db) :
      Writes hashApiKey s (.createTenant name rateLimit endpoints apiKey) db
  | updateTenant {c id input db} (hc : s.sessions c = some (.found id (.update input)))
      (h : PrismaTenantsRepository.update s.db id input = .ok db) : Writes hashApiKey s (.updateTenant c) db
  | deleteTenant {c id db} (hc : s.sessions c = some (.found id .delete))
      (h : PrismaTenantsRepository.delete s.db id = .ok db) : Writes hashApiKey s (.deleteTenant c) db
  | updateApiKeyHash {c id apiKey db} (hc : s.sessions c = some (.keyed id apiKey))
      (h : PrismaTenantsRepository.updateApiKeyHash s.db id (hashApiKey apiKey) = .ok db) :
      Writes hashApiKey s (.updateApiKeyHash c) db

/-- How a call gets to where it stands. -/
inductive Opens (s : Service) (c : Nat) : Operation → Session → Prop where
  | owned {tenantId id request}
      (h : (PrismaEndpointsRepository.findOwned s.db tenantId id).isSome = true) :
      Opens s c (.requireOwned c tenantId id request) (.owned tenantId id request)
  | generated {tenantId id secretKey} (hc : s.sessions c = some (.owned tenantId id .rotateSecret)) :
      Opens s c (.generateSecret c secretKey)
        (.generated ⟨tenantId, id, secretKey, s.now + rotationWindow⟩)
  | rotating {r current} (hc : s.sessions c = some (.generated r))
      (h : PrismaEndpointsRepository.findSecret s.db r.id = .ok current) :
      Opens s c (.findSecret c) (.rotating r current)
  | found {id request} (h : (PrismaTenantsRepository.findById s.db id).isSome = true) :
      Opens s c (.findTenant c id request) (.found id request)
  | keyed {id apiKey} (hc : s.sessions c = some (.found id .rotateApiKey))
      (hkey : isApiKey apiKey = true) (hnew : apiKey ∉ s.issued) :
      Opens s c (.generateApiKey c apiKey) (.keyed id apiKey)

variable {cfg : Config} {hashApiKey : String → String} {s t : Service} {a : Operation}

theorem commit_eq (s : Service) (result : Except PrismaError Database) :
    (∃ db, result = .ok db ∧ s.commit result = { s with system := { s.system with db := db } }) ∨
      s.commit result = s := by
  cases result with
  | ok db => exact .inl ⟨db, rfl, rfl⟩
  | error e => exact .inr rfl

theorem commit_fst_eq {α : Type} (s : Service) (result : Except PrismaError (Database × α)) :
    (∃ db x, result = .ok (db, x) ∧
      s.commit (result.map Prod.fst) = { s with system := { s.system with db := db } }) ∨
      s.commit (result.map Prod.fst) = s := by
  cases result with
  | ok p => exact .inl ⟨p.1, p.2, rfl, rfl⟩
  | error e => exact .inr rfl

theorem step_system {b : Act} (h : s.step cfg hashApiKey (.system b) = some t) :
    s.system.step cfg b = some t.system ∧ t.sessions = s.sessions ∧ t.issued = s.issued ∧
      t.keys = s.keys := by
  simp only [step, Option.map_eq_some_iff] at h
  obtain ⟨u, hu, rfl⟩ := h
  exact ⟨hu, rfl, rfl, rfl⟩

theorem system_of_commit {result : Except PrismaError Database}
    (h : ∀ db, result = .ok db → Writes hashApiKey s a db) :
    ∃ db, (s.commit result).system = { s.system with db := db } ∧ Writes hashApiKey s a db := by
  rcases s.commit_eq result with ⟨db, hok, heq⟩ | heq <;> rw [heq]
  · exact ⟨db, rfl, h db hok⟩
  · exact ⟨s.db, rfl, .none⟩

theorem system_of_commit_fst {α : Type} {result : Except PrismaError (Database × α)}
    (h : ∀ db x, result = .ok (db, x) → Writes hashApiKey s a db) :
    ∃ db, (s.commit (result.map Prod.fst)).system = { s.system with db := db } ∧ Writes hashApiKey s a db := by
  rcases s.commit_fst_eq result with ⟨db, x, hok, heq⟩ | heq <;> rw [heq]
  · exact ⟨db, rfl, h db x hok⟩
  · exact ⟨s.db, rfl, .none⟩

/-- The operation of a call leaves everything of the system but the store alone. -/
theorem step_writes (h : s.step cfg hashApiKey a = some t) (ha : ∀ b, a ≠ .system b) :
    ∃ db, t.system = { s.system with db := db } ∧ Writes hashApiKey s a db := by
  have hnone : ∃ db, s.system = { s.system with db := db } ∧ Writes hashApiKey s a db :=
    ⟨s.db, rfl, .none⟩
  cases Step.of_step h with
  | system _ => exact absurd rfl (ha _)
  | createEndpoint => exact system_of_commit_fst fun _ _ hok => .createEndpoint hok
  | updateEndpoint hc => exact system_of_commit_fst fun _ _ hok => .updateEndpoint hc hok
  | softDelete hc => exact system_of_commit fun _ hok => .softDelete hc hok
  | rotateSecret hc => exact system_of_commit fun _ hok => .rotateSecret hc hok
  | createTenant _ _ hresult =>
    subst hresult
    exact system_of_commit fun _ hok => .createTenant hok
  | updateTenant hc => exact system_of_commit fun _ hok => .updateTenant hc hok
  | deleteTenant hc => exact system_of_commit fun _ hok => .deleteTenant hc hok
  | updateApiKeyHash hc hresult =>
    subst hresult
    exact system_of_commit fun _ hok => .updateApiKeyHash hc hok
  | _ => exact hnone

theorem set_origin {α : Type} {f : Nat → Option α} {c c' : Nat} {v : Option α} {w : α}
    (h : Function.update f c v c' = some w) : f c' = some w ∨ c' = c ∧ v = some w :=
  (Transition.update_cases (· = some w) h).symm

theorem session_origin (h : s.step cfg hashApiKey a = some t) {c : Nat} {v : Session}
    (hv : t.sessions c = some v) : s.sessions c = some v ∨ Opens s c a v := by
  have hclosed : ∀ {k : Nat} {r : Service}, r.sessions = s.sessions →
      (r.setSession k none).sessions c = some v → s.sessions c = some v := by
    intro k r hr hclose
    rcases set_origin hclose with hold | ⟨_, hnew⟩
    · exact hr ▸ hold
    · cases hnew
  have hopened : ∀ {k : Nat} {w : Session} {r : Service}, r.sessions = s.sessions →
      (r.setSession k (some w)).sessions c = some v → s.sessions c = some v ∨ c = k ∧ w = v := by
    intro k w r hr hopen
    rcases set_origin hopen with hold | ⟨hk, hnew⟩
    · exact .inl (hr ▸ hold)
    · exact .inr ⟨hk, Option.some.inj hnew⟩
  cases Step.of_step h with
  | system _ => exact .inl hv
  | createEndpoint => exact .inl hv
  | createTenant _ _ _ => exact .inl hv
  | requireOwned hfound =>
    rcases hopened rfl hv with hold | ⟨rfl, rfl⟩
    · exact .inl hold
    · exact .inr (.owned hfound)
  | generateSecret hk =>
    rcases hopened rfl hv with hold | ⟨rfl, rfl⟩
    · exact .inl hold
    · exact .inr (.generated hk)
  | findSecret hk hcurrent =>
    rcases hopened rfl hv with hold | ⟨rfl, rfl⟩
    · exact .inl hold
    · exact .inr (.rotating hk hcurrent)
  | findTenant hfound =>
    rcases hopened rfl hv with hold | ⟨rfl, rfl⟩
    · exact .inl hold
    · exact .inr (.found hfound)
  | @generateApiKey _ _ apiKey hk hkey hnew =>
    have hsame : (s.issue apiKey).sessions = s.sessions := rfl
    rcases hopened hsame hv with hold | ⟨rfl, rfl⟩
    · exact .inl hold
    · exact .inr (.keyed hk hkey hnew)
  | findSecretThrows _ => exact .inl (hclosed rfl hv)
  | updateEndpoint _ => exact .inl (hclosed (r := s.commit _) rfl hv)
  | softDelete _ => exact .inl (hclosed (r := s.commit _) rfl hv)
  | rotateSecret _ => exact .inl (hclosed (r := s.commit _) rfl hv)
  | updateTenant _ => exact .inl (hclosed (r := s.commit _) rfl hv)
  | deleteTenant _ => exact .inl (hclosed (r := s.commit _) rfl hv)
  | updateApiKeyHash _ _ => exact .inl (hclosed (r := s.commit _) rfl hv)

section Effects

open PrismaEndpointsRepository PrismaTenantsRepository

variable {db : Database} {i : Nat}

theorem Writes.pipeline (h : Writes hashApiKey s a db) :
    db.events = s.db.events ∧ db.deliveries = s.db.deliveries ∧
      db.deliveryOutbox = s.db.deliveryOutbox := by
  cases h with
  | none => exact ⟨rfl, rfl, rfl⟩
  | createEndpoint h =>
    obtain ⟨_, _, rfl, _⟩ := create_eq_ok.mp h
    exact ⟨rfl, rfl, rfl⟩
  | @updateEndpoint c tenantId id input db answer hc h =>
    obtain ⟨e, _, _, _, rfl, _⟩ := update_eq_ok.mp h
    cases input.eventTypes <;> exact ⟨rfl, rfl, rfl⟩
  | softDelete _ h =>
    obtain ⟨_, rfl⟩ := updateEndpoint_eq_ok.mp h
    exact ⟨rfl, rfl, rfl⟩
  | rotateSecret _ h =>
    obtain ⟨_, rfl⟩ := updateEndpoint_eq_ok.mp h
    exact ⟨rfl, rfl, rfl⟩
  | createTenant h =>
    obtain ⟨_, rfl⟩ := PrismaTenantsRepository.create_eq_ok.mp h
    exact ⟨rfl, rfl, rfl⟩
  | updateTenant _ h =>
    obtain ⟨_, _, _, rfl⟩ := updateTenant_eq_ok.mp h
    exact ⟨rfl, rfl, rfl⟩
  | deleteTenant _ h =>
    obtain ⟨_, _, _, rfl⟩ := updateTenant_eq_ok.mp h
    exact ⟨rfl, rfl, rfl⟩
  | updateApiKeyHash _ h =>
    obtain ⟨_, _, _, rfl⟩ := updateTenant_eq_ok.mp h
    exact ⟨rfl, rfl, rfl⟩

/-- What one operation can make of an endpoint row. -/
inductive EndpointChange (s : Service) (i : Nat) (e : Endpoint) : Operation → Endpoint → Prop where
  | same {b : Operation} : EndpointChange s i e b e
  | switched {b : Operation} {isActive} : EndpointChange s i e b { e with isActive := isActive }
  | dropped : EndpointChange s i e (.system .cleanupExpiredEndpointSecrets) (e.dropExpiredSecret s.now)
  | updated {c input} (hc : s.sessions c = some (.owned e.tenantId i (.update input))) :
      EndpointChange s i e (.updateEndpoint c) (input.data e)
  | rotated {c r current} (hc : s.sessions c = some (.rotating r current)) (hi : r.id = i) :
      EndpointChange s i e (.rotateSecret c) (e.rotate r.secretKey current r.previousSecretExpiresAt)

/-- Where an endpoint row that was not there comes from. -/
inductive EndpointBorn (s : Service) (i : Nat) : Operation → Endpoint → Prop where
  | created {tenantId input secretKey} (ht : (s.db.tenants.row tenantId).isSome = true)
      (hi : i = s.db.endpoints.next) :
      EndpointBorn s i (.createEndpoint tenantId input secretKey) (.created s.now tenantId input secretKey)
  | withTenant {name rateLimit endpoints apiKey input}
      (hin : endpoints[i - s.db.endpoints.next]? = some input) (hi : s.db.endpoints.next ≤ i) :
      EndpointBorn s i (.createTenant name rateLimit endpoints apiKey)
        (PrismaTenantsRepository.endpoint s.now s.db.tenants.next input)

theorem modify_change {t : Table Endpoint} {i id : Nat} {e : Endpoint} {data : Endpoint → Endpoint}
    (he : t.row i = some e) : (t.modify id data).row i = some (if i = id then data e else e) := by
  rw [Table.modify_row_eq_map, he]
  rfl

theorem Writes.endpoint_kept (h : Writes hashApiKey s a db) {e : Endpoint}
    (he : s.db.endpoints.row i = some e) : ∃ e', db.endpoints.row i = some e' ∧ EndpointChange s i e a e' := by
  have hlt : i < s.db.endpoints.next := Table.lt_next he
  cases h with
  | none => exact ⟨e, he, .same⟩
  | createEndpoint h =>
    obtain ⟨_, _, rfl, _⟩ := create_eq_ok.mp h
    exact ⟨e, by simp [Database.subscribe, Table.insert_row, hlt.ne, he], .same⟩
  | @updateEndpoint c tenantId id input db answer hc h =>
    obtain ⟨q, hq, hqt, _, rfl, _⟩ := update_eq_ok.mp h
    refine ⟨_, modify_change he, ?_⟩
    by_cases hi : i = id
    · subst hi
      rw [he] at hq
      cases hq
      rw [if_pos rfl]
      exact .updated (hqt ▸ hc)
    · rw [if_neg hi]
      exact .same
  | softDelete _ h =>
    obtain ⟨_, rfl⟩ := updateEndpoint_eq_ok.mp h
    refine ⟨_, modify_change he, ?_⟩
    split
    · exact .switched
    · exact .same
  | @rotateSecret c r current db hc h =>
    obtain ⟨_, rfl⟩ := updateEndpoint_eq_ok.mp h
    refine ⟨_, modify_change he, ?_⟩
    split
    · rename_i hi
      exact .rotated hc hi.symm
    · exact .same
  | createTenant h =>
    obtain ⟨_, rfl⟩ := PrismaTenantsRepository.create_eq_ok.mp h
    exact ⟨e, by simp [Table.insertAll_row, hlt, he], .same⟩
  | updateTenant _ h =>
    obtain ⟨_, _, _, rfl⟩ := updateTenant_eq_ok.mp h
    exact ⟨e, he, .same⟩
  | deleteTenant _ h =>
    obtain ⟨_, _, _, rfl⟩ := updateTenant_eq_ok.mp h
    exact ⟨e, he, .same⟩
  | updateApiKeyHash _ h =>
    obtain ⟨_, _, _, rfl⟩ := updateTenant_eq_ok.mp h
    exact ⟨e, he, .same⟩

theorem Writes.endpoint_origin (h : Writes hashApiKey s a db) {e' : Endpoint}
    (he : db.endpoints.row i = some e') :
    (∃ e, s.db.endpoints.row i = some e) ∨ EndpointBorn s i a e' := by
  have hmodify : ∀ (id : Nat) (data : Endpoint → Endpoint),
      (s.db.endpoints.modify id data).row i = some e' → ∃ e, s.db.endpoints.row i = some e := by
    intro id data hrow
    rw [Table.modify_row_eq_map, Option.map_eq_some_iff] at hrow
    obtain ⟨e, he, _⟩ := hrow
    exact ⟨e, he⟩
  cases h with
  | none => exact .inl ⟨e', he⟩
  | createEndpoint h =>
    obtain ⟨_, htenant, rfl, _⟩ := create_eq_ok.mp h
    simp only [Database.subscribe, Table.insert_row] at he
    split at he
    · rename_i hi
      cases he
      exact .inr (.created htenant hi)
    · exact .inl ⟨e', he⟩
  | updateEndpoint _ h =>
    obtain ⟨_, _, _, _, rfl, _⟩ := update_eq_ok.mp h
    exact .inl (hmodify _ _ he)
  | softDelete _ h =>
    obtain ⟨_, rfl⟩ := updateEndpoint_eq_ok.mp h
    exact .inl (hmodify _ _ he)
  | rotateSecret _ h =>
    obtain ⟨_, rfl⟩ := updateEndpoint_eq_ok.mp h
    exact .inl (hmodify _ _ he)
  | createTenant h =>
    obtain ⟨_, rfl⟩ := PrismaTenantsRepository.create_eq_ok.mp h
    simp only [Table.insertAll_row] at he
    split at he
    · exact .inl ⟨e', he⟩
    · rename_i hi
      rw [List.getElem?_map, Option.map_eq_some_iff] at he
      obtain ⟨input, hin, rfl⟩ := he
      exact .inr (.withTenant hin (not_lt.mp hi))
  | updateTenant _ h =>
    obtain ⟨_, _, _, rfl⟩ := updateTenant_eq_ok.mp h
    exact .inl ⟨e', he⟩
  | deleteTenant _ h =>
    obtain ⟨_, _, _, rfl⟩ := updateTenant_eq_ok.mp h
    exact .inl ⟨e', he⟩
  | updateApiKeyHash _ h =>
    obtain ⟨_, _, _, rfl⟩ := updateTenant_eq_ok.mp h
    exact .inl ⟨e', he⟩

/-- What one operation can make of a tenant row. -/
inductive TenantChange (hashApiKey : String → String) (s : Service) (i : Nat) (T : Tenant) :
    Operation → Tenant → Prop where
  | same {b : Operation} : TenantChange hashApiKey s i T b T
  | updated {c input} : TenantChange hashApiKey s i T (.updateTenant c) (UpdateTenantInput.data input T)
  | deleted {c} : TenantChange hashApiKey s i T (.deleteTenant c) { T with isActive := false }
  | rekeyed {c apiKey} (hc : s.sessions c = some (.keyed i apiKey))
      (hfree : s.db.hashTaken i (hashApiKey apiKey) = false) :
      TenantChange hashApiKey s i T (.updateApiKeyHash c) { T with apiKeyHash := hashApiKey apiKey }

/-- A tenant row is born with its key. -/
inductive TenantBorn (hashApiKey : String → String) (s : Service) (i : Nat) :
    Operation → Tenant → Prop where
  | created {name rateLimit endpoints apiKey} (hi : i = s.db.tenants.next)
      (hfree : s.db.hashTaken i (hashApiKey apiKey) = false) :
      TenantBorn hashApiKey s i (.createTenant name rateLimit endpoints apiKey)
        (PrismaTenantsRepository.tenant ⟨name, hashApiKey apiKey, rateLimit, endpoints⟩)

theorem Writes.tenant_kept (h : Writes hashApiKey s a db) {T : Tenant}
    (hT : s.db.tenants.row i = some T) :
    ∃ T', db.tenants.row i = some T' ∧ TenantChange hashApiKey s i T a T' := by
  have hlt : i < s.db.tenants.next := Table.lt_next hT
  have hmodify : ∀ (id : Nat) (data : Tenant → Tenant),
      (s.db.tenants.modify id data).row i = some (if i = id then data T else T) := by
    intro id data
    rw [Table.modify_row_eq_map, hT]
    rfl
  cases h with
  | none => exact ⟨T, hT, .same⟩
  | createEndpoint h =>
    obtain ⟨_, _, rfl, _⟩ := create_eq_ok.mp h
    exact ⟨T, hT, .same⟩
  | @updateEndpoint c tenantId id input db answer hc h =>
    obtain ⟨_, _, _, _, rfl, _⟩ := update_eq_ok.mp h
    refine ⟨T, ?_, .same⟩
    cases input.eventTypes <;> exact hT
  | softDelete _ h =>
    obtain ⟨_, rfl⟩ := updateEndpoint_eq_ok.mp h
    exact ⟨T, hT, .same⟩
  | rotateSecret _ h =>
    obtain ⟨_, rfl⟩ := updateEndpoint_eq_ok.mp h
    exact ⟨T, hT, .same⟩
  | createTenant h =>
    obtain ⟨_, rfl⟩ := PrismaTenantsRepository.create_eq_ok.mp h
    exact ⟨T, by simp [Table.insert_row, hlt.ne, hT], .same⟩
  | updateTenant _ h =>
    obtain ⟨_, _, _, rfl⟩ := updateTenant_eq_ok.mp h
    refine ⟨_, hmodify _ _, ?_⟩
    split
    · exact .updated
    · exact .same
  | deleteTenant _ h =>
    obtain ⟨_, _, _, rfl⟩ := updateTenant_eq_ok.mp h
    refine ⟨_, hmodify _ _, ?_⟩
    split
    · exact .deleted
    · exact .same
  | updateApiKeyHash hc h =>
    obtain ⟨_, _, hfree, rfl⟩ := updateTenant_eq_ok.mp h
    refine ⟨_, hmodify _ _, ?_⟩
    split
    · rename_i hi
      subst hi
      exact .rekeyed hc hfree
    · exact .same

theorem Writes.tenant_origin (h : Writes hashApiKey s a db) {T' : Tenant}
    (hT : db.tenants.row i = some T') :
    (∃ T, s.db.tenants.row i = some T) ∨ TenantBorn hashApiKey s i a T' := by
  have hmodify : ∀ (id : Nat) (data : Tenant → Tenant),
      (s.db.tenants.modify id data).row i = some T' → ∃ T, s.db.tenants.row i = some T := by
    intro id data hrow
    rw [Table.modify_row_eq_map, Option.map_eq_some_iff] at hrow
    obtain ⟨T, hT, _⟩ := hrow
    exact ⟨T, hT⟩
  cases h with
  | none => exact .inl ⟨T', hT⟩
  | createEndpoint h =>
    obtain ⟨_, _, rfl, _⟩ := create_eq_ok.mp h
    exact .inl ⟨T', hT⟩
  | @updateEndpoint c tenantId id input db answer hc h =>
    obtain ⟨_, _, _, _, rfl, _⟩ := update_eq_ok.mp h
    refine .inl ⟨T', ?_⟩
    cases hin : input.eventTypes <;> rw [hin] at hT <;> exact hT
  | softDelete _ h =>
    obtain ⟨_, rfl⟩ := updateEndpoint_eq_ok.mp h
    exact .inl ⟨T', hT⟩
  | rotateSecret _ h =>
    obtain ⟨_, rfl⟩ := updateEndpoint_eq_ok.mp h
    exact .inl ⟨T', hT⟩
  | createTenant h =>
    obtain ⟨⟨hfree, _, _⟩, rfl⟩ := PrismaTenantsRepository.create_eq_ok.mp h
    rw [Table.insert_row] at hT
    split at hT
    · rename_i hi
      cases hT
      exact .inr (.created hi (hi ▸ hfree))
    · exact .inl ⟨T', hT⟩
  | updateTenant _ h =>
    obtain ⟨_, _, _, rfl⟩ := updateTenant_eq_ok.mp h
    exact .inl (hmodify _ _ hT)
  | deleteTenant _ h =>
    obtain ⟨_, _, _, rfl⟩ := updateTenant_eq_ok.mp h
    exact .inl (hmodify _ _ hT)
  | updateApiKeyHash _ h =>
    obtain ⟨_, _, _, rfl⟩ := updateTenant_eq_ok.mp h
    exact .inl (hmodify _ _ hT)

end Effects

section Steps

variable {i : Nat}

theorem system_setup {b : Act} (h : s.step cfg hashApiKey (.system b) = some t) :
    t.db.tenants = s.db.tenants ∧ t.db.subscriptions = s.db.subscriptions ∧
      t.db.endpoints.next = s.db.endpoints.next ∧
      ∃ f : Nat → Endpoint → Endpoint, (∀ i, t.db.endpoints.row i = (s.db.endpoints.row i).map (f i)) ∧
        ∀ i e, EndpointChange s i e (.system b) (f i e) := by
  have hstep := System.Step.of_step (step_system h).1
  have hdb : t.db = (s.system.store cfg b).db := hstep.db
  rw [hdb]
  rcases s.system.store_cases cfg b with he | ⟨x, hx, _, happ⟩
  · rw [he]
    exact ⟨rfl, rfl, rfl, fun _ e => e, fun i => Option.map_id'.symm, fun i e => .same⟩
  · obtain ⟨htenants, hsubs, hnext, hrow⟩ := Txn.setup_kept happ
    refine ⟨htenants, hsubs, hnext, fun i e => x.rewriteEndpoint s.now i e, hrow, fun i e => ?_⟩
    cases x with
    | cleanupExpiredEndpointSecrets =>
      cases System.attempts_of_txn hx with
      | cleanupExpiredEndpointSecrets => exact .dropped
    | setEndpointActive id isActive =>
      simp only [Txn.rewriteEndpoint]
      split
      · exact .switched
      · exact .same
    | _ => exact .same

theorem endpoint_kept (h : s.step cfg hashApiKey a = some t) {e : Endpoint}
    (he : s.db.endpoints.row i = some e) :
    ∃ e', t.db.endpoints.row i = some e' ∧ EndpointChange s i e a e' := by
  by_cases ha : ∃ b, a = .system b
  · obtain ⟨b, rfl⟩ := ha
    obtain ⟨_, _, _, f, hrow, hchange⟩ := system_setup h
    exact ⟨f i e, by rw [hrow, he]; rfl, hchange i e⟩
  · obtain ⟨db, hdb, hw⟩ := step_writes h fun b hb => ha ⟨b, hb⟩
    obtain ⟨e', he', hchange⟩ := hw.endpoint_kept he
    exact ⟨e', by rw [Service.db, hdb]; exact he', hchange⟩

theorem endpoint_origin (h : s.step cfg hashApiKey a = some t) {e' : Endpoint}
    (he : t.db.endpoints.row i = some e') :
    (∃ e, s.db.endpoints.row i = some e) ∨ EndpointBorn s i a e' := by
  by_cases ha : ∃ b, a = .system b
  · obtain ⟨b, rfl⟩ := ha
    obtain ⟨_, _, _, f, hrow, _⟩ := system_setup h
    rw [hrow, Option.map_eq_some_iff] at he
    obtain ⟨e, he, _⟩ := he
    exact .inl ⟨e, he⟩
  · obtain ⟨db, hdb, hw⟩ := step_writes h fun b hb => ha ⟨b, hb⟩
    rw [Service.db, hdb] at he
    exact hw.endpoint_origin he

theorem tenant_kept (h : s.step cfg hashApiKey a = some t) {T : Tenant}
    (hT : s.db.tenants.row i = some T) :
    ∃ T', t.db.tenants.row i = some T' ∧ TenantChange hashApiKey s i T a T' := by
  by_cases ha : ∃ b, a = .system b
  · obtain ⟨b, rfl⟩ := ha
    exact ⟨T, by rw [(system_setup h).1, hT], .same⟩
  · obtain ⟨db, hdb, hw⟩ := step_writes h fun b hb => ha ⟨b, hb⟩
    obtain ⟨T', hT', hchange⟩ := hw.tenant_kept hT
    exact ⟨T', by rw [Service.db, hdb]; exact hT', hchange⟩

theorem tenant_origin (h : s.step cfg hashApiKey a = some t) {T' : Tenant}
    (hT : t.db.tenants.row i = some T') :
    (∃ T, s.db.tenants.row i = some T) ∨ TenantBorn hashApiKey s i a T' := by
  by_cases ha : ∃ b, a = .system b
  · obtain ⟨b, rfl⟩ := ha
    rw [(system_setup h).1] at hT
    exact .inl ⟨T', hT⟩
  · obtain ⟨db, hdb, hw⟩ := step_writes h fun b hb => ha ⟨b, hb⟩
    rw [Service.db, hdb] at hT
    exact hw.tenant_origin hT

theorem step_system_or (h : s.step cfg hashApiKey a = some t) :
    (∃ b, a = .system b ∧ s.system.Step cfg b t.system) ∨
      (∀ b, a ≠ .system b) ∧ ∃ db, t.system = { s.system with db := db } ∧ Writes hashApiKey s a db := by
  by_cases ha : ∃ b, a = .system b
  · obtain ⟨b, rfl⟩ := ha
    exact .inl ⟨b, rfl, .of_step (step_system h).1⟩
  · exact .inr ⟨fun b hb => ha ⟨b, hb⟩, step_writes h fun b hb => ha ⟨b, hb⟩⟩

end Steps

end WebhookEngine.Service
