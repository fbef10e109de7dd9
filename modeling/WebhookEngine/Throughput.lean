import Mathlib.Algebra.BigOperators.Group.Finset.Piecewise
import WebhookEngine.Programs
import WebhookEngine.Provenance
import WebhookEngine.Throttling

/-! How many requests the rate limiter lets through: a token is taken before a request, so what a
scope's bucket can give, and the workers it has let through already, bound the requests of every
window. -/

namespace WebhookEngine

open Relational

/-! ### Scopes -/

namespace RateScope

def id : RateScope → Nat
  | .tenant id => id
  | .endpoint id => id

def key (scope : RateScope) (delivery : DispatchableDelivery) : Nat :=
  match scope with
  | .tenant _ => delivery.event.tenantId
  | .endpoint _ => delivery.row.endpointId

def limit (scope : RateScope) (delivery : DispatchableDelivery) : Nat :=
  match scope with
  | .tenant _ => delivery.tenant.rateLimit
  | .endpoint _ => delivery.endpoint.rateLimit.getD 0

def covers (scope : RateScope) (delivery : DispatchableDelivery) : Bool := scope.key delivery == scope.id

/-- The delivery has the key in its scope, or had it as long as it was there. -/
def Of (scope : RateScope) (db : Database) (d key : Nat) : Prop :=
  match scope with
  | .tenant _ => db.BelongsTo d key
  | .endpoint _ => d < db.deliveries.next ∧ ∀ r, db.deliveries.row d = some r → r.endpointId = key

/-- The limit of the scope is at most `M`; an endpoint has one of its own. -/
def Within (scope : RateScope) (M : Nat) (db : Database) : Prop :=
  match scope with
  | .tenant id => ∀ row ∈ db.tenants.row id, row.rateLimit ≤ M
  | .endpoint id => ∀ row ∈ db.endpoints.row id, row.rateLimit.getD 0 ≠ 0 ∧ row.rateLimit.getD 0 ≤ M

instance (scope : RateScope) (M : Nat) (db : Database) : Decidable (scope.Within M db) :=
  match scope with
  | .tenant id => inferInstanceAs (Decidable (∀ row ∈ db.tenants.row id, row.rateLimit ≤ M))
  | .endpoint id => inferInstanceAs (Decidable (∀ row ∈ db.endpoints.row id,
      row.rateLimit.getD 0 ≠ 0 ∧ row.rateLimit.getD 0 ≤ M))

/-- Of a worker's points, those behind the scope's answer and before the request. -/
def passed (scope : RateScope) (granted : Bool) (p : Point) : Bool :=
  match scope with
  | .tenant _ => p.holding granted
  | .endpoint _ => p.holding false

variable {cfg : Config} {hashApiKey : String → String} {s t : Service} {b : Operation} {d n key M : Nat}
  {delivery : DispatchableDelivery} {scope : RateScope}

theorem of_find (scope : RateScope) (h : s.db.findById d = some delivery) :
    scope.Of s.db d (scope.key delivery) := by
  cases scope with
  | tenant id => exact Service.belongsTo_of_find h
  | endpoint id =>
    obtain ⟨_, hr₀, _⟩ := Database.findById_eq_some.mp h
    refine ⟨Table.lt_next hr₀, fun r hr => ?_⟩
    rw [hr₀, Option.some.injEq] at hr
    rw [← hr]
    rfl

theorem Of.step (hl : s.db.Linked) (h : s.step cfg hashApiKey b = some t) (ho : scope.Of s.db d key) :
    scope.Of t.db d key := by
  cases scope with
  | tenant id => exact Service.belongsTo_step hl h ho
  | endpoint id =>
    obtain ⟨hlt, hrow⟩ := ho
    refine ⟨hlt.trans_le (Service.deliveries_next_le h), fun r' hr' => ?_⟩
    rcases Service.delivery_origin h hr' with ⟨r, hr, _, heq⟩ | ⟨_, _, _, _, _, _, hge, _⟩
    · rw [heq]
      exact hrow r hr
    · exact absurd hlt (not_lt.mpr hge)

theorem Of.claimed {db : Database} {now : Time} (hl : db.Linked) (ho : scope.Of db d key)
    (hhit : (db.claimForProcessing now d n).2 = some delivery) : scope.key delivery = key := by
  cases scope with
  | tenant id => exact Throttled.claimed_tenant hl ho hhit
  | endpoint id =>
    obtain ⟨row, hrow, _, _, hclaimed⟩ := hl.claimable_of_claim hhit
    have hkept : delivery.row.endpointId = row.endpointId := by
      rw [hclaimed]
      rfl
    exact hkept.trans (ho.2 row hrow)

theorem limit_of_find (h : s.db.findById d = some delivery) (hc : scope.covers delivery = true)
    (hw : scope.Within M s.db) : scope.limit delivery ≤ M ∧ ∀ id, scope = .endpoint id → scope.limit delivery ≠ 0 := by
  obtain ⟨_, _, hep, _, htenant⟩ := Database.findById_eq_some.mp h
  have hkey : scope.key delivery = scope.id := beq_iff_eq.mp hc
  cases scope with
  | tenant id =>
    obtain rfl : delivery.event.tenantId = id := hkey
    exact ⟨hw _ htenant, nofun⟩
  | endpoint id =>
    obtain rfl : delivery.row.endpointId = id := hkey
    exact ⟨(hw _ hep).2, fun _ _ => (hw _ hep).1⟩

theorem holding_of_passed {granted : Bool} {p : Point} (h : scope.passed granted p = true) : p.holding true = true := by
  cases scope <;> cases p <;> simp_all [passed, Point.holding]

end RateScope

/-- How far the stamp of a call lies back: behind `start`, behind the last stamp of its bucket and,
where the key is gone, behind a second after that. -/
def RateCall.setBack (c : RateCall) (start : ℤ) (values : Option RateBucket) : ℤ :=
  max 0 (values.elim start (fun b => max start (b.updatedAt + if c.expired then 1000 else 0)) - c.now)

theorem RateCall.checked_grants (c : RateCall) (values : Option RateBucket) :
    ((!(c.checked values).1.exceeded).toNat : ℚ) =
      if TokenBucket.grants ((c.finds values).map RateBucket.bucket) c.request then 1 else 0 := by
  have hcast (granted : Bool) : (granted.toNat : ℚ) = if granted then 1 else 0 := by
    cases granted <;> simp
  rw [RateCall.checked, (checkRateLimit_eq (c.finds values) c.limit c.now).1, Bool.not_not]
  exact hcast _

/-- What a call grants it takes from the credit of its bucket, to which a stamp that lies back adds. -/
theorem RateCall.credit_checked {c : RateCall} {values : Option RateBucket} {M : Nat} (start : ℤ) (t : ℚ)
    (hlimit : c.limit ≤ M) (hvalues : ∀ b ∈ values, 0 ≤ b.tokens) :
    ((!(c.checked values).1.exceeded).toNat : ℚ) +
        TokenBucket.credit (M : ℚ) (M / 1000) start (some (c.checked values).2.bucket) t ≤
      TokenBucket.credit (M : ℚ) (M / 1000) start (values.map RateBucket.bucket) t +
        M / 1000 * c.setBack start values := by
  have hM : (0 : ℚ) ≤ M := Nat.cast_nonneg _
  have hR : (0 : ℚ) ≤ M / 1000 := div_nonneg hM (by norm_num)
  have hcap : c.request.cap ≤ (M : ℚ) := Nat.cast_le.mpr hlimit
  have hrate : c.request.rate ≤ (M : ℚ) / 1000 := div_le_div_of_nonneg_right hcap (by norm_num)
  have hchecked : (c.checked values).2.bucket =
      TokenBucket.taken ((c.finds values).map RateBucket.bucket) c.request :=
    (checkRateLimit_eq (c.finds values) c.limit c.now).2
  rw [RateCall.checked_grants, hchecked]
  by_cases hgone : c.expired = true ∧ values ≠ none
  · obtain ⟨hexpired, hsome⟩ := hgone
    obtain ⟨b, rfl⟩ := Option.ne_none_iff_exists'.mp hsome
    have hset : ((c.setBack start (some b) : ℤ) : ℚ) =
        max 0 (max (start : ℚ) (b.bucket.stamp + 1000) - c.request.time) := by
      simp [RateCall.setBack, RateBucket.bucket, request, hexpired]
    have hfinds : c.finds (some b) = none := if_pos hexpired
    rw [hset, hfinds]
    exact TokenBucket.credit_renewed hcap (hvalues b rfl) hR (by norm_num) (by linarith)
  · have hset : ((c.setBack start values : ℤ) : ℚ) =
        max 0 (TokenBucket.since (start : ℚ) (values.map RateBucket.bucket) - c.request.time) := by
      cases values <;> simp_all [RateCall.setBack, TokenBucket.since, RateBucket.bucket, request]
    have hfinds : c.finds values = values := by
      cases values <;> simp_all [RateCall.finds]
    rw [hset, hfinds]
    exact TokenBucket.credit_taken hcap hrate hR

namespace Throttled

/-! ### What the limiter is asked, and what is sent -/

def bucketOf (s : Throttled) : RateScope → Option RateBucket
  | .tenant id => s.tenantBuckets id
  | .endpoint id => s.endpointBuckets id

def asked? : RateScope → ThrottledOperation → Option (Nat × Time × Bool)
  | .tenant _, .checkTenant w readAt expired => some (w, readAt, expired)
  | .endpoint _, .checkEndpoint w readAt expired => some (w, readAt, expired)
  | _, _ => none

/-- The call a step makes on the scope. -/
def asks (s : Throttled) (scope : RateScope) (a : ThrottledOperation) : Option RateCall := do
  let (w, readAt, expired) ← asked? scope a
  let r ← s.checks w
  if scope.covers r.delivery then some ⟨readAt, scope.limit r.delivery, expired⟩ else none

def grants (s : Throttled) (scope : RateScope) (a : ThrottledOperation) : Bool :=
  (s.asks scope a).any fun c => !(c.checked (s.bucketOf scope)).1.exceeded

/-- How far the stamp of the call a step makes lies back, in a window from `start` on. -/
def setBacks (scope : RateScope) (start : Time) (s : Throttled) (a : ThrottledOperation) (_ : Throttled) : List ℚ :=
  (s.asks scope a).toList.map fun c => c.setBack start (s.bucketOf scope)

/-- The delivery a step sends a request for. -/
def sends (s : Throttled) (a : ThrottledOperation) (_ : Throttled) : List DispatchableDelivery :=
  match a with
  | .operation (.system (.send w)) =>
    (s.service.system.workers w).toList.flatMap fun k =>
      match k.point with
      | .sending c => [c.delivery]
      | _ => []
  | _ => []

def cleared (s : Throttled) (scope : RateScope) (w : Nat) : Bool :=
  match s.service.system.workers w, s.checks w with
  | some k, some r => scope.covers r.delivery && scope.passed r.granted k.point
  | _, _ => false

/-- The workers that the scope has let through and that have sent no request since. -/
def holders (s : Throttled) (scope : RateScope) (W : Finset Nat) : Finset Nat :=
  W.filter fun w => s.cleared scope w = true

/-- What has been read for a worker before its request has the key of its job's delivery, and of the
delivery it has claimed. -/
def ReadFor (scope : RateScope) (s : Throttled) : Prop :=
  ∀ w k, s.service.system.workers w = some k → k.point.holding true = true →
    ∃ r, s.checks w = some r ∧ scope.Of s.service.db k.deliveryId (scope.key r.delivery) ∧
      ∀ c, k.point = .sending c → scope.key c.delivery = scope.key r.delivery

/-- The limit of the scope stays within `M`. -/
def Regulated (scope : RateScope) (M : Nat) (s : Throttled) (_ : ThrottledOperation) (_ : Throttled) : Prop :=
  scope.Within M s.service.db

instance (scope : RateScope) (M : Nat) (s : Throttled) (a : ThrottledOperation) (t : Throttled) :
    Decidable (Regulated scope M s a t) :=
  inferInstanceAs (Decidable (scope.Within M s.service.db))

/-- What holds of the checks and of the bucket in every state of a regulated run. -/
structure Metering (scope : RateScope) (M : Nat) (s : Throttled) : Prop where
  linked : s.service.db.Linked
  reads : s.ReadFor scope
  limit : ∀ w r, s.checks w = some r → scope.covers r.delivery = true →
    scope.limit r.delivery ≤ M ∧ ∀ id, scope = .endpoint id → scope.limit r.delivery ≠ 0
  bucket : ∀ b, s.bucketOf scope = some b → 0 ≤ b.tokens ∧ b.updatedAt ≤ s.service.now

section Steps

variable {cfg : Config} {hashApiKey : String → String} {s t : Throttled} {a : ThrottledOperation} {w M : Nat}
  {W : Finset Nat} {scope : RateScope} {k : Task} {r : RateCheck}

theorem service_now_le {s t : Service} {b : Operation} (h : s.step cfg hashApiKey b = some t) : s.now ≤ t.now := by
  rcases Service.step_system_or h with ⟨c, rfl, hc⟩ | ⟨_, db, hdb, _⟩
  · exact hc.now_le
  · exact le_of_eq (by rw [Service.now, Service.now, hdb])

theorem Step.now_le (h : Step cfg hashApiKey s a t) : s.service.now ≤ t.service.now := by
  obtain ⟨bs, hbs⟩ := h.service
  exact Transition.run_invariant (I := fun v => s.service.now ≤ v.now)
    (fun _ _ _ hle hb => hle.trans (service_now_le hb)) le_rfl hbs

theorem cleared_of_task (hw : s.service.system.workers w = some k) (hr : s.checks w = some r) :
    s.cleared scope w = (scope.covers r.delivery && scope.passed r.granted k.point) := by
  simp only [cleared, hw, hr]

theorem holding_of_cleared (h : s.cleared scope w = true) :
    ∃ k r, s.service.system.workers w = some k ∧ s.checks w = some r ∧ scope.covers r.delivery = true ∧
      scope.passed r.granted k.point = true := by
  simp only [cleared] at h
  split at h
  · rename_i k r hw hr
    obtain ⟨hc, hp⟩ := Bool.and_eq_true_iff.mp h
    exact ⟨k, r, hw, hr, hc, hp⟩
  · cases h

theorem cleared_congr (hw : t.service.system.workers w = s.service.system.workers w)
    (hc : t.checks w = s.checks w) : t.cleared scope w = s.cleared scope w := by
  rw [cleared, cleared, hw, hc]

theorem Step.checks_of_ne (h : Step cfg hashApiKey s a t) (ha : worker? a ≠ some w) : t.checks w = s.checks w := by
  have hother : ∀ {w₀ : Nat} (v : Option RateCheck), worker? a = some w₀ →
      Function.update s.checks w₀ v w = s.checks w := by
    intro w₀ v ha₀
    refine Function.update_of_ne ?_ ..
    intro heq
    exact ha (heq ▸ ha₀)
  cases h with
  | find => exact hother _ rfl
  | granted => exact hother _ rfl
  | _ => rfl

theorem Step.workers_of_ne (h : Step cfg hashApiKey s a t) (ha : worker? a ≠ some w) :
    t.service.system.workers w = s.service.system.workers w := by
  cases h with
  | find h => exact service_workers_of_ne h ha
  | operation _ _ h => exact service_workers_of_ne h ha
  | granted => rfl
  | tenant _ _ _ _ h => exact service_workers_of_ne h ha
  | endpoint _ _ _ _ h => exact service_workers_of_ne h ha
  | unsent hsend hanswer => exact (service_workers_of_ne hanswer ha).trans (service_workers_of_ne hsend ha)

/-- A tenant's check that goes on without a look at the endpoint has been refused, or the endpoint
has no limit of its own. -/
theorem checkTenant_cases {readAt : Time} {expired : Bool}
    (h : s.step cfg hashApiKey (.checkTenant w readAt expired) = some t) :
    ∃ k delivery, s.service.system.workers w = some k ∧ k.point = .limiting ∧ s.checks w = some ⟨delivery, false⟩ ∧
      ((s.tenantLimit delivery readAt expired).1.exceeded = false ∧
          t = (s.setTenantBucket delivery readAt expired).setCheck w (some ⟨delivery, true⟩) ∨
        ((s.tenantLimit delivery readAt expired).1.exceeded = true ∨ delivery.endpoint.rateLimit.getD 0 = 0) ∧
          ∃ u, s.service.step cfg hashApiKey
              (.system (.limit w (s.tenantLimit delivery readAt expired).1.delay)) = some u ∧
            t = { s.setTenantBucket delivery readAt expired with service := u }) := by
  simp only [step] at h
  split at h
  · rename_i k delivery hw hr
    refine ⟨k, delivery, hw, ?_, hr, ?_⟩
    · by_contra hp
      rw [if_pos (.inl hp)] at h
      cases h
    · split at h
      · cases h
      · split at h
        · rename_i hpass
          cases h
          simp only [Bool.and_eq_true, Bool.not_eq_true'] at hpass
          exact .inl ⟨hpass.1, rfl⟩
        · rename_i hpass
          obtain ⟨u, hu, rfl⟩ := Option.map_eq_some_iff.mp h
          refine .inr ⟨?_, u, hu, rfl⟩
          simpa [or_iff_not_imp_left] using hpass
  · cases h

/-! ### The bucket -/

theorem asks_eq_some {c : RateCall} : s.asks scope a = some c ↔ ∃ w readAt expired r,
    asked? scope a = some (w, readAt, expired) ∧ s.checks w = some r ∧ scope.covers r.delivery = true ∧
      c = ⟨readAt, scope.limit r.delivery, expired⟩ := by
  simp only [asks, Option.bind_eq_bind, Option.bind_eq_some_iff, Prod.exists]
  constructor
  · rintro ⟨w, readAt, expired, ha, r, hr, h⟩
    split at h
    · rename_i hc
      exact ⟨w, readAt, expired, r, ha, hr, hc, (Option.some.inj h).symm⟩
    · cases h
  · rintro ⟨w, readAt, expired, r, ha, hr, hc, rfl⟩
    exact ⟨w, readAt, expired, ha, r, hr, by rw [if_pos hc]⟩

theorem asks_of_check {readAt : Time} {expired : Bool} (ha : asked? scope a = some (w, readAt, expired))
    (hr : s.checks w = some r) :
    s.asks scope a = if scope.covers r.delivery then some ⟨readAt, scope.limit r.delivery, expired⟩ else none := by
  simp only [asks, ha, hr, Option.bind_eq_bind, Option.bind_some]

theorem Step.bucketOf (h : Step cfg hashApiKey s a t) (scope : RateScope) : t.bucketOf scope =
    (s.asks scope a).elim (s.bucketOf scope) fun c => some (c.checked (s.bucketOf scope)).2 := by
  have htenant {w₀ : Nat} {readAt : Time} {expired : Bool} {delivery : DispatchableDelivery} {granted : Bool}
      (hr : s.checks w₀ = some ⟨delivery, granted⟩) : (s.setTenantBucket delivery readAt expired).bucketOf scope =
        (s.asks scope (.checkTenant w₀ readAt expired)).elim (s.bucketOf scope) fun c =>
          some (c.checked (s.bucketOf scope)).2 := by
    cases scope with
    | tenant id =>
      rw [asks_of_check rfl hr]
      by_cases hid : delivery.event.tenantId = id
      · subst hid
        simp [Throttled.bucketOf, setTenantBucket, tenantLimit, RateScope.covers, RateScope.key, RateScope.id,
          RateScope.limit]
      · simp [Throttled.bucketOf, setTenantBucket, RateScope.covers, RateScope.key, RateScope.id, hid, Ne.symm hid]
    | endpoint id => rfl
  cases h with
  | granted _ _ _ hr _ => exact htenant hr
  | tenant _ _ _ hr _ => exact htenant hr
  | @endpoint w₀ readAt expired k delivery u _ _ _ hr _ =>
    cases scope with
    | tenant id => rfl
    | endpoint id =>
      rw [asks_of_check rfl hr]
      by_cases hid : delivery.row.endpointId = id
      · subst hid
        simp [Throttled.bucketOf, setEndpointBucket, endpointLimit, endpointCall, RateScope.covers, RateScope.key,
          RateScope.id, RateScope.limit]
      · simp [Throttled.bucketOf, setEndpointBucket, RateScope.covers, RateScope.key, RateScope.id, hid, Ne.symm hid]
  | _ =>
    cases scope <;> rfl

/-- No check is stamped later than it is made. -/
theorem Step.asks_le (h : Step cfg hashApiKey s a t) {c : RateCall} (hc : s.asks scope a = some c) :
    c.now ≤ s.service.now := by
  obtain ⟨w, readAt, expired, r, ha, _, _, rfl⟩ := asks_eq_some.mp hc
  have hread : readAt ≤ s.service.now := by
    cases h with
    | granted _ _ hread =>
      cases scope <;> cases ha
      exact hread
    | tenant _ _ hread =>
      cases scope <;> cases ha
      exact hread
    | endpoint _ _ hread =>
      cases scope <;> cases ha
      exact hread
    | _ => cases scope <;> cases ha
  exact Int.ofNat_le.mpr hread

/-- What the scope's bucket may give from `start` on. -/
def credit (scope : RateScope) (M : Nat) (start : Time) (s : Throttled) : ℚ :=
  TokenBucket.credit (M : ℚ) (M / 1000) start ((s.bucketOf scope).map RateBucket.bucket) s.service.now

theorem Step.credit (hm : s.Metering scope M) (start : Time) (h : Step cfg hashApiKey s a t) :
    ((s.grants scope a).toNat : ℚ) + t.credit scope M start ≤ s.credit scope M start +
      M / 1000 * (t.service.now - s.service.now + (s.setBacks scope start a t).sum) := by
  have hbucket := h.bucketOf scope
  cases hasks : s.asks scope a with
  | none =>
    rw [hasks, Option.elim_none] at hbucket
    simp only [Throttled.credit, hbucket, grants, setBacks, hasks, Option.any_none, Bool.toNat_false, Nat.cast_zero,
      Option.toList_none, List.map_nil, List.sum_nil, TokenBucket.credit]
    linarith
  | some c =>
    obtain ⟨w, readAt, expired, r, _, hr, hcovers, rfl⟩ := asks_eq_some.mp hasks
    have hchecked := RateCall.credit_checked (c := ⟨readAt, scope.limit r.delivery, expired⟩) start t.service.now
      (hm.limit w r hr hcovers).1 fun b hb => (hm.bucket b hb).1
    rw [hasks, Option.elim_some] at hbucket
    simp only [TokenBucket.credit, Int.cast_natCast] at hchecked
    simp only [Throttled.credit, hbucket, grants, setBacks, hasks, Option.any_some, Option.toList_some, List.map_cons,
      List.map_nil, List.sum_singleton, Option.map_some, TokenBucket.credit]
    linarith

/-! ### The workers -/

theorem ReadFor.service (hs : s.ReadFor scope) (hl : s.service.db.Linked) {b : Operation} {u : Service}
    (h : s.service.step cfg hashApiKey b = some u) (hfind : ∀ w, b ≠ .system (.find w)) :
    ReadFor scope { s with service := u } := by
  intro w k' hw hp
  rcases Service.step_system_or h with ⟨c, rfl, hc⟩ | ⟨_, db, hdb, _⟩
  · rcases hc.worker_origin hw with hold | ⟨k, p, hold, rfl, hm⟩ | ⟨_, _, _, _, _, hstarted⟩
    · obtain ⟨r, hr, ho, hsame⟩ := hs w k' hold hp
      exact ⟨r, hr, ho.step hl h, hsame⟩
    · cases hm with
      | find => exact absurd rfl (hfind w)
      | @limit delayMs hpoint =>
        obtain ⟨r, hr, ho, _⟩ := hs w k hold (by rw [hpoint]; rfl)
        refine ⟨r, hr, ho.step hl h, fun c hsending => ?_⟩
        cases delayMs <;> cases hsending
      | claimHit hpoint hhit =>
        obtain ⟨r, hr, ho, _⟩ := hs w k hold (by rw [hpoint]; rfl)
        refine ⟨r, hr, ho.step hl h, fun c hsending => ?_⟩
        cases hsending
        exact ho.claimed hl hhit
      | @thrown c result delayMs hpoint =>
        cases ho : s.service.system.outcome cfg c result delayMs <;>
          simp [ho, OutcomeWrite.onThrow, Point.holding] at hp
      | _ => cases hp
    · rw [hstarted] at hp
      cases hp
  · have hold : s.service.system.workers w = some k' := by
      have hworkers : u.system.workers w = some k' := hw
      rw [hdb] at hworkers
      exact hworkers
    obtain ⟨r, hr, ho, hsame⟩ := hs w k' hold hp
    exact ⟨r, hr, ho.step hl h, hsame⟩

theorem ReadFor.step (hs : s.ReadFor scope) (hl : s.service.db.Linked) (h : Step cfg hashApiKey s a t) :
    t.ReadFor scope := by
  cases h with
  | @find w₀ u h =>
    intro w k' hw hp
    by_cases hww : w = w₀
    · subst hww
      obtain ⟨k, hk, _, hu⟩ := find_step h
      have hmoved : u.system.workers w = some k' := hw
      rw [hu, System.goto_workers, Function.update_self, Option.some.injEq] at hmoved
      subst hmoved
      cases hfind : s.service.db.findById k.deliveryId with
      | none =>
        rw [hfind] at hp
        cases hp
      | some delivery =>
        have hfound : s.found w = some ⟨delivery, false⟩ := by simp [found, hk, hfind]
        refine ⟨⟨delivery, false⟩, (Function.update_self ..).trans hfound, (RateScope.of_find scope hfind).step hl h,
          fun c hsending => ?_⟩
        have hclaimed := System.afterFind_claimed? (some delivery)
        have hpoint : afterFind (some delivery) = .sending c := hsending
        rw [hpoint] at hclaimed
        cases hclaimed
    · have hold : s.service.system.workers w = some k' := by
        rw [← service_workers_of_ne h fun he => hww (Option.some.inj he).symm]
        exact hw
      obtain ⟨r, hr, ho, hsame⟩ := hs w k' hold hp
      exact ⟨r, (Function.update_of_ne hww ..).trans hr, ho.step hl h, hsame⟩
  | operation _ hfind h => exact hs.service hl h hfind
  | @granted w₀ readAt expired k delivery hw₀ hp₀ _ hr₀ hgranted =>
    intro w k' hw hp
    obtain ⟨r, hr, ho, hsame⟩ := hs w k' hw hp
    by_cases hww : w = w₀
    · subst hww
      rw [hr₀, Option.some.injEq] at hr
      subst hr
      exact ⟨⟨delivery, true⟩, Function.update_self .., ho, hsame⟩
    · exact ⟨r, (Function.update_of_ne hww ..).trans hr, ho, hsame⟩
  | tenant _ _ _ _ h => exact hs.service hl h (by intro w he; cases he)
  | endpoint _ _ _ _ h => exact hs.service hl h (by intro w he; cases he)
  | @unsent _ _ u _ hsend hanswer =>
    have hsent : ReadFor scope { s with service := u } := hs.service hl hsend (by intro w he; cases he)
    exact hsent.service (Service.linked_step hl hsend) hanswer (by intro w he; cases he)

theorem passed_before_request (granted : Bool) {p : Point} (hp : p = .claiming ∨ ∃ c, p = .sending c) :
    scope.passed granted p = true := by
  rcases hp with rfl | ⟨c, rfl⟩ <;> cases scope <;> rfl

theorem cleared_of_not_holding (hw : s.service.system.workers w = some k) (hp : k.point.holding true = false) :
    s.cleared scope w = false := by
  rw [← Bool.not_eq_true]
  intro hcleared
  obtain ⟨k', r, hk', _, _, hpassed⟩ := holding_of_cleared hcleared
  rw [hw, Option.some.injEq] at hk'
  rw [← hk'] at hpassed
  rw [RateScope.holding_of_passed hpassed] at hp
  cases hp

theorem cleared_before {b : Operation} {u : Service} (hlimit : ∀ w delayMs, b ≠ .system (.limit w delayMs))
    (hfind : ∀ w, b ≠ .system (.find w)) (h : s.service.step cfg hashApiKey b = some u)
    (hafter : cleared { s with service := u } scope w = true) : s.cleared scope w = true := by
  obtain ⟨k', r, hw, hr, hcovers, hpassed⟩ := holding_of_cleared hafter
  have hsame : s.service.system.workers w = some k' → s.cleared scope w = true := fun hold => by
    rw [cleared_of_task hold hr, hcovers, hpassed]
    rfl
  rcases Service.step_system_or h with ⟨c, rfl, hc⟩ | ⟨_, db, hdb, _⟩
  · rcases hc.worker_origin hw with hold | ⟨k, p, hold, rfl, hm⟩ | ⟨_, _, _, _, _, hstarted⟩
    · exact hsame hold
    · have hholding := RateScope.holding_of_passed hpassed
      cases hm with
      | find => exact absurd rfl (hfind w)
      | limit => exact absurd rfl (hlimit w _)
      | claimHit hpoint _ =>
        rw [cleared_of_task hold hr, hcovers, passed_before_request _ (.inl hpoint)]
        rfl
      | @thrown c result delayMs hpoint =>
        cases ho : s.service.system.outcome cfg c result delayMs <;>
          simp [ho, OutcomeWrite.onThrow, Point.holding] at hholding
      | _ => cases hholding
    · have hholding := RateScope.holding_of_passed hpassed
      rw [hstarted] at hholding
      cases hholding
  · refine hsame ?_
    have hworkers : u.system.workers w = some k' := hw
    rw [hdb] at hworkers
    exact hworkers

theorem sends_of_send {c : Claimed} (hw : s.service.system.workers w = some k) (hp : k.point = .sending c)
    (v : Throttled) :
    s.sends (.operation (.system (.send w))) v = [c.delivery] := by
  simp [sends, hw, hp]

theorem sends_of_ne {v : Throttled} (ha : a ≠ .operation (.system (.send w))) (hw : worker? a = some w) :
    s.sends a v = [] := by
  unfold sends
  split
  · rename_i w₀
    obtain rfl : w₀ = w := Option.some.inj hw
    exact absurd rfl ha
  · rfl

theorem cleared_send (hs : s.ReadFor scope) {u : Service}
    (h : s.service.step cfg hashApiKey (.system (.send w)) = some u) :
    ∃ delivery, (∀ v, s.sends (.operation (.system (.send w))) v = [delivery]) ∧
      s.cleared scope w = scope.covers delivery ∧ cleared { s with service := u } scope w = false := by
  have hstep := System.Step.of_step (Service.step_system h).1
  generalize hv : u.system = v at hstep
  cases hstep with
  | @send _ k c hw hp =>
    obtain ⟨r, hr, _, hkey⟩ := hs w k hw (by rw [hp]; rfl)
    have hworker : u.system.workers w = some { k with point := .awaiting c } := by
      rw [hv]
      exact Function.update_self ..
    refine ⟨c.delivery, sends_of_send hw hp, ?_, cleared_of_not_holding hworker rfl⟩
    rw [cleared_of_task hw hr, passed_before_request _ (.inr ⟨c, hp⟩), Bool.and_true, RateScope.covers,
      RateScope.covers, hkey c hp]

theorem cleared_limit {u : Service} {result : RateLimitResult} {delivery : DispatchableDelivery} {granted : Bool}
    (h : s.service.step cfg hashApiKey (.system (.limit w result.delay)) = some u)
    (hr : s.checks w = some ⟨delivery, granted⟩) (ht : t.service = u) (hc : t.checks w = s.checks w) :
    t.cleared scope w = (scope.covers delivery && !result.exceeded) := by
  obtain ⟨k, _, hu⟩ := limit_step h
  have hworker : t.service.system.workers w =
      some { k with point := afterLimit s.service.now result.delay } := by
    rw [ht, hu, System.goto_workers, Function.update_self]
  cases hexceeded : result.exceeded with
  | false =>
    have hpoint : afterLimit s.service.now result.delay = .claiming := by
      simp [RateLimitResult.delay, hexceeded, afterLimit]
    rw [hpoint] at hworker
    rw [cleared_of_task hworker (hc.trans hr), passed_before_request _ (.inl rfl)]
    rfl
  | true =>
    rw [Bool.not_true, Bool.and_false]
    refine cleared_of_not_holding hworker ?_
    simp [RateLimitResult.delay, hexceeded, afterLimit, Point.holding]

theorem grants_of_check {readAt : Time} {expired : Bool} (ha : asked? scope a = some (w, readAt, expired))
    (hr : s.checks w = some r) :
    s.grants scope a = (scope.covers r.delivery &&
      !(RateCall.checked ⟨readAt, scope.limit r.delivery, expired⟩ (s.bucketOf scope)).1.exceeded) := by
  rw [grants, asks_of_check ha hr]
  cases scope.covers r.delivery <;> rfl

theorem grants_checkTenant {readAt : Time} {expired : Bool} {id : Nat} (hr : s.checks w = some r) :
    s.grants (.tenant id) (.checkTenant w readAt expired) =
      ((RateScope.tenant id).covers r.delivery && !(s.tenantLimit r.delivery readAt expired).1.exceeded) := by
  rw [grants_of_check rfl hr]
  cases hc : (RateScope.tenant id).covers r.delivery with
  | false => rfl
  | true =>
    obtain rfl : r.delivery.event.tenantId = id := beq_iff_eq.mp hc
    rfl

theorem grants_checkEndpoint {readAt : Time} {expired : Bool} {id : Nat} (hr : s.checks w = some r) :
    s.grants (.endpoint id) (.checkEndpoint w readAt expired) =
      ((RateScope.endpoint id).covers r.delivery && !(s.endpointLimit r.delivery readAt expired).1.exceeded) := by
  rw [grants_of_check rfl hr]
  cases hc : (RateScope.endpoint id).covers r.delivery with
  | false => rfl
  | true =>
    obtain rfl : r.delivery.row.endpointId = id := beq_iff_eq.mp hc
    rfl

theorem cleared_checkTenant (hm : s.Metering scope M) {readAt : Time} {expired : Bool}
    (h : s.step cfg hashApiKey (.checkTenant w readAt expired) = some t) :
    t.cleared scope w = true → s.grants scope (.checkTenant w readAt expired) = true := by
  obtain ⟨k, delivery, hw, hp, hr, ⟨hgranted, rfl⟩ | ⟨hrefused, u, hu, rfl⟩⟩ := checkTenant_cases h
  · intro hcleared
    obtain ⟨k', r, hk', hr', hcovers, hpassed⟩ := holding_of_cleared hcleared
    have hpoint : k'.point = .limiting := by
      obtain rfl : k = k' := Option.some.inj (hw.symm.trans hk')
      exact hp
    have hset : Function.update s.checks w (some ⟨delivery, true⟩) w = some r := hr'
    rw [Function.update_self, Option.some.injEq] at hset
    subst hset
    cases scope with
    | tenant id =>
      rw [grants_checkTenant hr, hcovers, hgranted]
      rfl
    | endpoint id =>
      rw [hpoint] at hpassed
      cases hpassed
  · intro hcleared
    have hafter : cleared { s.setTenantBucket delivery readAt expired with service := u } scope w = _ :=
      cleared_limit hu hr rfl rfl
    rw [hafter, Bool.and_eq_true] at hcleared
    cases scope with
    | tenant id =>
      rw [grants_checkTenant hr, Bool.and_eq_true]
      exact hcleared
    | endpoint id =>
      -- the endpoint has a limit of its own, so its check comes first
      obtain ⟨hcovers, hpass⟩ := hcleared
      rcases hrefused with hexceeded | hnone
      · rw [hexceeded] at hpass
        cases hpass
      · exact absurd hnone ((hm.limit w _ hr hcovers).2 id rfl)

theorem cleared_checkEndpoint {readAt : Time} {expired : Bool}
    (h : Step cfg hashApiKey s (.checkEndpoint w readAt expired) t) :
    t.cleared scope w = true → s.grants scope (.checkEndpoint w readAt expired) = true ∨ s.cleared scope w = true := by
  cases h with
  | @endpoint _ _ _ k delivery u hw hp _ hr hu =>
    intro hcleared
    have hafter : cleared { s.setEndpointBucket delivery readAt expired with service := u } scope w = _ :=
      cleared_limit hu hr rfl rfl
    rw [hafter, Bool.and_eq_true] at hcleared
    cases scope with
    | tenant id =>
      right
      rw [cleared_of_task hw hr, hcleared.1, hp]
      rfl
    | endpoint id =>
      left
      rw [grants_checkEndpoint hr, Bool.and_eq_true]
      exact hcleared

theorem cleared_find {u : Service} (h : s.service.step cfg hashApiKey (.system (.find w)) = some u) :
    cleared { s.setCheck w (s.found w) with service := u } scope w = false := by
  obtain ⟨k, hk, _, hu⟩ := find_step h
  have hworker : u.system.workers w = some { k with point := afterFind (s.service.db.findById k.deliveryId) } := by
    rw [hu, System.goto_workers, Function.update_self]
  rw [← Bool.not_eq_true]
  intro hcleared
  obtain ⟨k', r, hk', hr, _, hpassed⟩ := holding_of_cleared hcleared
  rw [← Option.some.inj (hworker.symm.trans hk')] at hpassed
  have hfound : s.found w = some r := by
    have hset : Function.update s.checks w (s.found w) w = some r := hr
    rwa [Function.update_self] at hset
  have hnone : scope.passed r.granted (afterFind (s.service.db.findById k.deliveryId)) = false := by
    rw [found_granted hfound]
    cases scope <;> exact afterFind_holding _
  rw [hnone] at hpassed
  cases hpassed

theorem cleared_le (hm : s.Metering scope M) (h : s.step cfg hashApiKey a = some t) (ha : worker? a = some w) :
    (s.sends a t).countP scope.covers + (t.cleared scope w).toNat ≤
      (s.grants scope a).toNat + (s.cleared scope w).toNat := by
  have hquiet (hne : a ≠ .operation (.system (.send w)))
      (himp : t.cleared scope w = true → s.grants scope a = true ∨ s.cleared scope w = true) :
      (s.sends a t).countP scope.covers + (t.cleared scope w).toNat ≤
        (s.grants scope a).toNat + (s.cleared scope w).toNat := by
    rw [sends_of_ne hne ha, List.countP_nil, Nat.zero_add]
    cases hafter : t.cleared scope w with
    | false => exact Nat.zero_le _
    | true =>
      rcases himp hafter with hg | hc
      · rw [hg]
        exact Nat.le_add_right _ _
      · rw [hc]
        exact Nat.le_add_left _ _
  cases a with
  | operation b =>
    cases Step.of_step h with
    | @find w₀ u hstep =>
      obtain rfl : w₀ = w := Option.some.inj ha
      refine hquiet nofun fun hcleared => ?_
      rw [cleared_find hstep] at hcleared
      cases hcleared
    | @operation _ u hlimit hfind hstep =>
      by_cases hsend : b = .system (.send w)
      · subst hsend
        obtain ⟨delivery, hsends, hbefore, hafter⟩ := cleared_send hm.reads hstep
        rw [hsends, hbefore, hafter, List.countP_singleton]
        cases scope.covers delivery <;> simp
      · exact hquiet (fun he => hsend (by cases he; rfl)) fun hcleared =>
          .inr (cleared_before hlimit hfind hstep hcleared)
  | checkTenant w₀ readAt expired =>
    obtain rfl : w₀ = w := Option.some.inj ha
    exact hquiet nofun fun hcleared => .inl (cleared_checkTenant hm h hcleared)
  | checkEndpoint w₀ readAt expired =>
    obtain rfl : w₀ = w := Option.some.inj ha
    exact hquiet nofun (cleared_checkEndpoint (.of_step h))
  | unsent w₀ error =>
    obtain rfl : w₀ = w := Option.some.inj ha
    refine hquiet nofun fun hcleared => ?_
    cases Step.of_step h with
    | unsent hsend hanswer =>
      obtain ⟨_, _, _, _, k', hk', hsettling⟩ := unsent_step hsend hanswer
      rw [cleared_of_not_holding hk' (by rw [hsettling]; rfl)] at hcleared
      cases hcleared

theorem card_holders (s : Throttled) (scope : RateScope) (W : Finset Nat) :
    (s.holders scope W).card = ∑ w ∈ W, (s.cleared scope w).toNat := by
  rw [holders, Finset.card_filter]
  refine Finset.sum_congr rfl fun w _ => ?_
  cases s.cleared scope w <;> rfl

theorem holders_le (hm : s.Metering scope M) (h : s.step cfg hashApiKey a = some t) (hW : ∀ w ∈ worker? a, w ∈ W) :
    (s.sends a t).countP scope.covers + (t.holders scope W).card ≤
      (s.grants scope a).toNat + (s.holders scope W).card := by
  have hstep := Step.of_step h
  have hothers : ∀ v, worker? a ≠ some v → (t.cleared scope v).toNat = (s.cleared scope v).toNat := fun v hv => by
    rw [cleared_congr (hstep.workers_of_ne hv) (hstep.checks_of_ne hv)]
  rw [card_holders, card_holders]
  cases ha : worker? a with
  | none =>
    have hsends : s.sends a t = [] := by
      unfold sends
      split
      · cases ha
      · rfl
    rw [hsends, List.countP_nil, Nat.zero_add, Finset.sum_congr rfl fun v _ => hothers v (by rw [ha]; exact nofun)]
    exact Nat.le_add_left _ _
  | some w =>
    have hworker := cleared_le hm h ha
    have hrest : ∑ v ∈ W.erase w, (t.cleared scope v).toNat = ∑ v ∈ W.erase w, (s.cleared scope v).toNat :=
      Finset.sum_congr rfl fun v hv => hothers v fun he =>
        Finset.ne_of_mem_erase hv (Option.some.inj (ha.symm.trans he)).symm
    rw [← Finset.add_sum_erase W _ (hW w ha), ← Finset.add_sum_erase W _ (hW w ha), hrest]
    omega

/-! ### Runs -/

theorem Metering.step (hm : s.Metering scope M) (h : Step cfg hashApiKey s a t) (hp : Regulated scope M s a t) :
    t.Metering scope M where
  linked := h.linked hm.linked
  reads := hm.reads.step hm.linked h
  limit v r hr hcovers := by
    cases h with
    | @find w u hfind =>
      rcases Transition.update_cases (· = some r) (show Function.update s.checks w (s.found w) v = some r from hr)
        with ⟨rfl, hfound⟩ | hold
      · simp only [found, Option.bind_eq_bind, Option.bind_eq_some_iff, Option.pure_def, Option.some.injEq] at hfound
        obtain ⟨k, _, delivery, hdelivery, rfl⟩ := hfound
        exact RateScope.limit_of_find hdelivery hcovers hp
      · exact hm.limit v r hold hcovers
    | @granted w readAt expired k delivery _ _ _ hr₀ _ =>
      rcases Transition.update_cases (· = some r)
        (show Function.update s.checks w (some ⟨delivery, true⟩) v = some r from hr) with ⟨rfl, hset⟩ | hold
      · rw [Option.some.injEq] at hset
        subst hset
        exact hm.limit v ⟨delivery, false⟩ hr₀ hcovers
      · exact hm.limit v r hold hcovers
    | _ => exact hm.limit v r hr hcovers
  bucket b hb := by
    have hnow : (s.service.now : ℤ) ≤ t.service.now := Int.ofNat_le.mpr h.now_le
    rw [h.bucketOf scope] at hb
    cases hasks : s.asks scope a with
    | none =>
      rw [hasks, Option.elim_none] at hb
      exact ⟨(hm.bucket b hb).1, (hm.bucket b hb).2.trans hnow⟩
    | some c =>
      rw [hasks, Option.elim_some, Option.some.injEq] at hb
      subst hb
      exact ⟨(RateCall.checked_tokens (fun b hb => (hm.bucket b hb).1) le_rfl).1, (h.asks_le hasks).trans hnow⟩

/-- The limiter's keys are gone when the service starts. -/
def boot (u : Setup) : Throttled := ⟨.boot u, fun _ => none, fun _ => none, fun _ => none⟩

theorem boot_metering (scope : RateScope) (M : Nat) (u : Setup) : (boot u).Metering scope M where
  linked := System.boot_linked u
  reads w k hw := by cases hw
  limit w r hr := by cases hr
  bucket b hb := by cases scope <;> cases hb

theorem metering_of_run {u : Setup} {as : List ThrottledOperation}
    (h : Transition.run (Throttled.step cfg hashApiKey) (boot u) as = some s)
    (hp : Transition.Along (Throttled.step cfg hashApiKey) (Regulated scope M) (boot u) as) : s.Metering scope M :=
  (hp.visits (fun _ _ _ hm hstep hreg => hm.step (.of_step hstep) hreg) (boot_metering scope M u)).last h

/-- What may still be sent: what the scope's bucket may give, and what the workers it has let through
have in hand. -/
def allowance (scope : RateScope) (M : Nat) (W : Finset Nat) (start : Time) (s : Throttled) : ℚ :=
  s.credit scope M start + (s.holders scope W).card

theorem allowance_start_le (scope : RateScope) (M : Nat) (W : Finset Nat) (s : Throttled) :
    allowance scope M W s.service.now s ≤ M + (s.holders scope W).card :=
  add_le_add_left (TokenBucket.credit_start_le _ _ (div_nonneg (Nat.cast_nonneg M) (by norm_num))) _

theorem allowance_nonneg (W : Finset Nat) {start : Time} (hstart : start ≤ s.service.now) (hm : s.Metering scope M) :
    0 ≤ allowance scope M W start s := by
  have hM : (0 : ℚ) ≤ M := Nat.cast_nonneg _
  refine add_nonneg ?_ (Nat.cast_nonneg _)
  refine TokenBucket.credit_nonneg (fun c hc => ?_) (Nat.cast_le.mpr hstart) hM (div_nonneg hM (by norm_num))
  obtain ⟨b, hb, rfl⟩ := Option.mem_map.mp hc
  obtain ⟨htokens, hstamp⟩ := hm.bucket b hb
  have hcast : ((b.updatedAt : ℤ) : ℚ) ≤ ((s.service.now : ℤ) : ℚ) := Int.cast_le.mpr hstamp
  exact ⟨htokens, by simpa [RateBucket.bucket] using hcast⟩

/-- A step sends from the allowance, which fills at the rate of the limit. -/
theorem allowance_step (start : Time) (hm : s.Metering scope M) (h : s.step cfg hashApiKey a = some t)
    (hW : ∀ w ∈ worker? a, w ∈ W) :
    ((s.sends a t).countP scope.covers : ℚ) + allowance scope M W start t ≤ allowance scope M W start s +
      M / 1000 * (t.service.now - s.service.now + (s.setBacks scope start a t).sum) := by
  have hcredit := Step.credit hm start (.of_step h)
  have hholders : (((s.sends a t).countP scope.covers + (t.holders scope W).card : ℕ) : ℚ) ≤
      ((s.grants scope a).toNat + (s.holders scope W).card : ℕ) := Nat.cast_le.mpr (holders_le hm h hW)
  push_cast at hholders
  simp only [allowance]
  linarith

theorem now_le_of_run {as : List ThrottledOperation}
    (h : Transition.run (Throttled.step cfg hashApiKey) s as = some t) : s.service.now ≤ t.service.now :=
  Transition.run_invariant (I := fun v => s.service.now ≤ v.service.now)
    (fun _ _ _ hle hstep => hle.trans (Step.of_step hstep).now_le) le_rfl h

end Steps

/-- In any window of a run, the requests of a tenant or of an endpoint are no more than its full
bucket, what fills in, also for the time by which stamps lie back, and the workers that had been let
through already. -/
theorem requests_within_limit (cfg : Config) (hashApiKey : String → String) (scope : RateScope) (M : Nat) (u : Setup)
    (as bs : List ThrottledOperation) (s t : Throttled) (W : Finset Nat)
    (hs : Transition.run (step cfg hashApiKey) (boot u) as = some s)
    (ht : Transition.run (step cfg hashApiKey) s bs = some t)
    (hp : Transition.Along (step cfg hashApiKey) (Regulated scope M) (boot u) (as ++ bs))
    (hW : ∀ a ∈ bs, ∀ w ∈ worker? a, w ∈ W) :
    ((Transition.collect (step cfg hashApiKey) sends s bs).countP scope.covers : ℚ) ≤
      M + (M : ℚ) * (t.service.now - s.service.now +
          (Transition.collect (step cfg hashApiKey) (setBacks scope s.service.now) s bs).sum) / 1000 +
        (s.holders scope W).card := by
  have hwindow : Transition.Along (step cfg hashApiKey)
      (fun s a t => Regulated scope M s a t ∧ ∀ w ∈ worker? a, w ∈ W) s bs :=
    (hp.of_append hs).and (Transition.along_of_mem fun a ha _ _ => hW a ha)
  have hbound := Transition.countP_collect_add_le (I := Metering scope M) (p := scope.covers)
    (allowance scope M W s.service.now) (fun v => (v.service.now : ℚ)) (M / 1000)
    (fun _ _ _ hm hstep hreg => hm.step (.of_step hstep) hreg.1)
    (fun _ _ _ hm hstep hreg => allowance_step s.service.now hm hstep hreg.2) (metering_of_run hs hp.left) hwindow ht
  have hfull := allowance_start_le scope M W s
  have hleft := allowance_nonneg W (now_le_of_run ht) (metering_of_run (Transition.run_append_of hs ht) hp)
  linarith

/-- One endpoint that may take a request a second. -/
def oneASecond : Setup where
  tenants := Table.empty.insert ⟨"tenant", "hash", 100, true⟩
  endpoints := Table.empty.insert ⟨0, "https://example.com", "whsec", none, none, some 1, true, 0⟩
  subscriptions := [⟨0, "*"⟩]
  now := 0

/-- A worker reads the clock for its endpoint's check, which is made half a second later. -/
def readRun : List ThrottledOperation :=
  acts (Script.ingest ++ Script.publish 0 ++ [.take 0 (jobId 0 0), .find 0]) ++ [.checkTenant 0 0 false] ++
    acts [.tick 500]

def lateCheck : List ThrottledOperation := .checkEndpoint 0 0 false :: acts [.claim 0, .send 0]

theorem requests_within_limit_sent :
    ∃ s t, Transition.run (step .defaults id) (boot oneASecond) readRun = some s ∧
      Transition.run (step .defaults id) s lateCheck = some t ∧
      ((Transition.collect (step .defaults id) sends s lateCheck).countP (RateScope.endpoint 0).covers : ℚ) ≤
        (1 : ℕ) + ((1 : ℕ) : ℚ) * (t.service.now - s.service.now +
            (Transition.collect (step .defaults id) (setBacks (.endpoint 0) s.service.now) s lateCheck).sum) / 1000 +
          (s.holders (.endpoint 0) {0}).card := by
  obtain ⟨t, hrun⟩ := Option.isSome_iff_exists.mp (show (Transition.run (step .defaults id) (boot oneASecond)
    (readRun ++ lateCheck)).isSome = true by decide +kernel)
  obtain ⟨s, hs, ht⟩ := Option.bind_eq_some_iff.mp (Transition.run_append.symm.trans hrun)
  exact ⟨s, t, hs, ht, requests_within_limit .defaults id (.endpoint 0) 1 oneASecond readRun lateCheck s t {0} hs ht
    (by decide +kernel) (by decide +kernel)⟩

end Throttled

end WebhookEngine
