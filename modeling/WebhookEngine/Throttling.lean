import WebhookEngine.Ownership
import WebhookEngine.RateLimiter

/-! The service with the buckets of its rate limiter: a worker asks for its tenant first and, if
the endpoint has a limit of its own, for the endpoint next. A token is taken by the answer to
the first question, long before the request it is for. -/

namespace WebhookEngine

open Relational

/-- What a worker's first read has found, and whether the tenant's bucket has granted it a token. -/
structure RateCheck where
  delivery : DispatchableDelivery
  granted : Bool
  deriving DecidableEq

structure Throttled where
  service : Service
  tenantBuckets : Nat → Option RateBucket
  endpointBuckets : Nat → Option RateBucket
  checks : Nat → Option RateCheck

/-- The answers of the limiter come from the buckets. A check has read the clock at `readAt`, before
its script runs, and `expired` says that the key is gone by then. In `unsent` the headers cannot be
made or the channel turns the URL away, before any request. -/
inductive ThrottledOperation where
  | operation (a : Operation)
  | checkTenant (w : Nat) (readAt : Time) (expired : Bool)
  | checkEndpoint (w : Nat) (readAt : Time) (expired : Bool)
  | unsent (w : Nat) (error : SendError)

def RateLimitResult.delay (r : RateLimitResult) : Option Nat :=
  if r.exceeded then some r.delayMs.toNat else none

namespace Throttled

def endpointCall (delivery : DispatchableDelivery) (readAt : Time) (expired : Bool) : RateCall :=
  ⟨readAt, delivery.endpoint.rateLimit.getD 0, expired⟩

variable (cfg : Config) (hashApiKey : String → String) (s : Throttled)

def tenantLimit (delivery : DispatchableDelivery) (readAt : Time) (expired : Bool) : RateLimitResult × RateBucket :=
  RateCall.checked ⟨readAt, delivery.tenant.rateLimit, expired⟩ (s.tenantBuckets delivery.event.tenantId)

def endpointLimit (delivery : DispatchableDelivery) (readAt : Time) (expired : Bool) : RateLimitResult × RateBucket :=
  (endpointCall delivery readAt expired).checked (s.endpointBuckets delivery.row.endpointId)

def setTenantBucket (delivery : DispatchableDelivery) (readAt : Time) (expired : Bool) : Throttled :=
  { s with
    tenantBuckets :=
      Function.update s.tenantBuckets delivery.event.tenantId (some (s.tenantLimit delivery readAt expired).2) }

def setEndpointBucket (delivery : DispatchableDelivery) (readAt : Time) (expired : Bool) : Throttled :=
  { s with
    endpointBuckets :=
      Function.update s.endpointBuckets delivery.row.endpointId (some (s.endpointLimit delivery readAt expired).2) }

def setCheck (w : Nat) (v : Option RateCheck) : Throttled :=
  { s with checks := Function.update s.checks w v }

def answered (w : Nat) (result : RateLimitResult) : Option Throttled :=
  (s.service.step cfg hashApiKey (.system (.limit w result.delay))).map fun t => { s with service := t }

def found (w : Nat) : Option RateCheck := do
  let k ← s.service.system.workers w
  let delivery ← s.service.db.findById k.deliveryId
  return ⟨delivery, false⟩

def step (a : ThrottledOperation) : Option Throttled :=
  match a with
  | .operation (.system (.limit _ _)) => none
  | .operation (.system (.find w)) =>
    (s.service.step cfg hashApiKey (.system (.find w))).map fun t => { s.setCheck w (s.found w) with service := t }
  | .operation a => (s.service.step cfg hashApiKey a).map fun t => { s with service := t }
  | .checkTenant w readAt expired =>
    match s.service.system.workers w, s.checks w with
    | some k, some ⟨delivery, false⟩ =>
      let tenantLimit := (s.tenantLimit delivery readAt expired).1
      let t := s.setTenantBucket delivery readAt expired
      if k.point ≠ .limiting ∨ s.service.now < readAt then none
      else if !tenantLimit.exceeded && delivery.endpoint.rateLimit.getD 0 != 0 then
        some (t.setCheck w (some ⟨delivery, true⟩))
      else t.answered cfg hashApiKey w tenantLimit
    | _, _ => none
  | .checkEndpoint w readAt expired =>
    match s.service.system.workers w, s.checks w with
    | some k, some ⟨delivery, true⟩ =>
      if k.point ≠ .limiting ∨ s.service.now < readAt then none
      else
        (s.setEndpointBucket delivery readAt expired).answered cfg hashApiKey w
          (s.endpointLimit delivery readAt expired).1
    | _, _ => none
  | .unsent w error =>
    ((s.service.step cfg hashApiKey (.system (.send w))).bind fun t =>
      t.step cfg hashApiKey (.system (.answer w (.rejected error)))).map fun t => { s with service := t }

end Throttled

/-- A worker with the token in hand: granted, and its request not sent yet. -/
def Point.holding (granted : Bool) : Point → Bool
  | .limiting => granted
  | .claiming => true
  | .sending _ => true
  | _ => false

namespace Throttled

/-- The tenant whose token a worker has in hand. -/
def holds (s : Throttled) (w : Nat) : Option Nat := do
  let k ← s.service.system.workers w
  let r ← s.checks w
  if k.point.holding r.granted then some r.delivery.event.tenantId else none

/-- Worker and tenant of the token that a step takes from a tenant's bucket. -/
def takes (s : Throttled) (a : ThrottledOperation) (_ : Throttled) : List (Nat × Nat) :=
  match a with
  | .checkTenant w readAt expired =>
    (s.checks w).toList.flatMap fun r =>
      if (s.tenantLimit r.delivery readAt expired).1.exceeded then [] else [(w, r.delivery.event.tenantId)]
  | _ => []

/-- Worker and tenant of the request that a step sends. -/
def requests (s : Throttled) (a : ThrottledOperation) (_ : Throttled) : List (Nat × Nat) :=
  match a with
  | .operation (.system (.send w)) =>
    (s.service.system.workers w).toList.flatMap fun k =>
      match k.point with
      | .sending c => [(w, c.delivery.event.tenantId)]
      | _ => []
  | _ => []

def inHand (s : Throttled) (w : Nat) : List (Nat × Nat) := (s.holds w).toList.map fun tenantId => (w, tenantId)

/-- Worker and tenant of the token that a step wastes: the worker had one and has none any more,
and no request is sent for it. -/
def wastes (s : Throttled) (a : ThrottledOperation) (t : Throttled) : List (Nat × Nat) :=
  match a with
  | .checkEndpoint w _ _ => if t.holds w = none then s.inHand w else []
  | .operation (.system (.claim w)) => if t.holds w = none then s.inHand w else []
  | .operation (.system (.crash w)) => s.inHand w
  | .unsent w _ => s.inHand w
  | _ => []

def worker? : ThrottledOperation → Option Nat
  | .operation (.system b) => System.worker? b
  | .operation _ => none
  | .checkTenant w _ _ => some w
  | .checkEndpoint w _ _ => some w
  | .unsent w _ => some w

/-- What has been read for a worker before its request is the tenant of its job's delivery, and of
the delivery it has claimed. -/
def Checked (s : Throttled) : Prop :=
  ∀ w k, s.service.system.workers w = some k → k.point.holding true = true →
    ∃ r, s.checks w = some r ∧ s.service.db.BelongsTo k.deliveryId r.delivery.event.tenantId ∧
      ∀ c, k.point = .sending c → c.delivery.event.tenantId = r.delivery.event.tenantId

inductive Step (cfg : Config) (hashApiKey : String → String) (s : Throttled) :
    ThrottledOperation → Throttled → Prop where
  | find {w t} (h : s.service.step cfg hashApiKey (.system (.find w)) = some t) :
      Step cfg hashApiKey s (.operation (.system (.find w))) { s.setCheck w (s.found w) with service := t }
  | operation {a t} (hlimit : ∀ w delayMs, a ≠ .system (.limit w delayMs)) (hfind : ∀ w, a ≠ .system (.find w))
      (h : s.service.step cfg hashApiKey a = some t) :
      Step cfg hashApiKey s (.operation a) { s with service := t }
  | granted {w readAt expired k delivery} (hw : s.service.system.workers w = some k) (hp : k.point = .limiting)
      (hread : readAt ≤ s.service.now) (hr : s.checks w = some ⟨delivery, false⟩)
      (hgranted : (s.tenantLimit delivery readAt expired).1.exceeded = false) :
      Step cfg hashApiKey s (.checkTenant w readAt expired)
        ((s.setTenantBucket delivery readAt expired).setCheck w (some ⟨delivery, true⟩))
  | tenant {w readAt expired k delivery t} (hw : s.service.system.workers w = some k) (hp : k.point = .limiting)
      (hread : readAt ≤ s.service.now) (hr : s.checks w = some ⟨delivery, false⟩)
      (h : s.service.step cfg hashApiKey
        (.system (.limit w (s.tenantLimit delivery readAt expired).1.delay)) = some t) :
      Step cfg hashApiKey s (.checkTenant w readAt expired)
        { s.setTenantBucket delivery readAt expired with service := t }
  | endpoint {w readAt expired k delivery t} (hw : s.service.system.workers w = some k) (hp : k.point = .limiting)
      (hread : readAt ≤ s.service.now) (hr : s.checks w = some ⟨delivery, true⟩)
      (h : s.service.step cfg hashApiKey
        (.system (.limit w (s.endpointLimit delivery readAt expired).1.delay)) = some t) :
      Step cfg hashApiKey s (.checkEndpoint w readAt expired)
        { s.setEndpointBucket delivery readAt expired with service := t }
  | unsent {w error t u} (hsend : s.service.step cfg hashApiKey (.system (.send w)) = some t)
      (hanswer : t.step cfg hashApiKey (.system (.answer w (.rejected error))) = some u) :
      Step cfg hashApiKey s (.unsent w error) { s with service := u }

section Steps

variable {cfg : Config} {hashApiKey : String → String} {s t : Throttled} {a : ThrottledOperation} {w : Nat}
  {k : Task} {r : RateCheck}

theorem Step.of_step (h : s.step cfg hashApiKey a = some t) : Step cfg hashApiKey s a t := by
  cases a with
  | operation a =>
    cases a with
    | system b =>
      cases b with
      | limit w delayMs => cases h
      | find w =>
        obtain ⟨u, hu, rfl⟩ := Option.map_eq_some_iff.mp h
        exact .find hu
      | _ =>
        simp only [step, Option.map_eq_some_iff] at h
        obtain ⟨u, hu, rfl⟩ := h
        exact .operation (by intro _ _ he; cases he) (by intro _ he; cases he) hu
    | _ =>
      simp only [step, Option.map_eq_some_iff] at h
      obtain ⟨u, hu, rfl⟩ := h
      exact .operation (by intro _ _ he; cases he) (by intro _ he; cases he) hu
  | checkTenant w readAt expired =>
    simp only [step] at h
    split at h
    · rename_i k delivery hw hr
      split at h
      · cases h
      · rename_i hguard
        obtain ⟨hp, hread⟩ := not_or.mp hguard
        split at h
        · rename_i hpass
          simp only [Bool.and_eq_true, Bool.not_eq_true'] at hpass
          cases h
          exact .granted hw (not_not.mp hp) (not_lt.mp hread) hr hpass.1
        · obtain ⟨u, hu, rfl⟩ := Option.map_eq_some_iff.mp h
          exact .tenant hw (not_not.mp hp) (not_lt.mp hread) hr hu
    · cases h
  | checkEndpoint w readAt expired =>
    simp only [step] at h
    split at h
    · rename_i k delivery hw hr
      split at h
      · cases h
      · rename_i hguard
        obtain ⟨hp, hread⟩ := not_or.mp hguard
        obtain ⟨u, hu, rfl⟩ := Option.map_eq_some_iff.mp h
        exact .endpoint hw (not_not.mp hp) (not_lt.mp hread) hr hu
    · cases h
  | unsent w error =>
    obtain ⟨v, hv, rfl⟩ := Option.map_eq_some_iff.mp h
    obtain ⟨u, hu, hanswer⟩ := Option.bind_eq_some_iff.mp hv
    exact .unsent hu hanswer

/-- The limiter's buckets aside, the service takes steps of its own. -/
theorem Step.service (h : Step cfg hashApiKey s a t) :
    ∃ bs, Transition.run (Service.step cfg hashApiKey) s.service bs = some t.service := by
  cases h with
  | find h => exact ⟨[_], Transition.run_cons_eq_some.mpr ⟨_, h, rfl⟩⟩
  | operation _ _ h => exact ⟨[_], Transition.run_cons_eq_some.mpr ⟨_, h, rfl⟩⟩
  | granted => exact ⟨[], rfl⟩
  | tenant _ _ _ _ h => exact ⟨[_], Transition.run_cons_eq_some.mpr ⟨_, h, rfl⟩⟩
  | endpoint _ _ _ _ h => exact ⟨[_], Transition.run_cons_eq_some.mpr ⟨_, h, rfl⟩⟩
  | unsent hsend hanswer =>
    exact ⟨[_, _], Transition.run_cons_eq_some.mpr
      ⟨_, hsend, Transition.run_cons_eq_some.mpr ⟨_, hanswer, rfl⟩⟩⟩

theorem afterFind_holding (o : Option DispatchableDelivery) : (afterFind o).holding false = false := by
  cases o with
  | none => rfl
  | some delivery =>
    simp only [afterFind]
    split
    · rfl
    · split <;> rfl

theorem find_step {u : Service} (h : s.service.step cfg hashApiKey (.system (.find w)) = some u) :
    ∃ k, s.service.system.workers w = some k ∧ k.point = .started ∧
      u.system = s.service.system.goto w k (afterFind (s.service.db.findById k.deliveryId)) := by
  have hstep := System.Step.of_step (Service.step_system h).1
  generalize u.system = v at hstep ⊢
  cases hstep with
  | find hk hp => exact ⟨_, hk, hp, rfl⟩

theorem limit_step {u : Service} {delayMs : Option Nat}
    (h : s.service.step cfg hashApiKey (.system (.limit w delayMs)) = some u) :
    ∃ k, s.service.system.workers w = some k ∧
      u.system = s.service.system.goto w k (afterLimit s.service.now delayMs) := by
  have hstep := System.Step.of_step (Service.step_system h).1
  generalize u.system = v at hstep ⊢
  cases hstep with
  | limit hk _ => exact ⟨_, hk, rfl⟩

theorem unsent_step {error : SendError} {v u : Service}
    (hsend : s.service.step cfg hashApiKey (.system (.send w)) = some v)
    (hanswer : v.step cfg hashApiKey (.system (.answer w (.rejected error))) = some u) :
    ∃ k c, s.service.system.workers w = some k ∧ k.point = .sending c ∧
      ∃ k', u.system.workers w = some k' ∧ k'.point = .settling c (.rejected error) := by
  have hfirst := System.Step.of_step (Service.step_system hsend).1
  have hsecond := System.Step.of_step (Service.step_system hanswer).1
  generalize v.system = b at hfirst hsecond
  generalize u.system = b' at hsecond ⊢
  cases hfirst with
  | @send _ k c hk hp =>
    cases hsecond with
    | @answer _ k' c' _ hk' hp' =>
      have hmoved : k' = { k with point := .awaiting c } := by
        simpa [eq_comm] using hk'
      subst hmoved
      cases hp'
      exact ⟨k, c, hk, hp, _, Function.update_self .., rfl⟩

/-- A claim answers with the job's delivery, so with one of the tenant that has been read. -/
theorem claimed_tenant {db : Database} {now : Time} {d n T : Nat} {delivery : DispatchableDelivery} (hl : db.Linked)
    (hb : db.BelongsTo d T) (hhit : (db.claimForProcessing now d n).2 = some delivery) :
    delivery.event.tenantId = T := by
  obtain ⟨row, hrow, _, _, hclaimed⟩ := hl.claimable_of_claim hhit
  have hevent := (Database.claimForProcessing_answer hhit).2
  have hid : delivery.row.eventId = row.eventId := by
    rw [hclaimed]
    rfl
  rw [hid] at hevent
  exact hb.2 row delivery.event hrow hevent

theorem Checked.service (hs : s.Checked) (hl : s.service.db.Linked) {b : Operation} {u : Service}
    (h : s.service.step cfg hashApiKey b = some u) (hfind : ∀ w, b ≠ .system (.find w)) :
    Checked { s with service := u } := by
  intro w k' hw hp
  rcases Service.step_system_or h with ⟨c, rfl, hc⟩ | ⟨_, db, hdb, _⟩
  · rcases hc.worker_origin hw with hold | ⟨k, p, hold, rfl, hm⟩ | ⟨_, _, _, _, _, hstarted⟩
    · obtain ⟨r, hr, hb, hsame⟩ := hs w k' hold hp
      exact ⟨r, hr, Service.belongsTo_step hl h hb, hsame⟩
    · cases hm with
      | find => exact absurd rfl (hfind w)
      | @limit delayMs hpoint =>
        obtain ⟨r, hr, hb, _⟩ := hs w k hold (by rw [hpoint]; rfl)
        refine ⟨r, hr, Service.belongsTo_step hl h hb, fun c hsending => ?_⟩
        cases delayMs <;> cases hsending
      | claimHit hpoint hhit =>
        obtain ⟨r, hr, hb, _⟩ := hs w k hold (by rw [hpoint]; rfl)
        refine ⟨r, hr, Service.belongsTo_step hl h hb, fun c hsending => ?_⟩
        cases hsending
        exact claimed_tenant hl hb hhit
      | @thrown c result delayMs hpoint =>
        cases ho : s.service.system.outcome cfg c result delayMs <;> simp [ho, OutcomeWrite.onThrow, Point.holding] at hp
      | _ => cases hp
    · rw [hstarted] at hp
      cases hp
  · have hold : s.service.system.workers w = some k' := by
      have hworkers : u.system.workers w = some k' := hw
      rw [hdb] at hworkers
      exact hworkers
    obtain ⟨r, hr, hb, hsame⟩ := hs w k' hold hp
    exact ⟨r, hr, Service.belongsTo_step hl h hb, hsame⟩

theorem Checked.step (hs : s.Checked) (hl : s.service.db.Linked) (h : Step cfg hashApiKey s a t) : t.Checked := by
  cases h with
  | @find w₀ u h =>
    intro w k' hw hp
    by_cases hww : w = w₀
    · subst hww
      obtain ⟨k, hk, _, hu⟩ := find_step h
      have hmoved : u.system.workers w = some k' := hw
      rw [hu, System.goto_workers, Function.update_self, Option.some.injEq] at hmoved
      subst hmoved
      cases hfind : s.service.db.findById k.deliveryId with
      | none =>
        rw [hfind] at hp
        cases hp
      | some delivery =>
        have hfound : s.found w = some ⟨delivery, false⟩ := by simp [found, hk, hfind]
        refine ⟨⟨delivery, false⟩, (Function.update_self ..).trans hfound,
          Service.belongsTo_step hl h (Service.belongsTo_of_find hfind), fun c hsending => ?_⟩
        have hclaimed := System.afterFind_claimed? (some delivery)
        have hpoint : afterFind (some delivery) = .sending c := hsending
        rw [hpoint] at hclaimed
        cases hclaimed
    · have hne : System.worker? (.find w₀) ≠ some w := fun he => hww (Option.some.inj he).symm
      have hold : s.service.system.workers w = some k' := by
        rw [← (System.Step.of_step (Service.step_system h).1).workers_of_ne hne]
        exact hw
      obtain ⟨r, hr, hb, hsame⟩ := hs w k' hold hp
      exact ⟨r, (Function.update_of_ne hww ..).trans hr, Service.belongsTo_step hl h hb, hsame⟩
  | operation _ hfind h => exact hs.service hl h hfind
  | @granted w₀ readAt expired k delivery hw₀ hp₀ _ hr₀ hgranted =>
    intro w k' hw hp
    by_cases hww : w = w₀
    · subst hww
      obtain ⟨r, hr, hb, hsame⟩ := hs w k' hw hp
      rw [hr₀, Option.some.injEq] at hr
      subst hr
      exact ⟨⟨delivery, true⟩, Function.update_self .., hb, hsame⟩
    · obtain ⟨r, hr, hb, hsame⟩ := hs w k' hw hp
      exact ⟨r, (Function.update_of_ne hww ..).trans hr, hb, hsame⟩
  | tenant _ _ _ _ h => exact hs.service hl h (by intro w he; cases he)
  | endpoint _ _ _ _ h => exact hs.service hl h (by intro w he; cases he)
  | @unsent _ _ u _ hsend hanswer =>
    have hsent : Checked { s with service := u } := hs.service hl hsend (by intro w he; cases he)
    exact hsent.service (Service.linked_step hl hsend) hanswer (by intro w he; cases he)

theorem inHand_congr (hw : t.service.system.workers w = s.service.system.workers w)
    (hc : t.checks w = s.checks w) : t.inHand w = s.inHand w := by
  rw [inHand, inHand, holds, holds, hw, hc]

theorem inHand_of_gone (hw : s.service.system.workers w = none) : s.inHand w = [] := by
  simp [inHand, holds, hw]

theorem holds_of_task (hw : s.service.system.workers w = some k) (hr : s.checks w = some r) :
    s.holds w = if k.point.holding r.granted then some r.delivery.event.tenantId else none := by
  simp [holds, hw, hr]

theorem inHand_of_point (hw : s.service.system.workers w = some k) (hp : ∀ b, k.point.holding b = false) :
    s.inHand w = [] := by
  cases hr : s.checks w with
  | none => simp [inHand, holds, hw, hr]
  | some r => simp [inHand, holds_of_task hw hr, hp]

theorem inHand_of_holding (hw : s.service.system.workers w = some k) (hr : s.checks w = some r)
    (hp : k.point.holding r.granted = true) : s.inHand w = [(w, r.delivery.event.tenantId)] := by
  simp [inHand, holds_of_task hw hr, hp]

theorem inHand_eq_nil : s.inHand w = [] ↔ s.holds w = none := by
  cases h : s.holds w <;> simp [inHand, h]

theorem service_workers_of_ne {s t : Service} {b : Operation} (h : s.step cfg hashApiKey b = some t)
    (hb : worker? (.operation b) ≠ some w) : t.system.workers w = s.system.workers w := by
  rcases Service.step_system_or h with ⟨c, rfl, hc⟩ | ⟨_, db, hdb, _⟩
  · exact hc.workers_of_ne hb
  · rw [hdb]

theorem Step.inHand_of_ne (h : Step cfg hashApiKey s a t) (ha : worker? a ≠ some w) :
    t.inHand w = s.inHand w := by
  have hother : ∀ {w₀ : Nat} (v : Option RateCheck), worker? a = some w₀ →
      Function.update s.checks w₀ v w = s.checks w := by
    intro w₀ v ha₀
    refine Function.update_of_ne ?_ ..
    intro heq
    exact ha (heq ▸ ha₀)
  cases h with
  | find h => exact inHand_congr (service_workers_of_ne h ha) (hother _ rfl)
  | operation _ _ h => exact inHand_congr (service_workers_of_ne h ha) rfl
  | granted => exact inHand_congr rfl (hother _ rfl)
  | tenant _ _ _ _ h => exact inHand_congr (service_workers_of_ne h ha) rfl
  | endpoint _ _ _ _ h => exact inHand_congr (service_workers_of_ne h ha) rfl
  | unsent hsend hanswer =>
    exact inHand_congr ((service_workers_of_ne hanswer ha).trans (service_workers_of_ne hsend ha)) rfl

theorem worker_of_mem {x : Nat × Nat} (hx : x ∈ s.takes a t ∨ x ∈ s.requests a t ∨ x ∈ s.wastes a t) :
    worker? a = some x.1 := by
  have hhand : ∀ w, x ∈ s.inHand w → w = x.1 := by
    intro w hmem
    obtain ⟨_, _, rfl⟩ := List.mem_map.mp hmem
    rfl
  rcases hx with hx | hx | hx
  · cases a with
    | checkTenant w readAt expired =>
      obtain ⟨r, _, hx⟩ := List.mem_flatMap.mp hx
      split at hx
      · cases hx
      · rw [List.mem_singleton.mp hx]
        rfl
    | _ => cases hx
  · simp only [requests] at hx
    split at hx
    · obtain ⟨k, _, hx⟩ := List.mem_flatMap.mp hx
      split at hx
      · rw [List.mem_singleton.mp hx]
        rfl
      · cases hx
    · cases hx
  · simp only [wastes] at hx
    split at hx
    · split at hx
      · exact congrArg some (hhand _ hx)
      · cases hx
    · split at hx
      · exact congrArg some (hhand _ hx)
      · cases hx
    · exact congrArg some (hhand _ hx)
    · exact congrArg some (hhand _ hx)
    · cases hx

theorem found_granted (hr : s.found w = some r) : r.granted = false := by
  simp only [found, Option.bind_eq_bind, Option.bind_eq_some_iff, Option.pure_def, Option.some.injEq] at hr
  obtain ⟨_, _, _, _, rfl⟩ := hr
  rfl

theorem inHand_limit {u : Service} {result : RateLimitResult} {delivery : DispatchableDelivery} {granted : Bool}
    (h : s.service.step cfg hashApiKey (.system (.limit w result.delay)) = some u)
    (hr : s.checks w = some ⟨delivery, granted⟩) (ht : t.service = u) (hc : t.checks w = s.checks w) :
    t.inHand w = if result.exceeded then [] else [(w, delivery.event.tenantId)] := by
  obtain ⟨k, _, hu⟩ := limit_step h
  have hworker : t.service.system.workers w =
      some { k with point := afterLimit s.service.now result.delay } := by
    rw [ht, hu, System.goto_workers, Function.update_self]
  cases hexceeded : result.exceeded with
  | false =>
    have hpoint : afterLimit s.service.now result.delay = .claiming := by
      simp [RateLimitResult.delay, hexceeded, afterLimit]
    rw [hpoint] at hworker
    exact inHand_of_holding hworker (hc.trans hr) rfl
  | true =>
    refine inHand_of_point hworker fun b => ?_
    simp [RateLimitResult.delay, hexceeded, afterLimit, Point.holding]

theorem inHand_claim {u : Service} (hs : s.Checked) (h : s.service.step cfg hashApiKey (.system (.claim w)) = some u) :
    ∃ (k : Task) (r : RateCheck), s.service.system.workers w = some k ∧
      s.inHand w = [(w, r.delivery.event.tenantId)] ∧
      inHand { s with service := u } w =
        if (s.service.db.claimForProcessing s.service.now k.deliveryId k.expectedAttempt).2.isSome then
          [(w, r.delivery.event.tenantId)]
        else [] := by
  have hstep := System.Step.of_step (Service.step_system h).1
  generalize hv : u.system = v at hstep
  cases hstep with
  | @claimMiss _ k hw hp hmiss =>
    obtain ⟨r, hr, _⟩ := hs w k hw (by rw [hp]; rfl)
    have hworker : u.system.workers w = some { k with point := .ended true } := by
      rw [hv]
      exact Function.update_self ..
    refine ⟨k, r, hw, inHand_of_holding hw hr (by rw [hp]; rfl), ?_⟩
    rw [hmiss]
    exact inHand_of_point hworker fun _ => rfl
  | @claimHit _ k delivery hw hp hhit =>
    obtain ⟨r, hr, _⟩ := hs w k hw (by rw [hp]; rfl)
    obtain ⟨k', hk', c, hc⟩ : ∃ k', u.system.workers w = some k' ∧ ∃ c, k'.point = .sending c := by
      rw [hv]
      exact ⟨_, Function.update_self .., _, rfl⟩
    refine ⟨k, r, hw, inHand_of_holding hw hr (by rw [hp]; rfl), ?_⟩
    rw [hhit]
    exact inHand_of_holding hk' hr (by rw [hc]; rfl)

theorem Step.account_operation (hs : s.Checked) {b : Operation} {u : Service}
    (hlimit : ∀ w delayMs, b ≠ .system (.limit w delayMs)) (hfind : ∀ w, b ≠ .system (.find w))
    (h : s.service.step cfg hashApiKey b = some u) (hb : worker? (.operation b) = some w) :
    s.inHand w = s.requests (.operation b) { s with service := u } ++
      s.wastes (.operation b) { s with service := u } ++ inHand { s with service := u } w := by
  cases b with
  | system c =>
    have hstep := System.Step.of_step (Service.step_system h).1
    have hgone : u.system.workers w = none → inHand { s with service := u } w = [] := fun hnone =>
      inHand_of_gone hnone
    have hpoint : ∀ {k : Task}, u.system.workers w = some k → (∀ b, k.point.holding b = false) →
        inHand { s with service := u } w = [] := fun hw hp => inHand_of_point hw hp
    have hclaim : c = .claim w →
        s.inHand w = s.wastes (.operation (.system c)) { s with service := u } ++ inHand { s with service := u } w := by
      rintro rfl
      obtain ⟨k, r, _, hbefore, hafter⟩ := inHand_claim hs h
      simp only [wastes, ← inHand_eq_nil, hbefore, hafter]
      split <;> simp
    generalize hv : u.system = v at hstep
    rw [hv] at hgone hpoint
    cases hstep with
    | @take w₀ job j hw _ _ =>
      obtain rfl : w₀ = w := Option.some.inj hb
      rw [inHand_of_gone hw, hpoint (Function.update_self ..) fun _ => rfl]
      rfl
    | find => exact absurd rfl (hfind _)
    | limit => exact absurd rfl (hlimit _ _)
    | @cancel w₀ k hw hp =>
      obtain rfl : w₀ = w := Option.some.inj hb
      rw [inHand_of_point hw (by rw [hp]; exact fun _ => rfl), hpoint (Function.update_self ..) fun _ => rfl]
      rfl
    | @defer w₀ k nextAttemptAt hw hp =>
      obtain rfl : w₀ = w := Option.some.inj hb
      rw [inHand_of_point hw (by rw [hp]; exact fun _ => rfl), hpoint (Function.update_self ..) fun _ => rfl]
      rfl
    | claimMiss | claimHit =>
      rw [worker?, System.worker?, Option.some.injEq] at hb
      subst hb
      exact hclaim rfl
    | @send w₀ k c hw hp =>
      obtain rfl : w₀ = w := Option.some.inj hb
      obtain ⟨r, hr, _, hsame⟩ := hs w₀ k hw (by rw [hp]; rfl)
      have hbefore : s.inHand w₀ = [(w₀, r.delivery.event.tenantId)] :=
        inHand_of_holding hw hr (by rw [hp]; rfl)
      rw [hbefore, hpoint (Function.update_self ..) fun _ => rfl]
      simp [requests, wastes, hw, hp, hsame c hp]
    | @answer w₀ k c result hw hp =>
      obtain rfl : w₀ = w := Option.some.inj hb
      rw [inHand_of_point hw (by rw [hp]; exact fun _ => rfl), hpoint (Function.update_self ..) fun _ => rfl]
      rfl
    | @settle w₀ k c result delayMs hw hp =>
      obtain rfl : w₀ = w := Option.some.inj hb
      rw [inHand_of_point hw (by rw [hp]; exact fun _ => rfl), hpoint (Function.update_self ..) fun b => ?_]
      · rfl
      · show Point.holding b (if _ then _ else _) = false
        split
        · rfl
        · cases s.service.system.outcome cfg c result delayMs <;> rfl
    | @finish w₀ k ok hw hp =>
      obtain rfl : w₀ = w := Option.some.inj hb
      rw [inHand_of_point hw (by rw [hp]; exact fun _ => rfl), hgone (Function.update_self ..)]
      rfl
    | @crash w₀ k hw =>
      obtain rfl : w₀ = w := Option.some.inj hb
      rw [hgone (Function.update_self ..), List.append_nil]
      rfl
    | _ => cases hb
  | _ => cases hb

/-- Of the worker of a step: what it had in hand and takes is what it sends a request for, wastes
or has in hand after it. -/
theorem Step.account (hs : s.Checked) (h : Step cfg hashApiKey s a t) (ha : worker? a = some w) :
    s.takes a t ++ s.inHand w = s.requests a t ++ s.wastes a t ++ t.inHand w := by
  cases h with
  | @find w₀ u h =>
    obtain rfl : w₀ = w := Option.some.inj ha
    obtain ⟨k, hk, hstarted, hu⟩ := find_step h
    have hafter : u.system.workers w₀ = some { k with point := afterFind (s.service.db.findById k.deliveryId) } := by
      rw [hu, System.goto_workers, Function.update_self]
    have hbefore : s.inHand w₀ = [] := inHand_of_point hk (by rw [hstarted]; exact fun _ => rfl)
    have hnone : inHand { s.setCheck w₀ (s.found w₀) with service := u } w₀ = [] := by
      rw [inHand_eq_nil]
      cases hfound : s.found w₀ with
      | none => simp [holds, setCheck, hafter]
      | some r =>
        rw [holds_of_task (s := { s.setCheck w₀ (some r) with service := u }) hafter (Function.update_self ..),
          found_granted hfound, afterFind_holding]
        rfl
    rw [hbefore, hnone]
    rfl
  | operation hlimit hfind h => exact account_operation hs hlimit hfind h ha
  | @granted w₀ readAt expired k delivery hw hp _ hr hgranted =>
    obtain rfl : w₀ = w := Option.some.inj ha
    have hbefore : s.inHand w₀ = [] := by
      rw [inHand_eq_nil, holds_of_task hw hr, hp]
      rfl
    have htaken : ∀ v, s.takes (.checkTenant w₀ readAt expired) v = [(w₀, delivery.event.tenantId)] := by
      simp [takes, hr, hgranted]
    have hafter : inHand ((s.setTenantBucket delivery readAt expired).setCheck w₀ (some ⟨delivery, true⟩)) w₀ =
        [(w₀, delivery.event.tenantId)] :=
      inHand_of_holding (r := ⟨delivery, true⟩) hw (Function.update_self ..) (by rw [hp]; rfl)
    rw [hbefore, hafter, List.append_nil]
    exact htaken _
  | @tenant w₀ readAt expired k delivery u hw hp _ hr h =>
    obtain rfl : w₀ = w := Option.some.inj ha
    have hbefore : s.inHand w₀ = [] := by
      rw [inHand_eq_nil, holds_of_task hw hr, hp]
      rfl
    have hafter : inHand { s.setTenantBucket delivery readAt expired with service := u } w₀ = _ :=
      inHand_limit h hr rfl rfl
    have htaken : ∀ v, s.takes (.checkTenant w₀ readAt expired) v =
        if (s.tenantLimit delivery readAt expired).1.exceeded then [] else [(w₀, delivery.event.tenantId)] := by
      simp [takes, hr]
    rw [hbefore, hafter, List.append_nil]
    exact htaken _
  | @endpoint w₀ readAt expired k delivery u hw hp _ hr h =>
    obtain rfl : w₀ = w := Option.some.inj ha
    have hbefore : s.inHand w₀ = [(w₀, delivery.event.tenantId)] :=
      inHand_of_holding (r := ⟨delivery, true⟩) hw hr (by rw [hp]; rfl)
    have hafter : inHand { s.setEndpointBucket delivery readAt expired with service := u } w₀ = _ :=
      inHand_limit h hr rfl rfl
    simp only [takes, requests, wastes, ← inHand_eq_nil, hbefore, hafter, List.nil_append]
    split <;> simp
  | @unsent w₀ error v u hsend hanswer =>
    obtain rfl : w₀ = w := Option.some.inj ha
    obtain ⟨_, _, _, _, k', hk', hsettling⟩ := unsent_step hsend hanswer
    have hafter : inHand { s with service := u } w₀ = [] :=
      inHand_of_point hk' (by rw [hsettling]; exact fun _ => rfl)
    rw [hafter, List.append_nil]
    rfl

theorem Step.balance (hs : s.Checked) (h : Step cfg hashApiKey s a t) (x : Nat × Nat) :
    (s.takes a t).count x + (s.inHand x.1).count x =
      (s.requests a t).count x + (s.wastes a t).count x + (t.inHand x.1).count x := by
  by_cases ha : worker? a = some x.1
  · have haccount := congrArg (List.count x) (h.account hs ha)
    simpa only [List.count_append] using haccount
  · have htakes : (s.takes a t).count x = 0 := List.count_eq_zero.mpr fun hx => ha (worker_of_mem (.inl hx))
    have hrequests : (s.requests a t).count x = 0 :=
      List.count_eq_zero.mpr fun hx => ha (worker_of_mem (.inr (.inl hx)))
    have hwastes : (s.wastes a t).count x = 0 :=
      List.count_eq_zero.mpr fun hx => ha (worker_of_mem (.inr (.inr hx)))
    rw [htakes, hrequests, hwastes, h.inHand_of_ne ha]

theorem Step.linked (hl : s.service.db.Linked) (h : Step cfg hashApiKey s a t) : t.service.db.Linked := by
  obtain ⟨bs, hbs⟩ := h.service
  exact Transition.run_invariant (I := fun v => v.db.Linked) (fun _ _ _ hl hb => Service.linked_step hl hb) hl hbs

theorem inHand_of_run {as : List ThrottledOperation} (h : Transition.run (Throttled.step cfg hashApiKey) s as = some t)
    (ha : ∀ a ∈ as, worker? a ≠ some w) : t.inHand w = s.inHand w := by
  induction as generalizing s with
  | nil =>
    cases h
    rfl
  | cons a as ih =>
    obtain ⟨u, hu, hrest⟩ := Transition.run_cons_eq_some.mp h
    rw [ih hrest fun b hb => ha b (List.mem_cons_of_mem a hb)]
    exact (Step.of_step hu).inHand_of_ne (ha a List.mem_cons_self)

end Steps

def EndpointGrants (s : Throttled) (delivery : DispatchableDelivery) (readAt : Time) (expired : Bool) : Prop :=
  let call := endpointCall delivery readAt expired
  TokenBucket.grants ((call.finds (s.endpointBuckets delivery.row.endpointId)).map RateBucket.bucket) call.request = true

/-- A worker that has its tenant's token goes on to its request: the endpoint's bucket has a token
as well, the delivery waits for the attempt it is claimed for, its headers and its URL are good,
and the worker does not die. -/
structure SpendsToken (s : Throttled) (a : ThrottledOperation) (_ : Throttled) : Prop where
  endpoint : ∀ w readAt expired delivery, a = .checkEndpoint w readAt expired → s.checks w = some ⟨delivery, true⟩ →
    s.EndpointGrants delivery readAt expired
  claim : ∀ w k, a = .operation (.system (.claim w)) → s.service.system.workers w = some k →
    ∃ r, s.service.db.deliveries.row k.deliveryId = some r ∧ r.claimableAs k.expectedAttempt = true
  sent : ∀ w error, a ≠ .unsent w error
  crash : ∀ w, a = .operation (.system (.crash w)) → s.holds w = none

section Spending

variable {cfg : Config} {hashApiKey : String → String} {s t : Throttled} {a : ThrottledOperation} {w : Nat}

theorem endpointGrants_iff {delivery : DispatchableDelivery} {readAt : Time} {expired : Bool} :
    s.EndpointGrants delivery readAt expired ↔ (s.endpointLimit delivery readAt expired).1.exceeded = false := by
  have hexceeded := (checkRateLimit_eq
    ((endpointCall delivery readAt expired).finds (s.endpointBuckets delivery.row.endpointId))
    (endpointCall delivery readAt expired).limit (endpointCall delivery readAt expired).now).1
  have hlimit : (s.endpointLimit delivery readAt expired).1.exceeded = _ := hexceeded
  rw [hlimit, Bool.not_eq_false']
  rfl

/-- A worker that loses its claim has taken a token for nothing. -/
theorem claim_wastes_iff (hs : s.Checked) (hl : s.service.db.Linked)
    (h : Step cfg hashApiKey s (.operation (.system (.claim w))) t) :
    s.wastes (.operation (.system (.claim w))) t = [] ↔
      ∀ k, s.service.system.workers w = some k →
        ∃ r, s.service.db.deliveries.row k.deliveryId = some r ∧ r.claimableAs k.expectedAttempt = true := by
  cases h with
  | @operation _ u _ _ h =>
    obtain ⟨k, r, hw, hbefore, hafter⟩ := inHand_claim hs h
    have honly : (∀ k', s.service.system.workers w = some k' →
        ∃ r, s.service.db.deliveries.row k'.deliveryId = some r ∧ r.claimableAs k'.expectedAttempt = true) ↔
        ∃ r, s.service.db.deliveries.row k.deliveryId = some r ∧ r.claimableAs k.expectedAttempt = true := by
      simp [hw]
    rw [honly, ← hl.claimForProcessing_isSome s.service.now]
    simp only [wastes, ← inHand_eq_nil, hbefore, hafter]
    cases (s.service.db.claimForProcessing s.service.now k.deliveryId k.expectedAttempt).2.isSome <;> simp

/-- A worker that the endpoint's bucket turns away has taken its tenant's token for nothing. -/
theorem endpoint_wastes_iff {readAt : Time} {expired : Bool}
    (h : Step cfg hashApiKey s (.checkEndpoint w readAt expired) t) :
    s.wastes (.checkEndpoint w readAt expired) t = [] ↔
      ∀ delivery, s.checks w = some ⟨delivery, true⟩ → s.EndpointGrants delivery readAt expired := by
  cases h with
  | @endpoint _ _ _ k delivery u hw hp _ hr h =>
    have hbefore : s.inHand w = [(w, delivery.event.tenantId)] :=
      inHand_of_holding (r := ⟨delivery, true⟩) hw hr (by rw [hp]; rfl)
    have hafter : inHand { s.setEndpointBucket delivery readAt expired with service := u } w = _ :=
      inHand_limit h hr rfl rfl
    have honly : (∀ d, s.checks w = some ⟨d, true⟩ → s.EndpointGrants d readAt expired) ↔
        s.EndpointGrants delivery readAt expired := by
      simp [hr]
    rw [honly, endpointGrants_iff]
    simp only [wastes, ← inHand_eq_nil, hbefore, hafter]
    cases (s.endpointLimit delivery readAt expired).1.exceeded <;> simp

theorem wastes_of_ne (hendpoint : ∀ w readAt expired, a ≠ .checkEndpoint w readAt expired)
    (hclaim : ∀ w, a ≠ .operation (.system (.claim w))) (hunsent : ∀ w error, a ≠ .unsent w error)
    (hcrash : ∀ w, a ≠ .operation (.system (.crash w))) : s.wastes a t = [] ∧ SpendsToken s a t := by
  constructor
  · unfold wastes
    split
    · exact absurd rfl (hendpoint _ _ _)
    · exact absurd rfl (hclaim _)
    · exact absurd rfl (hcrash _)
    · exact absurd rfl (hunsent _ _)
    · rfl
  · refine ⟨?_, ?_, hunsent, ?_⟩
    · intro w readAt expired _ ha
      exact absurd ha (hendpoint w readAt expired)
    · intro w _ ha
      exact absurd ha (hclaim w)
    · intro w ha
      exact absurd ha (hcrash w)

theorem unsent_wastes {error : SendError} (hs : s.Checked) (h : Step cfg hashApiKey s (.unsent w error) t) :
    s.wastes (.unsent w error) t ≠ [] := by
  cases h with
  | unsent hsend hanswer =>
    obtain ⟨k, c, hk, hsending, _⟩ := unsent_step hsend hanswer
    obtain ⟨r, hr, _⟩ := hs w k hk (by rw [hsending]; rfl)
    have hheld : s.inHand w = [(w, r.delivery.event.tenantId)] := inHand_of_holding hk hr (by rw [hsending]; rfl)
    show s.inHand w ≠ []
    rw [hheld]
    exact List.cons_ne_nil _ _

theorem spendsToken_checkEndpoint {readAt : Time} {expired : Bool} :
    SpendsToken s (.checkEndpoint w readAt expired) t ↔ ∀ delivery, s.checks w = some ⟨delivery, true⟩ → s.EndpointGrants delivery readAt expired := by
  constructor
  · intro hspends delivery hr
    exact hspends.endpoint w readAt expired delivery rfl hr
  · intro hgrants
    refine ⟨?_, by simp, by simp, by simp⟩
    intro w' readAt' expired' delivery ha hr
    cases ha
    exact hgrants delivery hr

theorem spendsToken_claim : SpendsToken s (.operation (.system (.claim w))) t ↔
    ∀ k, s.service.system.workers w = some k →
      ∃ r, s.service.db.deliveries.row k.deliveryId = some r ∧ r.claimableAs k.expectedAttempt = true := by
  constructor
  · intro hspends k hw
    exact hspends.claim w k rfl hw
  · intro hclaimable
    refine ⟨by simp, ?_, by simp, by simp⟩
    intro w' k ha hw
    cases ha
    exact hclaimable k hw

theorem spendsToken_crash : SpendsToken s (.operation (.system (.crash w))) t ↔ s.holds w = none := by
  constructor
  · intro hspends
    exact hspends.crash w rfl
  · intro hnone
    refine ⟨by simp, by simp, by simp, ?_⟩
    intro w' ha
    cases ha
    exact hnone

theorem wastes_eq_nil_iff (hs : s.Checked) (hl : s.service.db.Linked) (h : Step cfg hashApiKey s a t) :
    s.wastes a t = [] ↔ SpendsToken s a t := by
  by_cases hendpoint : ∃ w readAt expired, a = .checkEndpoint w readAt expired
  · obtain ⟨w, readAt, expired, rfl⟩ := hendpoint
    rw [endpoint_wastes_iff h, spendsToken_checkEndpoint]
  by_cases hclaim : ∃ w, a = .operation (.system (.claim w))
  · obtain ⟨w, rfl⟩ := hclaim
    rw [claim_wastes_iff hs hl h, spendsToken_claim]
  by_cases hunsent : ∃ w error, a = .unsent w error
  · obtain ⟨w, error, rfl⟩ := hunsent
    exact iff_of_false (unsent_wastes hs h) fun hspends => hspends.sent w error rfl
  by_cases hcrash : ∃ w, a = .operation (.system (.crash w))
  · obtain ⟨w, rfl⟩ := hcrash
    rw [spendsToken_crash]
    exact inHand_eq_nil
  have hrest := wastes_of_ne (s := s) (t := t) (fun w readAt expired he => hendpoint ⟨w, readAt, expired, he⟩)
    (fun w he => hclaim ⟨w, he⟩) (fun w error he => hunsent ⟨w, error, he⟩) fun w he => hcrash ⟨w, he⟩
  exact iff_of_true hrest.1 hrest.2

end Spending

def tokensTaken (cfg : Config) (hashApiKey : String → String) (s : Throttled) (as : List ThrottledOperation)
    (tenantId : Nat) : Nat :=
  (Transition.collect (step cfg hashApiKey) takes s as).countP (·.2 = tenantId)

def requestsSent (cfg : Config) (hashApiKey : String → String) (s : Throttled) (as : List ThrottledOperation)
    (tenantId : Nat) : Nat :=
  (Transition.collect (step cfg hashApiKey) requests s as).countP (·.2 = tenantId)

/-- Of a run whose executions are all over, each tenant's tokens are its requests just when every
worker that has taken one gets to its request. -/
theorem tokens_spent_iff (cfg : Config) (hashApiKey : String → String) (s t : Throttled)
    (as : List ThrottledOperation) (hstart : ∀ w, s.service.system.workers w = none) (hl : s.service.db.Linked)
    (h : Transition.run (step cfg hashApiKey) s as = some t) (hend : ∀ w, t.holds w = none) :
    (∀ tenantId, tokensTaken cfg hashApiKey s as tenantId = requestsSent cfg hashApiKey s as tenantId) ↔
      Transition.Along (step cfg hashApiKey) SpendsToken s as := by
  have hchecked : s.Checked := by
    intro w k hw
    rw [hstart w] at hw
    cases hw
  have hkeeps : ∀ s a t, s.Checked ∧ s.service.db.Linked → step cfg hashApiKey s a = some t →
      t.Checked ∧ t.service.db.Linked := fun s a t hs hstep =>
    ⟨hs.1.step hs.2 (.of_step hstep), Step.linked hs.2 (.of_step hstep)⟩
  have hbalance : ∀ s a t (x : Nat × Nat), s.Checked ∧ s.service.db.Linked → step cfg hashApiKey s a = some t →
      (s.takes a t).count x + (s.inHand x.1).count x =
        (s.requests a t).count x + (s.wastes a t).count x + (t.inHand x.1).count x :=
    fun s a t x hs hstep => Step.balance hs.1 (.of_step hstep) x
  have hnothing : ∀ x : Nat × Nat, (s.inHand x.1).count x = 0 ∧ (t.inHand x.1).count x = 0 := by
    intro x
    rw [inHand_of_gone (hstart x.1), inHand_eq_nil.mpr (hend x.1)]
    exact ⟨rfl, rfl⟩
  have hbooks := Transition.spends_all_iff (P := fun _ _ _ => True) Prod.snd hkeeps
    (fun s a t x hs hstep _ => hbalance s a t x hs hstep) ⟨hchecked, hl⟩
    (Transition.along_of_mem fun _ _ _ _ => trivial) h (fun x => (hnothing x).1) fun x => (hnothing x).2
  refine Iff.trans hbooks ?_
  exact Transition.along_congr hkeeps (fun s a t hs hstep => wastes_eq_nil_iff hs.1 hs.2 (.of_step hstep))
    ⟨hchecked, hl⟩

/-! One tenant, with one endpoint that may take a request a second. -/

def metered (endpointBucket : Option RateBucket) : Throttled where
  service := .boot
    { tenants := Table.empty.insert ⟨"tenant", "hash", 100, true⟩
      endpoints := Table.empty.insert ⟨0, "https://example.com", "whsec", none, none, some 1, true, 0⟩
      subscriptions := [⟨0, "*"⟩]
      now := 0 }
  tenantBuckets := fun _ => none
  endpointBuckets := fun _ => endpointBucket
  checks := fun _ => none

def acts (as : List Act) : List ThrottledOperation := as.map fun a => .operation (.system a)

/-- A worker takes the delivery's job and asks for both tokens. -/
def checkedRun : List ThrottledOperation :=
  acts (Script.ingest ++ Script.publish 0 ++ [.take 0 (jobId 0 0), .find 0]) ++
    [.checkTenant 0 0 false, .checkEndpoint 0 0 false]

def sentRun : List ThrottledOperation :=
  checkedRun ++ acts ([.claim 0] ++ Script.answer 0 200 ++ [.settle 0 0, .finish 0])

def turnedAwayRun : List ThrottledOperation := checkedRun ++ acts [.defer 0, .finish 0]

def ending (endpointBucket : Option RateBucket) (as : List ThrottledOperation) : Throttled :=
  (Transition.run (step .defaults id) (metered endpointBucket) as).getD (metered endpointBucket)

theorem run_ending {endpointBucket : Option RateBucket} {as : List ThrottledOperation}
    (h : (Transition.run (step .defaults id) (metered endpointBucket) as).isSome = true) :
    Transition.run (step .defaults id) (metered endpointBucket) as = some (ending endpointBucket as) := by
  obtain ⟨t, ht⟩ := Option.isSome_iff_exists.mp h
  simp [ending, ht]

theorem ending_holds {endpointBucket : Option RateBucket} {as : List ThrottledOperation}
    (h : (Transition.run (step .defaults id) (metered endpointBucket) as).isSome = true)
    (hzero : (ending endpointBucket as).holds 0 = none) (hworker : ∀ a ∈ as, ∀ w ∈ worker? a, w = 0) (w : Nat) :
    (ending endpointBucket as).holds w = none := by
  by_cases hw : w = 0
  · rw [hw]
    exact hzero
  · rw [← inHand_eq_nil, inHand_of_run (run_ending h) fun a ha hwa => hw (hworker a ha w hwa)]
    exact inHand_of_gone rfl

theorem tokens_spent_sent :
    Transition.Along (step .defaults id) SpendsToken (metered none) sentRun := by
  have hrun : (Transition.run (step .defaults id) (metered none) sentRun).isSome = true := by decide +kernel
  have htaken : Transition.collect (step .defaults id) takes (metered none) sentRun = [(0, 0)] := by decide +kernel
  have hsent : Transition.collect (step .defaults id) requests (metered none) sentRun = [(0, 0)] := by
    decide +kernel
  refine (tokens_spent_iff .defaults id (metered none) _ sentRun (fun _ => rfl) (System.boot_linked _)
    (run_ending hrun) (ending_holds hrun (by decide +kernel) (by decide +kernel))).mp fun tenantId => ?_
  rw [tokensTaken, requestsSent, htaken, hsent]

/-- The endpoint's bucket is empty: the tenant's token is gone and no request is sent. -/
theorem token_taken_turned_away :
    ¬ ∀ (cfg : Config) (hashApiKey : String → String) (s t : Throttled) (as : List ThrottledOperation),
      (∀ w, s.service.system.workers w = none) → s.service.db.Linked →
      Transition.run (step cfg hashApiKey) s as = some t → (∀ w, t.holds w = none) →
      ∀ tenantId, tokensTaken cfg hashApiKey s as tenantId = requestsSent cfg hashApiKey s as tenantId := by
  intro h
  have hrun : (Transition.run (step .defaults id) (metered (some ⟨0, 0⟩)) turnedAwayRun).isSome = true := by
    decide +kernel
  have hsame := h .defaults id (metered (some ⟨0, 0⟩)) _ turnedAwayRun (fun _ => rfl) (System.boot_linked _)
    (run_ending hrun) (ending_holds hrun (by decide +kernel) (by decide +kernel)) 0
  have htaken : tokensTaken .defaults id (metered (some ⟨0, 0⟩)) turnedAwayRun 0 = 1 := by decide +kernel
  have hsent : requestsSent .defaults id (metered (some ⟨0, 0⟩)) turnedAwayRun 0 = 0 := by decide +kernel
  omega

end Throttled

end WebhookEngine
