import WebhookEngine.History
import WebhookEngine.ResponseText
import WebhookEngine.TerminalStatus

/-! What stands behind a recorded outcome: an answer to a request that was sent for the delivery,
or an endpoint that a worker found inactive. -/

namespace WebhookEngine

open Relational

namespace SendResult

def statusCode : SendResult → Nat
  | .resolved status _ => status
  | .rejected e => e.statusCode

def snippet (cfg : Config) : SendResult → String
  | .resolved status data => successSnippet cfg status data
  | .rejected e => failureSnippet cfg e

end SendResult

def Delivery.Records (cfg : Config) (r : Delivery) (result : SendResult) : Prop :=
  r.httpStatusCode = some result.statusCode ∧ r.responseSnippet = some (result.snippet cfg)

/-- A failure that is not tried again. -/
def Claimed.Exhausts (cfg : Config) (c : Claimed) (e : SendError) : Prop :=
  cfg.maxAttempts ≤ c.expectedAttempt ∨ isRetryable e.statusCode = false

/-- What the outcome columns of a delivery say has happened, given the answers and whether its
endpoint was found inactive. -/
structure Truthful (cfg : Config) (answered : Claimed → SendResult → Prop) (inactive : Prop) (d : Nat)
    (r : Delivery) : Prop where
  success : r.status = .success → ∃ c status data, c.delivery.id = d ∧ answered c (.resolved status data) ∧
    r.Records cfg (.resolved status data)
  deadLetter : r.status = .dlq → ∃ c e, c.delivery.id = d ∧ answered c (.rejected e) ∧ c.Exhausts cfg e ∧
    r.Records cfg (.rejected e)
  cancelled : r.status = .cancelled → inactive ∧ r.responseSnippet = some "Endpoint is inactive"
  code : ∀ code ∈ r.httpStatusCode, ∃ c result, c.delivery.id = d ∧ answered c result ∧ result.statusCode = code
  snippet : ∀ text ∈ r.responseSnippet, (inactive ∧ text = "Endpoint is inactive") ∨
    ∃ c result, c.delivery.id = d ∧ answered c result ∧ r.Records cfg result

/-- What a transaction writes about an outcome has happened. -/
def Txn.Evidenced (cfg : Config) (answered : Claimed → SendResult → Prop) (inactive : Nat → Prop) : Txn → Prop
  | .markSuccess id statusCode responseSnippet => ∃ c data, c.delivery.id = id ∧
      answered c (.resolved statusCode data) ∧ responseSnippet = successSnippet cfg statusCode data
  | .markDeadLetter id statusCode responseSnippet => ∃ c e, c.delivery.id = id ∧ answered c (.rejected e) ∧
      c.Exhausts cfg e ∧ statusCode = e.statusCode ∧ responseSnippet = failureSnippet cfg e
  | .markFailedAndSchedule input => ∃ c e, c.delivery.id = input.id ∧ answered c (.rejected e) ∧
      input.statusCode = e.statusCode ∧ input.responseSnippet = failureSnippet cfg e
  | .markCancelled id reason => inactive id ∧ reason = "Endpoint is inactive"
  | _ => True

/-- A write by identifier commits only where it finds its row. -/
theorem Txn.row_of_overwrites {cfg : Config} {now : Time} {db db' : Database} {x : Txn} {d : Nat} {st : DeliveryStatus}
    (h : x.overwrites = some (d, st)) (happ : x.apply cfg now db = some db') : ∃ r, db.deliveries.row d = some r := by
  cases x <;> simp only [overwrites, Option.some.injEq, Prod.mk.injEq, reduceCtorEq] at h
  all_goals obtain ⟨rfl, rfl⟩ := h
  case markSuccess | markDeadLetter | markCancelled =>
    obtain ⟨r, hr, _⟩ := Database.settle_eq_some.mp happ
    exact ⟨r, hr⟩
  case markFailedAndSchedule | markRateLimitedAndSchedule =>
    obtain ⟨r, hr, _⟩ := Database.schedule_eq_some.mp happ
    exact ⟨r, hr⟩

/-- The ledger is about deliveries and the history, not about endpoints and tenants. -/
theorem Ledger.written {s : System} {db : Database} (hl : Ledger s) (hlinked : db.Linked)
    (hdeliveries : db.deliveries = s.db.deliveries) : Ledger { s with db := db } where
  linked := hlinked
  rows d r hr := hl.rows d r (hdeliveries ▸ hr)
  unborn d hd := hl.unborn d (hdeliveries ▸ hd)
  orderly := hl.orderly
  workers := hl.workers
  unsent := hl.unsent

namespace Truthful

variable {cfg : Config} {answered answered' : Claimed → SendResult → Prop} {inactive inactive' : Prop} {d : Nat}
  {r : Delivery}

theorem mono (h : Truthful cfg answered inactive d r) (ha : ∀ c result, answered c result → answered' c result)
    (hi : inactive → inactive') : Truthful cfg answered' inactive' d r where
  success hst := by
    obtain ⟨c, status, data, hid, hans, hrec⟩ := h.success hst
    exact ⟨c, status, data, hid, ha _ _ hans, hrec⟩
  deadLetter hst := by
    obtain ⟨c, e, hid, hans, hrest⟩ := h.deadLetter hst
    exact ⟨c, e, hid, ha _ _ hans, hrest⟩
  cancelled hst := ⟨hi (h.cancelled hst).1, (h.cancelled hst).2⟩
  code code hcode := by
    obtain ⟨c, result, hid, hans, heq⟩ := h.code code hcode
    exact ⟨c, result, hid, ha _ _ hans, heq⟩
  snippet text htext := by
    rcases h.snippet text htext with ⟨hfound, heq⟩ | ⟨c, result, hid, hans, hrec⟩
    · exact .inl ⟨hi hfound, heq⟩
    · exact .inr ⟨c, result, hid, ha _ _ hans, hrec⟩

theorem of_none (hst : r.status ≠ .success ∧ r.status ≠ .dlq ∧ r.status ≠ .cancelled)
    (hcode : r.httpStatusCode = none) (hsnippet : r.responseSnippet = none) : Truthful cfg answered inactive d r where
  success h := absurd h hst.1
  deadLetter h := absurd h hst.2.1
  cancelled h := absurd h hst.2.2
  code code h := by
    rw [hcode] at h
    cases h
  snippet text h := by
    rw [hsnippet] at h
    cases h

theorem reopened (h : Truthful cfg answered inactive d r) {r' : Delivery}
    (hst : r'.status ≠ .success ∧ r'.status ≠ .dlq ∧ r'.status ≠ .cancelled)
    (hcode : r'.httpStatusCode = r.httpStatusCode) (hsnippet : r'.responseSnippet = r.responseSnippet) :
    Truthful cfg answered inactive d r' where
  success hs := absurd hs hst.1
  deadLetter hs := absurd hs hst.2.1
  cancelled hs := absurd hs hst.2.2
  code code hc := h.code code (hcode ▸ hc)
  snippet text ht := by
    simp only [Delivery.Records, hcode, hsnippet]
    exact h.snippet text (hsnippet ▸ ht)

theorem recorded {c : Claimed} {result : SendResult} (hid : c.delivery.id = d) (hans : answered c result)
    (hrec : r.Records cfg result)
    (hsuccess : r.status = .success → ∃ status data, result = .resolved status data)
    (hdead : r.status = .dlq → ∃ e, result = .rejected e ∧ c.Exhausts cfg e) (hcancel : r.status ≠ .cancelled) :
    Truthful cfg answered inactive d r where
  success hst := by
    obtain ⟨status, data, rfl⟩ := hsuccess hst
    exact ⟨c, status, data, hid, hans, hrec⟩
  deadLetter hst := by
    obtain ⟨e, rfl, hex⟩ := hdead hst
    exact ⟨c, e, hid, hans, hex, hrec⟩
  cancelled hst := absurd hst hcancel
  code code hc := by
    rw [hrec.1, Option.mem_some_iff] at hc
    exact ⟨c, result, hid, hans, hc⟩
  snippet _ _ := .inr ⟨c, result, hid, hans, hrec⟩

theorem rewrite {x : Txn} {now : Time} {inactive : Nat → Prop} (h : Truthful cfg answered (inactive d) d r)
    (hx : x.Evidenced cfg answered inactive) : Truthful cfg answered (inactive d) d (x.rewrite now d r) := by
  cases x with
  | claimForProcessing id expectedAttempt =>
    simp only [Txn.rewrite]
    split
    · exact h.reopened (by simp [Delivery.claim]) rfl rfl
    · exact h
  | markSuccess id statusCode responseSnippet =>
    simp only [Txn.rewrite]
    split
    · rename_i hd
      obtain ⟨c, data, hid, hans, rfl⟩ := hx
      exact recorded (hid.trans hd.symm) hans ⟨rfl, rfl⟩ (fun _ => ⟨_, _, rfl⟩) (by simp [Delivery.succeed])
        (by simp [Delivery.succeed])
    · exact h
  | markDeadLetter id statusCode responseSnippet =>
    simp only [Txn.rewrite]
    split
    · rename_i hd
      obtain ⟨c, e, hid, hans, hex, rfl, rfl⟩ := hx
      exact recorded (hid.trans hd.symm) hans ⟨rfl, rfl⟩ (by simp [Delivery.deadLetter]) (fun _ => ⟨e, rfl, hex⟩)
        (by simp [Delivery.deadLetter])
    · exact h
  | markCancelled id reason =>
    simp only [Txn.rewrite]
    split
    · rename_i hd
      subst hd
      obtain ⟨hfound, rfl⟩ := hx
      exact ⟨by simp [Delivery.cancel], by simp [Delivery.cancel], fun _ => ⟨hfound, rfl⟩, h.code,
        fun text ht => .inl ⟨hfound, (Option.some.inj ht).symm⟩⟩
    · exact h
  | markFailedAndSchedule input =>
    simp only [Txn.rewrite]
    split
    · rename_i hd
      obtain ⟨c, e, hid, hans, hcode, hsnippet⟩ := hx
      have hrecords : (r.fail input).Records cfg (.rejected e) := ⟨congrArg some hcode, congrArg some hsnippet⟩
      exact recorded (hid.trans hd.symm) hans hrecords (by simp [Delivery.fail]) (by simp [Delivery.fail])
        (by simp [Delivery.fail])
    · exact h
  | markRateLimitedAndSchedule id nextAttemptAt attemptNumber =>
    simp only [Txn.rewrite]
    split
    · exact h.reopened (by simp [Delivery.rateLimit]) rfl rfl
    · exact h
  | recoverStaleDelivery id attempts cutoff =>
    simp only [Txn.rewrite]
    split
    · exact h.reopened (by simp [Delivery.recover]) rfl rfl
    · exact h
  | resetForReplay id =>
    simp only [Txn.rewrite]
    split
    · exact of_none (by simp [Delivery.reset]) rfl rfl
    · exact h
  | _ => exact h

end Truthful

namespace Service

/-- A worker that had sent the request of its claim was given the result. -/
def Answered (cfg : Config) (hashApiKey : String → String) (u : Setup) (as : List Operation) (c : Claimed)
    (result : SendResult) : Prop :=
  ∃ before w after v k, as = before ++ .system (.answer w result) :: after ∧ Reached cfg hashApiKey u before v ∧
    v.system.workers w = some k ∧ k.point = .awaiting c ∧ .requested (c.claim w) ∈ v.system.trace

/-- A worker that was to make the delivery found its endpoint inactive. -/
def FoundInactive (cfg : Config) (hashApiKey : String → String) (u : Setup) (as : List Operation) (d : Nat) : Prop :=
  ∃ before w after v k delivery, as = before ++ .system (.find w) :: after ∧ Reached cfg hashApiKey u before v ∧
    v.system.workers w = some k ∧ k.deliveryId = d ∧ v.db.findById d = some delivery ∧
    delivery.endpoint.isActive = false

variable {cfg : Config} {hashApiKey : String → String} {u : Setup} {s t : Service} {a : Operation} {b : Act}
  {as : List Operation} {c : Claimed} {result : SendResult} {d w : Nat} {k k' : Task}

theorem Answered.concat (h : Answered cfg hashApiKey u as c result) (a : Operation) :
    Answered cfg hashApiKey u (as ++ [a]) c result := by
  obtain ⟨before, w, after, v, k, rfl, hrest⟩ := h
  exact ⟨before, w, after ++ [a], v, k, by simp, hrest⟩

theorem FoundInactive.concat (h : FoundInactive cfg hashApiKey u as d) (a : Operation) :
    FoundInactive cfg hashApiKey u (as ++ [a]) d := by
  obtain ⟨before, w, after, v, k, delivery, rfl, hrest⟩ := h
  exact ⟨before, w, after ++ [a], v, k, delivery, by simp, hrest⟩

theorem row_stays_none (h : s.step cfg hashApiKey a = some t) (hlt : d < s.db.deliveries.next)
    (hrow : s.db.deliveries.row d = none) : t.db.deliveries.row d = none := by
  cases hr : t.db.deliveries.row d with
  | none => rfl
  | some r' =>
    rcases delivery_origin h hr with ⟨r, hr₀, _⟩ | ⟨_, _, _, _, _, _, hge, _⟩
    · rw [hrow] at hr₀
      cases hr₀
    · exact absurd hlt (not_lt.mpr hge)

/-- What a run has seen of its workers' answers, and what its rows say about them. A success that
could not be written is classified as a failure of a delivery that is gone. -/
structure Evident (cfg : Config) (hashApiKey : String → String) (u : Setup) (as : List Operation) (s : Service) :
    Prop where
  ledger : Ledger s.system
  born : ∀ w k c, s.system.workers w = some k → k.point.claimed? = some c → c.delivery.id < s.db.deliveries.next
  requested : ∀ w k c, s.system.workers w = some k → k.point = .awaiting c → .requested (c.claim w) ∈ s.system.trace
  cancelling : ∀ w k, s.system.workers w = some k → k.point = .cancelling →
    FoundInactive cfg hashApiKey u as k.deliveryId
  settling : ∀ w k c result, s.system.workers w = some k → k.point = .settling c result →
    Answered cfg hashApiKey u as c result ∨
      result = .rejected recordNotFound ∧ s.db.deliveries.row c.delivery.id = none
  rows : ∀ d r, s.db.deliveries.row d = some r →
    Truthful cfg (Answered cfg hashApiKey u as) (FoundInactive cfg hashApiKey u as d) d r

namespace Evident

/-- A transaction that commits writes of an outcome only what has happened. -/
theorem evidenced (he : Evident cfg hashApiKey u as s) {v : System} (h : s.system.Step cfg b v) {x : Txn}
    (hx : s.system.txn cfg b = some x) (hok : s.system.ok cfg b = true) :
    x.Evidenced cfg (Answered cfg hashApiKey u as) (FoundInactive cfg hashApiKey u as) := by
  have happ := System.store_of_ok hx hok
  have hanswered {w : Nat} {k : Task} {c : Claimed} {result : SendResult} (hw : s.system.workers w = some k)
      (hp : k.point = .settling c result) {st : DeliveryStatus} (ho : x.overwrites = some (c.delivery.id, st)) :
      Answered cfg hashApiKey u as c result := by
    rcases he.settling w k c result hw hp with hans | ⟨_, hnone⟩
    · exact hans
    · obtain ⟨r, hr⟩ := Txn.row_of_overwrites ho happ
      rw [Service.db, hr] at hnone
      cases hnone
  cases System.attempts_of_txn hx with
  | @cancel w k hw =>
    cases h with
    | cancel hw' hp =>
      rw [hw, Option.some.injEq] at hw'
      subst hw'
      exact ⟨he.cancelling w k hw hp, rfl⟩
  | @success w delayMs k c result code snippet hw hp ho =>
    have hans := hanswered hw hp rfl
    cases result with
    | resolved status data =>
      cases ho
      exact ⟨c, data, rfl, hans, rfl⟩
    | rejected e =>
      simp only [System.outcome, outcomeWrite] at ho
      split at ho <;> cases ho
  | @deadLetter w delayMs k c result code snippet hw hp ho =>
    have hans := hanswered hw hp rfl
    cases result with
    | resolved => cases ho
    | rejected e =>
      simp only [System.outcome, outcomeWrite] at ho
      split at ho
      · rename_i hfinal
        cases ho
        refine ⟨c, e, rfl, hans, ?_, rfl, rfl⟩
        rw [(he.ledger.workers w k c hw (by rw [hp]; rfl)).1] at hfinal
        simpa [Claimed.Exhausts] using hfinal
      · cases ho
  | @retry w delayMs k c result input hw hp ho =>
    cases result with
    | resolved => cases ho
    | rejected e =>
      simp only [System.outcome, outcomeWrite] at ho
      split at ho
      · cases ho
      · cases ho
        exact ⟨c, e, rfl, hanswered hw hp rfl, rfl, rfl⟩
  | _ => trivial

theorem requested_step (he : Evident cfg hashApiKey u as s) (h : s.system.Step cfg b t.system)
    (hk' : t.system.workers w = some k') (hp' : k'.point = .awaiting c) :
    .requested (c.claim w) ∈ t.system.trace := by
  rcases h.worker_origin hk' with hold | ⟨k, p, hold, rfl, hm⟩ | ⟨_, _, _, _, _, hstarted⟩
  · exact he.ledger.trace_mono h (he.requested w k' c hold hp')
  · cases hm with
    | find =>
      have hnone := System.afterFind_claimed? (s.system.db.findById k.deliveryId)
      rw [show afterFind (s.system.db.findById k.deliveryId) = .awaiting c from hp'] at hnone
      cases hnone
    | @limit delayMs => cases delayMs <;> cases hp'
    | @send c₀ hp =>
      cases hp'
      generalize hv : t.system = v at h
      cases h with
      | send hw hp₀ =>
        rw [hold, Option.some.injEq] at hw
        subst hw
        rw [hp, Point.sending.injEq] at hp₀
        subst hp₀
        exact List.mem_cons_self
    | @thrown c₀ result delayMs _ =>
      cases ho : s.system.outcome cfg c₀ result delayMs <;> simp [ho, OutcomeWrite.onThrow] at hp'
    | _ => cases hp'
  · rw [hstarted] at hp'
    cases hp'

theorem cancelling_step (hs : Reached cfg hashApiKey u as s) (he : Evident cfg hashApiKey u as s)
    (h : s.system.Step cfg b t.system) (hk' : t.system.workers w = some k') (hp' : k'.point = .cancelling) :
    FoundInactive cfg hashApiKey u (as ++ [.system b]) k'.deliveryId := by
  rcases h.worker_origin hk' with hold | ⟨k, p, hold, rfl, hm⟩ | ⟨_, _, _, _, _, hstarted⟩
  · exact (he.cancelling w k' hold hp').concat _
  · cases hm with
    | find hp =>
      have hfind : afterFind (s.db.findById k.deliveryId) = .cancelling := hp'
      cases hdelivery : s.db.findById k.deliveryId with
      | none =>
        rw [hdelivery] at hfind
        cases hfind
      | some delivery =>
        rw [hdelivery, afterFind] at hfind
        split at hfind
        · cases hfind
        · split at hfind
          · rename_i hinactive
            exact ⟨as, w, [], s, k, delivery, rfl, hs, hold, rfl, hdelivery, by simpa using hinactive⟩
          · cases hfind
    | @limit delayMs => cases delayMs <;> cases hp'
    | @thrown c₀ result delayMs _ =>
      cases ho : s.system.outcome cfg c₀ result delayMs <;> simp [ho, OutcomeWrite.onThrow] at hp'
    | _ => cases hp'
  · rw [hstarted] at hp'
    cases hp'

theorem settling_step (hs : Reached cfg hashApiKey u as s) (he : Evident cfg hashApiKey u as s)
    (h : s.step cfg hashApiKey (.system b) = some t) (hk' : t.system.workers w = some k')
    (hp' : k'.point = .settling c result) :
    Answered cfg hashApiKey u (as ++ [.system b]) c result ∨
      result = .rejected recordNotFound ∧ t.db.deliveries.row c.delivery.id = none := by
  have hstep := System.Step.of_step (step_system h).1
  rcases hstep.worker_origin hk' with hold | ⟨k, p, hold, rfl, hm⟩ | ⟨_, _, _, _, _, hstarted⟩
  · rcases he.settling w k' c result hold hp' with hans | ⟨heq, hnone⟩
    · exact .inl (hans.concat _)
    · exact .inr ⟨heq, row_stays_none h (he.born w k' c hold (by rw [hp']; rfl)) hnone⟩
  · cases hm with
    | find =>
      have hnone := System.afterFind_claimed? (s.system.db.findById k.deliveryId)
      rw [show afterFind (s.system.db.findById k.deliveryId) = .settling c result from hp'] at hnone
      cases hnone
    | @limit delayMs => cases delayMs <;> cases hp'
    | @answer c₀ result₀ hp =>
      cases hp'
      exact .inl ⟨as, w, [], s, k, rfl, hs, hold, hp, he.requested w k c hold hp⟩
    | @thrown c₀ result₀ delayMs hp =>
      -- the write of a success throws only where the row is gone
      right
      have hthrows : s.system.ok cfg (.settle w delayMs) = false := by
        rw [← Bool.not_eq_true]
        intro hok
        have hends := hstep.settle_ends hold hok
        rw [hk', Option.some.injEq] at hends
        rw [hends] at hp'
        cases hp'
      cases ho : s.system.outcome cfg c₀ result₀ delayMs with
      | success code snippet =>
        simp only [ho, OutcomeWrite.onThrow, Point.settling.injEq] at hp'
        obtain ⟨rfl, rfl⟩ := hp'
        refine ⟨rfl, row_stays_none h (he.born w k c₀ hold (by rw [hp]; rfl)) ?_⟩
        cases hr : s.db.deliveries.row c₀.delivery.id with
        | none => rfl
        | some r =>
          have hcommits : ((Txn.markSuccess c₀.delivery.id code snippet).apply cfg s.system.now s.db).isSome = true :=
            Txn.apply_of_overwrites he.ledger.linked rfl hr
          have hx : s.system.txn cfg (.settle w delayMs) = some (.markSuccess c₀.delivery.id code snippet) := by
            simp only [System.txn, hold, Option.bind_some, hp, ho, OutcomeWrite.txn]
          rw [System.ok, hx, Option.all_some] at hthrows
          rw [hthrows] at hcommits
          cases hcommits
      | deadLetter => simp [ho, OutcomeWrite.onThrow] at hp'
      | retry => simp [ho, OutcomeWrite.onThrow] at hp'
    | _ => cases hp'
  · rw [hstarted] at hp'
    cases hp'

theorem born_step (he : Evident cfg hashApiKey u as s) (h : s.step cfg hashApiKey (.system b) = some t)
    (hk' : t.system.workers w = some k') (hp' : k'.point.claimed? = some c) :
    c.delivery.id < t.db.deliveries.next := by
  refine lt_of_lt_of_le ?_ (deliveries_next_le h)
  rcases (System.Step.of_step (step_system h).1).claimed_origin hk' hp' with
    ⟨k, hk, hp, _⟩ | ⟨k, delivery, _, _, _, hhit, _, _, rfl⟩
  · exact he.born w k c hk hp
  · obtain ⟨r, hr, _, hid, _⟩ := he.ledger.linked.claimable_of_claim hhit
    have hlt := Table.lt_next hr
    rwa [← hid] at hlt

theorem rows_step (he : Evident cfg hashApiKey u as s) (h : s.step cfg hashApiKey a = some t) {r' : Delivery}
    (hr' : t.db.deliveries.row d = some r') :
    Truthful cfg (Answered cfg hashApiKey u (as ++ [a])) (FoundInactive cfg hashApiKey u (as ++ [a]) d) d r' := by
  have hlater {r : Delivery}
      (hr : Truthful cfg (Answered cfg hashApiKey u as) (FoundInactive cfg hashApiKey u as d) d r) :
      Truthful cfg (Answered cfg hashApiKey u (as ++ [a])) (FoundInactive cfg hashApiKey u (as ++ [a]) d) d r :=
    hr.mono (fun _ _ hans => hans.concat a) (fun hfound => hfound.concat a)
  rcases step_system_or h with ⟨b, rfl, hstep⟩ | ⟨_, db, hdb, hw⟩
  · rcases hstep.row_origin hr' with ⟨r, hr, rfl | ⟨x, hx, hok, rfl⟩⟩ | ⟨_, e, ep, rfl⟩
    · exact hlater (he.rows d _ hr)
    · exact hlater ((he.rows d r hr).rewrite (he.evidenced hstep hx hok))
    · exact .of_none (by simp [Delivery.created]) rfl rfl
  · rw [Service.db, hdb, hw.pipeline.2.1] at hr'
    exact hlater (he.rows d r' hr')

theorem step (hs : Reached cfg hashApiKey u as s) (he : Evident cfg hashApiKey u as s)
    (h : s.step cfg hashApiKey a = some t) : Evident cfg hashApiKey u (as ++ [a]) t := by
  rcases step_system_or h with ⟨b, rfl, hstep⟩ | ⟨_, db, hdb, hw⟩
  · exact
      { ledger := he.ledger.step hstep
        born := fun _ _ _ hk hp => he.born_step h hk hp
        requested := fun _ _ _ hk hp => he.requested_step hstep hk hp
        cancelling := fun _ _ hk hp => he.cancelling_step hs hstep hk hp
        settling := fun _ _ _ _ hk hp => he.settling_step hs h hk hp
        rows := fun _ _ hr => he.rows_step h hr }
  · have hledger : Ledger t.system := by
      have hlinked := linked_step he.ledger.linked h
      rw [Service.db, hdb] at hlinked
      rw [hdb]
      exact he.ledger.written hlinked hw.pipeline.2.1
    have hworkers : t.system.workers = s.system.workers := by rw [hdb]
    have htrace : t.system.trace = s.system.trace := by rw [hdb]
    refine ⟨hledger, ?_, ?_, ?_, ?_, fun d r hr => he.rows_step h hr⟩ <;> rw [hworkers]
    · exact fun w k c hk hp => (he.born w k c hk hp).trans_le (deliveries_next_le h)
    · rw [htrace]
      exact he.requested
    · exact fun w k hk hp => (he.cancelling w k hk hp).concat a
    · intro w k c result hk hp
      rcases he.settling w k c result hk hp with hans | ⟨heq, hnone⟩
      · exact .inl (hans.concat a)
      · exact .inr ⟨heq, row_stays_none h (he.born w k c hk (by rw [hp]; rfl)) hnone⟩

theorem boot (u : Setup) : Evident cfg hashApiKey u [] (boot u) where
  ledger := Ledger.boot u
  born _ _ _ hk := by cases hk
  requested _ _ _ hk := by cases hk
  cancelling _ _ hk := by cases hk
  settling _ _ _ _ hk := by cases hk
  rows _ _ hr := by cases hr

end Evident

/-- Whatever the store says of a delivery's outcome, the run has seen: a success was answered with
that status, a dead letter with a failure that is final, a cancelled delivery had an inactive endpoint. -/
theorem outcomes_witnessed (h : Reached cfg hashApiKey u as s) {r : Delivery} (hr : s.db.deliveries.row d = some r) :
    Truthful cfg (Answered cfg hashApiKey u as) (FoundInactive cfg hashApiKey u as d) d r := by
  have hevident := Transition.run_history (H := Evident cfg hashApiKey u) (.boot u)
    (fun _ _ _ _ hs he hstep => he.step hs hstep) h
  exact hevident.rows d r hr

theorem outcomes_witnessed_delivered : ∃ r c status data,
    (after .defaults id (.subscribed 1) (answeredRun "ok")).db.deliveries.row 0 = some r ∧ c.delivery.id = 0 ∧
      Answered .defaults id (.subscribed 1) (answeredRun "ok") c (.resolved status data) ∧
      r.Records .defaults (.resolved status data) := by
  have hstatus : ((after .defaults id (.subscribed 1) (answeredRun "ok")).db.deliveries.row 0).map Delivery.status =
      some .success := by decide +kernel
  obtain ⟨r, hr, hsuccess⟩ := Option.map_eq_some_iff.mp hstatus
  obtain ⟨c, status, data, hid, hanswered, hrecords⟩ :=
    (outcomes_witnessed (Transition.run_ending (by decide +kernel)) hr).success hsuccess
  exact ⟨r, c, status, data, hr, hid, hanswered, hrecords⟩

end Service

end WebhookEngine
