import WebhookEngine.Repositories

/-! The delivery queue, the outbox statements of the publisher, and the statements
of the maintenance pass. -/

namespace WebhookEngine

open Relational

inductive JobState where
  | waiting | active | completed | failed
  deriving DecidableEq, Repr

/-- `outbox-<id>-<attempts>` for the jobs the publisher adds, `outbox-<id>` for the
ones an earlier version added, and any other identifier for jobs no row stands behind. -/
inductive JobId where
  | outbox (outboxId publishAttempts : Nat)
  | legacy (outboxId : Nat)
  | extra (k : Nat)
  deriving DecidableEq, Repr

structure Job where
  deliveryId : Nat
  expectedAttempt : Nat
  state : JobState
  deriving DecidableEq, Repr

def Job.unfinished (j : Job) : Bool := [.waiting, .active].contains j.state

abbrev Queue := JobId → Option Job

def jobId (outboxId publishAttempts : Nat) : JobId := .outbox outboxId publishAttempts

namespace Queue

/-- Adding under an identifier the queue still knows does nothing. -/
def add (q : Queue) (id : JobId) (deliveryId expectedAttempt : Nat) : Queue :=
  match q id with
  | some _ => q
  | none => Function.update q id (some ⟨deliveryId, expectedAttempt, .waiting⟩)

def setState (q : Queue) (id : JobId) (state : JobState) : Queue :=
  Function.update q id ((q id).map fun j => { j with state := state })

def remove (q : Queue) (id : JobId) : Queue := Function.update q id none

/-- The state `recoverStrandedPublishedOutbox` looks at, `none` for a missing job. -/
def outboxState (q : Queue) (outboxId publishAttempts : Nat) : Option JobState :=
  ((q (jobId outboxId publishAttempts)).or (q (.legacy outboxId))).map Job.state

def stranded (q : Queue) (outboxId publishAttempts : Nat) : Bool :=
  match q.outboxState outboxId publishAttempts with
  | none => true
  | some state => state == .failed

def stateText (q : Queue) (outboxId publishAttempts : Nat) : String :=
  if (q.outboxState outboxId publishAttempts).isSome then "failed" else "missing"

variable {q : Queue} {i j : JobId} {job : Job}

theorem add_eq_some {d n : Nat} (h : q.add i d n j = some job) :
    q j = some job ∨ q j = none ∧ j = i ∧ job = ⟨d, n, .waiting⟩ := by
  cases hi : q i with
  | some _ =>
    have he : q.add i d n = q := by simp [add, hi]
    rw [he] at h
    exact .inl h
  | none =>
    simp only [add, hi, Function.update_apply] at h
    by_cases hj : j = i
    · subst j
      simp only [if_true, Option.some.injEq] at h
      exact .inr ⟨hi, rfl, h.symm⟩
    · simp only [hj, if_false] at h
      exact .inl h

theorem add_of_some {d n : Nat} (h : q j = some job) : q.add i d n j = some job := by
  cases hi : q i with
  | some _ => simp [add, hi, h]
  | none =>
    have hne : j ≠ i := by
      intro he
      subst he
      rw [hi] at h
      cases h
    simp [add, hi, hne, h]

theorem add_self (q : Queue) (i : JobId) (d n : Nat) : ∃ job, q.add i d n i = some job := by
  cases hi : q i with
  | some job => exact ⟨job, add_of_some hi⟩
  | none => exact ⟨⟨d, n, .waiting⟩, by simp [add, hi]⟩

theorem setState_apply (q : Queue) (i j : JobId) (st : JobState) :
    q.setState i st j = (q j).map fun job => if j = i then { job with state := st } else job := by
  by_cases hj : j = i
  · subst j
    simp [setState]
  · simp [setState, hj]

theorem add_of_ne (q : Queue) (d n : Nat) (h : j ≠ i) : q.add i d n j = q j := by
  cases hi : q i with
  | some _ => simp [add, hi]
  | none => simp [add, hi, h]

theorem setState_of_ne (q : Queue) (st : JobState) (h : j ≠ i) : q.setState i st j = q j := by
  simp [setState, h]

theorem remove_eq_some : q.remove i j = some job ↔ j ≠ i ∧ q j = some job := by
  by_cases hj : j = i
  · simp [remove, hj]
  · simp [remove, hj]

end Queue

namespace DeliveryOutbox

def published (now : Time) (o : DeliveryOutbox) : DeliveryOutbox :=
  { o with publishedAt := some now, lastError := none }

def publishFailed (message : String) (o : DeliveryOutbox) : DeliveryOutbox :=
  { o with attempts := o.attempts + 1, lastError := some (utf16Prefix 500 message) }

def reopened (state : String) (o : DeliveryOutbox) : DeliveryOutbox :=
  { o with
    publishedAt := none
    attempts := o.attempts + 1
    lastError := some s!"Recovered stranded {state} queue job" }

end DeliveryOutbox

structure OutboxSnapshot where
  id : Nat
  deliveryId : Nat
  attemptNumber : Nat
  attempts : Nat
  deriving DecidableEq, Repr

/-- Seven days, in milliseconds. -/
def publishedRetention : Nat := 7 * 24 * 60 * 60 * 1000

def Endpoint.dropExpiredSecret (now : Time) (e : Endpoint) : Endpoint :=
  if e.previousSecretExpiresAt.any (· < now) then
    { e with previousSecretKey := none, previousSecretExpiresAt := none }
  else e

/-- The `where` of `cleanupOldEvents`. -/
def WebhookEvent.expired (retentionDays : Nat) (now : Time) (e : WebhookEvent) : Bool :=
  [.done, .failed].contains e.status && e.updatedAt + retentionDays * 24 * 60 * 60 * 1000 < now

namespace Database

def updateOutbox (db : Database) (id : Nat) (data : DeliveryOutbox → DeliveryOutbox) :
    Option Database :=
  (db.deliveryOutbox.row id).map fun _ =>
    { db with deliveryOutbox := db.deliveryOutbox.modify id data }

/-- The `where` of `publishPending`. -/
def publishable (now : Time) (o : DeliveryOutbox) : Bool :=
  o.publishedAt.isNone && o.availableAt ≤ now

/-- The rows `publishPending` may be handed: up to a hundred due rows, oldest first. -/
def PublishBatch (now : Time) (db : Database) (ids : List Nat) : Prop :=
  db.deliveryOutbox.Answers (fun _ o => publishable now o) 100 ids ∧
    (ids.filterMap db.deliveryOutbox.row).Pairwise (fun a b => a.createdAt ≤ b.createdAt) ∧
    ∀ p ∈ db.deliveryOutbox.select fun _ o => publishable now o,
      p.1 ∉ ids → ∀ o ∈ ids.filterMap db.deliveryOutbox.row, o.createdAt ≤ p.2.createdAt

instance (now : Time) (db : Database) (ids : List Nat) : Decidable (PublishBatch now db ids) :=
  inferInstanceAs (Decidable (_ ∧ _ ∧ _))

/-- The columns of the rows a select has answered with. -/
def snapshots (db : Database) (ids : List Nat) : List OutboxSnapshot :=
  ids.filterMap fun i => (db.deliveryOutbox.row i).map fun o =>
    ⟨i, o.deliveryId, o.attemptNumber, o.attempts⟩

def staleSnapshots (db : Database) (ids : List Nat) : List (Nat × Nat) :=
  ids.filterMap fun d => (db.deliveries.row d).map fun r => (d, r.attempts)

def strandedSnapshots (db : Database) (ids : List Nat) : List (Nat × Nat) :=
  ids.filterMap fun i => (db.deliveryOutbox.row i).map fun o => (i, o.attempts)

def cleanupExpiredEndpointSecrets (now : Time) (db : Database) : Database :=
  { db with endpoints := db.endpoints.updateAll (.dropExpiredSecret now) }

def cleanupPublishedOutboxRows (now : Time) (db : Database) : Database :=
  { db with
    deliveryOutbox := db.deliveryOutbox.deleteWhere fun o =>
      o.publishedAt.any fun t => t + publishedRetention < now }

/-- The deliveries that go with an expired event. -/
def doomed (retentionDays : Nat) (now : Time) (db : Database) (r : Delivery) : Bool :=
  (db.events.row r.eventId).any (WebhookEvent.expired retentionDays now)

/-- Deleting an event takes its deliveries and their outbox rows with it. -/
def cleanupOldEvents (retentionDays : Nat) (now : Time) (db : Database) : Database :=
  if retentionDays = 0 then db
  else
    { db with
      events := db.events.deleteWhere (WebhookEvent.expired retentionDays now)
      deliveries := db.deliveries.deleteWhere (db.doomed retentionDays now)
      deliveryOutbox := db.deliveryOutbox.deleteWhere fun o =>
        (db.deliveries.row o.deliveryId).any (db.doomed retentionDays now) }

/-- The rows the stale recovery may be handed. -/
def StaleBatch (cutoff : Time) (db : Database) (ids : List Nat) : Prop :=
  db.deliveries.Answers (fun _ r => r.staleBefore cutoff) 100 ids

instance (cutoff : Time) (db : Database) (ids : List Nat) : Decidable (StaleBatch cutoff db ids) :=
  inferInstanceAs (Decidable (db.deliveries.Answers _ _ _))

/-- One transaction of `recoverStaleDeliveries`; `attempts` comes from the select. -/
def recoverStaleDelivery (now : Time) (db : Database) (id attempts : Nat) (cutoff : Time) : Database :=
  match db.deliveries.row id with
  | none => db
  | some r =>
    if r.staleBefore cutoff then
      { db with deliveries := db.deliveries.modify id (Delivery.recover now) }.createOutbox
        (.created now id now (attempts + 1))
    else db

def strandedCandidate (db : Database) (o : DeliveryOutbox) : Bool :=
  o.publishedAt.isSome && (db.deliveries.row o.deliveryId).any (·.status == .pending)

def StrandedBatch (db : Database) (ids : List Nat) : Prop :=
  db.deliveryOutbox.Answers (fun _ o => db.strandedCandidate o) 100 ids

instance (db : Database) (ids : List Nat) : Decidable (StrandedBatch db ids) :=
  inferInstanceAs (Decidable (db.deliveryOutbox.Answers _ _ _))

def setEndpointActive (db : Database) (id : Nat) (isActive : Bool) : Option Database :=
  (db.endpoints.row id).map fun _ =>
    { db with endpoints := db.endpoints.modify id fun e => { e with isActive := isActive } }

end Database

end WebhookEngine
