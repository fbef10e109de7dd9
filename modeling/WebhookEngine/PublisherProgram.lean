import WebhookEngine.Interaction
import WebhookEngine.Outbox

/-! `DeliveryOutboxPublisherService.publishPending` and the `DeliveryMaintenanceService` it begins
with, call by call. -/

namespace WebhookEngine

open Interaction

/-- `maintenanceDue` compares the clock with `lastMaintenanceAt` and `stamp` sets it; the other calls
are awaited, the transaction of `recoverStale` as one. `findStale` answers with the cutoff it was
made with, too. -/
inductive PublisherCall where
  | maintenanceDue
  | cleanupExpiredEndpointSecrets
  | cleanupPublishedOutboxRows
  | cleanupOldEvents
  | findStale
  | recoverStale (id attempts : Nat) (cutoff : Time)
  | findStranded
  | getJob (job : JobId)
  | getState (job : JobId)
  | reopen (outboxId : Nat) (state : String)
  | stamp
  | findPending
  | add (job : JobId) (deliveryId expectedAttempt : Nat)
  | markPublished (outboxId : Nat)
  | recordError (outboxId : Nat) (message : String)
  deriving DecidableEq, Repr

namespace PublisherCall

@[reducible]
def Answer : PublisherCall → Type
  | .maintenanceDue => Bool
  | .findStale => Time × List (Nat × Nat)
  | .findStranded => List (Nat × Nat)
  | .getJob _ => Option JobId
  | .getState _ => JobState
  | .findPending => List OutboxSnapshot
  | _ => Unit

def awaited : PublisherCall → Bool
  | .maintenanceDue => false
  | .stamp => false
  | _ => true

/-- The selects take a hundred rows. -/
def Possible : (op : PublisherCall) → Except String op.Answer → Prop
  | .findStale, .ok stale => stale.2.length ≤ 100
  | .findStranded, .ok published => published.length ≤ 100
  | .findPending, .ok jobs => jobs.length ≤ 100
  | _, _ => True

end PublisherCall

abbrev PublisherProgram := Program String PublisherCall PublisherCall.Answer

abbrev PublisherEvent := Event String PublisherCall PublisherCall.Answer

namespace PublisherProgram

def call (op : PublisherCall) : PublisherProgram op.Answer := Program.call op

/-- The loop of `recoverStaleDeliveries`. -/
def recoverEach (cutoff : Time) : List (Nat × Nat) → PublisherProgram Unit
  | [] => pure ()
  | delivery :: rest => do
    call (.recoverStale delivery.1 delivery.2 cutoff)
    recoverEach cutoff rest

def recoverStaleDeliveries : PublisherProgram Unit := do
  let stale ← call .findStale
  recoverEach stale.1 stale.2

/-- The state of the job that stands for a row, nothing for a missing one. -/
def inspect (outboxId attempts : Nat) : PublisherProgram (Option JobState) := do
  let currentJob ← call (.getJob (jobId outboxId attempts))
  let legacyJob ← call (.getJob (.legacy outboxId))
  match currentJob.or legacyJob with
  | some job => do
    let state ← call (.getState job)
    pure (some state)
  | none => pure none

def reopen (outboxId : Nat) (state : String) : PublisherProgram Unit := call (.reopen outboxId state)

def reopenStranded (outboxId : Nat) (state : Option JobState) : PublisherProgram Unit :=
  match state with
  | none => reopen outboxId "missing"
  | some .failed => reopen outboxId "failed"
  | some _ => pure ()

/-- The loop of `recoverStrandedPublishedOutbox`. -/
def reopenEach : List (Nat × Nat) → PublisherProgram Unit
  | [] => pure ()
  | outbox :: rest => do
    let state ← inspect outbox.1 outbox.2
    reopenStranded outbox.1 state
    reopenEach rest

def recoverStrandedPublishedOutbox : PublisherProgram Unit := do
  let published ← call .findStranded
  reopenEach published

def recoverAndCleanup : PublisherProgram Unit := do
  call .cleanupExpiredEndpointSecrets
  call .cleanupPublishedOutboxRows
  call .cleanupOldEvents
  recoverStaleDeliveries
  recoverStrandedPublishedOutbox

/-- The catch block of `publishPending`. -/
def failed (outbox : OutboxSnapshot) (message : String) : PublisherProgram Unit := do
  call (.recordError outbox.id message)
  throw message

def publishRow (outbox : OutboxSnapshot) : PublisherProgram Unit :=
  tryCatch (do
    call (.add (jobId outbox.id outbox.attempts) outbox.deliveryId outbox.attemptNumber)
    call (.markPublished outbox.id)) (failed outbox)

/-- The loop of `publishPending`. -/
def publishEach : List OutboxSnapshot → PublisherProgram Unit
  | [] => pure ()
  | outbox :: rest => do
    publishRow outbox
    publishEach rest

def publishRows : PublisherProgram Unit := do
  let jobs ← call .findPending
  publishEach jobs

/-- What the guard of `publishPending` lets through. -/
def publishPending : PublisherProgram Unit := do
  let due ← call .maintenanceDue
  if due then
    recoverAndCleanup
    call .stamp
  publishRows

/-! ### What a call awaits -/

/-- From here on no more than `n` calls are awaited, and where nothing is thrown `k` of them are spare. -/
def Affords (n : Nat) {α : Type} (m : PublisherProgram α) (k : Nat) : Prop :=
  m.Follows (.affords PublisherCall.awaited PublisherCall.Possible) (fun left result => ∀ a, result = .ok a → k ≤ left) n

variable {α β : Type} {n k : Nat}

theorem affords_pure {a : α} (h : k ≤ n) : Affords n (pure a) k := fun _ _ => h

theorem Affords.bind {m : PublisherProgram β} {f : β → PublisherProgram α} {i : Nat} (h : Affords n m i)
    (hf : ∀ b left, i ≤ left → Affords left (f b) k) : Affords n (m >>= f) k := by
  refine Program.follows_bind.mpr (Program.Follows.mono h fun left result hleft => ?_)
  cases result with
  | ok b => exact hf b left (hleft b rfl)
  | error message => rintro _ ⟨⟩

/-- A call takes one of what is left, whatever it answers of what it can. -/
theorem affords_call_bind {op : PublisherCall} {f : op.Answer → PublisherProgram α} (hn : 0 < n)
    (hf : ∀ b, op.Possible (.ok b) → ∀ left, n ≤ left + 1 → Affords left (f b) k) : Affords n (call op >>= f) k := by
  refine ⟨fun _ => hn, fun answer hpossible => ?_⟩
  have hleft : n ≤ (if op.awaited then n - 1 else n) + 1 := by
    split <;> omega
  cases answer with
  | ok b => exact hf b hpossible _ hleft
  | error message => rintro _ ⟨⟩

theorem affords_call {op : PublisherCall} (hn : k + 1 ≤ n) : Affords n (call op) k := by
  refine ⟨fun _ => by omega, fun answer _ a _ => ?_⟩
  simp only [Protocol.affords]
  split <;> omega

theorem affords_recoverEach (cutoff : Time) (stale : List (Nat × Nat)) (h : stale.length + k ≤ n) :
    Affords n (recoverEach cutoff stale) k := by
  induction stale generalizing n with
  | nil => exact affords_pure (by simpa using h)
  | cons delivery rest ih =>
    rw [List.length_cons] at h
    exact affords_call_bind (by omega) fun _ _ left hleft => ih (by omega)

theorem affords_inspect (outboxId attempts : Nat) (h : 3 + k ≤ n) : Affords n (inspect outboxId attempts) k := by
  refine affords_call_bind (by omega) fun currentJob _ left hleft => ?_
  refine affords_call_bind (by omega) fun legacyJob _ left' hleft' => ?_
  cases currentJob.or legacyJob with
  | none => exact affords_pure (by omega)
  | some job => exact affords_call_bind (by omega) fun state _ left'' hleft'' => affords_pure (by omega)

theorem affords_reopenStranded (outboxId : Nat) (state : Option JobState) (h : 1 + k ≤ n) :
    Affords n (reopenStranded outboxId state) k := by
  have hreopen : ∀ text, Affords n (reopen outboxId text) k := fun _ => affords_call (by omega)
  match state with
  | none => exact hreopen _
  | some .failed => exact hreopen _
  | some .waiting => exact affords_pure (by omega)
  | some .active => exact affords_pure (by omega)
  | some .completed => exact affords_pure (by omega)

theorem affords_reopenEach (published : List (Nat × Nat)) (h : 4 * published.length + k ≤ n) :
    Affords n (reopenEach published) k := by
  induction published generalizing n with
  | nil => exact affords_pure (by simpa using h)
  | cons outbox rest ih =>
    rw [List.length_cons] at h
    refine (affords_inspect outbox.1 outbox.2 (k := 4 * rest.length + k + 1) (by omega)).bind fun state left hleft => ?_
    exact (affords_reopenStranded outbox.1 state (k := 4 * rest.length + k) (by omega)).bind
      fun _ left' hleft' => ih hleft'

/-- A row takes two calls, and a third one when it throws. -/
theorem affords_publishRow (outbox : OutboxSnapshot) (hk : 0 < k) (h : 2 + k ≤ n) : Affords n (publishRow outbox) k := by
  have hrecord : ∀ message left, 0 < left → Affords left (failed outbox message) k := by
    intro message left hleft
    exact affords_call_bind hleft fun _ _ _ _ a ha => by cases ha
  refine Program.follows_tryCatch.mpr ⟨fun _ => by omega, fun added _ => ?_⟩
  cases added with
  | error message => exact hrecord message (n - 1) (by omega)
  | ok _ =>
    refine ⟨fun _ => Nat.sub_pos_of_lt (by omega), fun marked _ => ?_⟩
    cases marked with
    | error message => exact hrecord message (n - 1 - 1) (by omega)
    | ok _ =>
      intro _ _
      exact Nat.le_sub_of_add_le (Nat.le_sub_of_add_le (by omega))

theorem affords_publishEach (jobs : List OutboxSnapshot) (h : 2 * jobs.length + 1 ≤ n) :
    Affords n (publishEach jobs) 1 := by
  induction jobs generalizing n with
  | nil => exact affords_pure (by simpa using h)
  | cons outbox rest ih =>
    rw [List.length_cons] at h
    exact (affords_publishRow outbox (k := 2 * rest.length + 1) (by omega) (by omega)).bind
      fun _ left hleft => ih hleft

theorem affords_publishRows (h : 202 ≤ n) : Affords n publishRows 1 := by
  refine affords_call_bind (by omega) fun jobs hjobs left hleft => affords_publishEach jobs ?_
  have hlen : jobs.length ≤ 100 := hjobs
  omega

theorem affords_recoverAndCleanup (h : 505 + k ≤ n) : Affords n recoverAndCleanup k := by
  refine affords_call_bind (by omega) fun _ _ n₁ h₁ => affords_call_bind (by omega) fun _ _ n₂ h₂ =>
    affords_call_bind (by omega) fun _ _ n₃ h₃ => ?_
  have hstale : Affords n₃ recoverStaleDeliveries (401 + k) := by
    refine affords_call_bind (by omega) fun stale hstale left hleft => affords_recoverEach _ _ ?_
    have hlen : stale.2.length ≤ 100 := hstale
    omega
  refine hstale.bind fun _ n₄ h₄ => affords_call_bind (by omega) fun published hpublished left hleft =>
    affords_reopenEach _ ?_
  have hlen : published.length ≤ 100 := hpublished
  omega

/-- The clock is not awaited. -/
theorem affords_publishPending : Affords 707 publishPending 1 := by
  refine ⟨fun h => (by cases h), fun due _ => ?_⟩
  cases due with
  | error message => rintro _ ⟨⟩
  | ok due =>
    cases due with
    | false => exact affords_publishRows (by decide)
    | true =>
      refine (affords_recoverAndCleanup (k := 202) (le_refl _)).bind fun _ left hleft => ?_
      refine ⟨fun h => (by cases h), fun stamped _ => ?_⟩
      cases stamped with
      | error message => rintro _ ⟨⟩
      | ok _ => exact affords_publishRows hleft

end PublisherProgram

end WebhookEngine
