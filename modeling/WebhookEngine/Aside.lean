import WebhookEngine.Operations

/-! What is not a worker's does not look at the workers. -/

namespace WebhookEngine

namespace System

variable {cfg : Config} {s : System} {a : Act} {workers : Nat → Option Task}

@[simps]
def withWorkers (s : System) (workers : Nat → Option Task) : System := { s with workers := workers }

@[simp] theorem staleCutoff_withWorkers : (s.withWorkers workers).staleCutoff cfg = s.staleCutoff cfg := rfl

theorem txn_aside (ha : worker? a = none) : (s.withWorkers workers).txn cfg a = s.txn cfg a := by
  cases a with
  | take | find | cancel | limit | defer | claim | send | answer | settle | finish | crash => cases ha
  | _ => rfl

theorem store_aside (ha : worker? a = none) :
    (s.withWorkers workers).store cfg a = (s.store cfg a).withWorkers workers := by
  simp only [store, txn_aside ha]
  rfl

theorem ok_aside (ha : worker? a = none) : (s.withWorkers workers).ok cfg a = s.ok cfg a := by
  simp only [ok, txn_aside ha]
  rfl

theorem step_aside (ha : worker? a = none) :
    step cfg (s.withWorkers workers) a = (step cfg s a).map fun t => t.withWorkers workers := by
  have hstore : (s.withWorkers workers).store cfg a = (s.store cfg a).withWorkers workers := store_aside ha
  have hok : (s.withWorkers workers).ok cfg a = s.ok cfg a := ok_aside ha
  cases a with
  | take | find | cancel | limit | defer | claim | send | answer | settle | finish | crash => cases ha
  | tick | cleanupExpiredEndpointSecrets | cleanupPublishedOutboxRows | cleanupOldEvents | setEndpointActive => rfl
  | publishRead | publishError | staleSelect | strandedSelect | foreign =>
    simp only [step, withWorkers_publishers, withWorkers_now, withWorkers_db, withWorkers_staleScans,
      withWorkers_strandedScans, withWorkers_finished, staleCutoff_withWorkers]
    split <;> rfl
  | ingestRead | ingestCommit | publishAdd | publishMark | strandedInspect | strandedReopen | staleRecover =>
    simp only [step, withWorkers_db, withWorkers_ingests, withWorkers_publishers, withWorkers_strandedScans,
      withWorkers_staleScans]
    split <;> rfl
  | replayRead | duplicate | evict | lose =>
    simp only [step, withWorkers_replays, withWorkers_db, withWorkers_queue, withWorkers_finished]
    split
    · split <;> rfl
    · rfl
  | replayReset q =>
    simp only [step, withWorkers_replays, hstore, hok]
    split
    · cases s.ok cfg (.replayReset q) <;> rfl
    · rfl

end System

def Operation.worker? : Operation → Option Nat
  | .system a => System.worker? a
  | _ => none

namespace Service

variable {cfg : Config} {hashApiKey : String → String} {s : Service} {a : Operation} {workers : Nat → Option Task}

@[simps]
def withWorkers (s : Service) (workers : Nat → Option Task) : Service :=
  { s with system := s.system.withWorkers workers }

@[simp] theorem db_withWorkers : (s.withWorkers workers).db = s.db := rfl

theorem step_aside (ha : a.worker? = none) :
    step cfg hashApiKey (s.withWorkers workers) a =
      (step cfg hashApiKey s a).map fun t => t.withWorkers workers := by
  cases a with
  | system b =>
    simp only [step, withWorkers_system, System.step_aside ha, Option.map_map]
    cases System.step cfg s.system b <;> rfl
  | createEndpoint => rfl
  | requireOwned | findTenant | createTenant =>
    simp only [step, withWorkers_sessions, withWorkers_issued, db_withWorkers]
    split <;> rfl
  | updateEndpoint | softDelete | generateSecret | rotateSecret | updateTenant | deleteTenant | updateApiKeyHash =>
    simp only [step, withWorkers_sessions]
    split <;> rfl
  | findSecret | generateApiKey =>
    simp only [step, withWorkers_sessions, withWorkers_issued, db_withWorkers]
    split
    · split <;> rfl
    · rfl

end Service

end WebhookEngine
