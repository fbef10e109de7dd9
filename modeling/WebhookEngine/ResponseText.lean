import WebhookEngine.Aside
import WebhookEngine.Carriage

/-! What an endpoint's answer can leave behind. Two runs whose answers look alike through the
configured capture end in the same store, queue and history, whatever else the answers said. -/

namespace WebhookEngine

open Relational

/-- The beginning of a text as it is captured, or nothing where bodies are not captured. -/
def captured (cfg : Config) (text : String) : Option String :=
  if cfg.captureResponseBodies then some (truncate (redact text)) else none

/-- What the configuration lets through of an answer: its status, and what is captured of its text. -/
def SendResult.told (cfg : Config) : SendResult → Bool × Nat × Option String
  | .resolved status data => (true, status, captured cfg data)
  | .rejected e => (false, e.statusCode, captured cfg e.responseText)

def SendResult.Alike (cfg : Config) (result result' : SendResult) : Prop := result.told cfg = result'.told cfg

theorem outcomeWrite_alike {cfg : Config} {result result' : SendResult} (h : result.Alike cfg result')
    (delivery : DispatchableDelivery) (t : Time) :
    outcomeWrite cfg delivery t result = outcomeWrite cfg delivery t result' := by
  have hsuccess : ∀ {text text'}, captured cfg text = captured cfg text' → ∀ status,
      successSnippet cfg status text = successSnippet cfg status text' := by
    intro text text' htext status
    simp only [successSnippet]
    split
    · rename_i hcapture
      simp only [captured, hcapture, if_true, Option.some.injEq] at htext
      rw [htext]
    · rfl
  have hfailure : ∀ {e e' : SendError}, captured cfg e.responseText = captured cfg e'.responseText →
      e.statusCode = e'.statusCode → failureSnippet cfg e = failureSnippet cfg e' := by
    intro e e' htext hstatus
    simp only [failureSnippet, hstatus]
    split
    · rename_i hcapture
      simpa only [captured, hcapture, if_true, Option.some.injEq] using htext
    · rfl
  cases result with
  | resolved status data =>
    cases result' with
    | resolved status' data' =>
      have hstatus : status = status' := congrArg (fun p => p.2.1) h
      have htext : captured cfg data = captured cfg data' := congrArg (fun p => p.2.2) h
      subst hstatus
      simp only [outcomeWrite, hsuccess htext]
    | rejected e' => cases congrArg Prod.fst h
  | rejected e =>
    cases result' with
    | resolved status' data' => cases congrArg Prod.fst h
    | rejected e' =>
      have hstatus : e.statusCode = e'.statusCode := congrArg (fun p => p.2.1) h
      have htext : captured cfg e.responseText = captured cfg e'.responseText := congrArg (fun p => p.2.2) h
      simp only [outcomeWrite, hstatus, hfailure htext hstatus]

/-- Two points alike: the same, or about to write outcomes of answers alike. -/
inductive Point.Alike (cfg : Config) : Point → Point → Prop where
  | same {p : Point} : Point.Alike cfg p p
  | settling {c : Claimed} {result result' : SendResult} (h : result.Alike cfg result') :
      Point.Alike cfg (.settling c result) (.settling c result')

inductive Task.Alike (cfg : Config) : Task → Task → Prop where
  | mk {job : JobId} {deliveryId expectedAttempt : Nat} {p p' : Point} (h : p.Alike cfg p') :
      Task.Alike cfg ⟨job, deliveryId, expectedAttempt, p⟩ ⟨job, deliveryId, expectedAttempt, p'⟩

inductive Act.Alike (cfg : Config) : Act → Act → Prop where
  | same {a : Act} : Act.Alike cfg a a
  | answer {w : Nat} {result result' : SendResult} (h : result.Alike cfg result') :
      Act.Alike cfg (.answer w result) (.answer w result')

namespace System

variable {cfg : Config} {s t : System} {a : Act} {workers : Nat → Option Task}

theorem txn_withWorkers (hw : ∀ w, Option.Rel (Task.Alike cfg) (s.workers w) (workers w)) (a : Act) :
    (s.withWorkers workers).txn cfg a = s.txn cfg a := by
  cases a with
  | cancel w | defer w | claim w | settle w =>
    have hk := hw w
    simp only [txn, withWorkers_workers]
    generalize s.workers w = k, workers w = k' at hk
    cases hk with
    | none => rfl
    | some hp =>
      obtain ⟨hp⟩ := hp
      cases hp with
      | same => rfl
      | settling h => simp only [Option.map_some, Option.bind_some, outcome, outcomeWrite_alike h, withWorkers_now]
  | _ => rfl

theorem store_withWorkers (hw : ∀ w, Option.Rel (Task.Alike cfg) (s.workers w) (workers w)) (a : Act) :
    (s.withWorkers workers).store cfg a = (s.store cfg a).withWorkers workers := by
  simp only [store, txn_withWorkers hw]
  rfl

theorem ok_withWorkers (hw : ∀ w, Option.Rel (Task.Alike cfg) (s.workers w) (workers w)) (a : Act) :
    (s.withWorkers workers).ok cfg a = s.ok cfg a := by
  simp only [ok, txn_withWorkers hw]
  rfl

theorem workers_none (hw : ∀ w, Option.Rel (Task.Alike cfg) (s.workers w) (workers w)) {w : Nat}
    (hk : s.workers w = none) : workers w = none := by
  have h := hw w
  rw [hk] at h
  generalize workers w = k' at h
  cases h
  rfl

theorem workers_some (hw : ∀ w, Option.Rel (Task.Alike cfg) (s.workers w) (workers w)) {w : Nat} {k : Task}
    (hk : s.workers w = some k) : ∃ p, workers w = some { k with point := p } ∧ k.point.Alike cfg p := by
  have h := hw w
  rw [hk] at h
  generalize workers w = k' at h
  cases h with
  | some h =>
    obtain ⟨h⟩ := h
    exact ⟨_, rfl, h⟩

theorem workers_eq (hw : ∀ w, Option.Rel (Task.Alike cfg) (s.workers w) (workers w)) {w : Nat} {k : Task}
    (hk : s.workers w = some k) (hp : ∀ c result, k.point ≠ .settling c result) : workers w = some k := by
  obtain ⟨p, hk', h⟩ := workers_some hw hk
  generalize hkp : k.point = p₀ at h
  cases h with
  | same => rw [hk', ← hkp]
  | settling => cases hp _ _ hkp

theorem rel_update (hw : ∀ w, Option.Rel (Task.Alike cfg) (s.workers w) (workers w)) (w : Nat) {v v' : Option Task}
    (hv : Option.Rel (Task.Alike cfg) v v') (w' : Nat) :
    Option.Rel (Task.Alike cfg) (Function.update s.workers w v w') (Function.update workers w v' w') := by
  by_cases hww : w' = w
  · subst hww
    simpa only [Function.update_self] using hv
  · simpa only [Function.update_of_ne hww] using hw w'

theorem rel_task (k : Task) : Option.Rel (Task.Alike cfg) (some k) (some k) := .some ⟨.same⟩

/-- Alike actions keep workers alike, and all the rest the same. -/
theorem step_alike {b : Act} (hw : ∀ w, Option.Rel (Task.Alike cfg) (s.workers w) (workers w))
    (hab : Act.Alike cfg a b) (h : step cfg s a = some t) :
    ∃ workers', step cfg (s.withWorkers workers) b = some (t.withWorkers workers') ∧
      ∀ w, Option.Rel (Task.Alike cfg) (t.workers w) (workers' w) := by
  have hstore := store_withWorkers hw
  have hok := ok_withWorkers hw
  cases hab with
  | answer hr =>
    cases Step.of_step h with
    | answer hk hp =>
      have hk' := workers_eq hw hk (by simp [hp])
      exact ⟨_, by simp only [step, withWorkers_workers, hk', hp]; rfl, rel_update hw _ (.some ⟨.settling hr⟩)⟩
  | same =>
    cases Step.of_step h with
    | take hk hj hu =>
      have hk' := workers_none hw hk
      exact ⟨_, by simp only [step, withWorkers_workers, withWorkers_queue, hk', hj, hu, if_true]; rfl,
        rel_update hw _ (rel_task _)⟩
    | find hk hp =>
      have hk' := workers_eq hw hk (by simp [hp])
      exact ⟨_, by simp only [step, withWorkers_workers, hk', hp, if_true]; rfl, rel_update hw _ (rel_task _)⟩
    | cancel hk hp =>
      have hk' := workers_eq hw hk (by simp [hp])
      exact ⟨_, by simp only [step, withWorkers_workers, hk', hp, if_true, hstore, hok]; rfl,
        rel_update hw _ (rel_task _)⟩
    | limit hk hp =>
      have hk' := workers_eq hw hk (by simp [hp])
      exact ⟨_, by simp only [step, withWorkers_workers, hk', hp, if_true]; rfl, rel_update hw _ (rel_task _)⟩
    | defer hk hp =>
      have hk' := workers_eq hw hk (by simp [hp])
      exact ⟨_, by simp only [step, withWorkers_workers, hk', hp, hstore, hok]; rfl,
        rel_update hw _ (rel_task _)⟩
    | claimMiss hk hp hc =>
      have hk' := workers_eq hw hk (by simp [hp])
      exact ⟨_, by simp only [step, withWorkers_workers, withWorkers_db, withWorkers_now, hk', hp, if_true, hc, hstore]; rfl,
        rel_update hw _ (rel_task _)⟩
    | claimHit hk hp hc =>
      have hk' := workers_eq hw hk (by simp [hp])
      exact ⟨_, by simp only [step, withWorkers_workers, withWorkers_db, withWorkers_now, hk', hp, if_true, hc, claimed, hstore]; rfl,
        rel_update hw _ (rel_task _)⟩
    | send hk hp =>
      have hk' := workers_eq hw hk (by simp [hp])
      exact ⟨_, by simp only [step, withWorkers_workers, hk', hp]; rfl, rel_update hw _ (rel_task _)⟩
    | answer hk hp =>
      have hk' := workers_eq hw hk (by simp [hp])
      exact ⟨_, by simp only [step, withWorkers_workers, hk', hp]; rfl, rel_update hw _ (rel_task _)⟩
    | settle hk hp =>
      obtain ⟨p, hk', h'⟩ := workers_some hw hk
      rw [hp] at h'
      cases h' with
      | same => exact ⟨_, by simp only [step, withWorkers_workers, hk', settled, hstore, hok]; rfl, rel_update hw _ (rel_task _)⟩
      | settling hr =>
        exact ⟨_, by simp only [step, withWorkers_workers, hk', settled, hstore, hok, outcome, ← outcomeWrite_alike hr]; rfl, rel_update hw _ (rel_task _)⟩
    | finish hk hp =>
      have hk' := workers_eq hw hk (by simp [hp])
      exact ⟨_, by simp only [step, withWorkers_workers, hk', hp]; rfl, rel_update hw _ .none⟩
    | crash hk =>
      obtain ⟨p, hk', -⟩ := workers_some hw hk
      exact ⟨_, by simp only [step, withWorkers_workers, hk']; rfl, rel_update hw _ .none⟩
    | _ => exact ⟨workers, by rw [step_aside rfl, h]; rfl, hw⟩

end System

/-- The same operation, or an answer alike. -/
inductive Operation.Alike (cfg : Config) : Operation → Operation → Prop where
  | same {a : Operation} : Operation.Alike cfg a a
  | answer {w : Nat} {result result' : SendResult} (h : result.Alike cfg result') :
      Operation.Alike cfg (.system (.answer w result)) (.system (.answer w result'))

namespace Service

variable {cfg : Config} {hashApiKey : String → String} {u : Setup} {s t : Service} {a b : Operation}
  {workers : Nat → Option Task} {as bs : List Operation}

theorem step_alike (hw : ∀ w, Option.Rel (Task.Alike cfg) (s.system.workers w) (workers w))
    (hab : a.Alike cfg b) (h : step cfg hashApiKey s a = some t) :
    ∃ workers', step cfg hashApiKey (s.withWorkers workers) b = some (t.withWorkers workers') ∧
      ∀ w, Option.Rel (Task.Alike cfg) (t.system.workers w) (workers' w) := by
  have hsystem : ∀ {b b' : Act}, Act.Alike cfg b b' → step cfg hashApiKey s (.system b) = some t →
      ∃ workers', step cfg hashApiKey (s.withWorkers workers) (.system b') = some (t.withWorkers workers') ∧
        ∀ w, Option.Rel (Task.Alike cfg) (t.system.workers w) (workers' w) := by
    intro b b' hbb hstep
    obtain ⟨t', ht', rfl⟩ := Option.map_eq_some_iff.mp hstep
    obtain ⟨workers', hstep', hw'⟩ := System.step_alike hw hbb ht'
    refine ⟨workers', ?_, hw'⟩
    simp only [step, withWorkers_system, hstep', Option.map_some]
    cases hbb <;> rfl
  cases hab with
  | answer hr => exact hsystem (.answer hr) h
  | same =>
    by_cases ha : ∀ b, a ≠ .system b
    · have hworkers : t.system.workers = s.system.workers := by
        rcases step_system_or h with ⟨b, hb, _⟩ | ⟨_, db, hdb, _⟩
        · cases ha b hb
        · rw [hdb]
      have haside : a.worker? = none := by
        cases a with
        | system b => exact absurd rfl (ha b)
        | _ => rfl
      exact ⟨workers, by rw [step_aside haside, h]; rfl, hworkers ▸ hw⟩
    · simp only [ne_eq, not_forall, not_not] at ha
      obtain ⟨b, rfl⟩ := ha
      exact hsystem .same h

/-- One request, answered with the given text. -/
def answeredRun (text : String) : List Operation :=
  claimedRun ++ [.system (.send 0), .system (.answer 0 (.resolved 200 text)), .system (.settle 0 0),
    .system (.finish 0)]

end Service

end WebhookEngine
