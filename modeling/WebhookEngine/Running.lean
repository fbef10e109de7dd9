import WebhookEngine.Aside
import WebhookEngine.Programs

/-! The service with programs for workers: a worker performs the next call of its program, and
anything may happen between two calls. Workers and counters are those of a process, and go with it. -/

namespace WebhookEngine

open Interaction

structure MetricsService where
  counters : String → Option Nat

def MetricsService.increment (m : MetricsService) (name : String) (value : Nat) : MetricsService :=
  ⟨Function.update m.counters name (some ((m.counters name).getD 0 + value))⟩

/-- A process begins with none. -/
def MetricsService.new : MetricsService := ⟨fun _ => none⟩

/-- `node` is the process of the worker, and `claim` what the history has of the job. -/
structure RunningJob where
  node : Nat
  job : JobId
  program : DeliveryProgram Unit
  claim : Option Claim

/-- The workers of `service` are not used. Every process has its own counters. -/
structure Running where
  service : Service
  programs : Nat → Option RunningJob
  metrics : Nat → MetricsService

/-- What a call of a worker finds outside the service. `rejected` is what the store or the limiter
throws in place of its answer, `applied` whether it had done by then what it was asked for. -/
structure Outside where
  limiter : RateLimitResult
  sent : Except SendError Unit
  response : Except SendError DeliveryResult
  headers : Option (String → Option String)
  random : ℚ
  random_nonneg : 0 ≤ random
  random_lt : random < 1
  rejected : Option SendError
  applied : Bool

/-- The calls of the store and of the limiter. -/
def DeliveryCall.stored : DeliveryCall → Bool
  | .findById _ => true
  | .markCancelled _ _ => true
  | .checkRateLimit _ _ => true
  | .markRateLimitedAndSchedule _ _ _ => true
  | .claimForProcessing _ _ => true
  | .write _ _ => true
  | _ => false

inductive RunningAct where
  | aside (a : Operation)
  | take (node w : Nat) (job : JobId)
  | perform (w : Nat) (o : Outside)
  | finish (w : Nat)
  | restart (node : Nat)

/-- No call of the store or of the limiter is rejected. -/
def RunningAct.answers : RunningAct → Bool
  | .perform _ o => o.rejected.isNone
  | _ => true

/-- A transaction that throws leaves the store alone. -/
@[simps]
def System.transact (cfg : Config) (x : Txn) (s : System) : System :=
  { s with db := (x.apply cfg s.now s.db).getD s.db }

namespace Running

variable (cfg : Config) (hashApiKey : String → String) (g : Signer) (parse : Parsers) (config : RetryConfig)
  (s : Running)

abbrev system : System := s.service.system

abbrev db : Database := s.service.system.db

abbrev now : Time := s.service.system.now

@[simps]
def setSystem (t : System) : Running := { s with service := { s.service with system := t } }

@[simps]
def setProgram (w : Nat) (v : Option RunningJob) : Running :=
  { s with programs := Function.update s.programs w v }

/-- The workers of a process and its counters are gone with it. -/
@[simps]
def restarted (node : Nat) : Running :=
  { s with
    programs := fun w => (s.programs w).filter fun j => j.node != node
    metrics := Function.update s.metrics node .new }

def committed (x : Txn) : Bool := (x.apply cfg s.now s.db).isSome

/-- The state after a call, the job's claim, and the answer. -/
def transact (claim : Option Claim) (x : Txn) : Running × Option Claim × Except SendError Unit :=
  (s.setSystem (s.system.transact cfg x), claim, if s.committed cfg x then .ok () else .error recordNotFound)

def claimed (w : Nat) (claim : Option Claim) (id expectedAttempt : Nat) :
    Running × Option Claim × Except SendError (Option DispatchableDelivery) :=
  let t := s.system.transact cfg (.claimForProcessing id expectedAttempt)
  match (s.db.claimForProcessing s.now id expectedAttempt).2 with
  | none => (s.setSystem t, claim, .ok none)
  | some delivery =>
    let c : Claim := ⟨w, delivery.id, generation s.system.trace delivery.id, expectedAttempt⟩
    (s.setSystem (t.log (.claimed c)), some c, .ok (some delivery))

/-- What a call does and how it is answered, where it is not rejected. A request counts as made when
the channel is called. -/
def answered (node w : Nat) (claim : Option Claim) (o : Outside) (op : DeliveryCall) :
    Running × Option Claim × Except SendError op.Answer :=
  match op with
  | .findById id => (s, claim, .ok (s.db.findById id))
  | .markCancelled id reason => s.transact cfg claim (.markCancelled id reason)
  | .checkRateLimit _ _ => (s, claim, .ok o.limiter)
  | .now => (s, claim, .ok s.now)
  | .markRateLimitedAndSchedule id nextAttemptAt expectedAttempt =>
    s.transact cfg claim (.markRateLimitedAndSchedule id nextAttemptAt expectedAttempt)
  | .claimForProcessing id expectedAttempt => s.claimed cfg w claim id expectedAttempt
  | .request _ _ _ =>
    (s.setSystem (claim.elim s.system fun c => s.system.log (.requested c)), claim, o.sent)
  | .response => (s, claim, o.response)
  | .write id x => s.transact cfg claim (x.txn id)
  | .failure => (s, claim, .ok ⟨o.headers, s.now, o.random, o.random_nonneg, o.random_lt⟩)
  | .increment name =>
    ({ s with metrics := Function.update s.metrics node ((s.metrics node).increment name 1) }, claim, .ok ())

def serve (node w : Nat) (claim : Option Claim) (o : Outside) (op : DeliveryCall) :
    Running × Option Claim × Except SendError op.Answer :=
  let (t, claim', answer) := s.answered cfg node w claim o op
  match o.rejected, op.stored, o.applied with
  | some e, true, true => (t, claim', .error e)
  | some e, true, false => (s, claim, .error e)
  | _, _, _ => (t, claim', answer)

def step (a : RunningAct) : Option Running :=
  match a with
  | .aside a =>
    if a.worker? = none then (s.service.step cfg hashApiKey a).map fun t => { s with service := t } else none
  | .take node w job =>
    match s.programs w, s.system.queue job with
    | none, some j =>
      if j.unfinished then
        some ((s.setSystem (s.system.setQueue (s.system.queue.setState job .active))).setProgram w
          (some ⟨node, job, DeliveryProgram.execute cfg g parse config j.deliveryId j.expectedAttempt, none⟩))
      else none
    | _, _ => none
  | .perform w o =>
    match s.programs w with
    | some ⟨node, job, .perform op next, claim⟩ =>
      let (t, claim, answer) := s.serve cfg node w claim o op
      some (t.setProgram w (some ⟨node, job, next answer, claim⟩))
    | _ => none
  | .finish w =>
    match s.programs w with
    | some ⟨_, job, .ended result, _⟩ =>
      some ((s.setSystem (s.system.retire w job result.isOk)).setProgram w none)
    | _ => none
  | .restart node => some (s.restarted node)

/-- What one act can do, case by case. -/
inductive Step : RunningAct → Running → Prop where
  | aside {a v} (ha : a.worker? = none) (h : s.service.step cfg hashApiKey a = some v) :
      Step (.aside a) { s with service := v }
  | take {node w job j} (hw : s.programs w = none) (hj : s.system.queue job = some j) (hu : j.unfinished = true) :
      Step (.take node w job) ((s.setSystem (s.system.setQueue (s.system.queue.setState job .active))).setProgram w
        (some ⟨node, job, DeliveryProgram.execute cfg g parse config j.deliveryId j.expectedAttempt, none⟩))
  | perform {w o node job op next claim} (hw : s.programs w = some ⟨node, job, .perform op next, claim⟩) :
      Step (.perform w o) ((s.serve cfg node w claim o op).1.setProgram w
        (some ⟨node, job, next (s.serve cfg node w claim o op).2.2, (s.serve cfg node w claim o op).2.1⟩))
  | finish {w node job result claim} (hw : s.programs w = some ⟨node, job, .ended result, claim⟩) :
      Step (.finish w) ((s.setSystem (s.system.retire w job result.isOk)).setProgram w none)
  | restart {node} : Step (.restart node) (s.restarted node)

variable {cfg hashApiKey g parse config s} in
theorem Step.of_step {a : RunningAct} {t : Running} (h : step cfg hashApiKey g parse config s a = some t) :
    Step cfg hashApiKey g parse config s a t := by
  cases a with
  | aside a =>
    simp only [step] at h
    split at h
    · rename_i ha
      obtain ⟨v, hv, rfl⟩ := Option.map_eq_some_iff.mp h
      exact .aside ha hv
    · cases h
  | take node w job =>
    simp only [step] at h
    split at h
    · rename_i hw hj
      split at h
      · rename_i hu
        cases h
        exact .take hw hj hu
      · cases h
    · cases h
  | perform w o =>
    simp only [step] at h
    split at h
    · rename_i hw
      cases h
      exact .perform hw
    · cases h
  | finish w =>
    simp only [step] at h
    split at h
    · rename_i hw
      cases h
      exact .finish hw
    · cases h
  | restart node =>
    cases h
    exact .restart

theorem serve_of_answers (cfg : Config) (s : Running) (node w : Nat) (claim : Option Claim) {o : Outside}
    (op : DeliveryCall) (ho : o.rejected = none) : s.serve cfg node w claim o op = s.answered cfg node w claim o op := by
  rw [serve, ho]

/-- A call that is rejected throws, with its effect or without. -/
theorem serve_cases (cfg : Config) (s : Running) (node w : Nat) (claim : Option Claim) (o : Outside)
    (op : DeliveryCall) : s.serve cfg node w claim o op = s.answered cfg node w claim o op ∨
      op.stored = true ∧ ∃ e, (s.serve cfg node w claim o op).2.2 = .error e ∧
        ((s.serve cfg node w claim o op).1 = s ∨
          (s.serve cfg node w claim o op).1 = (s.answered cfg node w claim o op).1) := by
  cases hrejected : o.rejected with
  | none => exact .inl (serve_of_answers cfg s node w claim op hrejected)
  | some e =>
    cases hstored : op.stored with
    | false =>
      left
      rw [serve, hrejected, hstored]
    | true =>
      right
      refine ⟨rfl, e, ?_⟩
      rw [serve, hrejected, hstored]
      cases o.applied with
      | true => exact ⟨rfl, .inr rfl⟩
      | false => exact ⟨rfl, .inl rfl⟩

theorem answered_service (cfg : Config) (s : Running) (node w : Nat) (claim : Option Claim) (o : Outside)
    (op : DeliveryCall) :
    (s.answered cfg node w claim o op).1.service =
        { s.service with system := (s.answered cfg node w claim o op).1.system } ∧
      (s.answered cfg node w claim o op).1.programs = s.programs := by
  cases op with
  | claimForProcessing id expectedAttempt =>
    simp only [answered, claimed]
    split <;> exact ⟨rfl, rfl⟩
  | _ => exact ⟨rfl, rfl⟩

theorem serve_programs (cfg : Config) (s : Running) (node w : Nat) (claim : Option Claim) (o : Outside)
    (op : DeliveryCall) : (s.serve cfg node w claim o op).1.programs = s.programs := by
  have hanswered := (answered_service cfg s node w claim o op).2
  rcases serve_cases cfg s node w claim o op with heq | ⟨_, _, _, heq | heq⟩ <;> rw [heq]
  · exact hanswered
  · exact hanswered

def boot (u : Setup) : Running := ⟨.boot u, fun _ => none, fun _ => .new⟩

def Reached (u : Setup) (as : List RunningAct) (s : Running) : Prop :=
  Transition.run (step cfg hashApiKey g parse config) (boot u) as = some s

def after (u : Setup) (as : List RunningAct) : Running :=
  Transition.ending (step cfg hashApiKey g parse config) (boot u) as

/-- A retry is written no later than at the moment it is set for. -/
def prompt (a : RunningAct) : Bool :=
  match a with
  | .perform w _ =>
    match s.programs w with
    | some ⟨_, _, .perform (.write _ (.retry input)) _, _⟩ => s.now ≤ input.nextAttemptAt
    | _ => true
  | _ => true

end Running

end WebhookEngine
