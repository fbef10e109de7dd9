import WebhookEngine.Deployment
import WebhookEngine.Refinement

/-! The processes as they are deployed, each part of them a program: calls of `publishPending` go
on operation by operation, and workers call by call. A process that stops takes both along. -/

namespace WebhookEngine

open Interaction

structure Cluster where
  deployment : Deployment
  programs : Nat → Option RunningJob
  metrics : Nat → MetricsService

inductive ClusterAct where
  | process (a : ProcessAct)
  | worker (a : RunningAct)

def ProcessAct.aside : ProcessAct → Bool
  | .operation a => a.worker? = none
  | _ => true

/-- No call of a worker to the store or the limiter is rejected. -/
def ClusterAct.answers : ClusterAct → Bool
  | .process _ => true
  | .worker a => a.answers

namespace Cluster

variable (cfg : Config) (hashApiKey : String → String) (g : Signer) (parse : Parsers) (config : RetryConfig)
  (s : Cluster)

def running : Running := ⟨s.deployment.service, s.programs, s.metrics⟩

/-- What is left of the workers and the counters after a step of the processes. -/
def kept (a : ProcessAct) : Running :=
  match a with
  | .restart node => s.running.restarted node
  | _ => s.running

def step (a : ClusterAct) : Option Cluster :=
  match a with
  | .process a =>
    if a.aside then
      (s.deployment.step cfg hashApiKey a).map fun t => ⟨t, (s.kept a).programs, (s.kept a).metrics⟩
    else none
  | .worker (.aside _) => none
  | .worker (.restart _) => none
  | .worker a =>
    (Running.step cfg hashApiKey g parse config s.running a).map fun t =>
      ⟨s.deployment.setService t.service, t.programs, t.metrics⟩

/-- A retry is written no later than at the moment it is set for. -/
def prompt : ClusterAct → Bool
  | .process _ => true
  | .worker a => s.running.prompt a

def boot (u : Setup) : Cluster := ⟨.boot u, fun _ => none, fun _ => .new⟩

def Reached (u : Setup) (as : List ClusterAct) (s : Cluster) : Prop :=
  Transition.run (step cfg hashApiKey g parse config) (boot u) as = some s

def after (u : Setup) (as : List ClusterAct) : Cluster :=
  Transition.ending (step cfg hashApiKey g parse config) (boot u) as

variable {cfg hashApiKey g parse config s} {t : Cluster} {a : ClusterAct} {u : Setup} {as : List ClusterAct}

theorem act_worker (s : System) (c : Nat) (ids : List Nat) (stage : Stage) :
    (Operation.system (stage.act s c ids)).worker? = none := by
  cases stage with
  | recoverStranded =>
    simp only [Stage.act]
    split <;> rfl
  | publish =>
    simp only [Stage.act]
    split <;> rfl
  | _ => rfl

/-- A step of the processes is none of the programs' system, or one that meets its conditions. -/
theorem running_step (h : step cfg hashApiKey g parse config s a = some t) (hp : s.prompt a = true)
    (ha : a.answers = true) :
    t.running = s.running ∨ ∃ b, s.running.prompt b = true ∧ b.answers = true ∧
      Running.step cfg hashApiKey g parse config s.running b = some t.running := by
  have haside {b : Operation} {v : Service} (hb : b.worker? = none)
      (hv : s.deployment.service.step cfg hashApiKey b = some v) :
      ∃ b, s.running.prompt b = true ∧ b.answers = true ∧
        Running.step cfg hashApiKey g parse config s.running b = some { s.running with service := v } := by
    refine ⟨.aside b, rfl, rfl, ?_⟩
    simp only [Running.step, if_pos hb, running, hv, Option.map_some]
  cases a with
  | process a =>
    simp only [step] at h
    split at h
    · rename_i hquiet
      obtain ⟨d, hd, rfl⟩ := Option.map_eq_some_iff.mp h
      cases Deployment.Step.of_step hd with
      | operation _ hr => exact .inr (haside (of_decide_eq_true hquiet) hr)
      | @resume c ids k r _ hr =>
        right
        simpa only [running, kept, Deployment.resumed_service, Deployment.setService_service]
          using haside (act_worker _ _ _ _) hr
      | throws => exact .inl (by simp only [running, kept, Deployment.thrown_service])
      | @restart node => exact .inr ⟨.restart node, rfl, rfl, rfl⟩
      | _ => exact .inl rfl
    · cases h
  | worker a =>
    have hstep : (Running.step cfg hashApiKey g parse config s.running a).map (fun t =>
        (⟨s.deployment.setService t.service, t.programs, t.metrics⟩ : Cluster)) = some t := by
      cases a with
      | aside | restart => cases h
      | _ => exact h
    obtain ⟨r, hr, rfl⟩ := Option.map_eq_some_iff.mp hstep
    exact .inr ⟨a, hp, ha, hr⟩

theorem matched_step {workers : Nat → Option Task} (hs : s.running.Simulated cfg g parse config workers)
    (h : step cfg hashApiKey g parse config s a = some t) (hp : s.prompt a = true) (ha : a.answers = true) :
    ∃ bs workers', Transition.run (Service.step cfg hashApiKey) (s.deployment.service.withWorkers workers) bs =
      some (t.deployment.service.withWorkers workers') ∧ t.running.Simulated cfg g parse config workers' := by
  rcases running_step h hp ha with hsame | ⟨b, hb, hanswers, hrun⟩
  · have hservice : t.deployment.service = s.deployment.service := congrArg Running.service hsame
    rw [hservice, hsame]
    exact ⟨[], workers, rfl, hs⟩
  · exact Running.simulated_step hs hb hanswers hrun

/-- The deployed processes, with the source's programs in their parts and whenever they are restarted,
reach only stores, queues and histories that the service reaches, as long as the store and the
limiter answer every call of a worker and a retry is written by the moment it is set for. A write of
a worker whose row is gone throws, its request and response may throw, and so may every call of
`publishPending`, which has then had no effect. -/
theorem processes_refine
    (hprompt : Transition.Along (step cfg hashApiKey g parse config) (fun s a _ => s.prompt a = true) (boot u) as)
    (hanswers : ∀ a ∈ as, a.answers = true) (h : Reached cfg hashApiKey g parse config u as s) :
    ∃ bs workers, Service.Reached cfg hashApiKey u bs (s.deployment.service.withWorkers workers) ∧
      s.running.Simulated cfg g parse config workers := by
  have hboot : (boot u).running.Simulated cfg g parse config fun _ => none := by
    rintro w j ⟨⟩
  obtain ⟨bs, _, hbs, workers, rfl, hs⟩ := Transition.run_matched
    (R := fun s t => ∃ workers, t = s.deployment.service.withWorkers workers ∧
      s.running.Simulated cfg g parse config workers)
    (by
      rintro s a t _ ⟨workers, rfl, hs⟩ hstep ⟨hp, ha⟩
      obtain ⟨bs, workers', hbs, ht⟩ := matched_step hs hstep hp ha
      exact ⟨bs, _, hbs, workers', rfl, ht⟩)
    ⟨_, rfl, hboot⟩ (hprompt.and (Transition.along_of_mem fun a ha _ _ => hanswers a ha)) h
  exact ⟨bs, workers, hbs, hs⟩

/-- An event is ingested, and a process publishes the row for its delivery. -/
def publishing : List ProcessAct :=
  Script.ingest.map (fun b => .operation (.system b)) ++
    [.publishPending 0, .resume 0 [0], .resume 0 [], .resume 0 []]

def publishedRun : List ClusterAct :=
  publishing.map .process ++ [.worker (.take 0 0 (jobId 0 0))] ++
    List.replicate 10 (.worker (.perform 0 Running.unavailable)) ++ [.worker (.finish 0)]

theorem processes_refine_published : ∃ bs workers,
    Service.Reached .defaults id (.subscribed 1) bs
      ((after .defaults id Running.silentSigner Running.silentParsers WebhookConfig.defaults.retry
        (.subscribed 1) publishedRun).deployment.service.withWorkers workers) ∧
      (after .defaults id Running.silentSigner Running.silentParsers WebhookConfig.defaults.retry
        (.subscribed 1) publishedRun).running.Simulated .defaults Running.silentSigner Running.silentParsers
        WebhookConfig.defaults.retry workers :=
  processes_refine (by decide +kernel) (by decide +kernel) (Transition.run_ending (by decide +kernel))

end Cluster

end WebhookEngine
