import WebhookEngine.Running

/-! Workers that run the source's programs do what the system's workers do. -/

namespace WebhookEngine

open Interaction

section Points

variable (cfg : Config) (g : Signer) (parse : Parsers) (config : RetryConfig) (w d n : Nat)

open DeliveryProgram in
/-- Where a worker stands with what is left of its program. -/
inductive StandsAt : DeliveryProgram Unit → Option Claim → Point → Prop where
  | started {claim} : StandsAt (execute cfg g parse config d n) claim .started
  | cancelling {claim} : StandsAt (call (.markCancelled d "Endpoint is inactive")) claim .cancelling
  | limiting {claim delivery} (hd : delivery.id = d) :
      StandsAt (limit cfg g parse config d n delivery) claim .limiting
  | limitingEndpoint {claim delivery tenantLimit scope rateLimit} (hd : delivery.id = d) :
      StandsAt (call (.checkRateLimit scope rateLimit) >>= limited cfg g parse config d n delivery tenantLimit)
        claim .limiting
  | exceeding {claim} {delayMs : Nat} :
      StandsAt (call .now >>= fun now => postpone d n (now + delayMs)) claim .limiting
  | deferring {claim nextAttemptAt} : StandsAt (postpone d n nextAttemptAt) claim (.deferring nextAttemptAt)
  | claiming {claim} : StandsAt (deliver cfg g parse config d n) claim .claiming
  | signing {c} :
      StandsAt (tryCatch (attempt cfg g c.delivery) (failed cfg parse config c.delivery)) (some (c.claim w))
        (.sending c)
  | comparing {c signedAt} :
      StandsAt (tryCatch (sign cfg g c.delivery signedAt) (failed cfg parse config c.delivery)) (some (c.claim w))
        (.sending c)
  | requesting {c headers} :
      StandsAt (tryCatch (send cfg c.delivery headers) (failed cfg parse config c.delivery)) (some (c.claim w))
        (.sending c)
  | awaiting {claim c} :
      StandsAt (tryCatch (receive cfg c.delivery) (failed cfg parse config c.delivery)) claim (.awaiting c)
  | succeeding {claim c response} :
      StandsAt (tryCatch (succeed cfg c.delivery response) (failed cfg parse config c.delivery)) claim
        (.settling c (.resolved response.status response.data))
  | failing {claim c error} :
      StandsAt (failed cfg parse config c.delivery error) claim (.settling c (.rejected error))
  | retrying {claim c error nextAttemptAt}
      (hretry : (c.delivery.row.attempts ≥ cfg.maxAttempts || !isRetryable error.statusCode) = false) :
      StandsAt (schedule cfg c.delivery error nextAttemptAt) claim (.settling c (.rejected error))
  | counting {claim name next} (hnext : next (.ok ()) = .ended (.ok ())) :
      StandsAt (.perform (.increment name) next) claim (.ended true)
  | ended {claim result} : StandsAt (.ended result) claim (.ended result.isOk)

/-- A program and the task it carries out. -/
structure RunningJob.Performs (j : RunningJob) (k : Task) : Prop where
  job : j.job = k.job
  stands : StandsAt cfg g parse config w k.deliveryId k.expectedAttempt j.program j.claim k.point

end Points

namespace System

variable {cfg : Config} {s : System} {workers : Nat → Option Task} {w : Nat} {k : Task} {a : Act}

theorem goto_self (hk : workers w = some k) : (s.withWorkers workers).goto w k k.point = s.withWorkers workers := by
  have hself : Function.update workers w (some k) = workers := by
    rw [← hk, Function.update_eq_self]
  simp only [goto, withWorkers, hself]

theorem store_of_txn {x : Txn} (hx : (s.withWorkers workers).txn cfg a = some x) :
    (s.withWorkers workers).store cfg a = (s.transact cfg x).withWorkers workers := by
  simp only [store, hx]
  rfl

theorem ok_of_txn {x : Txn} (hx : (s.withWorkers workers).txn cfg a = some x) :
    (s.withWorkers workers).ok cfg a = (x.apply cfg s.now s.db).isSome := by
  simp only [ok, hx]
  rfl

end System

section Simulation

/-- The system, as the worker's task sees it, gets by steps of the worker to where the call ends. -/
def Matched (cfg : Config) (g : Signer) (parse : Parsers) (config : RetryConfig) (s : System)
    (workers : Nat → Option Task) (w : Nat) (k : Task) {A : Type}
    (served : Running × Option Claim × Except SendError A) (next : Except SendError A → DeliveryProgram Unit) :
    Prop :=
  ∃ as p, (∀ a ∈ as, System.worker? a = some w) ∧
    Transition.run (System.step cfg) (s.withWorkers workers) as =
      some ((served.1.system.withWorkers workers).goto w k p) ∧
    StandsAt cfg g parse config w k.deliveryId k.expectedAttempt (next served.2.2) served.2.1 p

variable {cfg : Config} {g : Signer} {parse : Parsers} {config : RetryConfig} {s t : Running} {w : Nat}
  {workers : Nat → Option Task} {k : Task} {claim : Option Claim} {o : Outside} {node : Nat}

namespace Matched

variable {A : Type} {served : Running × Option Claim × Except SendError A}
  {next : Except SendError A → DeliveryProgram Unit}

theorem stay (hk : workers w = some k) (hsame : served.1.system = s.system)
    (hst : StandsAt cfg g parse config w k.deliveryId k.expectedAttempt (next served.2.2) served.2.1 k.point) :
    Matched cfg g parse config s.system workers w k served next :=
  ⟨[], k.point, by simp, by rw [hsame]; exact congrArg some (System.goto_self hk).symm, hst⟩

theorem one {a : Act} {p : Point} (hw : System.worker? a = some w)
    (hstep : System.step cfg (s.system.withWorkers workers) a =
      some ((served.1.system.withWorkers workers).goto w k p))
    (hst : StandsAt cfg g parse config w k.deliveryId k.expectedAttempt (next served.2.2) served.2.1 p) :
    Matched cfg g parse config s.system workers w k served next :=
  ⟨[a], p, by simpa using hw, Transition.run_cons_eq_some.mpr ⟨_, hstep, rfl⟩, hst⟩

theorem found {op : DeliveryCall} {next : Except SendError op.Answer → DeliveryProgram Unit}
    (hk : workers w = some k) (hpoint : k.point = .started)
    (hp : DeliveryProgram.execute cfg g parse config k.deliveryId k.expectedAttempt = .perform op next) :
    Matched cfg g parse config s.system workers w k (s.answered cfg node w claim o op) next := by
  cases hp
  refine .one (a := .find w) (p := afterFind (s.db.findById k.deliveryId)) rfl ?_ ?_
  · simp only [System.step, System.withWorkers_workers, hk, hpoint, if_true]
    rfl
  · simp only [Running.answered, Program.andThen]
    cases hfind : s.db.findById k.deliveryId with
    | none => exact .ended
    | some delivery =>
      simp only [afterFind]
      split
      · exact .ended
      · split
        · exact .cancelling
        · exact .limiting (Database.findById_eq_some.mp hfind).1

theorem limited {delivery : DispatchableDelivery} (tenantLimit endpointLimit : RateLimitResult)
    (hk : workers w = some k) (hpoint : k.point = .limiting) (hd : delivery.id = k.deliveryId)
    (hsame : served.1.system = s.system)
    (hnext : next served.2.2 =
      DeliveryProgram.limited cfg g parse config k.deliveryId k.expectedAttempt delivery tenantLimit endpointLimit) :
    Matched cfg g parse config s.system workers w k served next := by
  by_cases hexceeded : (tenantLimit.exceeded || endpointLimit.exceeded) = true
  · refine .stay hk hsame ?_
    simp only [hnext, DeliveryProgram.limited, hexceeded, if_true, hpoint]
    exact .exceeding
  · refine .one (a := .limit w none) (p := .claiming) rfl ?_ ?_
    · simp only [System.step, System.withWorkers_workers, hk, hpoint, if_true, hsame]
      rfl
    · simp only [hnext, DeliveryProgram.limited, hexceeded, hd]
      exact .claiming

theorem claimed {op : DeliveryCall} {next : Except SendError op.Answer → DeliveryProgram Unit}
    (hk : workers w = some k) (hpoint : k.point = .claiming)
    (hp : DeliveryProgram.deliver cfg g parse config k.deliveryId k.expectedAttempt = .perform op next) :
    Matched cfg g parse config s.system workers w k (s.answered cfg node w claim o op) next := by
  cases hp
  have hstore : (s.system.withWorkers workers).store cfg (.claim w) =
      (s.system.transact cfg (.claimForProcessing k.deliveryId k.expectedAttempt)).withWorkers workers :=
    System.store_of_txn (by simp [System.txn, hk])
  cases hclaim : (s.db.claimForProcessing s.now k.deliveryId k.expectedAttempt).2 with
  | none =>
    simp only [Running.answered, Running.claimed, hclaim]
    refine .one (a := .claim w) (p := .ended true) rfl ?_ .ended
    simp only [System.step, System.withWorkers_workers, System.withWorkers_db, System.withWorkers_now, hk, hpoint,
      if_true, hclaim, hstore]
    rfl
  | some delivery =>
    simp only [Running.answered, Running.claimed, hclaim]
    let c : Claimed := ⟨delivery, k.expectedAttempt, generation s.system.trace delivery.id⟩
    refine .one (a := .claim w) (p := .sending c) rfl ?_ (.signing (c := c))
    simp only [System.step, System.withWorkers_workers, System.withWorkers_db, System.withWorkers_now, hk, hpoint,
      if_true, hclaim, System.claimed, hstore]
    rfl

theorem transact {next : Except SendError Unit → DeliveryProgram Unit} {a : Act} {x : Txn} {p q : Point}
    (hw : System.worker? a = some w) (hx : (s.system.withWorkers workers).txn cfg a = some x)
    (hstep : System.step cfg (s.system.withWorkers workers) a =
      some (((s.system.withWorkers workers).store cfg a).goto w k
        (if (s.system.withWorkers workers).ok cfg a then p else q)))
    (hok : StandsAt cfg g parse config w k.deliveryId k.expectedAttempt (next (.ok ())) claim p)
    (hthrown : StandsAt cfg g parse config w k.deliveryId k.expectedAttempt (next (.error recordNotFound)) claim q) :
    Matched cfg g parse config s.system workers w k (s.transact cfg claim x) next := by
  rw [System.store_of_txn hx, System.ok_of_txn hx] at hstep
  refine .one hw hstep ?_
  by_cases hcommitted : (x.apply cfg s.now s.db).isSome = true
  · simp only [Running.transact, Running.committed, hcommitted, if_true]
    exact hok
  · simp only [Running.transact, Running.committed, hcommitted]
    exact hthrown

theorem settled {next : Except SendError Unit → DeliveryProgram Unit} {c : Claimed} {result : SendResult}
    {x : OutcomeWrite} (hk : workers w = some k) (hpoint : k.point = .settling c result) (delayMs : Nat)
    (hx : s.system.outcome cfg c result delayMs = x)
    (hok : StandsAt cfg g parse config w k.deliveryId k.expectedAttempt (next (.ok ())) claim (.ended true))
    (hthrown : StandsAt cfg g parse config w k.deliveryId k.expectedAttempt (next (.error recordNotFound)) claim
      (x.onThrow c)) :
    Matched cfg g parse config s.system workers w k (s.transact cfg claim (x.txn c.delivery.id)) next := by
  have htxn : (s.system.withWorkers workers).txn cfg (.settle w delayMs) = some (x.txn c.delivery.id) := by
    simp only [System.txn, System.withWorkers_workers, hk, Option.bind_some, hpoint, ← hx]
    rfl
  refine .transact rfl htxn ?_ hok hthrown
  simp only [System.step, System.withWorkers_workers, hk, hpoint, ← hx]
  rfl

theorem failed {op : DeliveryCall} {next : Except SendError op.Answer → DeliveryProgram Unit} {c : Claimed}
    {error : SendError} (hk : workers w = some k) (hpoint : k.point = .settling c (.rejected error))
    (hp : DeliveryProgram.failed cfg parse config c.delivery error = .perform op next) :
    Matched cfg g parse config s.system workers w k (s.answered cfg node w claim o op) next := by
  by_cases hdead : (c.delivery.row.attempts ≥ cfg.maxAttempts || !isRetryable error.statusCode) = true
  · simp only [DeliveryProgram.failed, hdead, if_true] at hp
    cases hp
    refine .settled hk hpoint 0 ?_ (.counting rfl) .ended
    simp only [System.outcome, outcomeWrite, hdead, if_true]
  · simp only [DeliveryProgram.failed, hdead] at hp
    cases hp
    refine .stay hk rfl ?_
    rw [hpoint]
    exact .retrying (by simpa using hdead)

end Matched

theorem StandsAt.matched {op : DeliveryCall} {next : Except SendError op.Answer → DeliveryProgram Unit}
    {program : DeliveryProgram Unit} (hk : workers w = some k)
    (hst : StandsAt cfg g parse config w k.deliveryId k.expectedAttempt program claim k.point)
    (hp : program = .perform op next)
    (hprompt : ∀ id input, op = .write id (.retry input) → s.now ≤ input.nextAttemptAt) (node : Nat) (o : Outside) :
    Matched cfg g parse config s.system workers w k (s.answered cfg node w claim o op) next := by
  generalize hpoint : k.point = point at hst
  cases hst with
  | started => exact .found hk hpoint hp
  | cancelling =>
    cases hp
    refine .transact (a := .cancel w) (p := .ended true) (q := .ended false) rfl ?_ ?_ .ended .ended
    · simp [System.txn, hk]
    · simp only [System.step, System.withWorkers_workers, hk, hpoint, if_true]
      cases (s.system.withWorkers workers).ok cfg (.cancel w) <;> rfl
  | @limiting _ delivery hd =>
    cases hp
    by_cases hboth : (!o.limiter.exceeded && delivery.endpoint.rateLimit.getD 0 != 0) = true
    · refine .stay hk rfl ?_
      simp only [Running.answered, Program.andThen, hboth, if_true, hpoint]
      exact .limitingEndpoint hd
    · refine .limited o.limiter ⟨false, 0, 0⟩ hk hpoint hd rfl ?_
      simp only [Running.answered, Program.andThen, hboth]
      rfl
  | @limitingEndpoint _ _ tenantLimit _ _ hd =>
    cases hp
    exact .limited tenantLimit o.limiter hk hpoint hd rfl rfl
  | @exceeding _ delayMs =>
    cases hp
    refine .one (a := .limit w (some delayMs)) (p := .deferring (s.now + delayMs)) rfl ?_ .deferring
    simp only [System.step, System.withWorkers_workers, hk, hpoint, if_true]
    rfl
  | deferring =>
    cases hp
    refine .transact (a := .defer w) (p := .ended true) (q := .ended false) rfl ?_ ?_ (.counting rfl) .ended
    · simp [System.txn, hk, hpoint]
    · simp only [System.step, System.withWorkers_workers, hk, hpoint]
      cases (s.system.withWorkers workers).ok cfg (.defer w) <;> rfl
  | claiming => exact .claimed hk hpoint hp
  | signing =>
    cases hp
    exact .stay hk rfl (hpoint ▸ .comparing)
  | comparing =>
    cases hp
    exact .stay hk rfl (hpoint ▸ .requesting)
  | @requesting c headers =>
    cases hp
    have hsend : System.step cfg (s.system.withWorkers workers) (.send w) =
        some (((s.system.log (.requested (c.claim w))).withWorkers workers).goto w k (.awaiting c)) := by
      simp only [System.step, System.withWorkers_workers, hk, hpoint]
      rfl
    cases hsent : o.sent with
    | ok u =>
      refine .one (a := .send w) (p := .awaiting c) rfl hsend ?_
      simp only [Running.answered, hsent]
      exact .awaiting
    | error e =>
      refine ⟨[.send w, .answer w (.rejected e)], .settling c (.rejected e), by simp [System.worker?], ?_, ?_⟩
      · refine Transition.run_cons_eq_some.mpr ⟨_, hsend, Transition.run_cons_eq_some.mpr ⟨_, ?_, rfl⟩⟩
        simp [System.step, Running.answered, System.goto]
      · simp only [Running.answered, hsent]
        exact .failing
  | @awaiting _ c =>
    cases hp
    have hanswer : ∀ result, System.step cfg (s.system.withWorkers workers) (.answer w result) =
        some ((s.system.withWorkers workers).goto w k (.settling c result)) := by
      intro result
      simp only [System.step, System.withWorkers_workers, hk, hpoint]
    cases hresponse : o.response with
    | ok response =>
      refine .one rfl (hanswer (.resolved response.status response.data)) ?_
      simp only [Running.answered, hresponse]
      exact .succeeding
    | error e =>
      refine .one rfl (hanswer (.rejected e)) ?_
      simp only [Running.answered, hresponse]
      exact .failing
  | succeeding =>
    cases hp
    exact .settled hk hpoint 0 rfl (.counting rfl) .failing
  | failing => exact .failed hk hpoint hp
  | @retrying _ c error nextAttemptAt hretry =>
    cases hp
    have hdue := hprompt _ _ rfl
    refine .settled hk hpoint (nextAttemptAt - s.now) ?_ (.counting rfl) .ended
    have hlater : s.system.now + (nextAttemptAt - s.now) = nextAttemptAt := Nat.add_sub_cancel' hdue
    simp only [System.outcome, outcomeWrite, hretry, hlater]
    rfl
  | counting hnext =>
    cases hp
    refine .stay hk rfl ?_
    simp only [Running.answered, hnext, hpoint]
    exact .ended
  | ended => cases hp

end Simulation

theorem StandsAt.of_ended {cfg : Config} {g : Signer} {parse : Parsers} {config : RetryConfig} {w d n : Nat}
    {program : DeliveryProgram Unit} {result : Except SendError Unit} {claim : Option Claim} {p : Point}
    (hst : StandsAt cfg g parse config w d n program claim p) (hp : program = .ended result) :
    p = .ended result.isOk := by
  cases hst with
  | ended =>
    cases hp
    rfl
  | failing =>
    simp only [DeliveryProgram.failed] at hp
    split at hp <;> cases hp
  | _ => cases hp

theorem Service.run_system {cfg : Config} {hashApiKey : String → String} {s : Service} {w : Nat} {as : List Act}
    {t : System} (hw : ∀ a ∈ as, System.worker? a = some w)
    (h : Transition.run (System.step cfg) s.system as = some t) :
    Transition.run (step cfg hashApiKey) s (as.map .system) = some { s with system := t } := by
  induction as generalizing s with
  | nil =>
    cases h
    rfl
  | cons a as ih =>
    obtain ⟨v, hv, hrest⟩ := Transition.run_cons_eq_some.mp h
    have hstep : step cfg hashApiKey s (.system a) = some { s with system := v } := by
      simp only [step, hv, Option.map_some]
      have ha := hw a List.mem_cons_self
      cases a with
      | replayRead => cases ha
      | _ => rfl
    exact Transition.run_cons_eq_some.mpr ⟨_, hstep, ih (fun b hb => hw b (List.mem_cons_of_mem a hb)) hrest⟩

namespace Running

variable {cfg : Config} {hashApiKey : String → String} {g : Signer} {parse : Parsers} {config : RetryConfig}
  {u : Setup} {s t : Running} {as : List RunningAct} {a : RunningAct} {workers : Nat → Option Task}

/-- Every program stands where its task does. The task of a program that went with its process is
still there, and goes no further. -/
def Simulated (cfg : Config) (g : Signer) (parse : Parsers) (config : RetryConfig) (s : Running)
    (workers : Nat → Option Task) : Prop :=
  ∀ w j, s.programs w = some j → ∃ k, workers w = some k ∧ j.Performs cfg g parse config w k

theorem Simulated.setProgram (h : s.Simulated cfg g parse config workers) (hprograms : t.programs = s.programs)
    {w : Nat} {v : Option RunningJob} (v' : Option Task)
    (hv : ∀ j, v = some j → ∃ k, v' = some k ∧ j.Performs cfg g parse config w k) :
    (t.setProgram w v).Simulated cfg g parse config (Function.update workers w v') := by
  intro w' j hj
  rw [setProgram_programs, hprograms] at hj
  by_cases hww : w' = w
  · subst hww
    rw [Function.update_self] at hj ⊢
    exact hv j hj
  · rw [Function.update_of_ne hww] at hj ⊢
    exact h w' j hj

theorem Simulated.restarted (h : s.Simulated cfg g parse config workers) (node : Nat) :
    (s.restarted node).Simulated cfg g parse config workers := by
  intro w j hj
  rw [restarted_programs, Option.filter_eq_some_iff] at hj
  exact h w j hj.1

/-- A worker takes a job, whatever is left of one it had. -/
theorem exists_take (cfg : Config) {s : System} (workers : Nat → Option Task) (w : Nat) {job : JobId} {j : Job}
    (hj : s.queue job = some j) (hu : j.unfinished = true) :
    ∃ bs, (∀ b ∈ bs, System.worker? b = some w) ∧
      Transition.run (System.step cfg) (s.withWorkers workers) bs =
        some ((s.setQueue (s.queue.setState job .active)).withWorkers
          (Function.update workers w (some ⟨job, j.deliveryId, j.expectedAttempt, .started⟩))) := by
  cases hw : workers w with
  | none =>
    refine ⟨[.take w job], by simp [System.worker?], Transition.run_cons_eq_some.mpr ⟨_, ?_, rfl⟩⟩
    simp only [System.step, System.withWorkers_workers, System.withWorkers_queue, hw, hj, hu, if_true]
    rfl
  | some k =>
    refine ⟨[.crash w, .take w job], by simp [System.worker?], ?_⟩
    refine Transition.run_cons_eq_some.mpr ⟨(s.withWorkers workers).leave w, ?_, ?_⟩
    · simp only [System.step, System.withWorkers_workers, hw]
    · have hidem : ∀ v, Function.update ((s.withWorkers workers).leave w).workers w v = Function.update workers w v :=
        fun v => Function.update_idem ..
      refine Transition.run_cons_eq_some.mpr ⟨_, ?_, rfl⟩
      simp only [System.step, System.leave_workers, System.leave_queue, Function.update_self,
        System.withWorkers_queue, hj, hu, if_true]
      rw [hidem]
      rfl

theorem simulated_step (hs : s.Simulated cfg g parse config workers) (hprompt : s.prompt a = true)
    (hanswers : a.answers = true) (h : step cfg hashApiKey g parse config s a = some t) :
    ∃ bs workers', Transition.run (Service.step cfg hashApiKey) (s.service.withWorkers workers) bs =
      some (t.service.withWorkers workers') ∧ t.Simulated cfg g parse config workers' := by
  have hone : ∀ {w : Nat} {b : Act} {v : System}, System.worker? b = some w →
      System.step cfg (s.system.withWorkers workers) b = some v →
      Transition.run (Service.step cfg hashApiKey) (s.service.withWorkers workers) [.system b] =
        some { s.service with system := v } := by
    intro w b v hw hv
    have hrun : Transition.run (System.step cfg) (s.service.withWorkers workers).system [b] = some v :=
      Transition.run_cons_eq_some.mpr ⟨v, hv, rfl⟩
    exact Service.run_system (w := w) (by simpa using hw) hrun
  cases Step.of_step h with
  | @aside a v ha hv =>
    refine ⟨[a], workers, Transition.run_cons_eq_some.mpr ⟨_, ?_, rfl⟩, hs⟩
    rw [Service.step_aside ha, hv]
    rfl
  | @take node w job j hw hj hu =>
    let k : Task := ⟨job, j.deliveryId, j.expectedAttempt, .started⟩
    obtain ⟨bs, hbs, hrun⟩ := exists_take cfg workers w hj hu
    refine ⟨bs.map .system, _, Service.run_system hbs hrun, hs.setProgram rfl (some k) ?_⟩
    rintro _ ⟨⟩
    exact ⟨k, rfl, rfl, .started⟩
  | @perform w o node job op next claim hw =>
    obtain ⟨k, hk, hjob, hst⟩ := hs w _ hw
    have hdue : ∀ id input, op = .write id (.retry input) → s.now ≤ input.nextAttemptAt := by
      rintro id input rfl
      simpa only [prompt, hw, decide_eq_true_eq] using hprompt
    obtain ⟨bs, p, hbs, hrun, hst'⟩ := hst.matched hk rfl hdue node o
    obtain ⟨hservice, hprograms⟩ := answered_service cfg s node w claim o op
    rw [serve_of_answers cfg s node w claim op (Option.isNone_iff_eq_none.mp hanswers)]
    refine ⟨bs.map .system, _, ?_, hs.setProgram hprograms (some { k with point := p }) ?_⟩
    · rw [Service.run_system hbs hrun]
      simp only [setProgram_service, hservice]
      rfl
    · rintro _ ⟨⟩
      exact ⟨{ k with point := p }, rfl, hjob, hst'⟩
  | @finish w node job result claim hw =>
    obtain ⟨k, hk, hjob, hst⟩ := hs w _ hw
    refine ⟨_, _, hone (w := w) (b := .finish w) rfl ?_, hs.setProgram rfl none (by rintro _ ⟨⟩)⟩
    simp only [System.step, System.withWorkers_workers, hk, hst.of_ended rfl, ← hjob]
    rfl
  | @restart node => exact ⟨[], workers, rfl, hs.restarted node⟩

/-- Programs whose calls interleave in any way, with each other, with anything else and with restarts of
their processes, reach no store, queue or history that the service does not reach, as long as the
store and the limiter answer every call and a retry is written by the moment it is set for. A write
whose row is gone throws, and the request and its response may throw whatever they like. -/
theorem programs_refine
    (hprompt : Transition.Along (step cfg hashApiKey g parse config) (fun s a _ => s.prompt a = true) (boot u) as)
    (hanswers : ∀ a ∈ as, a.answers = true) (h : Reached cfg hashApiKey g parse config u as s) :
    ∃ bs workers, Service.Reached cfg hashApiKey u bs (s.service.withWorkers workers) ∧
      s.Simulated cfg g parse config workers := by
  have hboot : (boot u).Simulated cfg g parse config fun _ => none := by
    rintro w j ⟨⟩
  obtain ⟨bs, _, hbs, workers, rfl, hs⟩ := Transition.run_matched
    (R := fun s t => ∃ workers, t = s.service.withWorkers workers ∧ s.Simulated cfg g parse config workers)
    (by
      rintro s a t _ ⟨workers, rfl, hs⟩ hstep ⟨hp, ha⟩
      obtain ⟨bs, workers', hbs, ht⟩ := simulated_step hs hp ha hstep
      exact ⟨bs, _, hbs, workers', rfl, ht⟩)
    ⟨_, rfl, hboot⟩ (hprompt.and (Transition.along_of_mem fun a ha _ _ => hanswers a ha)) h
  exact ⟨bs, workers, hbs, hs⟩

/-- The endpoint answers 500, and the draw gives no jitter. -/
def unavailable : Outside where
  limiter := ⟨false, 0, 0⟩
  sent := .ok ()
  response := .error ⟨some 500, none, none, none⟩
  headers := none
  random := twoMinutes.random
  random_nonneg := twoMinutes.random_nonneg
  random_lt := twoMinutes.random_lt
  rejected := none
  applied := false

def silentParsers : Parsers := ⟨fun _ => none, fun _ => none⟩

def silentSigner : Signer := ⟨fun _ _ => "", fun _ => ""⟩

/-- One delivery fails and is scheduled again; the clock goes on between the calls. -/
def retriedRun : List RunningAct :=
  (Script.ingest ++ Script.publish 0).map (.aside ∘ .system) ++ [.take 0 0 (jobId 0 0)] ++
    (List.replicate 9 [.perform 0 unavailable, .aside (.system (.tick 7))]).flatten ++
    [.perform 0 unavailable, .finish 0]

theorem programs_refine_retried : ∃ bs workers,
    Service.Reached .defaults id (.subscribed 1) bs
      ((after .defaults id silentSigner silentParsers WebhookConfig.defaults.retry (.subscribed 1)
        retriedRun).service.withWorkers workers) ∧
      (after .defaults id silentSigner silentParsers WebhookConfig.defaults.retry (.subscribed 1) retriedRun).Simulated
        .defaults silentSigner silentParsers WebhookConfig.defaults.retry workers :=
  programs_refine (by decide +kernel) (by decide +kernel) (Transition.run_ending (by decide +kernel))

end Running

end WebhookEngine
