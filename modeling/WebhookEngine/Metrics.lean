import WebhookEngine.Refinement

/-! The delivery counters of a process and the transactions they count: a program counts what it
has committed by its next operation, unless it is told that it has failed. -/

namespace WebhookEngine

open Interaction

/-- The counter of a transaction. -/
def DeliveryCall.counter? : DeliveryCall → Option String
  | .markRateLimitedAndSchedule _ _ _ => some "deliveries_rate_limited_total"
  | .write _ (.success _ _) => some "deliveries_success_total"
  | .write _ (.deadLetter _ _) => some "deliveries_dlq_total"
  | .write _ (.retry _) => some "delivery_retries_scheduled_total"
  | _ => none

/-- The counter a program is about to increment. -/
def DeliveryProgram.pending : DeliveryProgram Unit → Option String
  | .perform (.increment name) _ => some name
  | _ => none

/-- A transaction that is committed is counted next, and nothing else is. -/
def counting : Protocol SendError DeliveryCall DeliveryCall.Answer (Option String) where
  permits pending op :=
    match op with
    | .increment name => pending = some name
    | _ => pending = none
  possible op answer :=
    match op, answer with
    | .increment _, answer => answer = .ok ()
    | _, _ => True
  after _ op answer := if answer.isOk then op.counter? else none

section Programs

variable {cfg : Config} {g : Signer} {parse : Parsers} {config : RetryConfig}

abbrev Counts (m : DeliveryProgram Unit) (pending : Option String) : Prop :=
  m.Follows counting (fun pending _ => pending = none) pending

theorem Counts.pending_eq {m : DeliveryProgram Unit} {pending : Option String} (h : Counts m pending) :
    m.pending = pending := by
  cases m with
  | ended result => exact h.symm
  | perform op next =>
    cases op with
    | _ => exact h.1.symm

variable {post : Option String → Except SendError Unit → Prop} {op : DeliveryCall}

theorem follows_uncounted {f : op.Answer → DeliveryProgram Unit} (hop : op.counter? = none)
    (hpermits : counting.permits none op) (hthrown : ∀ e, post none (.error e))
    (hnext : ∀ b, (f b).Follows counting post none) :
    (DeliveryProgram.call op >>= f).Follows counting post none := by
  simp only [DeliveryProgram.call, Program.follows_bind, Program.follows_call]
  refine ⟨hpermits, fun answer _ => ?_⟩
  have hafter : counting.after none op answer = none := by
    simp [counting, hop]
  cases answer with
  | ok b =>
    rw [hafter]
    exact hnext b
  | error e =>
    rw [hafter]
    exact hthrown e

theorem follows_counted {name : String} (hop : op.counter? = some name) (hpermits : counting.permits none op)
    (hthrown : ∀ e, post none (.error e)) (hok : post none (.ok ())) :
    (DeliveryProgram.call op >>= fun _ => DeliveryProgram.call (.increment name)).Follows counting post none := by
  simp only [DeliveryProgram.call, Program.follows_bind, Program.follows_call]
  refine ⟨hpermits, fun answer _ => ?_⟩
  cases answer with
  | ok b =>
    refine ⟨hop, fun answer hanswer => ?_⟩
    cases hanswer
    exact hok
  | error e => exact hthrown e

theorem counts_failed (delivery : DispatchableDelivery) (error : SendError) :
    Counts (DeliveryProgram.failed cfg parse config delivery error) none := by
  simp only [DeliveryProgram.failed]
  split
  · exact follows_counted rfl rfl (fun _ => rfl) rfl
  · refine follows_uncounted rfl rfl (fun _ => rfl) fun failure => ?_
    exact follows_counted rfl rfl (fun _ => rfl) rfl

theorem counts_deliver (id expectedAttempt : Nat) :
    Counts (DeliveryProgram.deliver cfg g parse config id expectedAttempt) none := by
  refine follows_uncounted rfl rfl (fun _ => rfl) fun claimed => ?_
  cases claimed with
  | none => rfl
  | some delivery =>
    simp only [Program.follows_tryCatch]
    have hthrown : ∀ e, Counts (DeliveryProgram.failed cfg parse config delivery e) none := counts_failed delivery
    refine follows_uncounted rfl rfl hthrown fun signedAt => ?_
    refine follows_uncounted rfl rfl hthrown fun comparedAt => ?_
    refine follows_uncounted rfl rfl hthrown fun _ => ?_
    refine follows_uncounted rfl rfl hthrown fun response => ?_
    exact follows_counted rfl rfl hthrown rfl

theorem counts_limited (delivery : DispatchableDelivery) (tenantLimit endpointLimit : RateLimitResult)
    (deliveryId expectedAttempt : Nat) :
    Counts (DeliveryProgram.limited cfg g parse config deliveryId expectedAttempt delivery tenantLimit endpointLimit)
      none := by
  simp only [DeliveryProgram.limited]
  split
  · refine follows_uncounted rfl rfl (fun _ => rfl) fun now => ?_
    exact follows_counted rfl rfl (fun _ => rfl) rfl
  · exact counts_deliver delivery.id expectedAttempt

theorem counts_limit (delivery : DispatchableDelivery) (deliveryId expectedAttempt : Nat) :
    Counts (DeliveryProgram.limit cfg g parse config deliveryId expectedAttempt delivery) none := by
  refine follows_uncounted rfl rfl (fun _ => rfl) fun tenantLimit => ?_
  simp only
  split
  · refine follows_uncounted rfl rfl (fun _ => rfl) fun endpointLimit => ?_
    exact counts_limited delivery tenantLimit endpointLimit deliveryId expectedAttempt
  · exact counts_limited delivery tenantLimit ⟨false, 0, 0⟩ deliveryId expectedAttempt

theorem counts_execute (deliveryId expectedAttempt : Nat) :
    Counts (DeliveryProgram.execute cfg g parse config deliveryId expectedAttempt) none := by
  refine follows_uncounted rfl rfl (fun _ => rfl) fun delivery => ?_
  cases delivery with
  | none => rfl
  | some delivery =>
    simp only
    split
    · rfl
    · split
      · refine ⟨rfl, fun answer _ => ?_⟩
        cases answer <;> rfl
      · exact counts_limit delivery deliveryId expectedAttempt

end Programs

/-- A worker with a counter, if there is one. -/
def Counted (w : Nat) (name : Option String) : List (Nat × String) := (name.map fun name => (w, name)).toList

theorem count_counted {w : Nat} {b : Nat × String} (h : b.1 ≠ w) (name : Option String) :
    (Counted w name).count b = 0 := by
  cases name with
  | none => rfl
  | some name =>
    have hne : (w, name) ≠ b := fun heq => h (heq ▸ rfl)
    simp [Counted, hne]

namespace Running

variable (cfg : Config) (n : Nat) (s : Running)

/-- The counter a worker of the process is about to increment. -/
def pending (w : Nat) : Option String :=
  (s.programs w).bind fun j => if j.node = n then j.program.pending else none

/-- The call does what it is asked for, whatever its worker is told. -/
def effective (node w : Nat) (claim : Option Claim) (o : Outside) (op : DeliveryCall) : Bool :=
  (o.rejected.isNone || !op.stored || o.applied) && (s.answered cfg node w claim o op).2.2.isOk

/-- Worker and counter of the transaction of the process that a step commits. -/
def commits (a : RunningAct) (_ : Running) : List (Nat × String) :=
  match a with
  | .perform w o =>
    match s.programs w with
    | some ⟨node, _, .perform op _, claim⟩ =>
      if node = n then Counted w (if s.effective cfg node w claim o op then op.counter? else none) else []
    | _ => []
  | _ => []

/-- Worker and counter of the increment that a step makes. -/
def counts (a : RunningAct) (_ : Running) : List (Nat × String) :=
  match a with
  | .perform w _ => Counted w (s.pending n w)
  | _ => []

/-- Worker and counter of the transaction that a step commits and rejects all the same. -/
def misreports (a : RunningAct) (_ : Running) : List (Nat × String) :=
  match a with
  | .perform w o =>
    match s.programs w with
    | some ⟨node, _, .perform op _, claim⟩ =>
      if node = n then
        Counted w (if s.effective cfg node w claim o op && !(s.serve cfg node w claim o op).2.2.isOk then op.counter?
          else none)
      else []
    | _ => []
  | _ => []

def holds (b : Nat × String) : Nat := (Counted b.1 (s.pending n b.1)).count b

/-- Every program counts what it has committed. -/
def Counting : Prop := ∀ w j, s.programs w = some j → Counts j.program j.program.pending

variable {cfg : Config} {hashApiKey : String → String} {g : Signer} {parse : Parsers} {config : RetryConfig}
  {n : Nat} {u : Setup} {s t : Running} {as before : List RunningAct} {a : RunningAct}

theorem pending_of_some {w : Nat} {j : RunningJob} (hj : s.programs w = some j) :
    s.pending n w = if j.node = n then j.program.pending else none := by
  rw [pending, hj]
  rfl

theorem pending_setProgram (hsame : t.programs = s.programs) {w w' : Nat} {v : Option RunningJob} :
    (t.setProgram w v).pending n w' =
      if w' = w then v.bind fun j => if j.node = n then j.program.pending else none else s.pending n w' := by
  simp only [pending, setProgram_programs, hsame, Function.update_apply]
  split <;> rfl

theorem Counting.setProgram (hs : s.Counting) (hsame : t.programs = s.programs) {w : Nat} {v : Option RunningJob}
    (hv : ∀ j, v = some j → Counts j.program j.program.pending) : (t.setProgram w v).Counting := by
  intro w' j hj
  rw [setProgram_programs, hsame] at hj
  rcases Transition.update_cases (fun x => x = some j) hj with ⟨_, hnew⟩ | hold
  · exact hv j hnew
  · exact hs w' j hold

theorem holds_setProgram (hsame : t.programs = s.programs) {w : Nat} {v : Option RunningJob} {b : Nat × String} :
    (t.setProgram w v).holds n b =
      if b.1 = w then
        (Counted w (v.bind fun j => if j.node = n then j.program.pending else none)).count b
      else s.holds n b := by
  by_cases hb : b.1 = w
  · simp only [holds, pending_setProgram hsame, hb, if_true]
  · simp only [holds, pending_setProgram hsame, if_neg hb]

theorem holds_of_eq {w : Nat} {b : Nat × String} (hb : b.1 = w) :
    s.holds n b = (Counted w (s.pending n w)).count b := by
  rw [holds, hb]

theorem unchanged_balance (hsame : t.programs = s.programs) {w : Nat} {v : Option RunningJob}
    (hold : s.pending n w = none) (hnew : (v.bind fun j => if j.node = n then j.program.pending else none) = none)
    (b : Nat × String) : 0 + s.holds n b = 0 + 0 + (t.setProgram w v).holds n b := by
  rw [holds_setProgram hsame, hnew, Nat.add_zero]
  split
  · rename_i hb
    rw [holds_of_eq hb, hold]
  · rfl

theorem pending_restarted {node w : Nat} (hne : n ≠ node) : (s.restarted node).pending n w = s.pending n w := by
  rw [pending, pending, restarted_programs]
  cases s.programs w with
  | none => rfl
  | some j =>
    by_cases hkept : j.node = node
    · simp [Option.filter, hkept, Ne.symm hne]
    · simp [Option.filter, hkept]

theorem pending_restarted_self {w : Nat} : (s.restarted n).pending n w = none := by
  rw [pending, restarted_programs]
  cases s.programs w with
  | none => rfl
  | some j => by_cases hj : j.node = n <;> simp [Option.filter, hj]

theorem serve_possible (cfg : Config) (s : Running) (node w : Nat) (claim : Option Claim) (o : Outside)
    (op : DeliveryCall) : counting.possible op (s.serve cfg node w claim o op).2.2 := by
  rcases serve_cases cfg s node w claim o op with heq | ⟨hstored, _⟩
  · rw [heq]
    cases op with
    | increment name => rfl
    | _ => trivial
  · cases op with
    | increment name => cases hstored
    | _ => trivial

/-- A worker that is told of a success has had one. -/
theorem effective_of_isOk {node w : Nat} {claim : Option Claim} {o : Outside} {op : DeliveryCall}
    (h : (s.serve cfg node w claim o op).2.2.isOk = true) : s.effective cfg node w claim o op = true := by
  rw [serve] at h
  rw [effective]
  cases hrejected : o.rejected with
  | none =>
    rw [hrejected] at h
    simpa using h
  | some e =>
    rw [hrejected] at h
    cases hstored : op.stored with
    | false =>
      rw [hstored] at h
      simpa using h
    | true =>
      rw [hstored] at h
      cases happlied : o.applied <;> rw [happlied] at h <;> cases h

theorem step_counting (hs : s.Counting) (h : step cfg hashApiKey g parse config s a = some t) : t.Counting := by
  cases Step.of_step h with
  | aside => exact hs
  | take =>
    refine hs.setProgram rfl ?_
    rintro _ ⟨⟩
    exact counts_execute _ _
  | @perform w o node job op next claim hw =>
    have hnext := (hs w _ hw).2 _ (serve_possible cfg s node w claim o op)
    refine hs.setProgram (serve_programs cfg s node w claim o op) ?_
    rintro _ ⟨⟩
    rw [Counts.pending_eq hnext]
    exact hnext
  | finish => exact hs.setProgram rfl (by rintro _ ⟨⟩)
  | restart =>
    intro w j hj
    rw [restarted_programs, Option.filter_eq_some_iff] at hj
    exact hs w j hj.1

/-- What a process commits is counted, or reported as failed, or about to be counted. -/
theorem step_balance (hs : s.Counting) (h : step cfg hashApiKey g parse config s a = some t) (hno : a ≠ .restart n)
    (b : Nat × String) :
    (commits cfg n s a t).count b + s.holds n b =
      (counts n s a t).count b + (misreports cfg n s a t).count b + t.holds n b := by
  cases Step.of_step h with
  | aside => rfl
  | @take node w job j hw =>
    have hpending : s.pending n w = none := by simp only [pending, hw, Option.bind_none]
    exact unchanged_balance rfl hpending (by simp only [Option.bind_some]; split <;> rfl) b
  | @perform w o node job op next claim hw =>
    have hsame := serve_programs cfg s node w claim o op
    have hpending := Counts.pending_eq ((hs w _ hw).2 _ (serve_possible cfg s node w claim o op))
    rw [holds_setProgram hsame]
    simp only [commits, hw, counts, misreports, Option.bind_some, hpending]
    by_cases hb : b.1 = w
    · rw [if_pos hb, holds_of_eq hb]
      by_cases hnode : node = n
      · rw [if_pos hnode, if_pos hnode, if_pos hnode]
        cases hok : (s.serve cfg node w claim o op).2.2.isOk with
        | true =>
          simp [effective_of_isOk hok, counting, hok, Counted]
          omega
        | false =>
          simp [counting, hok, Counted]
          omega
      · rw [if_neg hnode, if_neg hnode, if_neg hnode]
        simp [Counted]
    · rw [if_neg hb, count_counted hb]
      split <;> simp [count_counted hb]
  | @finish w node job result claim hw =>
    have hpending : s.pending n w = none := by
      rw [pending_of_some hw]
      split <;> rfl
    exact unchanged_balance rfl hpending rfl b
  | @restart node =>
    have hne : n ≠ node := fun heq => hno (heq ▸ rfl)
    rw [holds, holds, pending_restarted hne]
    rfl

theorem answered_metrics (cfg : Config) (s : Running) (node w : Nat) (claim : Option Claim) (o : Outside)
    (op : DeliveryCall) (hop : ∀ name, op ≠ .increment name) :
    (s.answered cfg node w claim o op).1.metrics = s.metrics := by
  cases op with
  | increment name => exact absurd rfl (hop name)
  | claimForProcessing id expectedAttempt =>
    simp only [answered, claimed]
    split <;> rfl
  | _ => rfl

theorem serve_metrics (cfg : Config) (s : Running) (node w : Nat) (claim : Option Claim) (o : Outside)
    (op : DeliveryCall) (hop : ∀ name, op ≠ .increment name) :
    (s.serve cfg node w claim o op).1.metrics = s.metrics := by
  have hanswered := answered_metrics cfg s node w claim o op hop
  rcases serve_cases cfg s node w claim o op with heq | ⟨_, _, _, heq | heq⟩ <;> rw [heq]
  · exact hanswered
  · exact hanswered

theorem step_metrics (h : step cfg hashApiKey g parse config s a = some t) (hno : a ≠ .restart n) (name : String) :
    ((t.metrics n).counters name).getD 0 =
      ((s.metrics n).counters name).getD 0 + (counts n s a t).countP (·.2 = name) := by
  cases Step.of_step h with
  | @perform w o node job op next claim hw =>
    simp only [counts, pending_of_some hw, setProgram_metrics]
    by_cases hop : ∃ counter, op = .increment counter
    · obtain ⟨counter, rfl⟩ := hop
      by_cases hnode : node = n
      · subst hnode
        by_cases hname : name = counter
        · subst hname
          simp [serve, answered, DeliveryCall.stored, MetricsService.increment, DeliveryProgram.pending, Counted]
        · simp [serve, answered, DeliveryCall.stored, MetricsService.increment, DeliveryProgram.pending, Counted, hname,
            Ne.symm hname]
      · simp [serve, answered, DeliveryCall.stored, Counted, hnode, Function.update_of_ne (Ne.symm hnode)]
    · have hnone : DeliveryProgram.pending (.perform op next) = none := by
        cases op with
        | increment counter => exact absurd ⟨counter, rfl⟩ hop
        | _ => rfl
      rw [hnone, ite_self, serve_metrics cfg s node w claim o op fun counter hcounter => hop ⟨counter, hcounter⟩]
      rfl
  | @restart node =>
    have hne : n ≠ node := fun heq => hno (heq ▸ rfl)
    rw [restarted_metrics, Function.update_of_ne hne]
    rfl
  | _ => rfl

theorem counters_counted (h : Transition.run (step cfg hashApiKey g parse config) s as = some t)
    (hno : .restart n ∉ as) (name : String) :
    ((t.metrics n).counters name).getD 0 = ((s.metrics n).counters name).getD 0 +
      (Transition.collect (step cfg hashApiKey g parse config) (counts n) s as).countP (·.2 = name) := by
  induction as generalizing s with
  | nil =>
    cases h
    rfl
  | cons a as ih =>
    obtain ⟨v, hv, hrest⟩ := Transition.run_cons_eq_some.mp h
    have hne : a ≠ .restart n := fun heq => hno (heq ▸ List.mem_cons_self)
    have hnot : .restart n ∉ as := fun hmem => hno (List.mem_cons_of_mem a hmem)
    rw [Transition.collect_cons hv, List.countP_append, ih hrest hnot, step_metrics hv hne name, Nat.add_assoc]

/-- A process that has just begun. -/
structure New (n : Nat) (s : Running) : Prop where
  counting : s.Counting
  idle : ∀ w, s.pending n w = none
  counters : s.metrics n = .new

theorem Reached.counting (h : Reached cfg hashApiKey g parse config u as s) : s.Counting :=
  Transition.run_invariant (fun _ _ _ hs ha => step_counting hs ha) (by rintro w j ⟨⟩) h

/-- A process begins when the system does, and again whenever it is restarted. -/
theorem Reached.new (h : Reached cfg hashApiKey g parse config u before s)
    (hbegins : before = [] ∨ ∃ earlier, before = earlier ++ [.restart n]) : New n s := by
  refine ⟨h.counting, ?_, ?_⟩ <;> rcases hbegins with rfl | ⟨earlier, rfl⟩
  · cases h
    exact fun w => rfl
  · obtain ⟨r, _, hr⟩ := Transition.run_concat_eq_some.mp h
    cases hr
    exact fun w => pending_restarted_self
  · cases h
    rfl
  · obtain ⟨r, _, hr⟩ := Transition.run_concat_eq_some.mp h
    cases hr
    exact Function.update_self ..

/-- From the beginning of a process on, at every moment when no worker of it is about to count, its
counters are the numbers of the transactions its workers have committed just when none of these was
reported to its worker as failed. -/
theorem counters_exact {r : Running} (hr : Reached cfg hashApiKey g parse config u before r)
    (hbegins : before = [] ∨ ∃ earlier, before = earlier ++ [.restart n])
    (h : Transition.run (step cfg hashApiKey g parse config) r as = some s) (hno : .restart n ∉ as)
    (hend : ∀ w, s.pending n w = none) :
    (∀ name, (Transition.collect (step cfg hashApiKey g parse config) (commits cfg n) r as).countP
        (·.2 = name) = ((s.metrics n).counters name).getD 0) ↔
      Transition.Along (step cfg hashApiKey g parse config) (fun s a t => misreports cfg n s a t = []) r as := by
  have hnew := hr.new hbegins
  have hheld : ∀ {t : Running}, (∀ w, t.pending n w = none) → ∀ b, t.holds n b = 0 := by
    intro t ht b
    rw [holds, ht]
    rfl
  have hlife : Transition.Along (step cfg hashApiKey g parse config) (fun _ a _ => a ≠ .restart n) r as :=
    Transition.along_of_mem fun a ha _ _ heq => hno (heq ▸ ha)
  have hexact := Transition.spends_all_iff Prod.snd (fun _ _ _ hs hstep => step_counting hs hstep)
    (fun _ _ _ b hs hstep hne => step_balance (n := n) hs hstep hne b) hnew.counting hlife h (hheld hnew.idle)
    (hheld hend)
  have hcounters : ∀ name, ((s.metrics n).counters name).getD 0 =
      (Transition.collect (step cfg hashApiKey g parse config) (counts n) r as).countP (·.2 = name) := by
    intro name
    rw [counters_counted h hno name, hnew.counters]
    exact Nat.zero_add _
  simp only [hcounters]
  exact hexact

theorem programs_of_untaken {w : Nat} (h : Transition.run (step cfg hashApiKey g parse config) s as = some t)
    (hw : ∀ node job, .take node w job ∉ as) (hs : s.programs w = none) : t.programs w = none := by
  induction as generalizing s with
  | nil =>
    cases h
    exact hs
  | cons a as ih =>
    obtain ⟨v, hv, hrest⟩ := Transition.run_cons_eq_some.mp h
    refine ih hrest (fun node job hmem => hw node job (List.mem_cons_of_mem a hmem)) ?_
    have hset : ∀ {w' : Nat} {x : Option RunningJob} {s' : Running}, s'.programs = s.programs → w ≠ w' →
        (s'.setProgram w' x).programs w = none := by
      intro w' x s' hsame hne
      rw [setProgram_programs, Function.update_of_ne hne, hsame, hs]
    have hother : ∀ {w' : Nat}, (s.programs w').isSome = true → w ≠ w' := by
      rintro w' hsome rfl
      rw [hs] at hsome
      cases hsome
    cases Step.of_step hv with
    | aside => exact hs
    | @take node w' job j hw' =>
      refine hset rfl ?_
      rintro rfl
      exact hw node job List.mem_cons_self
    | @perform w' o node job op next claim hj =>
      exact hset (serve_programs cfg s node w' claim o op) (hother (by rw [hj]; rfl))
    | finish hj => exact hset rfl (hother (by rw [hj]; rfl))
    | restart =>
      rw [restarted_programs, hs]
      rfl

theorem counters_exact_retried :
    (Transition.collect (step .defaults id silentSigner silentParsers WebhookConfig.defaults.retry)
      (commits .defaults 0) (boot (.subscribed 1)) retriedRun).countP (·.2 = "delivery_retries_scheduled_total") =
    (((after .defaults id silentSigner silentParsers WebhookConfig.defaults.retry (.subscribed 1)
      retriedRun).metrics 0).counters "delivery_retries_scheduled_total").getD 0 := by
  have hreached : Reached .defaults id silentSigner silentParsers WebhookConfig.defaults.retry (.subscribed 1)
      retriedRun (after .defaults id silentSigner silentParsers WebhookConfig.defaults.retry (.subscribed 1) retriedRun) :=
    Transition.run_ending (by decide +kernel)
  have hidle : ∀ w, (after .defaults id silentSigner silentParsers WebhookConfig.defaults.retry (.subscribed 1)
      retriedRun).pending 0 w = none := by
    intro w
    by_cases hw : w = 0
    · subst hw
      decide +kernel
    · have huntaken : ∀ node job, RunningAct.take node w job ∉ retriedRun := by
        intro node job
        simp [retriedRun, Script.ingest, Script.publish, hw]
      rw [pending, programs_of_untaken hreached huntaken rfl]
      rfl
  have hkept : RunningAct.restart 0 ∉ retriedRun := by
    simp [retriedRun, Script.ingest, Script.publish]
  have hboot : Reached .defaults id silentSigner silentParsers WebhookConfig.defaults.retry (.subscribed 1) []
      (boot (.subscribed 1)) := rfl
  exact (counters_exact hboot (.inl rfl) hreached hkept hidle).mpr (by decide +kernel) _

end Running

end WebhookEngine
