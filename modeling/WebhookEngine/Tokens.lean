import WebhookEngine.Custody
import WebhookEngine.TerminalStatus

/-! Whether every delivery that waits for an attempt has something that will lead to it:
an outbox row still to be published, or an unfinished job, for the right attempt. -/

namespace WebhookEngine

open Relational

def Token (s : System) (d n : Nat) : Prop :=
  (∃ i o, s.db.deliveryOutbox.row i = some o ∧ o.deliveryId = d ∧ o.attemptNumber = n ∧
      o.publishedAt = none) ∨
    ∃ j job, s.queue j = some job ∧ job.unfinished = true ∧ job.deliveryId = d ∧ job.expectedAttempt = n

def Covered (s : System) : Prop :=
  ∀ d r, s.db.deliveries.row d = some r → r.status.claimable = true → Token s d (r.attempts + 1)

def Point.undecided : Point → Bool
  | .started => true
  | .cancelling => true
  | .limiting => true
  | .deferring _ => true
  | .claiming => true
  | _ => false

/-- No worker on a job of the kind has decided. -/
def OpenOn (s : System) (P : JobId → Prop) : Prop :=
  ∀ w k, s.workers w = some k → P k.job → k.point.undecided = true

structure LiveRow (s : System) (i d n : Nat) : Prop where
  row : ∃ o, s.db.deliveryOutbox.row i = some o ∧ o.deliveryId = d ∧ o.attemptNumber = n ∧
    o.publishedAt = none
  unrun : ∀ m, .outbox i m ∉ s.finished
  isOpen : OpenOn s fun j => ∃ m, j = .outbox i m

structure LiveJob (s : System) (j : JobId) (d n : Nat) : Prop where
  job : ∃ job, s.queue j = some job ∧ job.unfinished = true ∧ job.deliveryId = d ∧
    job.expectedAttempt = n
  isOpen : OpenOn s fun i => i = j

def LiveToken (s : System) (d n : Nat) : Prop := (∃ i, LiveRow s i d n) ∨ ∃ j, LiveJob s j d n

theorem LiveToken.token {s : System} {d n : Nat} (h : LiveToken s d n) : Token s d n := by
  rcases h with ⟨i, hi⟩ | ⟨j, hj⟩
  · obtain ⟨o, ho⟩ := hi.row
    exact .inl ⟨i, o, ho⟩
  · obtain ⟨job, hjob⟩ := hj.job
    exact .inr ⟨j, job, hjob⟩

/-- The steps after which a worker has decided, with the attempt they decide. -/
inductive Decides (s : System) : Act → Nat → Nat → Prop where
  | find {w k} (hw : s.workers w = some k)
      (hf : afterFind (s.db.findById k.deliveryId) = .ended true) :
      Decides s (.find w) k.deliveryId k.expectedAttempt
  | cancel {w k} (hw : s.workers w = some k) (hp : k.point = .cancelling) :
      Decides s (.cancel w) k.deliveryId k.expectedAttempt
  | defer {w k at'} (hw : s.workers w = some k) (hp : k.point = .deferring at') :
      Decides s (.defer w) k.deliveryId k.expectedAttempt
  | claim {w k} (hw : s.workers w = some k) (hp : k.point = .claiming) :
      Decides s (.claim w) k.deliveryId k.expectedAttempt

/-- A deferral or a retry that leaves its delivery PENDING or FAILED finds it so, or
schedules the attempt after the row's count. -/
def SchedulesNext (cfg : Config) (s : System) (a : Act) (_ : System) : Prop :=
  ∀ x ∈ s.txn cfg a, ∀ p ∈ x.overwrites, p.2.claimable = true → ∀ r ∈ s.db.deliveries.row p.1,
    r.status.claimable = true ∨ ∃ o ∈ x.scheduled s.now s.db, o.attemptNumber = r.attempts + 1

instance (cfg : Config) (s : System) (a : Act) (t : System) : Decidable (SchedulesNext cfg s a t) :=
  inferInstanceAs (Decidable (∀ x ∈ s.txn cfg a, ∀ p ∈ x.overwrites, _))

theorem afterFind_cases (o : Option DispatchableDelivery) :
    afterFind o = .ended true ∨ (afterFind o).undecided = true := by
  cases o with
  | none => exact .inl rfl
  | some delivery =>
    simp only [afterFind]
    split
    · exact .inl rfl
    · split <;> exact .inr rfl

theorem afterLimit_undecided (now : Time) (o : Option Nat) : (afterLimit now o).undecided = true := by
  cases o <;> rfl

namespace System

variable {cfg : Config} {s t : System} {a : Act}

theorem Step.openOn (h : Step cfg s a t) {P : JobId → Prop} (ho : OpenOn s P)
    (hd : ∀ w k, s.workers w = some k → P k.job → ¬ Decides s a k.deliveryId k.expectedAttempt) :
    OpenOn t P := by
  intro w k' hw' hP
  rcases h.worker_origin hw' with hw | ⟨k, p, hw, rfl, hm⟩ | ⟨_, _, _, _, _, hstarted⟩
  · exact ho w k' hw hP
  · have hnot := hd w k hw hP
    have hopen := ho w k hw hP
    cases hm with
    | find =>
      rcases afterFind_cases (s.db.findById k.deliveryId) with he | he
      · exact absurd (.find hw he) hnot
      · exact he
    | cancel hp => exact absurd (.cancel hw hp) hnot
    | limit => exact afterLimit_undecided _ _
    | defer hp => exact absurd (.defer hw hp) hnot
    | claimMiss hp => exact absurd (.claim hw hp) hnot
    | claimHit hp => exact absurd (.claim hw hp) hnot
    | send hp =>
      rw [hp] at hopen
      cases hopen
    | answer hp =>
      rw [hp] at hopen
      cases hopen
    | settled hp =>
      rw [hp] at hopen
      cases hopen
    | thrown hp =>
      rw [hp] at hopen
      cases hopen
  · rw [hstarted]
    rfl

end System

section Live

variable {cfg : Config} {s t : System} {a : Act} {attempt : JobId → Nat × Nat} {d n : Nat}

theorem LiveJob.step {j : JobId} (hl : LiveJob s j d n) (hr : Registry attempt s) (h : s.Step cfg a t)
    (hlose : ∀ j, a ≠ .lose j) (hd : ¬ Decides s a d n) : LiveJob t j d n := by
  obtain ⟨job, hj, hu, hid, hn⟩ := hl.job
  constructor
  · obtain ⟨job', hj', hu', hid', hn'⟩ := h.job_kept hlose hj hu fun w k ok ha hw hp hjob => by
      have hopen := hl.isOpen w k hw hjob
      rw [hp] at hopen
      cases hopen
    exact ⟨job', hj', hu', hid'.trans hid, hn'.trans hn⟩
  · refine h.openOn hl.isOpen fun w k hw hjob hdec => hd ?_
    have hdata := hr.tasks w k hw
    rw [hjob, hr.jobs j job hj, Prod.mk.injEq] at hdata
    rwa [← hdata.1, ← hdata.2, hid, hn] at hdec

theorem LiveRow.step {i : Nat} {r' : Delivery} (hl : LiveRow s i d n) (hr : Registry attempt s)
    (hc : Custody s) (h : s.Step cfg a t) (hlose : ∀ j, a ≠ .lose j) (hd : ¬ Decides s a d n)
    (hrow : t.db.deliveries.row d = some r') : LiveToken t d n := by
  obtain ⟨o, ho, hid, hn, hun⟩ := hl.row
  have hopen : OpenOn t fun j => ∃ m, j = .outbox i m := by
    refine h.openOn hl.isOpen fun w k hw ⟨m, hjob⟩ hdec => hd ?_
    have hdata := hr.tasks w k hw
    rw [hjob, hr.rows i o m ho, Prod.mk.injEq] at hdata
    rwa [← hdata.1, ← hdata.2, hid, hn] at hdec
  have hunrun : ∀ m, .outbox i m ∉ t.finished := by
    intro m hm
    rcases h.finished_origin hm with hf | ⟨w, k, ok, _, hw, hp, hjob⟩
    · exact hl.unrun m hf
    · have hu := hl.isOpen w k hw ⟨m, hjob⟩
      rw [hp] at hu
      cases hu
  obtain ⟨o', ho', hid', hn', hun' | ⟨p, o₀, rest, rfl, hp, rfl⟩⟩ :=
    h.unpublished_kept ho hun (hid ▸ hrow)
  · exact .inl ⟨i, ⟨o', ho', hid'.trans hid, hn'.trans hn, hun'⟩, hunrun, hopen⟩
  · -- the row is published: its job is in the queue, for nobody has finished it
    rcases hc.added p o₀ rest hp with hf | ⟨job, hj, hu⟩
    · exact absurd hf (hl.unrun o₀.attempts)
    · have hdata := hr.jobs _ job hj
      rw [jobId, hr.rows _ o _ ho, Prod.mk.injEq] at hdata
      have hlive : LiveJob s (jobId o₀.id o₀.attempts) d n :=
        ⟨⟨job, hj, hu, hdata.1.symm.trans hid, hdata.2.symm.trans hn⟩,
          fun w k hw hjob => hl.isOpen w k hw ⟨o₀.attempts, hjob⟩⟩
      exact .inr ⟨_, hlive.step hr h hlose hd⟩

theorem LiveToken.step {r' : Delivery} (hl : LiveToken s d n) (hr : Registry attempt s) (hc : Custody s)
    (h : s.Step cfg a t) (hlose : ∀ j, a ≠ .lose j) (hd : ¬ Decides s a d n)
    (hrow : t.db.deliveries.row d = some r') : LiveToken t d n := by
  rcases hl with ⟨i, hi⟩ | ⟨j, hj⟩
  · exact hi.step hr hc h hlose hd hrow
  · exact .inr ⟨j, hj.step hr h hlose hd⟩

theorem liveToken_of_scheduled {x : Txn} {o : DeliveryOutbox} (hc : Custody s) (h : s.Step cfg a t)
    (hx : s.txn cfg a = some x) (hok : s.ok cfg a = true) (ho : o ∈ x.scheduled s.now s.db) :
    LiveToken t o.deliveryId o.attemptNumber := by
  have happ := System.store_of_ok hx hok
  rw [← h.db] at happ
  obtain ⟨m, hm⟩ := List.mem_iff_getElem?.mp ho
  have hrow := (Txn.outbox_becomes happ).new_row hm
  have hfresh : ∀ q, ¬ Known s (.outbox (s.db.deliveryOutbox.next + m) q) := by
    intro q hk
    have hlt := hc.ids _ q hk
    omega
  have hworker : ∀ w k q, t.workers w = some k → k.job ≠ .outbox (s.db.deliveryOutbox.next + m) q := by
    intro w k q hw hjob
    rcases h.task_origin hw with ⟨k₀, hw₀, hjob₀, _⟩ | ⟨job, _, _, hq, hu, _⟩
    · exact hfresh q (by rw [← hjob, ← hjob₀]; exact hc.tasks w k₀ hw₀)
    · exact hfresh q (by rw [← hjob]; exact .inr ⟨job, hq, hu⟩)
  refine .inl ⟨_, ⟨o, hrow, rfl, rfl, Txn.scheduled_unpublished ho⟩, fun q hf => ?_,
    fun w k hw ⟨q, hjob⟩ => absurd hjob (hworker w k q hw)⟩
  rcases h.finished_origin hf with hf | ⟨w, k, ok, _, hw, _, hjob⟩
  · exact hfresh q (.inl hf)
  · exact hfresh q (by rw [← hjob]; exact hc.tasks w k hw)

theorem afterFind_ended {delivery : DispatchableDelivery} (h : afterFind (some delivery) = .ended true) :
    delivery.row.status.terminal = true := by
  simp only [afterFind] at h
  split at h
  · rename_i hterm
    exact hterm
  · split at h <;> cases h

theorem Decides.rescheduled {r' : Delivery} (hd : Decides s a d n) (h : s.Step cfg a t)
    (hl : s.db.Linked) (hc : Custody s) (hr' : t.db.deliveries.row d = some r')
    (hcl : r'.status.claimable = true) (hn : r'.attempts + 1 = n) : LiveToken t d n := by
  cases hd with
  | @find w k hw hf =>
    have hdb : t.db = s.db := by
      rw [h.db]
      rfl
    rw [hdb] at hr'
    obtain ⟨delivery, hfind, _, hrow⟩ := hl.findById_isSome hr'
    rw [hfind] at hf
    have hterm := afterFind_ended hf
    rw [hrow] at hterm
    rw [DeliveryStatus.claimable_of_terminal hterm] at hcl
    cases hcl
  | @cancel w k hw hp =>
    have hx : s.txn cfg (.cancel w) = some (.markCancelled k.deliveryId "Endpoint is inactive") := by
      simp [System.txn, hw]
    cases hr : s.db.deliveries.row k.deliveryId with
    | none =>
      have hdb : t.db = s.db := by
        rw [h.db]
        simp [hx, Txn.apply, Database.markCancelled, Database.settle_absent hr]
      rw [hdb, hr] at hr'
      cases hr'
    | some r =>
      rw [h.rewritten hx (Txn.apply_of_overwrites hl rfl hr) hr (by simp), Option.some.injEq] at hr'
      rw [← hr'] at hcl
      simp [Txn.rewrite, Delivery.cancel] at hcl
  | @defer w k at' hw hp =>
    have hx : s.txn cfg (.defer w) =
        some (.markRateLimitedAndSchedule k.deliveryId at' k.expectedAttempt) := by
      simp [System.txn, hw, hp]
    cases hr : s.db.deliveries.row k.deliveryId with
    | none =>
      have hdb : t.db = s.db := by
        rw [h.db]
        simp [hx, Txn.apply, Database.markRateLimitedAndSchedule, Database.schedule_absent hr]
      rw [hdb, hr] at hr'
      cases hr'
    | some r =>
      have hsome : ((Txn.markRateLimitedAndSchedule k.deliveryId at' k.expectedAttempt).apply cfg s.now
          s.db).isSome = true := Txn.apply_of_overwrites hl rfl hr
      exact liveToken_of_scheduled hc h hx (by simpa [System.ok, hx] using hsome) List.mem_cons_self
  | @claim w k hw hp =>
    have hdb : t.db = (s.db.claimForProcessing s.now k.deliveryId k.expectedAttempt).1 := by
      rw [h.db]
      simp [System.txn, hw, Txn.apply]
    rcases Database.claimForProcessing_cases s.now s.db k.deliveryId k.expectedAttempt with
      ⟨hno, he⟩ | ⟨r, hr, _, he, _⟩
    · rw [hdb, he] at hr'
      rw [hr', Option.any_some] at hno
      simp [Delivery.claimableAs, hcl, hn] at hno
    · rw [hdb, he, Table.modify_row_self, hr, Option.map_some, Option.some.injEq] at hr'
      rw [← hr'] at hcl
      cases hcl

/-- A delivery that a transaction leaves to be attempted was so before, at the same
count, or gets an outbox row for the next attempt. -/
theorem Txn.rewrite_claimable {now : Time} {db : Database} {x : Txn} {r : Delivery}
    (hr : db.deliveries.row d = some r)
    (hx : ∀ p ∈ x.overwrites, p.2.claimable = true → ∀ r ∈ db.deliveries.row p.1,
      r.status.claimable = true ∨ ∃ o ∈ x.scheduled now db, o.attemptNumber = r.attempts + 1)
    (hs : ∀ m cutoff, x = .recoverStaleDelivery d m cutoff → r.staleBefore cutoff = true → r.attempts = m)
    (hcl : (x.rewrite now d r).status.claimable = true) :
    r.status.claimable = true ∧ (x.rewrite now d r).attempts = r.attempts ∨
      ∃ o ∈ x.scheduled now db, o.deliveryId = d ∧
        o.attemptNumber = (x.rewrite now d r).attempts + 1 := by
  generalize hq : x.rewrite now d r = q at hcl
  cases hq ▸ x.rewrites now d r with
  | same => exact .inl ⟨hcl, rfl⟩
  | claim _ => cases hcl
  | overwrite h hst hatt =>
    rw [hst] at hcl
    rw [hatt]
    rcases hx _ h hcl r hr with hcl' | ⟨o, ho, hn⟩
    · exact .inl ⟨hcl', rfl⟩
    · exact .inr ⟨o, ho, scheduled_of_overwrites h ho, hn⟩
  | @recover m cutoff hst =>
    have hatt := hs m cutoff rfl hst
    refine .inr ⟨.created now d now (m + 1), ?_, rfl, ?_⟩
    · simp [scheduled, hr, hst]
    · simp [Delivery.recover, DeliveryOutbox.created, hatt]
  | reset => exact .inr ⟨.created now d now 1, List.mem_cons_self, rfl, rfl⟩

theorem Txn.created_scheduled (now : Time) {db : Database} {x : Txn} {r : Delivery} {m : Nat}
    (hm : (x.created now db)[m]? = some r) :
    r.attempts = 0 ∧ .created now (db.deliveries.next + m) now 1 ∈ x.scheduled now db := by
  cases x with
  | createForTenant input endpointIds =>
    simp only [created, List.getElem?_map, Option.map_eq_some_iff] at hm
    obtain ⟨e, he, rfl⟩ := hm
    obtain ⟨hlt, _⟩ := List.getElem?_eq_some_iff.mp he
    refine ⟨rfl, ?_⟩
    simp only [scheduled, List.mem_map]
    exact ⟨db.deliveries.next + m, List.mem_range'_1.mpr ⟨by omega, by omega⟩, rfl⟩
  | _ => simp [created] at hm

def Live (s : System) : Prop :=
  ∀ d r, s.db.deliveries.row d = some r → r.status.claimable = true → LiveToken s d (r.attempts + 1)

theorem Live.step (hv : Live s) (hl : s.db.Linked) (hs : Scanned s) (hr : Registry attempt s)
    (hc : Custody s) (h : s.Step cfg a t) (hlose : ∀ j, a ≠ .lose j) (hnext : SchedulesNext cfg s a t) :
    Live t := by
  intro d r' hrow hcl
  have kept : ∀ r, s.db.deliveries.row d = some r → r.status.claimable = true →
      r'.attempts = r.attempts → LiveToken t d (r'.attempts + 1) := by
    intro r hold hcl' hatt
    have hlive := hv d r hold hcl'
    rw [← hatt] at hlive
    by_cases hd : Decides s a d (r'.attempts + 1)
    · exact hd.rescheduled h hl hc hrow hcl rfl
    · exact hlive.step hr hc h hlose hd hrow
  have hrow' := hrow
  rw [h.db] at hrow'
  rcases s.store_cases cfg a with he | ⟨x, hx, hok, happ⟩
  · rw [he] at hrow'
    exact kept r' hrow' hcl rfl
  · have fresh : ∀ o ∈ x.scheduled s.now s.db, o.deliveryId = d → o.attemptNumber = r'.attempts + 1 →
        LiveToken t d (r'.attempts + 1) := by
      intro o ho hd hn
      have hlive := liveToken_of_scheduled hc h hx hok ho
      rwa [hd, hn] at hlive
    rcases (Txn.deliveries_becomes happ).origin hrow' with ⟨r, hold, _, rfl⟩ | ⟨hge, hnew⟩
    · have hscan : ∀ m cutoff, x = .recoverStaleDelivery d m cutoff → r.staleBefore cutoff = true →
          r.attempts = m := by
        rintro m cutoff rfl hst
        cases System.attempts_of_txn hx with
        | @staleRecover m' p rest hrest =>
          exact (hs m' p (by rw [hrest]; exact List.mem_cons_self)).2 r hold hst
      rcases Txn.rewrite_claimable hold (hnext x hx) hscan hcl with ⟨hcl', hatt⟩ | ⟨o, ho, hd, hn⟩
      · exact kept r hold hcl' hatt
      · exact fresh o ho hd hn
    · obtain ⟨h0, hmem⟩ := Txn.created_scheduled s.now hnew
      refine fresh _ hmem ?_ ?_
      · change s.db.deliveries.next + (d - s.db.deliveries.next) = d
        omega
      · rw [h0]
        rfl

/-- What a run keeps that loses no job and schedules the attempts a claim will accept. -/
structure Sound (s : System) : Prop where
  linked : s.db.Linked
  scanned : Scanned s
  custody : Custody s
  registry : ∃ attempt, Registry attempt s
  live : Live s

theorem Sound.boot (u : Setup) : Sound (.boot u) where
  linked := System.boot_linked u
  scanned := .boot u
  custody := .boot u
  registry := ⟨_, .boot u⟩
  live d r hr := by cases hr

theorem Sound.step (hs : Sound s) (h : s.Step cfg a t) (hlose : ∀ j, a ≠ .lose j)
    (hnext : SchedulesNext cfg s a t) : Sound t := by
  obtain ⟨attempt, hr⟩ := hs.registry
  exact ⟨h.linked hs.linked, hs.scanned.step h, hs.custody.step h hlose, ⟨_, hr.step hs.custody h⟩,
    hs.live.step hs.linked hs.scanned hr hs.custody h hlose hnext⟩

theorem Sound.covered (hs : Sound s) : Covered s :=
  fun d r hr hcl => (hs.live d r hr hcl).token

end Live

/-- In a run that loses no unfinished job and whose deferrals and retries schedule the
attempt a claim will accept, no delivery is ever stranded. -/
theorem no_stranded_delivery {cfg : Config} {u : Setup} {as : List Act} (hlose : ∀ j, .lose j ∉ as)
    (hnext : Transition.Along (System.step cfg) (SchedulesNext cfg) (.boot u) as) :
    Transition.Visits (System.step cfg) Covered (.boot u) as := by
  have hnone : Transition.Along (System.step cfg) (fun _ a _ => ∀ j, a ≠ .lose j) (.boot u) as := by
    refine Transition.along_of_mem fun a ha _ _ j he => ?_
    rw [he] at ha
    exact hlose j ha
  have hvisits : Transition.Visits (System.step cfg) Sound (.boot u) as :=
    (hnext.and hnone).visits (fun _ _ _ hs ht hp => hs.step (.of_step ht) hp.2 hp.1) (.boot u)
  exact hvisits.mono fun s hs => hs.covered

/-- The limiter holds back a first worker and then lets the job through to a second one. -/
def deferredRun : List Act :=
  Script.ingest ++ Script.publish 0 ++ [.take 0 (jobId 0 0), .find 0, .limit 0 (some 1000), .defer 0, .finish 0,
    .tick 1000] ++ Script.publish 1 ++ Script.claim 1 (jobId 1 0) ++ Script.answer 1 503 ++ [.settle 1 1000]

theorem no_stranded_delivery_deferred :
    let s := System.after .defaults (.subscribed 1) deferredRun
    (s.db.deliveries.row 0).map Delivery.status = some .failed ∧ Covered s := by
  have hrun : System.Reached .defaults (.subscribed 1) deferredRun
      (.after .defaults (.subscribed 1) deferredRun) := Transition.run_ending (by decide +kernel)
  have hlose : ∀ j, Act.lose j ∉ deferredRun := by
    intro j
    simp [deferredRun, Script.ingest, Script.publish, Script.claim, Script.answer]
  have hnext : Transition.Along (System.step .defaults) (SchedulesNext .defaults)
      (.boot (.subscribed 1)) deferredRun := by decide +kernel
  have hvisits := no_stranded_delivery hlose hnext
  exact ⟨by decide +kernel, hvisits.last hrun⟩

/-- A worker dies after its claim. The job is handed out again and the limiter defers it,
under the number that has been claimed. -/
def strandingRun : List Act :=
  Script.ingest ++ Script.publish 0 ++ Script.claim 0 (jobId 0 0) ++
    [.crash 0, .take 1 (jobId 0 0), .find 1, .limit 1 (some 1000), .defer 1, .finish 1]

theorem strandingRun_queue : (System.after .defaults (.subscribed 1) strandingRun).queue =
    (((Queue.add (fun _ => none) (jobId 0 0) 0 1).setState (jobId 0 0) .active).setState (jobId 0 0)
      .active).setState (jobId 0 0) .completed := rfl

theorem delivery_stranded : ¬ ∀ (cfg : Config) (u : Setup) (as : List Act), (∀ j, .lose j ∉ as) →
    Transition.Visits (System.step cfg) Covered (.boot u) as := by
  intro h
  have hrun : System.Reached .defaults (.subscribed 1) strandingRun
      (.after .defaults (.subscribed 1) strandingRun) := Transition.run_ending (by decide +kernel)
  have hlose : ∀ j, Act.lose j ∉ strandingRun := by
    intro j
    simp [strandingRun, Script.ingest, Script.publish, Script.claim]
  have hcovered := (h .defaults (.subscribed 1) strandingRun hlose).last hrun
  have hrow : ((System.after .defaults (.subscribed 1) strandingRun).db.deliveries.row 0).map
      (fun r => (r.status, r.attempts)) = some (.pending, 1) := by decide +kernel
  have hnext : (System.after .defaults (.subscribed 1) strandingRun).db.deliveryOutbox.next = 2 := by
    decide +kernel
  have hnumbers : ∀ i < 2, ((System.after .defaults (.subscribed 1) strandingRun).db.deliveryOutbox.row i).map
      DeliveryOutbox.attemptNumber = some 1 := by decide +kernel
  obtain ⟨r, hr, hst⟩ := Option.map_eq_some_iff.mp hrow
  rw [Prod.mk.injEq] at hst
  have htoken := hcovered 0 r hr (by rw [hst.1]; rfl)
  rw [hst.2] at htoken
  rcases htoken with ⟨i, o, ho, _, hn, _⟩ | ⟨j, job, hj, _, _, hn⟩
  · have hlt := Table.lt_next ho
    rw [hnext] at hlt
    have hone := hnumbers i hlt
    rw [ho, Option.map_some, Option.some.injEq] at hone
    omega
  · rw [strandingRun_queue] at hj
    by_cases he : j = jobId 0 0
    · simp [he, Queue.setState, Queue.add] at hj
      rw [← hj] at hn
      exact absurd hn (by decide)
    · simp [he, Queue.setState, Queue.add] at hj

end WebhookEngine
