import WebhookEngine.Steps

/-! Whole calls of the maintenance and the publisher, with nothing in between: what
they make of the store and the queue, and that the running system can make them. -/

namespace WebhookEngine

open Relational

namespace Database

def recoverStaleDeliveries (cfg : Config) (now : Time) (db : Database) (ids : List Nat) :
    Option Database :=
  let cutoff := now - cfg.staleDeliveryAge
  if db.StaleBatch cutoff ids then
    some ((db.staleSnapshots ids).foldl (fun db p => db.recoverStaleDelivery now p.1 p.2 cutoff) db)
  else none

/-- One turn of the loop of `recoverStrandedPublishedOutbox`. -/
def reopenStranded (q : Queue) (db : Database) (p : Nat × Nat) : Option Database :=
  if q.stranded p.1 p.2 then db.updateOutbox p.1 (.reopened (q.stateText p.1 p.2)) else some db

def recoverStrandedPublishedOutbox (q : Queue) (db : Database) (ids : List Nat) : Option Database :=
  if db.StrandedBatch ids then (db.strandedSnapshots ids).foldlM (reopenStranded q) db else none

def cleaned (cfg : Config) (now : Time) (db : Database) : Database :=
  ((db.cleanupExpiredEndpointSecrets now).cleanupPublishedOutboxRows now).cleanupOldEvents
    cfg.eventRetentionDays now

end Database

/-- `DeliveryOutboxPublisherService` with the store and the queue it works on. -/
structure PublisherService where
  db : Database
  queue : Queue
  lastMaintenanceAt : Time

/-- A call of `recoverAndCleanup`: its clock, and what its two selects answer with. -/
structure Pass where
  now : Time
  stale : List Nat
  stranded : List Nat
  deriving DecidableEq, Repr

/-- A call of `publishPending`. The pass it may begin with reads the same clock. -/
structure PublishCall where
  pass : Pass
  ids : List Nat
  deriving DecidableEq, Repr

namespace PublisherService

def recoverAndCleanup (cfg : Config) (s : PublisherService) (p : Pass) : Option PublisherService := do
  let db ← (s.db.cleaned cfg p.now).recoverStaleDeliveries cfg p.now p.stale
  let db ← db.recoverStrandedPublishedOutbox s.queue p.stranded
  return { s with db := db }

/-- One turn of the loop of `publishPending`. -/
def publishRow (now : Time) (s : PublisherService) (o : OutboxSnapshot) : Option PublisherService := do
  let queue := s.queue.add (jobId o.id o.attempts) o.deliveryId o.attemptNumber
  let db ← s.db.updateOutbox o.id (.published now)
  return { s with db := db, queue := queue }

def publishRows (s : PublisherService) (now : Time) (ids : List Nat) : Option PublisherService :=
  if s.db.PublishBatch now ids then (s.db.snapshots ids).foldlM (publishRow now) s else none

/-- The pass `publishPending` begins with when the last one is a minute old. -/
def maintain (cfg : Config) (s : PublisherService) (p : Pass) : Option PublisherService :=
  if s.lastMaintenanceAt + 60000 ≤ p.now then
    (s.recoverAndCleanup cfg p).map fun s => { s with lastMaintenanceAt := p.now }
  else some s

def publishPending (cfg : Config) (s : PublisherService) (c : PublishCall) : Option PublisherService :=
  (s.maintain cfg c.pass).bind fun s => s.publishRows c.pass.now c.ids

end PublisherService

/-! ### The deletions -/

namespace Database

/-- A delivery that goes with its event at this time. -/
def forgets (cfg : Config) (now : Time) (db : Database) (r : Delivery) : Bool :=
  cfg.eventRetentionDays != 0 && db.doomed cfg.eventRetentionDays now r

/-- An outbox row a pass at this time deletes. -/
def sweeps (cfg : Config) (now : Time) (db : Database) (o : DeliveryOutbox) : Bool :=
  o.publishedAt.any (fun t => t + publishedRetention < now) ||
    (db.deliveries.row o.deliveryId).any (db.forgets cfg now)

variable {cfg : Config} {now : Time} {db db' : Database}

theorem cleaned_deliveries {d : Nat} {r : Delivery} :
    (db.cleaned cfg now).deliveries.row d = some r ↔
      db.deliveries.row d = some r ∧ db.forgets cfg now r = false := by
  simp only [cleaned, cleanupOldEvents, forgets]
  split
  · rename_i h0
    simp [cleanupPublishedOutboxRows, cleanupExpiredEndpointSecrets, h0]
  · rename_i h0
    simp [Table.deleteWhere_row_eq_some, cleanupPublishedOutboxRows, cleanupExpiredEndpointSecrets,
      doomed, h0]

theorem cleaned_outbox {i : Nat} {o : DeliveryOutbox} :
    (db.cleaned cfg now).deliveryOutbox.row i = some o ↔
      db.deliveryOutbox.row i = some o ∧ db.sweeps cfg now o = false := by
  simp only [cleaned, cleanupOldEvents]
  split
  · rename_i h0
    have hforgets : db.forgets cfg now = fun _ => false := funext fun r => by simp [forgets, h0]
    simp [sweeps, hforgets, Table.deleteWhere_row_eq_some, cleanupPublishedOutboxRows,
      cleanupExpiredEndpointSecrets]
  · rename_i h0
    have hforgets : db.forgets cfg now = db.doomed cfg.eventRetentionDays now :=
      funext fun r => by simp [forgets, h0]
    rw [Table.deleteWhere_row_eq_some, sweeps, hforgets, Bool.or_eq_false_iff, ← and_assoc]
    exact and_congr_left fun _ => Table.deleteWhere_row_eq_some

theorem cleaned_events {e : Nat} {ev : WebhookEvent}
    (h : (db.cleaned cfg now).events.row e = some ev) : db.events.row e = some ev := by
  simp only [cleaned, cleanupOldEvents] at h
  split at h
  · exact h
  · exact (Table.deleteWhere_row_eq_some.mp h).1

theorem cleaned_next (cfg : Config) (now : Time) (db : Database) :
    (db.cleaned cfg now).deliveryOutbox.next = db.deliveryOutbox.next ∧
    (db.cleaned cfg now).deliveries.next = db.deliveries.next := by
  simp only [cleaned, cleanupOldEvents]
  split <;> exact ⟨rfl, rfl⟩

end Database

/-! ### The loops -/

namespace Database

/-- The outbox rows there can be without further claims. -/
def load (db : Database) : Nat :=
  db.deliveryOutbox.next + (db.deliveries.select fun _ r => r.status == .processing).length

/-- What the loop of the stale recovery makes of the store. -/
structure Recovered (db db' : Database) : Prop where
  kept : ∀ i o, db.deliveryOutbox.row i = some o → db'.deliveryOutbox.row i = some o
  origin : ∀ i o, db'.deliveryOutbox.row i = some o → db.deliveryOutbox.row i = some o ∨
    o.publishedAt = none ∧ ∃ r, db.deliveries.row o.deliveryId = some r ∧ r.status = .processing
  settled : ∀ d r, db.deliveries.row d = some r → r.status ≠ .processing → db'.deliveries.row d = some r
  rows : ∀ d r', db'.deliveries.row d = some r' → ∃ r, db.deliveries.row d = some r ∧
    (r' = r ∨ r.status = .processing ∧ r'.status = .failed ∧ r'.eventId = r.eventId)
  events : db'.events = db.events
  load : db'.load ≤ db.load

namespace Recovered

variable {db db' db'' : Database}

theorem refl (db : Database) : Recovered db db where
  kept _ _ ho := ho
  origin _ _ ho := .inl ho
  settled _ _ hr _ := hr
  rows _ r' hr := ⟨r', hr, .inl rfl⟩
  events := rfl
  load := le_rfl

theorem trans (h : Recovered db db') (h' : Recovered db' db'') : Recovered db db'' where
  kept i o ho := h'.kept i o (h.kept i o ho)
  origin i o ho := by
    rcases h'.origin i o ho with hmid | ⟨hnew, r', hr', hst⟩
    · exact h.origin i o hmid
    · obtain ⟨r, hr, rfl | ⟨_, hfailed, _⟩⟩ := h.rows _ r' hr'
      · exact .inr ⟨hnew, r', hr, hst⟩
      · rw [hst] at hfailed
        cases hfailed
  settled d r hr hst := h'.settled d r (h.settled d r hr hst) hst
  rows d r'' hr'' := by
    obtain ⟨r', hr', hcase'⟩ := h'.rows d r'' hr''
    obtain ⟨r, hr, hcase⟩ := h.rows d r' hr'
    refine ⟨r, hr, ?_⟩
    rcases hcase with rfl | ⟨hst, hfailed, hev⟩
    · exact hcase'
    · rcases hcase' with rfl | ⟨hst', _⟩
      · exact .inr ⟨hst, hfailed, hev⟩
      · rw [hst'] at hfailed
        cases hfailed
  events := h'.events.trans h.events
  load := h'.load.trans h.load

theorem one (now : Time) (db : Database) (id attempts : Nat) (cutoff : Time) :
    Recovered db (db.recoverStaleDelivery now id attempts cutoff) := by
  rcases recoverStaleDelivery_cases now db id attempts cutoff with ⟨_, he⟩ | ⟨r₀, hr₀, hs, he⟩
  · rw [he]
    exact .refl db
  rw [he]
  have hst : r₀.status = .processing := by
    simp only [Delivery.staleBefore, Bool.and_eq_true, beq_iff_eq] at hs
    exact hs.1
  have hrows : ∀ d r', (db.deliveries.modify id (.recover now)).row d = some r' →
      ∃ r, db.deliveries.row d = some r ∧
        (r' = r ∨ r.status = .processing ∧ r'.status = .failed ∧ r'.eventId = r.eventId) := by
    intro d r' hr'
    by_cases hd : d = id
    · subst d
      rw [Table.modify_row_self, hr₀, Option.map_some, Option.some.injEq] at hr'
      subst r'
      exact ⟨r₀, hr₀, .inr ⟨hst, rfl, rfl⟩⟩
    · rw [Table.modify_row_of_ne _ _ hd] at hr'
      exact ⟨r', hr', .inl rfl⟩
  refine ⟨fun i o ho => ?_, fun i o ho => ?_, fun d r hr hno => ?_, hrows, rfl, ?_⟩
  · have hlt := Table.lt_next ho
    rw [Table.insert_row, if_neg (by omega)]
    exact ho
  · rw [Table.insert_row] at ho
    split at ho
    · cases ho
      exact .inr ⟨rfl, r₀, hr₀, hst⟩
    · exact .inl ho
  · have hne : d ≠ id := by
      rintro rfl
      rw [hr₀] at hr
      cases hr
      exact hno hst
    rwa [Table.modify_row_of_ne _ _ hne]
  · have hlt : ((db.deliveries.modify id (.recover now)).select
        fun _ r => r.status == .processing).length <
        (db.deliveries.select fun _ r => r.status == .processing).length := by
      refine Table.select_length_lt (fun d r' hr' hp => ?_) hr₀ (by simp [hst]) fun r' hr' => ?_
      · obtain ⟨r, hr, rfl | ⟨hst, _⟩⟩ := hrows d r' hr'
        · exact ⟨r', hr, hp⟩
        · exact ⟨r, hr, by simp [hst]⟩
      · rw [Table.modify_row_self, hr₀, Option.map_some, Option.some.injEq] at hr'
        subst r'
        rfl
    simp only [Database.load, Table.insert_next]
    omega

theorem all (now cutoff : Time) (db : Database) (l : List (Nat × Nat)) :
    Recovered db (l.foldl (fun db p => db.recoverStaleDelivery now p.1 p.2 cutoff) db) := by
  induction l generalizing db with
  | nil => exact .refl db
  | cons p l ih => exact (Recovered.one now db p.1 p.2 cutoff).trans (ih _)

end Recovered

variable {q : Queue} {db : Database} {ids : List Nat}

theorem strandedSnapshots_congr {db' : Database}
    (h : ∀ i ∈ ids, db'.deliveryOutbox.row i = db.deliveryOutbox.row i) :
    db'.strandedSnapshots ids = db.strandedSnapshots ids :=
  List.filterMap_congr fun i hi => by rw [h i hi]

theorem snapshots_congr {db' : Database}
    (h : ∀ i ∈ ids, db'.deliveryOutbox.row i = db.deliveryOutbox.row i) :
    db'.snapshots ids = db.snapshots ids :=
  List.filterMap_congr fun i hi => by rw [h i hi]

def reopening (q : Queue) (ids : List Nat) (i : Nat) (o : DeliveryOutbox) : DeliveryOutbox :=
  if i ∈ ids ∧ q.stranded i o.attempts then o.reopened (q.stateText i o.attempts) else o

theorem reopenStranded_loop (q : Queue) (hn : ids.Nodup)
    (hrow : ∀ i ∈ ids, ∃ o, db.deliveryOutbox.row i = some o) :
    ∃ t, (db.strandedSnapshots ids).foldlM (reopenStranded q) db = some { db with deliveryOutbox := t } ∧
      t.next = db.deliveryOutbox.next ∧
      ∀ i, t.row i = (db.deliveryOutbox.row i).map (reopening q ids i) := by
  induction ids generalizing db with
  | nil =>
    refine ⟨db.deliveryOutbox, rfl, rfl, fun i => ?_⟩
    cases db.deliveryOutbox.row i <;> simp [reopening]
  | cons j ids ih =>
    obtain ⟨hj, hn⟩ := List.nodup_cons.mp hn
    obtain ⟨o, ho⟩ := hrow j List.mem_cons_self
    have hcons : db.strandedSnapshots (j :: ids) = (j, o.attempts) :: db.strandedSnapshots ids := by
      simp [strandedSnapshots, ho]
    have hfirst : ∃ t, db.reopenStranded q (j, o.attempts) = some { db with deliveryOutbox := t } ∧
        t.next = db.deliveryOutbox.next ∧
        ∀ i, t.row i = (db.deliveryOutbox.row i).map (reopening q [j] i) := by
      by_cases hs : q.stranded j o.attempts = true
      · refine ⟨db.deliveryOutbox.modify j (.reopened (q.stateText j o.attempts)), ?_, rfl, fun i => ?_⟩
        · simp [reopenStranded, hs, updateOutbox, ho]
        · by_cases hi : i = j
          · subst i
            simp [ho, reopening, hs]
          · cases hr : db.deliveryOutbox.row i <;> simp [Table.modify_row, hi, hr, reopening]
      · refine ⟨db.deliveryOutbox, by simp [reopenStranded, hs], rfl, fun i => ?_⟩
        by_cases hi : i = j
        · subst i
          simp [ho, reopening, hs]
        · cases hr : db.deliveryOutbox.row i <;> simp [hi, reopening]
    obtain ⟨t, hstep, hnext, ht⟩ := hfirst
    have hother : ∀ i ∈ ids, t.row i = db.deliveryOutbox.row i := by
      intro i hi
      have hne : i ≠ j := fun he => hj (he ▸ hi)
      rw [ht]
      cases hr : db.deliveryOutbox.row i <;> simp [hne, reopening]
    have hrow' : ∀ i ∈ ids, ∃ o, t.row i = some o := fun i hi => by
      rw [hother i hi]
      exact hrow i (List.mem_cons_of_mem _ hi)
    obtain ⟨t', hrest, hnext', ht'⟩ := @ih { db with deliveryOutbox := t } hn hrow'
    refine ⟨t', ?_, hnext'.trans hnext, fun i => ?_⟩
    · rw [hcons, List.foldlM_cons, hstep]
      rw [strandedSnapshots_congr hother] at hrest
      exact hrest
    · rw [ht', ht, Option.map_map]
      congr 1
      funext r
      by_cases hi : i = j
      · subst i
        simp [reopening, hj]
      · simp [reopening, hi]

end Database

namespace PublisherService

/-- What the loop of `publishPending` makes of the store and the queue. -/
structure Published (now : Time) (ids : List Nat) (s s' : PublisherService) : Prop where
  rest : s'.db = { s.db with deliveryOutbox := s'.db.deliveryOutbox }
  last : s'.lastMaintenanceAt = s.lastMaintenanceAt
  next : s'.db.deliveryOutbox.next = s.db.deliveryOutbox.next
  row : ∀ i, s'.db.deliveryOutbox.row i =
    (s.db.deliveryOutbox.row i).map fun o => if i ∈ ids then o.published now else o
  kept : ∀ j job, s.queue j = some job → s'.queue j = some job
  added : ∀ i ∈ ids, ∀ o, s.db.deliveryOutbox.row i = some o → s.queue (jobId i o.attempts) = none →
    s'.queue (jobId i o.attempts) = some ⟨o.deliveryId, o.attemptNumber, .waiting⟩
  origin : ∀ j job, s'.queue j = some job → s.queue j = some job ∨ ∃ i ∈ ids, ∃ o,
    s.db.deliveryOutbox.row i = some o ∧ j = jobId i o.attempts ∧ s.queue j = none ∧
    job = ⟨o.deliveryId, o.attemptNumber, .waiting⟩

namespace Published

variable {now : Time} {ids : List Nat} {s s' s'' : PublisherService}

theorem nil (now : Time) (s : PublisherService) : Published now [] s s where
  rest := rfl
  last := rfl
  next := rfl
  row i := by cases s.db.deliveryOutbox.row i <;> simp
  kept _ _ hj := hj
  added i hi := by cases hi
  origin _ _ hj := .inl hj

theorem one (now : Time) {i : Nat} {o : DeliveryOutbox} (ho : s.db.deliveryOutbox.row i = some o) :
    ∃ s', s.publishRow now ⟨i, o.deliveryId, o.attemptNumber, o.attempts⟩ = some s' ∧
      Published now [i] s s' := by
  refine ⟨⟨{ s.db with deliveryOutbox := s.db.deliveryOutbox.modify i (.published now) },
    s.queue.add (jobId i o.attempts) o.deliveryId o.attemptNumber, s.lastMaintenanceAt⟩,
    by simp [publishRow, Database.updateOutbox, ho], rfl, rfl, rfl, fun j => ?_,
    fun j job hj => Queue.add_of_some hj, fun j hj o' ho' hfree => ?_, fun j job hj => ?_⟩
  · by_cases hi : j = i
    · subst j
      simp [ho]
    · cases hr : s.db.deliveryOutbox.row j <;> simp [Table.modify_row, hi, hr]
  · rw [List.mem_singleton] at hj
    subst j
    rw [ho] at ho'
    cases ho'
    simp [Queue.add, hfree]
  · rcases Queue.add_eq_some hj with hold | ⟨hnone, rfl, rfl⟩
    · exact .inl hold
    · exact .inr ⟨i, List.mem_singleton_self i, o, ho, rfl, hnone, rfl⟩

theorem cons {i : Nat} (hi : i ∉ ids) (h : Published now [i] s s') (h' : Published now ids s' s'') :
    Published now (i :: ids) s s'' where
  rest := by rw [h'.rest, h.rest]
  last := h'.last.trans h.last
  next := h'.next.trans h.next
  row j := by
    rw [h'.row, h.row, Option.map_map]
    congr 1
    funext o
    by_cases hj : j = i
    · subst j
      simp [hi]
    · simp [hj]
  kept j job hj := h'.kept j job (h.kept j job hj)
  added j hj o ho hfree := by
    rcases List.mem_cons.mp hj with rfl | hj
    · exact h'.kept _ _ (h.added j (List.mem_singleton_self j) o ho hfree)
    · have hne : j ≠ i := fun he => hi (he ▸ hj)
      have ho' : s'.db.deliveryOutbox.row j = some o := by simp [h.row, ho, hne]
      refine h'.added j hj o ho' ?_
      rw [Option.eq_none_iff_forall_not_mem]
      intro job hjob
      rcases h.origin _ job hjob with hold | ⟨k, hk, _, _, hid, _⟩
      · rw [hfree] at hold
        cases hold
      · simp only [jobId, JobId.outbox.injEq] at hid
        rw [List.mem_singleton] at hk
        exact hne (hid.1.trans hk)
  origin j job hj := by
    rcases h'.origin j job hj with hmid | ⟨k, hk, o', ho', hid, hnone, hjob⟩
    · rcases h.origin j job hmid with hold | ⟨k, hk, hrest⟩
      · exact .inl hold
      · rw [List.mem_singleton] at hk
        exact .inr ⟨k, by simp [hk], hrest⟩
    · have hne : k ≠ i := fun he => hi (he ▸ hk)
      have ho : s.db.deliveryOutbox.row k = some o' := by
        rw [h.row] at ho'
        simpa [hne] using ho'
      refine .inr ⟨k, List.mem_cons_of_mem _ hk, o', ho, hid, ?_, hjob⟩
      rw [Option.eq_none_iff_forall_not_mem]
      intro job' hjob'
      have := h.kept j job' hjob'
      rw [hnone] at this
      cases this

theorem loop (now : Time) (hn : ids.Nodup) (hrow : ∀ i ∈ ids, ∃ o, s.db.deliveryOutbox.row i = some o) :
    ∃ s', (s.db.snapshots ids).foldlM (publishRow now) s = some s' ∧ Published now ids s s' := by
  induction ids generalizing s with
  | nil => exact ⟨s, rfl, .nil now s⟩
  | cons i ids ih =>
    obtain ⟨hi, hn⟩ := List.nodup_cons.mp hn
    obtain ⟨o, ho⟩ := hrow i List.mem_cons_self
    obtain ⟨u, hstep, hu⟩ := one now ho
    have hother : ∀ j ∈ ids, u.db.deliveryOutbox.row j = s.db.deliveryOutbox.row j := by
      intro j hj
      have hne : j ≠ i := fun he => hi (he ▸ hj)
      rw [hu.row]
      cases hr : s.db.deliveryOutbox.row j <;> simp [hne]
    obtain ⟨s', hrest, hs'⟩ := ih (s := u) hn fun j hj => by
      rw [hother j hj]
      exact hrow j (List.mem_cons_of_mem _ hj)
    refine ⟨s', ?_, hu.cons hi hs'⟩
    have hcons : s.db.snapshots (i :: ids) =
        ⟨i, o.deliveryId, o.attemptNumber, o.attempts⟩ :: s.db.snapshots ids := by
      simp [Database.snapshots, ho]
    rw [hcons, List.foldlM_cons, hstep]
    rw [Database.snapshots_congr hother] at hrest
    exact hrest

end Published

/-! ### The calls -/

/-- What a pass makes of the store, by way of `mid`, the store its last loop starts from. -/
structure Passed (cfg : Config) (p : Pass) (s : PublisherService) (mid : Database)
    (s' : PublisherService) : Prop where
  batch : mid.StrandedBatch p.stranded
  recovered : Database.Recovered (s.db.cleaned cfg p.now) mid
  rest : s'.db = { mid with deliveryOutbox := s'.db.deliveryOutbox }
  queue : s'.queue = s.queue
  last : s'.lastMaintenanceAt = s.lastMaintenanceAt
  next : s'.db.deliveryOutbox.next = mid.deliveryOutbox.next
  row : ∀ i, s'.db.deliveryOutbox.row i =
    (mid.deliveryOutbox.row i).map (Database.reopening s.queue p.stranded i)

variable {cfg : Config} {p : Pass} {s s' : PublisherService}

theorem passed_of_batch {mid : Database}
    (hstale : (s.db.cleaned cfg p.now).recoverStaleDeliveries cfg p.now p.stale = some mid)
    (hbatch : mid.StrandedBatch p.stranded) :
    ∃ s', s.recoverAndCleanup cfg p = some s' ∧ Passed cfg p s mid s' := by
  have hrec : Database.Recovered (s.db.cleaned cfg p.now) mid := by
    simp only [Database.recoverStaleDeliveries] at hstale
    split at hstale
    · cases hstale
      exact .all _ _ _ _
    · cases hstale
  obtain ⟨t, hloop, hnext, hrow⟩ := Database.reopenStranded_loop s.queue hbatch.1
    fun i hi => (hbatch.row hi).imp fun o ho => ho.1
  refine ⟨{ s with db := { mid with deliveryOutbox := t } }, ?_,
    hbatch, hrec, rfl, rfl, rfl, hnext, hrow⟩
  simp [recoverAndCleanup, hstale, Database.recoverStrandedPublishedOutbox, hbatch, hloop]

theorem recoverAndCleanup_passed (h : s.recoverAndCleanup cfg p = some s') :
    ∃ mid, Passed cfg p s mid s' := by
  have hsteps := h
  simp only [recoverAndCleanup, Option.bind_eq_bind, Option.bind_eq_some_iff] at hsteps
  obtain ⟨mid, hstale, db', hstranded, _⟩ := hsteps
  have hbatch : mid.StrandedBatch p.stranded := by
    by_contra hno
    simp [Database.recoverStrandedPublishedOutbox, hno] at hstranded
  obtain ⟨s'', hs'', hpassed⟩ := passed_of_batch hstale hbatch
  rw [h, Option.some.injEq] at hs''
  subst hs''
  exact ⟨mid, hpassed⟩

theorem exists_pass (cfg : Config) (now : Time) (s : PublisherService) {C : Database → List Nat → Prop}
    (hC : ∀ mid, Database.Recovered (s.db.cleaned cfg now) mid →
      ∃ ids, mid.StrandedBatch ids ∧ C mid ids) :
    ∃ p mid s', p.now = now ∧ s.recoverAndCleanup cfg p = some s' ∧ Passed cfg p s mid s' ∧
      C mid p.stranded := by
  obtain ⟨stale, hstale⟩ := (s.db.cleaned cfg now).deliveries.exists_answers
    (fun _ r => r.staleBefore (now - cfg.staleDeliveryAge)) 100
  have hsome : (s.db.cleaned cfg now).recoverStaleDeliveries cfg now stale = some
      (((s.db.cleaned cfg now).staleSnapshots stale).foldl
        (fun db p => db.recoverStaleDelivery now p.1 p.2 (now - cfg.staleDeliveryAge))
        (s.db.cleaned cfg now)) := if_pos hstale
  obtain ⟨stranded, hbatch, hc⟩ := hC _ (.all now (now - cfg.staleDeliveryAge) _ _)
  obtain ⟨s', hs', hpassed⟩ := passed_of_batch (p := ⟨now, stale, stranded⟩) hsome hbatch
  exact ⟨⟨now, stale, stranded⟩, _, s', rfl, hs', hpassed, hc⟩

namespace Passed

variable {mid : Database}

theorem delivery_origin (h : Passed cfg p s mid s') {d : Nat} {r' : Delivery}
    (hr' : s'.db.deliveries.row d = some r') : ∃ r, s.db.deliveries.row d = some r ∧
      (r' = r ∨ r.status = .processing ∧ r'.status = .failed ∧ r'.eventId = r.eventId) := by
  rw [h.rest] at hr'
  obtain ⟨r, hr, hcase⟩ := h.recovered.rows d r' hr'
  exact ⟨r, (Database.cleaned_deliveries.mp hr).1, hcase⟩

theorem event_origin (h : Passed cfg p s mid s') {e : Nat} {ev : WebhookEvent}
    (hev : s'.db.events.row e = some ev) : s.db.events.row e = some ev := by
  rw [h.rest] at hev
  rw [show mid.events = _ from h.recovered.events] at hev
  exact Database.cleaned_events hev

theorem load_le (h : Passed cfg p s mid s') : s'.db.load ≤ s.db.load := by
  have hrec := h.recovered.load
  have hclean : (s.db.cleaned cfg p.now).load ≤ s.db.load := by
    have hle : ((s.db.cleaned cfg p.now).deliveries.select fun _ r => r.status == .processing).length ≤
        (s.db.deliveries.select fun _ r => r.status == .processing).length :=
      Table.select_length_le fun d r hr hp => ⟨r, (Database.cleaned_deliveries.mp hr).1, hp⟩
    have hnext := (Database.cleaned_next cfg p.now s.db).1
    simp only [Database.load]
    omega
  have hsame : s'.db.load = mid.load := by
    simp only [Database.load, h.next]
    rw [h.rest]
  omega

theorem candidate (h : Passed cfg p s mid s') {i : Nat} {o : DeliveryOutbox}
    (hi : i ∈ p.stranded) (ho : mid.deliveryOutbox.row i = some o) :
    s.db.deliveryOutbox.row i = some o ∧ s.db.strandedCandidate o = true := by
  obtain ⟨o', ho', hc⟩ := h.batch.row hi
  rw [ho, Option.some.injEq] at ho'
  subst o'
  simp only [Database.strandedCandidate, Bool.and_eq_true, Option.any_eq_true, beq_iff_eq] at hc ⊢
  obtain ⟨hpub, r', hr', hst⟩ := hc
  have hold : s.db.deliveryOutbox.row i = some o := by
    rcases h.recovered.origin i o ho with hold | ⟨hnone, _⟩
    · exact (Database.cleaned_outbox.mp hold).1
    · simp [hnone] at hpub
  obtain ⟨r, hr, rfl | ⟨_, hfailed, _⟩⟩ := h.recovered.rows _ r' hr'
  · exact ⟨hold, hpub, r', (Database.cleaned_deliveries.mp hr).1, hst⟩
  · rw [hst] at hfailed
    cases hfailed

theorem row_kept (h : Passed cfg p s mid s') {i : Nat} {o : DeliveryOutbox}
    (ho : s.db.deliveryOutbox.row i = some o) (hs : s.db.sweeps cfg p.now o = false) :
    mid.deliveryOutbox.row i = some o ∧
      s'.db.deliveryOutbox.row i = some (Database.reopening s.queue p.stranded i o) := by
  have hmid := h.recovered.kept i o (Database.cleaned_outbox.mpr ⟨ho, hs⟩)
  exact ⟨hmid, by simp [h.row, hmid]⟩

theorem unpublished_kept (h : Passed cfg p s mid s') {i : Nat} {o : DeliveryOutbox}
    (ho : s.db.deliveryOutbox.row i = some o) (hs : s.db.sweeps cfg p.now o = false)
    (hu : o.publishedAt = none) : s'.db.deliveryOutbox.row i = some o := by
  obtain ⟨hmid, hrow⟩ := h.row_kept ho hs
  have hnot : i ∉ p.stranded := by
    intro hi
    have hc := (h.candidate hi hmid).2
    simp [Database.strandedCandidate, hu] at hc
  simpa [Database.reopening, hnot] using hrow

theorem row_origin (h : Passed cfg p s mid s') {i : Nat} {o' : DeliveryOutbox}
    (ho' : s'.db.deliveryOutbox.row i = some o') :
    (∃ o, s.db.deliveryOutbox.row i = some o ∧ s.db.sweeps cfg p.now o = false ∧
        mid.deliveryOutbox.row i = some o ∧ o' = Database.reopening s.queue p.stranded i o) ∨
      o'.publishedAt = none ∧ ∃ r, s.db.deliveries.row o'.deliveryId = some r ∧ r.status = .processing := by
  rw [h.row, Option.map_eq_some_iff] at ho'
  obtain ⟨o, hmid, rfl⟩ := ho'
  rcases h.recovered.origin i o hmid with hold | ⟨hnone, r, hr, hst⟩
  · obtain ⟨ho, hs⟩ := Database.cleaned_outbox.mp hold
    exact .inl ⟨o, ho, hs, hmid, rfl⟩
  · have hnot : i ∉ p.stranded := by
      intro hi
      have hc := (h.candidate hi hmid).2
      simp [Database.strandedCandidate, hnone] at hc
    have hsame : Database.reopening s.queue p.stranded i o = o := by simp [Database.reopening, hnot]
    rw [hsame]
    exact .inr ⟨hnone, r, (Database.cleaned_deliveries.mp hr).1, hst⟩

end Passed

theorem publishRows_published {now : Time} {ids : List Nat} (h : s.publishRows now ids = some s') :
    s.db.PublishBatch now ids ∧ Published now ids s s' := by
  simp only [publishRows] at h
  split at h
  · rename_i hbatch
    obtain ⟨s'', hs'', hpub⟩ := Published.loop (s := s) now hbatch.1.1
      fun i hi => (hbatch.1.row hi).imp fun o ho => ho.1
    rw [h, Option.some.injEq] at hs''
    subst hs''
    exact ⟨hbatch, hpub⟩
  · cases h

theorem exists_publishRows (now : Time) (s : PublisherService) :
    ∃ ids s', s.publishRows now ids = some s' := by
  obtain ⟨ids, hbatch⟩ := s.db.deliveryOutbox.exists_first_answers
    (fun _ o => Database.publishable now o) 100 DeliveryOutbox.createdAt
  have hb : s.db.PublishBatch now ids := hbatch
  obtain ⟨s', hs', _⟩ := Published.loop (s := s) now hb.1.1
    fun i hi => (hb.1.row hi).imp fun o ho => ho.1
  exact ⟨ids, s', by simp [publishRows, hb, hs']⟩

end PublisherService

/-! ### The calls as runs -/

namespace System

variable {cfg : Config} {σ : System}

theorem run_clean (cfg : Config) (σ : System) :
    Transition.run (step cfg) σ [.cleanupExpiredEndpointSecrets, .cleanupPublishedOutboxRows,
      .cleanupOldEvents] = some { σ with db := σ.db.cleaned cfg σ.now } := rfl

theorem run_stale (cfg : Config) {m : Nat} {cutoff : Time} {l : List (Nat × Nat)}
    (hscan : σ.staleScans m = ⟨cutoff, l⟩) :
    ∃ as scans, Transition.run (step cfg) σ as = some
        { σ with
          db := l.foldl (fun db p => db.recoverStaleDelivery σ.now p.1 p.2 cutoff) σ.db
          staleScans := scans } ∧ (scans m).rest = [] := by
  induction l generalizing σ with
  | nil => exact ⟨[], σ.staleScans, rfl, by rw [hscan]⟩
  | cons p l ih =>
    let τ : System := { σ with
      db := σ.db.recoverStaleDelivery σ.now p.1 p.2 cutoff
      staleScans := Function.update σ.staleScans m ⟨cutoff, l⟩ }
    have hstep : step cfg σ (.staleRecover m) = some τ := by
      simp [step, hscan, store, txn, Txn.apply, setStaleScan, τ]
    obtain ⟨as, scans, hrun, hrest⟩ := @ih τ (Function.update_self m _ _)
    exact ⟨.staleRecover m :: as, scans, Transition.run_cons_eq_some.mpr ⟨τ, hstep, hrun⟩, hrest⟩

theorem run_stranded (cfg : Config) {m : Nat} {l : List (Nat × Nat)} {db' : Database}
    (hscan : σ.strandedScans m = ⟨l, none⟩)
    (h : l.foldlM (Database.reopenStranded σ.queue) σ.db = some db') :
    ∃ as scans, Transition.run (step cfg) σ as = some { σ with db := db', strandedScans := scans } ∧
      (scans m).rest = [] := by
  induction l generalizing σ with
  | nil =>
    cases h
    exact ⟨[], σ.strandedScans, rfl, by rw [hscan]⟩
  | cons p l ih =>
    rw [List.foldlM_cons, Option.bind_eq_bind, Option.bind_eq_some_iff] at h
    obtain ⟨db₁, hrow, h⟩ := h
    let τ : System := { σ with
      db := db₁
      strandedScans := Function.update σ.strandedScans m ⟨l, none⟩ }
    have hsteps : ∃ bs, Transition.run (step cfg) σ bs = some τ := by
      by_cases hs : σ.queue.stranded p.1 p.2 = true
      · simp only [Database.reopenStranded, hs, if_true] at hrow
        refine ⟨[.strandedInspect m, .strandedReopen m], ?_⟩
        simp [Transition.run, step, hscan, hs, setStrandedScan, store, ok, txn, Txn.apply, hrow, τ]
      · simp only [Database.reopenStranded, hs] at hrow
        cases hrow
        refine ⟨[.strandedInspect m], ?_⟩
        simp [Transition.run, step, hscan, hs, setStrandedScan, τ]
    obtain ⟨bs, hbs⟩ := hsteps
    obtain ⟨as, scans, hrun, hrest⟩ := @ih τ (Function.update_self m _ _) h
    exact ⟨bs ++ as, scans, Transition.run_append_of hbs hrun, hrest⟩

theorem run_publish (cfg : Config) {p : Nat} {l : List OutboxSnapshot} {last : Time} {s' : PublisherService}
    (hbatch : σ.publishers p = ⟨l, false⟩)
    (h : l.foldlM (PublisherService.publishRow σ.now) ⟨σ.db, σ.queue, last⟩ = some s') :
    ∃ as batches, Transition.run (step cfg) σ as = some
        { σ with db := s'.db, queue := s'.queue, publishers := batches } ∧ (batches p).batch = [] := by
  induction l generalizing σ with
  | nil =>
    cases h
    exact ⟨[], σ.publishers, rfl, by rw [hbatch]⟩
  | cons o l ih =>
    rw [List.foldlM_cons, Option.bind_eq_bind, Option.bind_eq_some_iff] at h
    obtain ⟨s₁, hrow, h⟩ := h
    simp only [PublisherService.publishRow, Option.bind_eq_bind, Option.bind_eq_some_iff] at hrow
    obtain ⟨db₁, hdb, hs₁⟩ := hrow
    cases hs₁
    let τ : System := { σ with
      db := db₁
      queue := σ.queue.add (jobId o.id o.attempts) o.deliveryId o.attemptNumber
      publishers := Function.update σ.publishers p ⟨l, false⟩ }
    have hsteps : Transition.run (step cfg) σ [.publishAdd p, .publishMark p] = some τ := by
      simp [Transition.run, step, hbatch, setQueue, setPublisher, store, ok, txn, Txn.apply, hdb, τ]
    obtain ⟨as, batches, hrun, hrest⟩ := @ih τ (Function.update_self p _ _) h
    exact ⟨_, batches, Transition.run_append_of hsteps hrun, hrest⟩

theorem run_recoverAndCleanup {m : Nat} {p : Pass} {last : Time} {s' : PublisherService}
    (hstale : (σ.staleScans m).rest = []) (hstranded : (σ.strandedScans m).rest = [])
    (hp : p.now = σ.now)
    (h : PublisherService.recoverAndCleanup cfg ⟨σ.db, σ.queue, last⟩ p = some s') :
    ∃ as stale stranded, Transition.run (step cfg) σ as = some
        { σ with db := s'.db, staleScans := stale, strandedScans := stranded } ∧
      (stale m).rest = [] ∧ (stranded m).rest = [] ∧ s'.queue = σ.queue := by
  simp only [PublisherService.recoverAndCleanup, Option.bind_eq_bind, Option.bind_eq_some_iff, hp] at h
  obtain ⟨mid, hmid, db', hdb', hs'⟩ := h
  cases hs'
  simp only [Database.recoverStaleDeliveries] at hmid
  split at hmid
  swap
  · cases hmid
  rename_i hbatch
  rw [Option.some.injEq] at hmid
  simp only [Database.recoverStrandedPublishedOutbox] at hdb'
  split at hdb'
  swap
  · cases hdb'
  rename_i hbatch'
  let τ : System := { σ with
    db := σ.db.cleaned cfg σ.now
    staleScans := Function.update σ.staleScans m ⟨σ.staleCutoff cfg,
      (σ.db.cleaned cfg σ.now).staleSnapshots p.stale⟩ }
  have hselect : step cfg { σ with db := σ.db.cleaned cfg σ.now } (.staleSelect m p.stale) = some τ :=
    if_pos ⟨hstale, hbatch⟩
  have hscan : τ.staleScans m = ⟨σ.staleCutoff cfg, (σ.db.cleaned cfg σ.now).staleSnapshots p.stale⟩ :=
    Function.update_self m _ _
  obtain ⟨as, stale, hloop, hrest⟩ := run_stale cfg hscan
  have hrun : Transition.run (step cfg) τ as = some { σ with db := mid, staleScans := stale } := by
    rw [hloop, ← hmid]
    rfl
  let υ : System := { σ with
    db := mid
    staleScans := stale
    strandedScans := Function.update σ.strandedScans m ⟨mid.strandedSnapshots p.stranded, none⟩ }
  have hselect' : step cfg { σ with db := mid, staleScans := stale } (.strandedSelect m p.stranded) =
      some υ := if_pos ⟨hstranded, hbatch'⟩
  have hscan' : υ.strandedScans m = ⟨mid.strandedSnapshots p.stranded, none⟩ := Function.update_self m _ _
  obtain ⟨bs, stranded, hrun', hrest'⟩ := run_stranded cfg hscan' hdb'
  refine ⟨_, stale, stranded, Transition.run_append_of (run_clean cfg σ)
    (Transition.run_cons_eq_some.mpr ⟨τ, hselect, Transition.run_append_of hrun
      (Transition.run_cons_eq_some.mpr ⟨υ, hselect', hrun'⟩)⟩), hrest, hrest', rfl⟩

theorem run_publishPending {m q : Nat} {c : PublishCall} {last : Time} {s' : PublisherService}
    (hstale : (σ.staleScans m).rest = []) (hstranded : (σ.strandedScans m).rest = [])
    (hbatch : σ.publishers q = ⟨[], false⟩) (hc : c.pass.now = σ.now)
    (h : PublisherService.publishPending cfg ⟨σ.db, σ.queue, last⟩ c = some s') :
    ∃ as stale stranded batches, Transition.run (step cfg) σ as = some
      { σ with
        db := s'.db
        queue := s'.queue
        staleScans := stale
        strandedScans := stranded
        publishers := batches } := by
  obtain ⟨u, hu, hrows⟩ := Option.bind_eq_some_iff.mp h
  have hmaintain : ∃ as stale stranded, Transition.run (step cfg) σ as = some
      { σ with db := u.db, staleScans := stale, strandedScans := stranded } ∧ u.queue = σ.queue := by
    simp only [PublisherService.maintain] at hu
    split at hu
    · obtain ⟨v, hv, rfl⟩ := Option.map_eq_some_iff.mp hu
      obtain ⟨as, stale, stranded, hrun, _, _, hqueue⟩ := run_recoverAndCleanup hstale hstranded hc hv
      exact ⟨as, stale, stranded, hrun, hqueue⟩
    · cases hu
      exact ⟨[], σ.staleScans, σ.strandedScans, rfl, rfl⟩
  obtain ⟨as, stale, stranded, hrun, hqueue⟩ := hmaintain
  simp only [PublisherService.publishRows, hc] at hrows
  split at hrows
  swap
  · cases hrows
  rename_i hids
  let τ : System := { σ with
    db := u.db
    staleScans := stale
    strandedScans := stranded
    publishers := Function.update σ.publishers q ⟨u.db.snapshots c.ids, false⟩ }
  have hread : step cfg { σ with db := u.db, staleScans := stale, strandedScans := stranded }
      (.publishRead q c.ids) = some τ := if_pos ⟨by rw [hbatch], hids⟩
  have hloop : (u.db.snapshots c.ids).foldlM (PublisherService.publishRow τ.now)
      ⟨τ.db, τ.queue, u.lastMaintenanceAt⟩ = some s' := by
    rw [← hrows, show τ.queue = u.queue from hqueue.symm]
  have hq : τ.publishers q = ⟨u.db.snapshots c.ids, false⟩ := Function.update_self q _ _
  obtain ⟨bs, batches, hrun', _⟩ := run_publish cfg hq hloop
  exact ⟨_, stale, stranded, batches, Transition.run_append_of hrun
    (Transition.run_cons_eq_some.mpr ⟨τ, hread, hrun'⟩)⟩

end System

end WebhookEngine
