import WebhookEngine.Steps

/-! Where attempt numbers come from: the outbox rows, the publishers' batches, the
queue and the workers each copy them from one another, and four operations make new ones. -/

namespace WebhookEngine

open Relational

inductive System.Schedules (cfg : Config) (s : System) : Act → DeliveryOutbox → Prop where
  | first {a o} (hn : o.attemptNumber = 1) : Schedules cfg s a o
  | deferral {w k t o} (hw : s.workers w = some k) (hp : k.point = .deferring t)
      (hd : o.deliveryId = k.deliveryId) (hn : o.attemptNumber = k.expectedAttempt) :
      Schedules cfg s (.defer w) o
  | retry {w delayMs k c result o} (hw : s.workers w = some k) (hp : k.point = .settling c result)
      (hd : o.deliveryId = c.delivery.id) (hn : o.attemptNumber = c.delivery.row.attempts + 1)
      (hlt : c.delivery.row.attempts < cfg.maxAttempts) : Schedules cfg s (.settle w delayMs) o
  | recovery {m p rest r o} (hs : (s.staleScans m).rest = p :: rest)
      (hr : s.db.deliveries.row p.1 = some r) (hst : r.staleBefore (s.staleScans m).cutoff = true)
      (hd : o.deliveryId = p.1) (hn : o.attemptNumber = p.2 + 1) : Schedules cfg s (.staleRecover m) o

theorem outcomeWrite_retry {cfg : Config} {delivery : DispatchableDelivery} {t : Time}
    {result : SendResult} {input : DeliveryFailureInput}
    (h : outcomeWrite cfg delivery t result = .retry input) :
    input.id = delivery.id ∧ input.nextAttemptNumber = delivery.row.attempts + 1 ∧
      delivery.row.attempts < cfg.maxAttempts := by
  cases result with
  | resolved status data => cases h
  | rejected e =>
    simp only [outcomeWrite] at h
    split at h
    · cases h
    · rename_i hc
      have hlt : delivery.row.attempts < cfg.maxAttempts := by
        by_contra hge
        exact hc (by simp [not_lt.mp hge])
      cases h
      exact ⟨rfl, rfl, hlt⟩

namespace System

variable {cfg : Config} {s t : System} {a : Act}

theorem txn_schedules {x : Txn} {o : DeliveryOutbox} (hx : s.txn cfg a = some x)
    (ho : o ∈ x.scheduled s.now s.db) : s.Schedules cfg a o := by
  cases attempts_of_txn hx with
  | ingestCommit hc =>
    simp only [Txn.scheduled, List.mem_map] at ho
    obtain ⟨d, _, rfl⟩ := ho
    exact .first rfl
  | defer hw hp =>
    simp only [Txn.scheduled, List.mem_singleton] at ho
    subst ho
    exact .deferral hw hp rfl rfl
  | retry hw hp hout =>
    obtain ⟨hid, hn, hlt⟩ := outcomeWrite_retry hout
    simp only [Txn.scheduled, List.mem_singleton] at ho
    subst ho
    exact .retry hw hp hid hn hlt
  | @staleRecover m p rest hrest =>
    simp only [Txn.scheduled] at ho
    cases hr : s.db.deliveries.row p.1 with
    | none => simp [hr] at ho
    | some r =>
      by_cases hst : r.staleBefore (s.staleScans m).cutoff = true
      · simp only [hr, Option.any_some, hst, if_true, List.mem_singleton] at ho
        subst ho
        exact .recovery hrest hr hst rfl rfl
      · simp [hr, hst] at ho
  | replayReset hq =>
    simp only [Txn.scheduled, List.mem_singleton] at ho
    subst ho
    exact .first rfl
  | _ => cases ho

theorem Step.outbox_next_le (h : Step cfg s a t) :
    s.db.deliveryOutbox.next ≤ t.db.deliveryOutbox.next := by
  rw [h.db]
  rcases s.store_cases cfg a with he | ⟨x, _, _, happ⟩
  · rw [he]
  · exact (Txn.outbox_becomes happ).next_le

theorem Step.outbox_origin (h : Step cfg s a t) {i : Nat} {o' : DeliveryOutbox}
    (ho : t.db.deliveryOutbox.row i = some o') :
    (∃ o, s.db.deliveryOutbox.row i = some o ∧ o'.deliveryId = o.deliveryId ∧
        o'.attemptNumber = o.attemptNumber) ∨
      s.db.deliveryOutbox.next ≤ i ∧ s.Schedules cfg a o' := by
  rw [h.db] at ho
  rcases s.store_cases cfg a with he | ⟨x, hx, _, happ⟩
  · rw [he] at ho
    exact .inl ⟨o', ho, rfl, rfl⟩
  · rcases (Txn.outbox_becomes happ).origin ho with ⟨o, hold, _, rfl⟩ | ⟨hge, hnew⟩
    · have hids := x.rewriteOutbox_ids s.now i o
      exact .inl ⟨o, hold, hids.1, hids.2⟩
    · exact .inr ⟨hge, txn_schedules hx (List.mem_of_getElem? hnew)⟩

/-- The jobs a step can add, and what they are made from. -/
inductive Enqueues (s : System) : Act → JobId → Job → Prop where
  | published {p o rest} (hp : s.publishers p = ⟨o :: rest, false⟩) :
      Enqueues s (.publishAdd p) (jobId o.id o.attempts) ⟨o.deliveryId, o.attemptNumber, .waiting⟩
  | duplicated {k j job} (hj : s.queue j = some job) (hk : .extra k ∉ s.finished) :
      Enqueues s (.duplicate k j) (.extra k) ⟨job.deliveryId, job.expectedAttempt, .waiting⟩
  | unknown {k d n} (hk : .extra k ∉ s.finished) : Enqueues s (.foreign k d n) (.extra k) ⟨d, n, .waiting⟩

theorem setState_origin {i j : JobId} {st : JobState} {job' : Job}
    (h : s.queue.setState i st j = some job') : ∃ job, s.queue j = some job ∧
      job'.deliveryId = job.deliveryId ∧ job'.expectedAttempt = job.expectedAttempt ∧
      (j ≠ i → job' = job) ∧ (j = i → job'.state = st) := by
  rw [Queue.setState_apply, Option.map_eq_some_iff] at h
  obtain ⟨job, hj, rfl⟩ := h
  by_cases he : j = i
  · exact ⟨job, hj, by simp [he], by simp [he], fun hne => absurd he hne, fun _ => by simp [he]⟩
  · exact ⟨job, hj, by simp [he], by simp [he], fun _ => by simp [he], fun hi => absurd hi he⟩

theorem Step.job_origin (h : Step cfg s a t) {j : JobId} {job' : Job} (hj : t.queue j = some job') :
    (∃ job, s.queue j = some job ∧ job'.deliveryId = job.deliveryId ∧
        job'.expectedAttempt = job.expectedAttempt) ∨
      s.queue j = none ∧ s.Enqueues a j job' := by
  cases h with
  | publishAdd hp =>
    rcases Queue.add_eq_some hj with hold | ⟨hnone, rfl, rfl⟩
    · exact .inl ⟨job', hold, rfl, rfl⟩
    · exact .inr ⟨hnone, .published hp⟩
  | duplicate hq hk =>
    rcases Queue.add_eq_some hj with hold | ⟨hnone, rfl, rfl⟩
    · exact .inl ⟨job', hold, rfl, rfl⟩
    · exact .inr ⟨hnone, .duplicated hq hk⟩
  | foreign hk =>
    rcases Queue.add_eq_some hj with hold | ⟨hnone, rfl, rfl⟩
    · exact .inl ⟨job', hold, rfl, rfl⟩
    · exact .inr ⟨hnone, .unknown hk⟩
  | take hw hq hu =>
    obtain ⟨job, hold, hd, hn, _⟩ := setState_origin hj
    exact .inl ⟨job, hold, hd, hn⟩
  | finish hw hp =>
    obtain ⟨job, hold, hd, hn, _⟩ := setState_origin hj
    exact .inl ⟨job, hold, hd, hn⟩
  | evict hq hf => exact .inl ⟨job', (Queue.remove_eq_some.mp hj).2, rfl, rfl⟩
  | lose hq hf => exact .inl ⟨job', (Queue.remove_eq_some.mp hj).2, rfl, rfl⟩
  | _ => exact .inl ⟨job', hj, rfl, rfl⟩

theorem Step.task_origin (h : Step cfg s a t) {w : Nat} {k' : Task} (hk : t.workers w = some k') :
    (∃ k, s.workers w = some k ∧ k.job = k'.job ∧ k.deliveryId = k'.deliveryId ∧
        k.expectedAttempt = k'.expectedAttempt) ∨
      ∃ job, a = .take w k'.job ∧ s.workers w = none ∧ s.queue k'.job = some job ∧
        job.unfinished = true ∧ k' = ⟨k'.job, job.deliveryId, job.expectedAttempt, .started⟩ := by
  rcases h.worker_origin hk with hw | ⟨k, p, hw, rfl, _⟩ | htake
  · exact .inl ⟨k', hw, rfl, rfl, rfl⟩
  · exact .inl ⟨k, hw, rfl, rfl, rfl⟩
  · exact .inr htake

theorem Step.batch_origin (h : Step cfg s a t) {p : Nat} {o : OutboxSnapshot}
    (ho : o ∈ (t.publishers p).batch) :
    o ∈ (s.publishers p).batch ∨ ∃ ids row, a = .publishRead p ids ∧
      s.db.deliveryOutbox.row o.id = some row ∧
      o = ⟨o.id, row.deliveryId, row.attemptNumber, row.attempts⟩ := by
  have other : ∀ (p₀ : Nat) (v : Publisher), o ∈ (Function.update s.publishers p₀ v p).batch →
      p = p₀ ∧ o ∈ v.batch ∨ o ∈ (s.publishers p).batch :=
    fun _ _ => Transition.update_cases fun u : Publisher => o ∈ u.batch
  cases h with
  | @publishRead p₀ ids hb hids =>
    rcases other _ _ ho with ⟨rfl, hm⟩ | hm
    · simp only [Database.snapshots, List.mem_filterMap, Option.map_eq_some_iff] at hm
      obtain ⟨i, _, row, hrow, rfl⟩ := hm
      exact .inr ⟨ids, row, rfl, hrow, rfl⟩
    · exact .inl hm
  | @publishAdd p₀ o₀ rest hp =>
    rcases other _ _ ho with ⟨rfl, hm⟩ | hm
    · rw [hp]
      exact .inl hm
    · exact .inl hm
  | @publishMark p₀ o₀ rest hp =>
    rcases other _ _ ho with ⟨rfl, hm⟩ | hm
    · rw [hp]
      simp only at hm
      split at hm
      · exact .inl (List.mem_cons_of_mem _ hm)
      · cases hm
    · exact .inl hm
  | publishError hb =>
    rcases other _ _ ho with ⟨rfl, hm⟩ | hm
    · cases hm
    · exact .inl hm
  | _ => exact .inl ho

theorem Step.marking_origin (h : Step cfg s a t) {p : Nat} {o : OutboxSnapshot}
    {rest : List OutboxSnapshot} (hp : t.publishers p = ⟨o :: rest, true⟩) :
    s.publishers p = ⟨o :: rest, true⟩ ∨
      a = .publishAdd p ∧ ∃ job, t.queue (jobId o.id o.attempts) = some job := by
  have other : ∀ (p₀ : Nat) (v : Publisher), v.added = false →
      Function.update s.publishers p₀ v p = ⟨o :: rest, true⟩ → s.publishers p = ⟨o :: rest, true⟩ := by
    intro p₀ v hv hu
    rcases Transition.update_cases (· = (⟨o :: rest, true⟩ : Publisher)) hu with ⟨_, rfl⟩ | hold
    · cases hv
    · exact hold
  cases h with
  | publishRead => exact .inl (other _ _ rfl hp)
  | publishMark => exact .inl (other _ _ rfl hp)
  | publishError => exact .inl (other _ _ rfl hp)
  | @publishAdd p₀ o₀ rest₀ hp₀ =>
    by_cases hpp : p = p₀
    · subst p
      simp only [setPublisher_publishers, Function.update_self, Publisher.mk.injEq,
        List.cons.injEq, and_true] at hp
      obtain ⟨rfl, rfl⟩ := hp
      exact .inr ⟨rfl, Queue.add_self s.queue _ _ _⟩
    · simp only [setPublisher_publishers, Function.update_of_ne hpp] at hp
      exact .inl hp
  | _ => exact .inl hp

/-- An unpublished row of a delivery that is still there stays, and only the second half of
a publication publishes it. -/
theorem Step.unpublished_kept (h : Step cfg s a t) {i : Nat} {o : DeliveryOutbox} {r' : Delivery}
    (ho : s.db.deliveryOutbox.row i = some o) (hun : o.publishedAt = none)
    (hr : t.db.deliveries.row o.deliveryId = some r') :
    ∃ o', t.db.deliveryOutbox.row i = some o' ∧ o'.deliveryId = o.deliveryId ∧
      o'.attemptNumber = o.attemptNumber ∧
      (o'.publishedAt = none ∨ ∃ p o₀ rest, a = .publishMark p ∧
        s.publishers p = ⟨o₀ :: rest, true⟩ ∧ o₀.id = i) := by
  rw [h.db] at hr ⊢
  rcases s.store_cases cfg a with he | ⟨x, hx, _, happ⟩
  · rw [he]
    exact ⟨o, ho, rfl, rfl, .inl hun⟩
  have hids := x.rewriteOutbox_ids s.now i o
  have hkeep : x.keepsOutbox cfg s.now s.db o = true := by
    by_contra hno
    cases x with
    | cleanupPublishedOutboxRows => simp [Txn.keepsOutbox, hun] at hno
    | cleanupOldEvents =>
      simp only [Txn.keepsOutbox, Bool.or_eq_true, beq_iff_eq, Bool.not_eq_true', not_or,
        Bool.not_eq_false, Option.any_eq_true] at hno
      obtain ⟨hdays, r, hr₀, hdoomed⟩ := hno
      have hgone := (Txn.deliveries_becomes happ).gone hr₀
        (by simp [Txn.keepsDelivery, hdays, hdoomed])
      rw [hgone] at hr
      cases hr
    | _ => exact hno rfl
  refine ⟨_, (Txn.outbox_becomes happ).kept ho hkeep, hids.1, hids.2, ?_⟩
  cases x with
  | markPublished id =>
    by_cases hid : i = id
    · cases attempts_of_txn hx with
      | publishMark hbatch =>
        cases h with
        | publishMark hp =>
          rw [hp] at hbatch
          cases hbatch
          exact .inr ⟨_, _, _, rfl, hp, hid.symm⟩
    · exact .inl (by simp [Txn.rewriteOutbox, hid, hun])
  | recordPublishError id message =>
    refine .inl ?_
    simp only [Txn.rewriteOutbox]
    split
    · exact hun
    · exact hun
  | reopenOutbox id state =>
    refine .inl ?_
    simp only [Txn.rewriteOutbox]
    split
    · rfl
    · exact hun
  | _ => exact .inl hun

end System

/-- Only a claim makes a row PROCESSING, and it stamps the row with the time. -/
theorem Txn.rewrite_stale {now cutoff : Time} {d : Nat} {r : Delivery} {x : Txn} (hc : cutoff ≤ now)
    (h : (x.rewrite now d r).staleBefore cutoff = true) :
    r.staleBefore cutoff = true ∧ (x.rewrite now d r).attempts = r.attempts := by
  generalize hq : x.rewrite now d r = q at h
  cases hq ▸ x.rewrites now d r with
  | same => exact ⟨h, rfl⟩
  | claim _ =>
    have hlt : now < cutoff := by simpa [Delivery.staleBefore, Delivery.claim] using h
    exact absurd hc (Nat.not_le.mpr hlt)
  | overwrite hx hst hatt =>
    simp only [Delivery.staleBefore, hst, Bool.and_eq_true, beq_iff_eq] at h
    exact absurd h.1 (overwrites_ne_processing hx)
  | recover _ => simp [Delivery.staleBefore, Delivery.recover] at h
  | reset => simp [Delivery.staleBefore, Delivery.reset] at h

/-- Whatever a recovery pass still has to visit is no longer stale, or has the number of
attempts the pass has read. -/
def Scanned (s : System) : Prop :=
  ∀ m p, p ∈ (s.staleScans m).rest → (s.staleScans m).cutoff ≤ s.now ∧
    ∀ r, s.db.deliveries.row p.1 = some r → r.staleBefore (s.staleScans m).cutoff = true →
      r.attempts = p.2

namespace System

variable {cfg : Config} {s t : System} {a : Act}

theorem Step.now_le (h : Step cfg s a t) : s.now ≤ t.now := by
  cases h with
  | tick => exact Nat.le_add_right _ _
  | _ => exact le_refl _

theorem Step.stale_origin (h : Step cfg s a t) {d cutoff : Nat} {r' : Delivery} (hc : cutoff ≤ s.now)
    (hr : t.db.deliveries.row d = some r') (hst : r'.staleBefore cutoff = true) :
    ∃ r, s.db.deliveries.row d = some r ∧ r.staleBefore cutoff = true ∧ r'.attempts = r.attempts := by
  rcases h.row_origin hr with ⟨r, hold, rfl | ⟨x, _, _, he⟩⟩ | ⟨_, e, ep, rfl⟩
  · exact ⟨r', hold, hst, rfl⟩
  · rw [he] at hst ⊢
    have hrw := Txn.rewrite_stale hc hst
    exact ⟨r, hold, hrw.1, hrw.2⟩
  · cases hst

theorem Step.scan_origin (h : Step cfg s a t) {m : Nat} {p : Nat × Nat}
    (hp : p ∈ (t.staleScans m).rest) :
    p ∈ (s.staleScans m).rest ∧ (t.staleScans m).cutoff = (s.staleScans m).cutoff ∨
      t.db = s.db ∧ (t.staleScans m).cutoff ≤ s.now ∧ ∃ r, s.db.deliveries.row p.1 = some r ∧ r.attempts = p.2 := by
  cases h with
  | @staleSelect m₀ ids hr hids =>
    by_cases hm : m = m₀
    · subst m
      simp only [setStaleScan_staleScans, Function.update_self] at hp ⊢
      simp only [Database.staleSnapshots, List.mem_filterMap, Option.map_eq_some_iff] at hp
      obtain ⟨d, _, r, hr, rfl⟩ := hp
      exact .inr ⟨rfl, Nat.sub_le _ _, r, hr, rfl⟩
    · simp only [setStaleScan_staleScans, Function.update_of_ne hm] at hp ⊢
      exact .inl ⟨hp, trivial⟩
  | @staleRecover m₀ p₀ rest hr =>
    by_cases hm : m = m₀
    · subst m
      simp only [setStaleScan_staleScans, Function.update_self] at hp ⊢
      exact .inl ⟨by rw [hr]; exact List.mem_cons_of_mem _ hp, trivial⟩
    · simp only [setStaleScan_staleScans, Function.update_of_ne hm] at hp ⊢
      exact .inl ⟨hp, rfl⟩
  | _ => exact .inl ⟨hp, rfl⟩

end System

theorem Scanned.step {cfg : Config} {s t : System} {a : Act} (hs : Scanned s) (h : s.Step cfg a t) :
    Scanned t := by
  intro m p hp
  rcases h.scan_origin hp with ⟨hold, hcut⟩ | ⟨hdb, hcut, r₀, hr₀, hatt⟩
  · obtain ⟨hle, hrow⟩ := hs m p hold
    rw [hcut]
    refine ⟨hle.trans h.now_le, fun r' hr' hst => ?_⟩
    obtain ⟨r, hr, hst', he⟩ := h.stale_origin hle hr' hst
    rw [he]
    exact hrow r hr hst'
  · refine ⟨hcut.trans h.now_le, fun r hr _ => ?_⟩
    rw [hdb, hr₀] at hr
    cases hr
    exact hatt

theorem Scanned.boot (u : Setup) : Scanned (.boot u) := by
  intro m p hp
  cases hp

end WebhookEngine
