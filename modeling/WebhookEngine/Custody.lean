import WebhookEngine.Provenance

/-! What a job identifier stands for, and which jobs are accounted for. Two invariants
of every run in which the queue loses nothing. -/

namespace WebhookEngine

open Relational

def Known (s : System) (j : JobId) : Prop :=
  j ∈ s.finished ∨ ∃ job, s.queue j = some job ∧ job.unfinished = true

structure Custody (s : System) : Prop where
  jobs : ∀ j job, s.queue j = some job → Known s j
  tasks : ∀ w k, s.workers w = some k → Known s k.job
  added : ∀ p o rest, s.publishers p = ⟨o :: rest, true⟩ → Known s (jobId o.id o.attempts)
  ids : ∀ i a, Known s (.outbox i a) → i < s.db.deliveryOutbox.next
  batches : ∀ p o, o ∈ (s.publishers p).batch → o.id < s.db.deliveryOutbox.next

namespace System

variable {cfg : Config} {s t : System} {a : Act}

theorem Step.finished_origin (h : Step cfg s a t) {j : JobId} (hj : j ∈ t.finished) :
    j ∈ s.finished ∨ ∃ w k ok, a = .finish w ∧ s.workers w = some k ∧ k.point = .ended ok ∧ k.job = j := by
  cases h with
  | @finish w k ok hw hp =>
    rcases List.mem_cons.mp hj with rfl | hj
    · exact .inr ⟨w, k, ok, rfl, hw, hp, rfl⟩
    · exact .inl hj
  | _ => exact .inl hj

theorem Step.finished_mono (h : Step cfg s a t) {j : JobId} (hj : j ∈ s.finished) : j ∈ t.finished := by
  cases h with
  | finish hw hp => exact List.mem_cons_of_mem _ hj
  | _ => exact hj

theorem Step.job_kept (h : Step cfg s a t) (hlose : ∀ j, a ≠ .lose j) {j : JobId} {job : Job}
    (hj : s.queue j = some job) (hu : job.unfinished = true)
    (hfinish : ∀ w k ok, a = .finish w → s.workers w = some k → k.point = .ended ok → k.job ≠ j) :
    ∃ job', t.queue j = some job' ∧ job'.unfinished = true ∧ job'.deliveryId = job.deliveryId ∧
      job'.expectedAttempt = job.expectedAttempt := by
  have same : t.queue j = some job → ∃ job', t.queue j = some job' ∧ job'.unfinished = true ∧
      job'.deliveryId = job.deliveryId ∧ job'.expectedAttempt = job.expectedAttempt :=
    fun ht => ⟨job, ht, hu, rfl, rfl⟩
  cases h with
  | publishAdd hp => exact same (Queue.add_of_some hj)
  | duplicate hq hk => exact same (Queue.add_of_some hj)
  | foreign hk => exact same (Queue.add_of_some hj)
  | @take w₀ j₀ job₀ hw hq hu₀ =>
    by_cases he : j = j₀
    · subst he
      exact ⟨{ job with state := .active }, by simp [Queue.setState_apply, hj], rfl, rfl, rfl⟩
    · exact same (by simp [Queue.setState_apply, hj, he])
  | @finish w k ok hw hp =>
    have hne : j ≠ k.job := (hfinish w k ok rfl hw hp).symm
    exact same (by simp [Queue.setState_apply, hj, hne])
  | @evict j₀ job₀ hq hf =>
    have hne : j ≠ j₀ := by
      rintro rfl
      rw [hj] at hq
      cases hq
      rw [hu] at hf
      cases hf
    exact same (Queue.remove_eq_some.mpr ⟨hne, hj⟩)
  | @lose j₀ => exact absurd rfl (hlose j₀)
  | _ => exact same hj

theorem Step.known (h : Step cfg s a t) (hlose : ∀ j, a ≠ .lose j) {j : JobId} (hk : Known s j) :
    Known t j := by
  rcases hk with hf | ⟨job, hj, hu⟩
  · exact .inl (h.finished_mono hf)
  by_cases hfinish : ∃ w k ok, a = .finish w ∧ s.workers w = some k ∧ k.point = .ended ok ∧ k.job = j
  · obtain ⟨w, k, ok, rfl, hw, hp, rfl⟩ := hfinish
    cases h with
    | finish hw' hp' =>
      rw [hw] at hw'
      cases hw'
      exact .inl List.mem_cons_self
  · obtain ⟨job', hj', hu', _⟩ := h.job_kept hlose hj hu
      fun w k ok ha hw hp hjob => hfinish ⟨w, k, ok, ha, hw, hp, hjob⟩
    exact .inr ⟨job', hj', hu'⟩

end System

namespace Custody

variable {cfg : Config} {s t : System} {a : Act}

theorem step_jobs (hc : Custody s) (h : s.Step cfg a t) (hlose : ∀ j, a ≠ .lose j) {j : JobId}
    {job' : Job} (hj : t.queue j = some job') : Known t j := by
  rcases h.job_origin hj with ⟨job, hold, _⟩ | ⟨_, hadd⟩
  · exact h.known hlose (hc.jobs j job hold)
  · refine .inr ⟨job', hj, ?_⟩
    cases hadd <;> rfl

theorem step_tasks (hc : Custody s) (h : s.Step cfg a t) (hlose : ∀ j, a ≠ .lose j) {w : Nat}
    {k' : Task} (hw : t.workers w = some k') : Known t k'.job := by
  rcases h.task_origin hw with ⟨k, hold, hjob, _⟩ | ⟨job, _, _, hq, hu, _⟩
  · rw [← hjob]
    exact h.known hlose (hc.tasks w k hold)
  · exact h.known hlose (.inr ⟨job, hq, hu⟩)

theorem step_added (hc : Custody s) (h : s.Step cfg a t) (hlose : ∀ j, a ≠ .lose j) {p : Nat}
    {o : OutboxSnapshot} {rest : List OutboxSnapshot} (hp : t.publishers p = ⟨o :: rest, true⟩) :
    Known t (jobId o.id o.attempts) := by
  rcases h.marking_origin hp with hold | ⟨_, job, hj⟩
  · exact h.known hlose (hc.added p o rest hold)
  · exact hc.step_jobs h hlose hj

theorem step_ids (hc : Custody s) (h : s.Step cfg a t) {i n : Nat} (hk : Known t (.outbox i n)) :
    i < t.db.deliveryOutbox.next := by
  refine lt_of_lt_of_le ?_ h.outbox_next_le
  rcases hk with hf | ⟨job', hj, _⟩
  · rcases h.finished_origin hf with hf | ⟨w, k, ok, _, hw, _, hjob⟩
    · exact hc.ids i n (.inl hf)
    · exact hc.ids i n (hjob ▸ hc.tasks w k hw)
  · rcases h.job_origin hj with ⟨job, hold, _⟩ | ⟨_, hadd⟩
    · exact hc.ids i n (hc.jobs _ job hold)
    · cases hadd with
      | published hp => exact hc.batches _ _ (by rw [hp]; exact List.mem_cons_self)

theorem step (hc : Custody s) (h : s.Step cfg a t) (hlose : ∀ j, a ≠ .lose j) : Custody t where
  jobs _ _ := hc.step_jobs h hlose
  tasks _ _ := hc.step_tasks h hlose
  added _ _ _ := hc.step_added h hlose
  ids _ _ := hc.step_ids h
  batches p o ho := by
    refine lt_of_lt_of_le ?_ h.outbox_next_le
    rcases h.batch_origin ho with hold | ⟨_, row, _, hrow, _⟩
    · exact hc.batches p o hold
    · exact Table.lt_next hrow

theorem boot (u : Setup) : Custody (.boot u) where
  jobs j job hj := by cases hj
  tasks w k hw := by cases hw
  added p o rest hp := by cases hp
  ids i n hk := by rcases hk with hf | ⟨job, hj, _⟩ <;> [cases hf; cases hj]
  batches p o ho := by cases ho

end Custody

/-- Rows, batches, jobs and tasks of one identifier are for one delivery and attempt. -/
structure Registry (attempt : JobId → Nat × Nat) (s : System) : Prop where
  rows : ∀ i o n, s.db.deliveryOutbox.row i = some o →
    attempt (.outbox i n) = (o.deliveryId, o.attemptNumber)
  batches : ∀ p o n, o ∈ (s.publishers p).batch →
    attempt (.outbox o.id n) = (o.deliveryId, o.attemptNumber)
  jobs : ∀ j job, s.queue j = some job → attempt j = (job.deliveryId, job.expectedAttempt)
  tasks : ∀ w k, s.workers w = some k → attempt k.job = (k.deliveryId, k.expectedAttempt)

namespace Registry

variable {cfg : Config} {s t : System} {a : Act} {attempt : JobId → Nat × Nat}

/-- The registry after a step: outbox rows it adds bring identifiers of their own, and so
do jobs that stand behind no row. -/
def next (attempt : JobId → Nat × Nat) (s t : System) : JobId → Nat × Nat
  | .outbox i n =>
    if i < s.db.deliveryOutbox.next then attempt (.outbox i n)
    else match t.db.deliveryOutbox.row i with
      | some o => (o.deliveryId, o.attemptNumber)
      | none => attempt (.outbox i n)
  | .legacy i => attempt (.legacy i)
  | .extra k =>
    match t.queue (.extra k) with
    | some job => (job.deliveryId, job.expectedAttempt)
    | none => attempt (.extra k)

theorem next_of_known (hr : Registry attempt s) (hc : Custody s) (h : s.Step cfg a t) {j : JobId}
    (hk : Known s j) : next attempt s t j = attempt j := by
  cases j with
  | outbox i n => simp [next, hc.ids i n hk]
  | legacy i => rfl
  | extra k =>
    cases hj : t.queue (.extra k) with
    | none => simp [next, hj]
    | some job' =>
      rcases h.job_origin hj with ⟨job, hold, hd, hn⟩ | ⟨hnone, hadd⟩
      · simp [next, hj, hr.jobs _ job hold, hd, hn]
      · have hunfinished : .extra k ∉ s.finished := by
          cases hadd with
          | duplicated hq hk => exact hk
          | unknown hk => exact hk
        rcases hk with hf | ⟨job, hq, _⟩
        · exact absurd hf hunfinished
        · rw [hnone] at hq
          cases hq

theorem step (hr : Registry attempt s) (hc : Custody s) (h : s.Step cfg a t) :
    Registry (next attempt s t) t where
  rows i o n ho := by
    rcases h.outbox_origin ho with ⟨o₀, hold, hd, hn⟩ | ⟨hge, _⟩
    · simp [next, Table.lt_next hold, hr.rows i o₀ n hold, hd, hn]
    · simp [next, not_lt.mpr hge, ho]
  batches p o n ho := by
    rcases h.batch_origin ho with hold | ⟨_, row, _, hrow, hrfl⟩
    · simp [next, hc.batches p o hold, hr.batches p o n hold]
    · rw [hrfl]
      simp [next, Table.lt_next hrow, hr.rows _ row n hrow]
  jobs j job' hj := by
    rcases h.job_origin hj with ⟨job, hold, hd, hn⟩ | ⟨_, hadd⟩
    · rw [hr.next_of_known hc h (hc.jobs j job hold), hr.jobs j job hold, hd, hn]
    · cases hadd with
      | @published p o rest hp =>
        have hmem : o ∈ (s.publishers p).batch := by
          rw [hp]
          exact List.mem_cons_self
        simp [next, jobId, hc.batches p o hmem, hr.batches p o _ hmem]
      | duplicated hq hk => simp [next, hj]
      | unknown hk => simp [next, hj]
  tasks w k' hw := by
    rcases h.task_origin hw with ⟨k, hold, hjob, hd, hn⟩ | ⟨job, _, _, hq, hu, hrfl⟩
    · rw [← hjob, hr.next_of_known hc h (hc.tasks w k hold), hr.tasks w k hold, hd, hn]
    · rw [hr.next_of_known hc h (.inr ⟨job, hq, hu⟩), hr.jobs _ job hq, hrfl]

theorem boot (u : Setup) : Registry (fun _ => (0, 0)) (.boot u) where
  rows i o n ho := by cases ho
  batches p o n ho := by cases ho
  jobs j job hj := by cases hj
  tasks w k hw := by cases hw

end Registry

end WebhookEngine
