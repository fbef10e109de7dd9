import WebhookEngine.Maintenance

/-! Lost jobs: which deliveries the maintenance passes and the publisher bring back to
the queue, whatever rows their selects answer with. -/

namespace WebhookEngine

open Relational

/-- What becomes of a job when the queue loses its data. -/
inductive Loss where
  | kept | lost | failed
  deriving DecidableEq, Repr

namespace Queue

def after (q : Queue) (loss : JobId → Loss) : Queue := fun j =>
  match loss j with
  | .kept => q j
  | .lost => none
  | .failed => (q j).map fun job => { job with state := .failed }

def HasWaiting (q : Queue) (d n : Nat) : Prop :=
  ∃ j job, q j = some job ∧ job.state = .waiting ∧ job.deliveryId = d ∧ job.expectedAttempt = n

end Queue

/-- After some number of passes and then some number of `publishPending` calls every
PENDING or FAILED delivery has a waiting job for its next attempt, whatever the selects
answer with and whatever the clock reads between `now` and `now + span`. -/
def Restores (cfg : Config) (now span : Nat) (s : PublisherService) : Prop :=
  ∃ K M, 0 < K ∧ ∀ (passes : List Pass) (calls : List PublishCall) (u t : PublisherService),
    passes.length = K → calls.length = M →
    (∀ p ∈ passes, now ≤ p.now ∧ p.now ≤ now + span) →
    (∀ c ∈ calls, now ≤ c.pass.now ∧ c.pass.now ≤ now + span) →
    Transition.run (PublisherService.recoverAndCleanup cfg) s passes = some u →
    Transition.run (PublisherService.publishPending cfg) u calls = some t →
    ∀ d r, s.db.deliveries.row d = some r → r.status.claimable = true →
      t.queue.HasWaiting d (r.attempts + 1)

/-- The published rows of PENDING deliveries whose jobs are neither missing nor failed. -/
def Database.healthy (db : Database) (cfg : Config) (now : Time) (q : Queue) :
    List (Nat × DeliveryOutbox) :=
  db.deliveryOutbox.select fun i o =>
    db.strandedCandidate o && !q.stranded i o.attempts && !db.sweeps cfg now o

/-- An outbox row for this attempt, due at `now` and kept up to `now + span`. -/
structure Backing (cfg : Config) (now span : Nat) (s : PublisherService) (d n i : Nat)
    (o : DeliveryOutbox) : Prop where
  row : s.db.deliveryOutbox.row i = some o
  delivery : o.deliveryId = d
  number : o.attemptNumber = n
  available : o.availableAt ≤ now
  kept : s.db.sweeps cfg (now + span) o = false

namespace PublisherService

def Due (s : PublisherService) (i : Nat) (o : DeliveryOutbox) : Prop :=
  o.publishedAt = none ∧ s.queue (jobId i o.attempts) = none

/-- The row is one the stranded-row pass reopens when it looks at it, and the queue
will take the job it is then published with. -/
def Reopenable (s : PublisherService) (i : Nat) (o : DeliveryOutbox) : Prop :=
  s.db.strandedCandidate o = true ∧ s.queue.stranded i o.attempts = true ∧
    s.queue (jobId i (o.attempts + 1)) = none

end PublisherService

def Restorable (cfg : Config) (now span : Nat) (s : PublisherService) (d n : Nat) : Prop :=
  s.queue.HasWaiting d n ∨ ∃ i o, Backing cfg now span s d n i o ∧
    (s.Due i o ∨ s.Reopenable i o ∧ (s.db.healthy cfg now s.queue).length < 100)

/-! ### Time -/

namespace Database

variable {cfg : Config} {db : Database} {now now' : Time}

theorem forgets_mono (h : now ≤ now') {r : Delivery} (hf : db.forgets cfg now r = true) :
    db.forgets cfg now' r = true := by
  simp only [forgets, doomed, WebhookEvent.expired, Bool.and_eq_true, Option.any_eq_true,
    decide_eq_true_eq] at hf ⊢
  obtain ⟨h0, ev, hev, hst, hlt⟩ := hf
  exact ⟨h0, ev, hev, hst, hlt.trans_le h⟩

theorem sweeps_mono (h : now ≤ now') {o : DeliveryOutbox} (hs : db.sweeps cfg now o = true) :
    db.sweeps cfg now' o = true := by
  simp only [sweeps, Bool.or_eq_true, Option.any_eq_true, decide_eq_true_eq] at hs ⊢
  rcases hs with ⟨t, ht, hlt⟩ | ⟨r, hr, hf⟩
  · exact .inl ⟨t, ht, hlt.trans_le h⟩
  · exact .inr ⟨r, hr, forgets_mono h hf⟩

theorem sweeps_false (h : now ≤ now') {o : DeliveryOutbox} (hs : db.sweeps cfg now' o = false) :
    db.sweeps cfg now o = false := by
  by_contra hno
  rw [sweeps_mono h (Bool.not_eq_false _ ▸ hno)] at hs
  cases hs

theorem Recovered.candidate_kept {mid : Database} (h : Recovered (db.cleaned cfg now) mid)
    {o : DeliveryOutbox} (hc : db.strandedCandidate o = true) (hs : db.sweeps cfg now o = false) :
    mid.strandedCandidate o = true := by
  simp only [strandedCandidate, Bool.and_eq_true, Option.any_eq_true, beq_iff_eq] at hc
  obtain ⟨hpub, r, hr, hst⟩ := hc
  have hf : db.forgets cfg now r = false := by
    simp only [sweeps, Bool.or_eq_false_iff, hr, Option.any_some] at hs
    exact hs.2
  have hmid := h.settled _ r (cleaned_deliveries.mpr ⟨hr, hf⟩) (by simp [hst])
  simp [strandedCandidate, hpub, hmid, hst]

end Database

namespace PublisherService.Passed

variable {cfg : Config} {p : Pass} {s s' : PublisherService} {mid : Database}

theorem sweeps_of (h : Passed cfg p s mid s') {t : Time} {o : DeliveryOutbox}
    (hs : s'.db.sweeps cfg t o = true) : s.db.sweeps cfg t o = true := by
  simp only [Database.sweeps, Database.forgets, Database.doomed, Bool.or_eq_true, Bool.and_eq_true,
    Option.any_eq_true] at hs ⊢
  rcases hs with haged | ⟨r', hr', h0, ev, hev, hexp⟩
  · exact .inl haged
  · obtain ⟨r, hr, hcase⟩ := h.delivery_origin hr'
    have hid : r'.eventId = r.eventId := by
      rcases hcase with rfl | ⟨_, _, hid⟩
      · rfl
      · exact hid
    exact .inr ⟨r, hr, h0, ev, h.event_origin (hid ▸ hev), hexp⟩

theorem unswept (h : Passed cfg p s mid s') {t : Time} {o : DeliveryOutbox}
    (hs : s.db.sweeps cfg t o = false) : s'.db.sweeps cfg t o = false := by
  by_contra hno
  rw [h.sweeps_of (Bool.not_eq_false _ ▸ hno)] at hs
  cases hs

theorem candidate_of (h : Passed cfg p s mid s') {o : DeliveryOutbox}
    (hc : s'.db.strandedCandidate o = true) : s.db.strandedCandidate o = true := by
  simp only [Database.strandedCandidate, Bool.and_eq_true, Option.any_eq_true, beq_iff_eq] at hc ⊢
  obtain ⟨hpub, r', hr', hst⟩ := hc
  obtain ⟨r, hr, rfl | ⟨_, hfailed, _⟩⟩ := h.delivery_origin hr'
  · exact ⟨hpub, r', hr, hst⟩
  · rw [hst] at hfailed
    cases hfailed

theorem candidate_kept (h : Passed cfg p s mid s') {o : DeliveryOutbox}
    (hc : s.db.strandedCandidate o = true) (hs : s.db.sweeps cfg p.now o = false) :
    s'.db.strandedCandidate o = true := by
  have hmid := h.recovered.candidate_kept hc hs
  rw [h.rest]
  exact hmid

end PublisherService.Passed

/-! ### What is restorable is restored -/

section Restored

variable {cfg : Config} {now span d n : Nat} {s s' : PublisherService} {mid : Database} {p : Pass}

/-- The published rows, which every pass that reopens one has fewer of. -/
def Database.publishedRows (db : Database) : Nat :=
  (db.deliveryOutbox.select fun _ o => o.publishedAt.isSome).length

def Database.unpublishedRows (db : Database) : Nat :=
  (db.deliveryOutbox.select fun _ o => o.publishedAt.isNone).length

theorem Backing.due_passed {i : Nat} {o : DeliveryOutbox} (hb : Backing cfg now span s d n i o)
    (hd : s.Due i o) (h : PublisherService.Passed cfg p s mid s') (hp : p.now ≤ now + span) :
    Backing cfg now span s' d n i o ∧ s'.Due i o := by
  have hrow := h.unpublished_kept hb.row (Database.sweeps_false hp hb.kept) hd.1
  exact ⟨⟨hrow, hb.delivery, hb.number, hb.available, h.unswept hb.kept⟩, hd.1, h.queue ▸ hd.2⟩

theorem reopened_published {q : Queue} {ids : List Nat} {i : Nat} {o : DeliveryOutbox}
    (hpub : (Database.reopening q ids i o).publishedAt.isSome = true) :
    Database.reopening q ids i o = o := by
  simp only [Database.reopening] at hpub ⊢
  split at hpub
  · simp [DeliveryOutbox.reopened] at hpub
  · rename_i hno
    rw [if_neg hno]

theorem published_le (h : PublisherService.Passed cfg p s mid s') {i : Nat} {o' : DeliveryOutbox}
    (ho' : s'.db.deliveryOutbox.row i = some o') (hpub : o'.publishedAt.isSome = true) :
    s.db.deliveryOutbox.row i = some o' ∧ s.db.sweeps cfg p.now o' = false := by
  rcases h.row_origin ho' with ⟨o, ho, hs, _, rfl⟩ | ⟨hnone, _⟩
  · rw [reopened_published hpub]
    exact ⟨ho, hs⟩
  · simp [hnone] at hpub

theorem healthy_le (h : PublisherService.Passed cfg p s mid s') (hp : now ≤ p.now) :
    (s'.db.healthy cfg now s'.queue).length ≤ (s.db.healthy cfg now s.queue).length := by
  refine Table.select_length_le fun i o hr hp' => ?_
  simp only [Bool.and_eq_true, Bool.not_eq_true', h.queue] at hp' ⊢
  obtain ⟨⟨hc, hq⟩, _⟩ := hp'
  have hpub : o.publishedAt.isSome = true := by
    simp only [Database.strandedCandidate, Bool.and_eq_true] at hc
    exact hc.1
  obtain ⟨hold, hs⟩ := published_le h hr hpub
  exact ⟨o, hold, ⟨h.candidate_of hc, hq⟩, Database.sweeps_false hp hs⟩

theorem stranded_in_batch (h : PublisherService.Passed cfg p s mid s') (hp : now ≤ p.now)
    (hroom : (s.db.healthy cfg now s.queue).length < 100) (hfull : 100 ≤ p.stranded.length) :
    ∃ j ∈ p.stranded, ∃ o, mid.deliveryOutbox.row j = some o ∧ s.db.deliveryOutbox.row j = some o ∧
      o.publishedAt.isSome = true ∧ s.queue.stranded j o.attempts = true := by
  obtain ⟨j, hj, hbad⟩ : ∃ j ∈ p.stranded, j ∉ (s.db.healthy cfg now s.queue).map Prod.fst := by
    by_contra hno
    simp only [not_exists, not_and, not_not] at hno
    have hle := (List.subperm_of_subset h.batch.1 hno).length_le
    rw [List.length_map] at hle
    omega
  obtain ⟨o, ho, _⟩ := h.batch.row hj
  obtain ⟨hold, hc⟩ := h.candidate hj ho
  have hpub : o.publishedAt.isSome = true := by
    simp only [Database.strandedCandidate, Bool.and_eq_true] at hc
    exact hc.1
  have hs : s.db.sweeps cfg p.now o = false := by
    rcases h.recovered.origin j o ho with hclean | ⟨hnone, _⟩
    · exact (Database.cleaned_outbox.mp hclean).2
    · simp [hnone] at hpub
  refine ⟨j, hj, o, ho, hold, hpub, ?_⟩
  by_contra hno
  refine hbad (List.mem_map.mpr ⟨(j, o), Table.mem_select.mpr ⟨hold, ?_⟩, rfl⟩)
  simp [hc, Bool.not_eq_true _ ▸ hno, Database.sweeps_false hp hs]

/-- A pass that does not reopen the row reopens another one, as long as fewer than a
hundred healthy rows can fill its batch. -/
theorem Backing.reopenable_passed {i : Nat} {o : DeliveryOutbox}
    (hb : Backing cfg now span s d n i o) (hr : s.Reopenable i o)
    (hroom : (s.db.healthy cfg now s.queue).length < 100)
    (h : PublisherService.Passed cfg p s mid s') (hp : now ≤ p.now) (hp' : p.now ≤ now + span) :
    (∃ o', Backing cfg now span s' d n i o' ∧ s'.Due i o') ∨
      Backing cfg now span s' d n i o ∧ s'.Reopenable i o ∧
        s'.db.publishedRows < s.db.publishedRows := by
  obtain ⟨hc, hq, hfree⟩ := hr
  have hswept := Database.sweeps_false hp' hb.kept
  obtain ⟨hmid, hrow⟩ := h.row_kept hb.row hswept
  have hcmid := h.recovered.candidate_kept hc hswept
  have hc' := h.candidate_kept hc hswept
  have hkept := h.unswept hb.kept
  by_cases hi : i ∈ p.stranded
  · refine .inl ⟨o.reopened (s.queue.stateText i o.attempts), ⟨?_, hb.delivery, hb.number, hb.available, ?_⟩,
      rfl, ?_⟩
    · simpa [Database.reopening, hi, hq] using hrow
    · simp only [Database.sweeps, Bool.or_eq_false_iff] at hkept ⊢
      exact ⟨rfl, hkept.2⟩
    · rw [h.queue]
      exact hfree
  · have hsame : s'.db.deliveryOutbox.row i = some o := by simpa [Database.reopening, hi] using hrow
    refine .inr ⟨⟨hsame, hb.delivery, hb.number, hb.available, hkept⟩,
      ⟨hc', h.queue ▸ hq, h.queue ▸ hfree⟩, ?_⟩
    have hfull : 100 ≤ p.stranded.length := by
      by_contra hlt
      exact hi (h.batch.complete (by omega) hmid hcmid)
    obtain ⟨j, hj, oj, hoj, holdj, hpubj, hqj⟩ := stranded_in_batch h hp hroom hfull
    refine Table.select_length_lt (fun k ok hok hpub => ?_) holdj hpubj fun ok hok => ?_
    · exact ⟨ok, (published_le h hok hpub).1, hpub⟩
    · rw [h.row, hoj, Option.map_some, Option.some.injEq] at hok
      subst hok
      simp [Database.reopening, hj, hqj, DeliveryOutbox.reopened]

/-- With `k` passes to come the row will be due after them. -/
def Reopens (cfg : Config) (now span d n : Nat) (s : PublisherService) (k : Nat) : Prop :=
  ∃ i o, Backing cfg now span s d n i o ∧ (s.Due i o ∨ s.Reopenable i o ∧
    (s.db.healthy cfg now s.queue).length < 100 ∧ s.db.publishedRows < k)

theorem Reopens.step {k : Nat} (hr : Reopens cfg now span d n s (k + 1))
    (h : PublisherService.Passed cfg p s mid s') (hp : now ≤ p.now) (hp' : p.now ≤ now + span) :
    Reopens cfg now span d n s' k := by
  obtain ⟨i, o, hb, hdue | ⟨hre, hroom, hlt⟩⟩ := hr
  · obtain ⟨hb', hdue'⟩ := hb.due_passed hdue h hp'
    exact ⟨i, o, hb', .inl hdue'⟩
  · rcases hb.reopenable_passed hre hroom h hp hp' with ⟨o', hb', hdue'⟩ | ⟨hb', hre', hlt'⟩
    · exact ⟨i, o', hb', .inl hdue'⟩
    · exact ⟨i, o, hb', .inr ⟨hre', (healthy_le h hp).trans_lt hroom, by omega⟩⟩

/-- What passes leave behind: the queue, the time of the last maintenance, no more load,
and a due row for what there was a restorable one for. -/
theorem passes_reopen {passes : List Pass} {u : PublisherService}
    (hrun : Transition.run (PublisherService.recoverAndCleanup cfg) s passes = some u)
    (hwindow : ∀ p ∈ passes, now ≤ p.now ∧ p.now ≤ now + span) :
    u.queue = s.queue ∧ u.lastMaintenanceAt = s.lastMaintenanceAt ∧ u.db.load ≤ s.db.load ∧
      (Reopens cfg now span d n s passes.length → Reopens cfg now span d n u 0) := by
  induction passes generalizing s with
  | nil =>
    cases hrun
    exact ⟨rfl, rfl, le_rfl, fun hr => hr⟩
  | cons p passes ih =>
    obtain ⟨v, hv, hrest⟩ := Transition.run_cons_eq_some.mp hrun
    obtain ⟨mid, hpassed⟩ := PublisherService.recoverAndCleanup_passed hv
    obtain ⟨hp, hp'⟩ := hwindow p List.mem_cons_self
    obtain ⟨hqueue, hlast, hload, hreopens⟩ := ih hrest fun p hp => hwindow p (List.mem_cons_of_mem _ hp)
    exact ⟨hqueue.trans hpassed.queue, hlast.trans hpassed.last, hload.trans hpassed.load_le,
      fun hr => hreopens (hr.step hpassed hp hp')⟩

theorem Backing.due_published {t : Time} {ids : List Nat} {i : Nat} {o : DeliveryOutbox}
    (hb : Backing cfg now span s d n i o) (hd : s.Due i o)
    (h : PublisherService.Published t ids s s') (hi : i ∉ ids) :
    Backing cfg now span s' d n i o ∧ s'.Due i o := by
  have hrow : s'.db.deliveryOutbox.row i = some o := by simp [h.row, hb.row, hi]
  have hkept : s'.db.sweeps cfg (now + span) o = false := by
    rw [h.rest]
    exact hb.kept
  refine ⟨⟨hrow, hb.delivery, hb.number, hb.available, hkept⟩, hd.1, ?_⟩
  rw [Option.eq_none_iff_forall_not_mem]
  intro job hjob
  rcases h.origin _ job hjob with hold | ⟨k, hk, _, _, hid, _⟩
  · rw [hd.2] at hold
    cases hold
  · simp only [jobId, JobId.outbox.injEq] at hid
    exact hi (hid.1 ▸ hk)

theorem Backing.waiting_published {t : Time} {ids : List Nat} {i : Nat} {o : DeliveryOutbox}
    (hb : Backing cfg now span s d n i o) (hd : s.Due i o)
    (h : PublisherService.Published t ids s s') (hi : i ∈ ids) : s'.queue.HasWaiting d n :=
  ⟨jobId i o.attempts, _, h.added i hi o hb.row hd.2, rfl, hb.delivery, hb.number⟩

theorem hasWaiting_published {t : Time} {ids : List Nat} (h : PublisherService.Published t ids s s')
    (hw : s.queue.HasWaiting d n) : s'.queue.HasWaiting d n := by
  obtain ⟨j, job, hj, hrest⟩ := hw
  exact ⟨j, job, h.kept j job hj, hrest⟩

theorem Database.unpublishedRows_le (db : Database) : db.unpublishedRows ≤ db.load := by
  have hle := db.deliveryOutbox.select_length_le_next fun _ o => o.publishedAt.isNone
  simp only [unpublishedRows, load]
  omega

theorem load_published {t : Time} {ids : List Nat} (h : PublisherService.Published t ids s s') :
    s'.db.load = s.db.load := by
  simp only [Database.load, h.next]
  rw [h.rest]

theorem unpublished_lt {t : Time} {ids : List Nat} {i : Nat} {o : DeliveryOutbox}
    (ho : s.db.deliveryOutbox.row i = some o) (hnone : o.publishedAt = none) (ht : o.availableAt ≤ t)
    (hbatch : s.db.PublishBatch t ids) (h : PublisherService.Published t ids s s') (hi : i ∉ ids) :
    s'.db.unpublishedRows < s.db.unpublishedRows := by
  have hfull : 100 ≤ ids.length := by
    by_contra hlt
    refine hi (hbatch.1.complete (by omega) ho ?_)
    simp [Database.publishable, hnone, ht]
  obtain ⟨j, hj⟩ := List.exists_mem_of_length_pos (show 0 < ids.length by omega)
  obtain ⟨oj, hoj, hpub⟩ := hbatch.1.row hj
  simp only [Database.publishable, Bool.and_eq_true] at hpub
  refine Table.select_length_lt (fun k ok hok hnone => ?_) hoj hpub.1 fun ok hok => ?_
  · rw [h.row, Option.map_eq_some_iff] at hok
    obtain ⟨ok', hok', rfl⟩ := hok
    refine ⟨ok', hok', ?_⟩
    split at hnone
    · simp [DeliveryOutbox.published] at hnone
    · exact hnone
  · simp only [h.row, hoj, hj, if_true, Option.map_some, Option.some.injEq] at hok
    subst hok
    rfl

/-- The calls that can still pass before a due row is published: `B` bounds the rows one
pass can put before it, and a minute lies between two passes. -/
def callsLeft (B stop : Nat) (s : PublisherService) : Nat :=
  (stop - s.lastMaintenanceAt) / 60000 * (B + 1) + s.db.unpublishedRows

def Awaits (cfg : Config) (now span d n B : Nat) (s : PublisherService) (k : Nat) : Prop :=
  s.db.load ≤ B ∧ (∃ i o, Backing cfg now span s d n i o ∧ s.Due i o) ∧ callsLeft B (now + span) s < k

theorem maintain_cases (h : s.maintain cfg p = some s') :
    s' = s ∨ s.lastMaintenanceAt + 60000 ≤ p.now ∧ ∃ mid u, PublisherService.Passed cfg p s mid u ∧
      s' = { u with lastMaintenanceAt := p.now } := by
  simp only [PublisherService.maintain] at h
  split at h
  · rename_i hold
    obtain ⟨u, hu, rfl⟩ := Option.map_eq_some_iff.mp h
    obtain ⟨mid, hpassed⟩ := PublisherService.recoverAndCleanup_passed hu
    exact .inr ⟨hold, mid, u, hpassed, rfl⟩
  · cases h
    exact .inl rfl

theorem hasWaiting_maintain (h : s.maintain cfg p = some s') (hw : s.queue.HasWaiting d n) :
    s'.queue.HasWaiting d n := by
  rcases maintain_cases h with rfl | ⟨_, mid, u, hpassed, rfl⟩
  · exact hw
  · have hq := hpassed.queue
    exact hq ▸ hw

theorem Awaits.maintain {B k : Nat} (ha : Awaits cfg now span d n B s k)
    (h : s.maintain cfg p = some s') (hp : p.now ≤ now + span) : Awaits cfg now span d n B s' k := by
  rcases maintain_cases h with rfl | ⟨hold, mid, u, hpassed, rfl⟩
  · exact ha
  obtain ⟨hload, ⟨i, o, hb, hd⟩, hleft⟩ := ha
  obtain ⟨hb', hd'⟩ := hb.due_passed hd hpassed hp
  have hload' := hpassed.load_le.trans hload
  refine ⟨hload', ⟨i, o, ⟨hb'.row, hb'.delivery, hb'.number, hb'.available, hb'.kept⟩, hd'⟩, ?_⟩
  have hrows := u.db.unpublishedRows_le
  have htimes : (now + span - p.now) / 60000 + 1 ≤ (now + span - s.lastMaintenanceAt) / 60000 := by
    have hlast : now + span - p.now + 60000 ≤ now + span - s.lastMaintenanceAt := by
      simp only [Time] at *
      omega
    omega
  have hmul := Nat.mul_le_mul_right (B + 1) htimes
  rw [Nat.add_mul, Nat.one_mul] at hmul
  simp only [callsLeft] at hleft ⊢
  omega

theorem Awaits.step {B k : Nat} {c : PublishCall} (ha : Awaits cfg now span d n B s (k + 1))
    (h : s.publishPending cfg c = some s') (hc : now ≤ c.pass.now) (hc' : c.pass.now ≤ now + span) :
    s'.queue.HasWaiting d n ∨ Awaits cfg now span d n B s' k := by
  obtain ⟨u, hu, hrows⟩ := Option.bind_eq_some_iff.mp h
  obtain ⟨hload, ⟨i, o, hb, hd⟩, hleft⟩ := ha.maintain hu hc'
  obtain ⟨hbatch, hpub⟩ := PublisherService.publishRows_published hrows
  by_cases hi : i ∈ c.ids
  · exact .inl (hb.waiting_published hd hpub hi)
  · obtain ⟨hb', hd'⟩ := hb.due_published hd hpub hi
    have hlt := unpublished_lt hb.row hd.1 (hb.available.trans hc) hbatch hpub hi
    refine .inr ⟨(load_published hpub).trans_le hload, ⟨i, o, hb', hd'⟩, ?_⟩
    simp only [callsLeft, hpub.last] at hleft ⊢
    omega

theorem calls_restore {B : Nat} {calls : List PublishCall}
    (hrun : Transition.run (PublisherService.publishPending cfg) s calls = some s')
    (hwindow : ∀ c ∈ calls, now ≤ c.pass.now ∧ c.pass.now ≤ now + span)
    (hs : s.queue.HasWaiting d n ∨ Awaits cfg now span d n B s calls.length) :
    s'.queue.HasWaiting d n := by
  induction calls generalizing s with
  | nil =>
    cases hrun
    rcases hs with hw | ⟨_, _, hlt⟩
    · exact hw
    · exact absurd hlt (Nat.not_lt_zero _)
  | cons c calls ih =>
    obtain ⟨u, hu, hrest⟩ := Transition.run_cons_eq_some.mp hrun
    obtain ⟨hc, hc'⟩ := hwindow c List.mem_cons_self
    refine ih hrest (fun c hc => hwindow c (List.mem_cons_of_mem _ hc)) ?_
    rcases hs with hw | ha
    · obtain ⟨v, hv, hrows⟩ := Option.bind_eq_some_iff.mp hu
      have hpub := (PublisherService.publishRows_published hrows).2
      exact .inl (hasWaiting_published hpub (hasWaiting_maintain hv hw))
    · exact ha.step hu hc hc'

theorem restores_of_restorable (hr : ∀ d r, s.db.deliveries.row d = some r → r.status.claimable = true →
    Restorable cfg now span s d (r.attempts + 1)) : Restores cfg now span s := by
  refine ⟨s.db.publishedRows + 1,
    (now + span - s.lastMaintenanceAt) / 60000 * (s.db.load + 1) + s.db.load + 1,
    Nat.succ_pos _, fun passes calls u t hpasses hcalls hwindow hwindow' hu ht d r hd hc => ?_⟩
  refine calls_restore (B := s.db.load) ht hwindow' ?_
  obtain ⟨hqueue, hlast, hload, hreopens⟩ := passes_reopen (d := d) (n := r.attempts + 1) hu hwindow
  rcases hr d r hd hc with hw | ⟨i, o, hb, hcase⟩
  · exact .inl (hqueue ▸ hw)
  · have hstart : Reopens cfg now span d (r.attempts + 1) s passes.length := by
      rcases hcase with hdue | ⟨hre, hroom⟩
      · exact ⟨i, o, hb, .inl hdue⟩
      · exact ⟨i, o, hb, .inr ⟨hre, hroom, by omega⟩⟩
    obtain ⟨i', o', hb', hdue' | ⟨_, _, hlt⟩⟩ := hreopens hstart
    · refine .inr ⟨hload, ⟨i', o', hb', hdue'⟩, ?_⟩
      have hrows := u.db.unpublishedRows_le
      simp only [callsLeft, hlast]
      omega
    · exact absurd hlt (Nat.not_lt_zero _)

end Restored

/-! ### What is not restorable can stay lost -/

section Lost

variable {cfg : Config} {now span d n : Nat} {s s' : PublisherService} {mid : Database} {p : Pass}

/-- No job waits for the attempt, and of its rows that are `kept` none is due, and none
reopenable unless the passes are `blocked`. -/
structure Lost (now : Time) (kept : DeliveryOutbox → Prop) (blocked : Prop) (d n : Nat)
    (s : PublisherService) : Prop where
  waiting : ¬ s.queue.HasWaiting d n
  idle : ∀ r, s.db.deliveries.row d = some r → r.status ≠ .processing
  due : ∀ i o, s.db.deliveryOutbox.row i = some o → o.deliveryId = d → o.attemptNumber = n →
    o.availableAt ≤ now → kept o → ¬ s.Due i o
  reopenable : ∀ i o, s.db.deliveryOutbox.row i = some o → o.deliveryId = d → o.attemptNumber = n →
    o.availableAt ≤ now → kept o → s.Reopenable i o → blocked

/-- An attempt that stays lost in passes at `now`. -/
def StaysLost (cfg : Config) (now : Time) (d n : Nat) (s : PublisherService) : Prop :=
  Lost now (fun _ => True) (100 ≤ (s.db.healthy cfg now s.queue).length) d n s

theorem reopening_ids (q : Queue) (ids : List Nat) (i : Nat) (o : DeliveryOutbox) :
    (Database.reopening q ids i o).deliveryId = o.deliveryId ∧
      (Database.reopening q ids i o).attemptNumber = o.attemptNumber ∧
      (Database.reopening q ids i o).availableAt = o.availableAt := by
  simp only [Database.reopening]
  split <;> exact ⟨rfl, rfl, rfl⟩

theorem Lost.idle_passed {kept : DeliveryOutbox → Prop} {blocked : Prop}
    (hl : Lost now kept blocked d n s)
    (h : PublisherService.Passed cfg p s mid s') {r : Delivery}
    (hr : s'.db.deliveries.row d = some r) : r.status ≠ .processing := by
  obtain ⟨r₀, hr₀, rfl | ⟨hst, _⟩⟩ := h.delivery_origin hr
  · exact hl.idle r hr₀
  · exact absurd hst (hl.idle r₀ hr₀)

theorem Lost.origin {kept : DeliveryOutbox → Prop} {blocked : Prop} (hl : Lost now kept blocked d n s)
    (h : PublisherService.Passed cfg p s mid s') {i : Nat} {o' : DeliveryOutbox}
    (ho' : s'.db.deliveryOutbox.row i = some o') (hd : o'.deliveryId = d) :
    ∃ o, s.db.deliveryOutbox.row i = some o ∧ s.db.sweeps cfg p.now o = false ∧
      mid.deliveryOutbox.row i = some o ∧ o' = Database.reopening s.queue p.stranded i o := by
  rcases h.row_origin ho' with hold | ⟨_, r, hr, hst⟩
  · exact hold
  · exact absurd hst (hl.idle r (hd ▸ hr))

theorem Lost.passed (hl : Lost now (fun o => s.db.sweeps cfg p.now o = false) False d n s)
    (h : PublisherService.Passed cfg p s mid s') : Lost now (fun _ => True) False d n s' where
  waiting := h.queue ▸ hl.waiting
  idle _ hr := hl.idle_passed h hr
  due i o' ho' hd hn hav _ hdue := by
    obtain ⟨o, ho, hs, hmid, rfl⟩ := hl.origin h ho' hd
    obtain ⟨hid, hnum, havail⟩ := reopening_ids s.queue p.stranded i o
    rw [hid] at hd
    rw [hnum] at hn
    rw [havail] at hav
    by_cases hre : i ∈ p.stranded ∧ s.queue.stranded i o.attempts = true
    · refine hl.reopenable i o ho hd hn hav hs ⟨(h.candidate hre.1 hmid).2, hre.2, ?_⟩
      have hfree := hdue.2
      simp only [Database.reopening, if_pos hre, DeliveryOutbox.reopened, h.queue] at hfree
      exact hfree
    · rw [Database.reopening, if_neg hre] at hdue
      exact hl.due i o ho hd hn hav hs ⟨hdue.1, h.queue ▸ hdue.2⟩
  reopenable i o' ho' hd hn hav _ hre' := by
    obtain ⟨o, ho, hs, hmid, rfl⟩ := hl.origin h ho' hd
    have hpub : (Database.reopening s.queue p.stranded i o).publishedAt.isSome = true := by
      have hc := hre'.1
      simp only [Database.strandedCandidate, Bool.and_eq_true] at hc
      exact hc.1
    rw [reopened_published hpub] at hd hn hav hre'
    exact hl.reopenable i o ho hd hn hav hs
      ⟨h.candidate_of hre'.1, h.queue ▸ hre'.2.1, h.queue ▸ hre'.2.2⟩

/-- With a hundred healthy rows a pass may look at nothing else, and then reopens nothing. -/
theorem Lost.passed_blocked (hl : Lost now (fun _ => True) True d n s) (hp : p.now = now)
    (h : PublisherService.Passed cfg p s mid s')
    (hhealthy : p.stranded ⊆ (s.db.healthy cfg now s.queue).map Prod.fst) :
    Lost now (fun _ => True) True d n s' ∧ (s.db.healthy cfg now s.queue).length ≤
      (s'.db.healthy cfg now s'.queue).length := by
  have hsame : ∀ i o, s.db.deliveryOutbox.row i = some o →
      Database.reopening s.queue p.stranded i o = o := by
    intro i o ho
    by_cases hi : i ∈ p.stranded
    · obtain ⟨⟨j, oj⟩, hm, rfl⟩ := List.mem_map.mp (hhealthy hi)
      obtain ⟨hoj, hh⟩ := Table.mem_select.mp hm
      rw [ho, Option.some.injEq] at hoj
      subst hoj
      simp only [Bool.and_eq_true, Bool.not_eq_true'] at hh
      simp [Database.reopening, hh.1.2]
    · simp [Database.reopening, hi]
  refine ⟨⟨h.queue ▸ hl.waiting, fun r hr => hl.idle_passed h hr, fun i o' ho' hd hn hav _ hdue => ?_,
    fun _ _ _ _ _ _ _ _ => trivial⟩, ?_⟩
  · obtain ⟨o, ho, _, _, rfl⟩ := hl.origin h ho' hd
    rw [hsame i o ho] at hd hn hav hdue
    exact hl.due i o ho hd hn hav trivial ⟨hdue.1, h.queue ▸ hdue.2⟩
  · refine Table.select_length_le fun i o ho hh => ?_
    simp only [Bool.and_eq_true, Bool.not_eq_true'] at hh
    obtain ⟨⟨hc, hq⟩, hs⟩ := hh
    have hs' : s.db.sweeps cfg p.now o = false := by rw [hp]; exact hs
    obtain ⟨_, hrow⟩ := h.row_kept ho hs'
    refine ⟨o, by rw [hrow, hsame i o ho], ?_⟩
    simp [h.candidate_kept hc hs', h.queue, hq, h.unswept hs]

theorem Lost.mono {kept kept' : DeliveryOutbox → Prop} {blocked blocked' : Prop}
    (hl : Lost now kept blocked d n s) (hk : ∀ o, kept' o → kept o) (hb : blocked → blocked') :
    Lost now kept' blocked' d n s where
  waiting := hl.waiting
  idle := hl.idle
  due i o ho hd hn hav hkept := hl.due i o ho hd hn hav (hk o hkept)
  reopenable i o ho hd hn hav hkept hre := hb (hl.reopenable i o ho hd hn hav (hk o hkept) hre)

theorem exists_healthy_batch (hb : 100 ≤ (s.db.healthy cfg now s.queue).length)
    (h : Database.Recovered (s.db.cleaned cfg now) mid) :
    ∃ ids, mid.StrandedBatch ids ∧ ids ⊆ (s.db.healthy cfg now s.queue).map Prod.fst := by
  let l := (s.db.healthy cfg now s.queue).map Prod.fst
  have hnodup : l.Nodup := s.db.deliveryOutbox.select_ids_nodup _
  have hsub : l ⊆ (mid.deliveryOutbox.select fun _ o => mid.strandedCandidate o).map Prod.fst := by
    intro i hi
    obtain ⟨⟨j, o⟩, hm, rfl⟩ := List.mem_map.mp hi
    obtain ⟨ho, hh⟩ := Table.mem_select.mp hm
    simp only [Bool.and_eq_true, Bool.not_eq_true'] at hh
    obtain ⟨⟨hc, _⟩, hs⟩ := hh
    have hmid := h.kept j o (Database.cleaned_outbox.mpr ⟨ho, hs⟩)
    exact List.mem_map.mpr ⟨(j, o), Table.mem_select.mpr ⟨hmid, h.candidate_kept hc hs⟩, rfl⟩
  have hle := (List.subperm_of_subset hnodup hsub).length_le
  have hlen : l.length = (s.db.healthy cfg now s.queue).length := List.length_map _
  refine ⟨l.take 100, ⟨hnodup.sublist (List.take_sublist _ _),
    fun i hi => hsub (List.take_subset _ _ hi), ?_⟩, List.take_subset _ _⟩
  simp only [List.length_map, List.length_take] at hle ⊢
  omega

theorem StaysLost.exists_pass (hl : StaysLost cfg now d n s) :
    ∃ p s', p.now = now ∧ s.recoverAndCleanup cfg p = some s' ∧ StaysLost cfg now d n s' := by
  by_cases hb : 100 ≤ (s.db.healthy cfg now s.queue).length
  · obtain ⟨p, mid, s', hp, hs', hpassed, hsub⟩ := PublisherService.exists_pass cfg now s
      (C := fun _ ids => ids ⊆ (s.db.healthy cfg now s.queue).map Prod.fst)
      fun mid hmid => exists_healthy_batch hb hmid
    have hblocked : Lost now (fun _ => True) True d n s := hl.mono (fun _ hk => hk) fun _ => trivial
    obtain ⟨hl', hle⟩ := hblocked.passed_blocked hp hpassed hsub
    exact ⟨p, s', hp, hs', hl'.mono (fun _ hk => hk) fun _ => hb.trans hle⟩
  · obtain ⟨p, mid, s', hp, hs', hpassed, _⟩ := PublisherService.exists_pass cfg now s
      (C := fun _ _ => True) fun mid _ =>
        (mid.deliveryOutbox.exists_answers _ _).imp fun ids hids => ⟨hids, trivial⟩
    have hopen : Lost now (fun o => s.db.sweeps cfg p.now o = false) False d n s :=
      hl.mono (fun _ _ => trivial) hb
    exact ⟨p, s', hp, hs', (hopen.passed hpassed).mono (fun _ hk => hk) False.elim⟩

theorem exists_first_pass (hno : ¬ Restorable cfg now span s d n)
    (hidle : ∀ r, s.db.deliveries.row d = some r → r.status ≠ .processing) :
    ∃ p s', (now ≤ p.now ∧ p.now ≤ now + span) ∧ s.recoverAndCleanup cfg p = some s' ∧
      StaysLost cfg now d n s' := by
  have hwaiting : ¬ s.queue.HasWaiting d n := fun hw => hno (.inl hw)
  by_cases hb : 100 ≤ (s.db.healthy cfg now s.queue).length ∧
      (s.db.deliveries.row d).any (s.db.forgets cfg (now + span)) = false
  · have hl : StaysLost cfg now d n s := by
      refine ⟨hwaiting, hidle, fun i o ho hd hn hav _ hdue => ?_, fun _ _ _ _ _ _ _ _ => hb.1⟩
      have hkept : s.db.sweeps cfg (now + span) o = false := by
        simp [Database.sweeps, hdue.1, hd, hb.2]
      exact hno (.inr ⟨i, o, ⟨ho, hd, hn, hav, hkept⟩, .inl hdue⟩)
    obtain ⟨p, s', hp, hs', hl'⟩ := hl.exists_pass
    exact ⟨p, s', by omega, hs', hl'⟩
  · have hl : Lost now (fun o => s.db.sweeps cfg (now + span) o = false) False d n s := by
      refine ⟨hwaiting, hidle, fun i o ho hd hn hav hs hdue => ?_, fun i o ho hd hn hav hs hre => ?_⟩
      · exact hno (.inr ⟨i, o, ⟨ho, hd, hn, hav, hs⟩, .inl hdue⟩)
      · have hroom : (s.db.healthy cfg now s.queue).length < 100 := by
          by_contra hfull
          refine hb ⟨by omega, ?_⟩
          simp only [Database.sweeps, Bool.or_eq_false_iff] at hs
          exact hd ▸ hs.2
        exact hno (.inr ⟨i, o, ⟨ho, hd, hn, hav, hs⟩, .inr ⟨hre, hroom⟩⟩)
    obtain ⟨p, mid, s', hp, hs', hpassed, _⟩ := PublisherService.exists_pass cfg (now + span) s
      (C := fun _ _ => True) fun mid _ =>
        (mid.deliveryOutbox.exists_answers _ _).imp fun ids hids => ⟨hids, trivial⟩
    rw [← hp] at hl
    exact ⟨p, s', ⟨hp ▸ Nat.le_add_right now span, hp.le⟩, hs',
      (hl.passed hpassed).mono (fun _ hk => hk) False.elim⟩

theorem StaysLost.exists_passes (hl : StaysLost cfg now d n s) (K : Nat) :
    ∃ passes u, passes.length = K ∧ (∀ p ∈ passes, p.now = now) ∧
      Transition.run (PublisherService.recoverAndCleanup cfg) s passes = some u ∧
      StaysLost cfg now d n u := by
  induction K generalizing s with
  | zero => exact ⟨[], s, rfl, by simp, rfl, hl⟩
  | succ K ih =>
    obtain ⟨p, v, hp, hv, hlv⟩ := hl.exists_pass
    obtain ⟨passes, u, hlen, hnow, hu, hlu⟩ := ih hlv
    refine ⟨p :: passes, u, by simp [hlen], fun p' hp' => ?_,
      Transition.run_cons_eq_some.mpr ⟨v, hv, hu⟩, hlu⟩
    rcases List.mem_cons.mp hp' with rfl | hp'
    · exact hp
    · exact hnow p' hp'

/-- No batch published at `now` holds a row for the attempt whose job the queue takes. -/
theorem Lost.published {ids : List Nat} {blocked : Prop} (hl : Lost now (fun _ => True) blocked d n s)
    (hbatch : s.db.PublishBatch now ids) (h : PublisherService.Published now ids s s') :
    Lost now (fun _ => True) True d n s' where
  waiting := by
    rintro ⟨j, job, hj, hst, hd, hn⟩
    rcases h.origin j job hj with hold | ⟨i, hi, o, ho, rfl, hnone, rfl⟩
    · exact hl.waiting ⟨j, job, hold, hst, hd, hn⟩
    · obtain ⟨o', ho', hpub⟩ := hbatch.1.row hi
      rw [ho, Option.some.injEq] at ho'
      subst ho'
      simp only [Database.publishable, Bool.and_eq_true, Option.isNone_iff_eq_none,
        decide_eq_true_eq] at hpub
      exact hl.due i o ho hd hn hpub.2 trivial ⟨hpub.1, hnone⟩
  idle r hr := by
    rw [h.rest] at hr
    exact hl.idle r hr
  due i o' ho' hd hn hav _ hdue := by
    rw [h.row, Option.map_eq_some_iff] at ho'
    obtain ⟨o, ho, rfl⟩ := ho'
    by_cases hi : i ∈ ids
    · simp [hi, PublisherService.Due, DeliveryOutbox.published] at hdue
    · simp only [hi, if_false] at hd hn hav hdue
      refine hl.due i o ho hd hn hav trivial ⟨hdue.1, ?_⟩
      rw [Option.eq_none_iff_forall_not_mem]
      intro job hjob
      have hkept := h.kept _ job hjob
      rw [hdue.2] at hkept
      cases hkept
  reopenable _ _ _ _ _ _ _ _ := trivial

theorem Lost.exists_calls (cfg : Config) (hl : Lost now (fun _ => True) True d n s)
    (hrecent : ¬ s.lastMaintenanceAt + 60000 ≤ now) (M : Nat) :
    ∃ calls t, calls.length = M ∧ (∀ c ∈ calls, c.pass.now = now) ∧
      Transition.run (PublisherService.publishPending cfg) s calls = some t ∧
      ¬ t.queue.HasWaiting d n := by
  induction M generalizing s with
  | zero => exact ⟨[], s, rfl, by simp, rfl, hl.waiting⟩
  | succ M ih =>
    obtain ⟨ids, v, hv⟩ := PublisherService.exists_publishRows now s
    obtain ⟨hbatch, hpub⟩ := PublisherService.publishRows_published hv
    have hcall : s.publishPending cfg ⟨⟨now, [], []⟩, ids⟩ = some v := by
      simp [PublisherService.publishPending, PublisherService.maintain, hrecent, hv]
    obtain ⟨calls, t, hlen, hnow, ht, hlost⟩ := ih (hl.published hbatch hpub) (hpub.last ▸ hrecent)
    refine ⟨_ :: calls, t, by simp [hlen], fun c hc => ?_,
      Transition.run_cons_eq_some.mpr ⟨v, hcall, ht⟩, hlost⟩
    rcases List.mem_cons.mp hc with rfl | hc
    · rfl
    · exact hnow c hc

theorem StaysLost.exists_maintain (hl : StaysLost cfg now d n s) :
    ∃ p u, p.now = now ∧ s.maintain cfg p = some u ∧ ¬ u.lastMaintenanceAt + 60000 ≤ now ∧
      Lost now (fun _ => True) True d n u := by
  by_cases hold : s.lastMaintenanceAt + 60000 ≤ now
  · obtain ⟨p, u, hp, hu, hlu⟩ := hl.exists_pass
    refine ⟨p, { u with lastMaintenanceAt := p.now }, hp, ?_, ?_, ?_⟩
    · simp [PublisherService.maintain, hp, hold, hu]
    · rw [hp]
      exact Nat.not_le.mpr (Nat.lt_add_of_pos_right (by decide))
    · exact ⟨hlu.waiting, hlu.idle, hlu.due, fun _ _ _ _ _ _ _ _ => trivial⟩
  · exact ⟨⟨now, [], []⟩, s, rfl, by simp [PublisherService.maintain, hold], hold,
      hl.mono (fun _ hk => hk) fun _ => trivial⟩

theorem StaysLost.exists_calls (hl : StaysLost cfg now d n s) (M : Nat) :
    ∃ calls t, calls.length = M ∧ (∀ c ∈ calls, c.pass.now = now) ∧
      Transition.run (PublisherService.publishPending cfg) s calls = some t ∧
      ¬ t.queue.HasWaiting d n := by
  cases M with
  | zero => exact ⟨[], s, rfl, by simp, rfl, hl.waiting⟩
  | succ M =>
    obtain ⟨p, u, hp, hu, hrecent, hlu⟩ := hl.exists_maintain
    obtain ⟨ids, v, hv⟩ := PublisherService.exists_publishRows now u
    obtain ⟨hbatch, hpub⟩ := PublisherService.publishRows_published hv
    have hcall : s.publishPending cfg ⟨p, ids⟩ = some v := by
      simp [PublisherService.publishPending, hu, hp, hv]
    obtain ⟨calls, t, hlen, hnow, ht, hlost⟩ :=
      (hlu.published hbatch hpub).exists_calls cfg (hpub.last ▸ hrecent) M
    refine ⟨_ :: calls, t, by simp [hlen], fun c hc => ?_,
      Transition.run_cons_eq_some.mpr ⟨v, hcall, ht⟩, hlost⟩
    rcases List.mem_cons.mp hc with rfl | hc
    · exact hp
    · exact hnow c hc

theorem restorable_of_restores (h : Restores cfg now span s) {r : Delivery}
    (hd : s.db.deliveries.row d = some r) (hc : r.status.claimable = true) :
    Restorable cfg now span s d (r.attempts + 1) := by
  by_contra hno
  obtain ⟨K, M, hK, hall⟩ := h
  obtain ⟨K, rfl⟩ : ∃ k, K = k + 1 := ⟨K - 1, by omega⟩
  have hidle : ∀ r', s.db.deliveries.row d = some r' → r'.status ≠ .processing := by
    intro r' hr' hst
    rw [hd, Option.some.injEq] at hr'
    subst hr'
    simp [hst] at hc
  obtain ⟨p, v, hp, hv, hlv⟩ := exists_first_pass hno hidle
  obtain ⟨passes, u, hlen, hnow, hu, hlu⟩ := hlv.exists_passes K
  obtain ⟨calls, t, hlen', hnow', ht, hlost⟩ := hlu.exists_calls M
  refine hlost (hall (p :: passes) calls u t (by simp [hlen]) hlen' (fun p' hp' => ?_)
    (fun c hcc => ?_) (Transition.run_cons_eq_some.mpr ⟨v, hv, hu⟩) ht d r hd hc)
  · rcases List.mem_cons.mp hp' with rfl | hp'
    · exact hp
    · rw [hnow p' hp']
      exact ⟨le_rfl, Nat.le_add_right now span⟩
  · rw [hnow' c hcc]
    exact ⟨le_rfl, Nat.le_add_right now span⟩

end Lost

/-- Passes and calls restore what a loss of jobs has left exactly when every PENDING or
FAILED delivery is restorable. -/
theorem lost_jobs_restored_iff (cfg : Config) (now span : Nat) (s : PublisherService)
    (loss : JobId → Loss) :
    Restores cfg now span { s with queue := s.queue.after loss } ↔
      ∀ d r, s.db.deliveries.row d = some r → r.status.claimable = true →
        Restorable cfg now span { s with queue := s.queue.after loss } d (r.attempts + 1) :=
  ⟨fun h _ _ hd hc => restorable_of_restores h hd hc, fun h => restores_of_restorable h⟩

/-- The first request is answered with 503, and the job of the second attempt waits. -/
def retryPublished : List Act :=
  Script.ingest ++ Script.publish 0 ++ Script.claim 0 (jobId 0 0) ++ Script.answer 0 503 ++
    [.settle 0 1000, .finish 0, .tick 1000] ++ Script.publish 1

theorem retryPublished_queue : (System.after .defaults (.subscribed 1) retryPublished).queue =
    Queue.add (((Queue.add (fun _ => none) (jobId 0 0) 0 1).setState (jobId 0 0) .active).setState
      (jobId 0 0) .completed) (jobId 1 0) 0 2 := rfl

theorem retryPublished_workers (w : Nat) :
    (System.after .defaults (.subscribed 1) retryPublished).workers w = none := by
  have hupdates : ∃ k₀ k₁ k₂ k₃ k₄ k₅ k₆ : Option Task,
      (System.after .defaults (.subscribed 1) retryPublished).workers =
        Function.update (Function.update (Function.update (Function.update (Function.update
          (Function.update (Function.update (Function.update (fun _ => none) 0 k₀) 0 k₁) 0 k₂) 0 k₃)
          0 k₄) 0 k₅) 0 k₆) 0 none :=
    ⟨_, _, _, _, _, _, _, rfl⟩
  obtain ⟨_, _, _, _, _, _, _, he⟩ := hupdates
  rw [he]
  simp

def losesRetry (j : JobId) : Loss := if j = jobId 1 0 then .lost else .kept

theorem retryPublished_lost {j : JobId} {job : Job}
    (h : (System.after .defaults (.subscribed 1) retryPublished).queue.after losesRetry j = some job) :
    job.state = .completed := by
  have hne : j ≠ jobId 1 0 := by
    rintro rfl
    simp [Queue.after, losesRetry] at h
  have hqueue : (System.after .defaults (.subscribed 1) retryPublished).queue j = some job := by
    simpa [Queue.after, losesRetry, hne] using h
  rw [retryPublished_queue] at hqueue
  rcases Queue.add_eq_some hqueue with hold | ⟨_, he, _⟩
  · simp only [Queue.setState_apply, Option.map_map, Option.map_eq_some_iff] at hold
    obtain ⟨job₀, h₀, rfl⟩ := hold
    rcases Queue.add_eq_some h₀ with hnone | ⟨_, rfl, _⟩
    · cases hnone
    · rfl
  · exact absurd he hne

theorem failed_delivery_stays_lost : ¬ ∀ (cfg : Config) (u : Setup) (as : List Act) (σ : System)
    (loss : JobId → Loss) (now span last : Nat), System.Reached cfg u as σ → σ.now ≤ now →
    (∀ w, σ.workers w = none) →
    (∀ d r, σ.db.deliveries.row d = some r → r.status.claimable = true →
      ∃ i o, σ.db.deliveryOutbox.row i = some o ∧ o.publishedAt.isSome = true ∧ o.deliveryId = d ∧
        o.attemptNumber = r.attempts + 1) →
    Restores cfg now span ⟨σ.db, σ.queue.after loss, last⟩ := by
  intro h
  have hreached : System.Reached .defaults (.subscribed 1) retryPublished
      (.after .defaults (.subscribed 1) retryPublished) := Transition.run_ending (by decide +kernel)
  have hrow : ((System.after .defaults (.subscribed 1) retryPublished).db.deliveries.row 0).map
      (fun r => (r.status, r.attempts)) = some (.failed, 1) := by decide +kernel
  have hdeliveries : (System.after .defaults (.subscribed 1) retryPublished).db.deliveries.next = 1 := by
    decide +kernel
  have houtbox : ((System.after .defaults (.subscribed 1) retryPublished).db.deliveryOutbox.row 1).map
      (fun o => (o.publishedAt, o.deliveryId, o.attemptNumber)) = some (some 1000, 0, 2) := by
    decide +kernel
  have hnext : (System.after .defaults (.subscribed 1) retryPublished).db.deliveryOutbox.next = 2 := by
    decide +kernel
  have hpublished : ∀ i < 2, ((System.after .defaults (.subscribed 1) retryPublished).db.deliveryOutbox.row i).all
      (fun o => o.publishedAt.isSome && o.deliveryId == 0) = true := by decide +kernel
  obtain ⟨r, hr, hst⟩ := Option.map_eq_some_iff.mp hrow
  rw [Prod.mk.injEq] at hst
  obtain ⟨o, ho, hids⟩ := Option.map_eq_some_iff.mp houtbox
  simp only [Prod.mk.injEq] at hids
  have hbacked : ∀ d r, (System.after .defaults (.subscribed 1) retryPublished).db.deliveries.row d =
      some r → r.status.claimable = true → ∃ i o,
      (System.after .defaults (.subscribed 1) retryPublished).db.deliveryOutbox.row i = some o ∧
        o.publishedAt.isSome = true ∧ o.deliveryId = d ∧ o.attemptNumber = r.attempts + 1 := by
    intro d r' hr' _
    have hlt := Table.lt_next hr'
    obtain rfl : d = 0 := by omega
    rw [hr, Option.some.injEq] at hr'
    subst hr'
    exact ⟨1, o, ho, by simp [hids.1], hids.2.1, by rw [hids.2.2, hst.2]⟩
  have hrestores := h .defaults (.subscribed 1) retryPublished _ losesRetry 1000 0 0 hreached
    (by decide +kernel) retryPublished_workers hbacked
  rcases restorable_of_restores hrestores hr (by rw [hst.1]; rfl) with
    ⟨j, job, hj, hwaits, _⟩ | ⟨i, o', hb, hdue | ⟨hre, _⟩⟩
  · rw [retryPublished_lost hj] at hwaits
    cases hwaits
  · have hlt := Table.lt_next hb.row
    have hpub := hpublished i (hnext ▸ hlt)
    rw [show _ = some o' from hb.row] at hpub
    simp [hdue.1] at hpub
  · have hlt := Table.lt_next hb.row
    have hpub := hpublished i (hnext ▸ hlt)
    rw [show _ = some o' from hb.row] at hpub
    simp only [Option.all_some, Bool.and_eq_true, beq_iff_eq] at hpub
    have hc := hre.1
    simp only [Database.strandedCandidate, hpub.2] at hc
    rw [show _ = some r from hr] at hc
    simp [hst.1] at hc

end WebhookEngine
