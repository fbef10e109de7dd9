import WebhookEngine.Publication

/-! What stands to be worked on: a job that waits, and an outbox row or an entry of a
publisher's batch that the queue would still take. Each step's new offers, case by case. -/

namespace WebhookEngine

open Relational

/-- What a publisher has still to add. -/
def Publisher.pending (p : Publisher) : List OutboxSnapshot := if p.added then p.batch.tail else p.batch

/-- The job `outbox-<i>-<m>` waits for the delivery and attempt, or would once it is added.
`keep` selects among the rows by the time from which they may be published. -/
inductive Offer (keep : Time → Bool) (q : Queue) (rows : Nat → Option DeliveryOutbox)
    (publishers : Nat → Publisher) (d n : Nat) : Nat → Nat → Prop where
  | job {i m job} (hj : q (jobId i m) = some job) (hw : job.state = .waiting)
      (hd : job.deliveryId = d) (hn : job.expectedAttempt = n) : Offer keep q rows publishers d n i m
  | row {i o} (ho : rows i = some o) (hun : o.publishedAt = none) (hk : keep o.availableAt = true)
      (hq : q (jobId i o.attempts) = none) (hd : o.deliveryId = d) (hn : o.attemptNumber = n) :
      Offer keep q rows publishers d n i o.attempts
  | entry {p o} (ho : o ∈ (publishers p).pending) (hq : q (jobId o.id o.attempts) = none)
      (hd : o.deliveryId = d) (hn : o.attemptNumber = n) : Offer keep q rows publishers d n o.id o.attempts

def System.Offers (s : System) (keep : Time → Bool) (d n i m : Nat) : Prop :=
  Offer keep s.queue s.db.deliveryOutbox.row s.publishers d n i m

/-- The pipeline's own actions: nobody else adds jobs. -/
def Act.native : Act → Bool
  | .duplicate .. => false
  | .foreign .. => false
  | _ => true

/-- The actions that leave an outbox row unpublished under a new job identifier. -/
inductive System.Bumps (s : System) : Act → Nat → DeliveryOutbox → Prop where
  | error {p message o₀ rest o} (hb : (s.publishers p).batch = o₀ :: rest)
      (ho : s.db.deliveryOutbox.row o₀.id = some o) (hun : o.publishedAt = none) :
      Bumps s (.publishError p message) o₀.id o
  | reopened {m p rest o} (hr : (s.strandedScans m).rest = p :: rest)
      (ho : s.db.deliveryOutbox.row p.1 = some o) : Bumps s (.strandedReopen m) p.1 o

/-- The publishers' batches once the action has dropped what it drops. -/
def System.remaining (s : System) : Act → Nat → Publisher
  | .publishError p _ => Function.update s.publishers p ⟨[], false⟩
  | _ => s.publishers

namespace System

variable {cfg : Config} {s t : System} {a : Act}

theorem Bumps.unique {i i' : Nat} {o o' : DeliveryOutbox} (h : s.Bumps a i o) (h' : s.Bumps a i' o') :
    i = i' ∧ o = o' := by
  cases h with
  | error hb ho hun =>
    cases h' with
    | error hb' ho' hun' =>
      rw [hb] at hb'
      cases hb'
      rw [ho] at ho'
      cases ho'
      exact ⟨rfl, rfl⟩
  | reopened hr ho =>
    cases h' with
    | reopened hr' ho' =>
      rw [hr] at hr'
      cases hr'
      rw [ho] at ho'
      cases ho'
      exact ⟨rfl, rfl⟩

theorem Bumps.schedules_none {i : Nat} {o : DeliveryOutbox} (h : s.Bumps a i o) {x : Txn}
    (hx : s.txn cfg a = some x) : x.scheduled s.now s.db = [] := by
  cases h with
  | error hb ho hun =>
    cases attempts_of_txn hx with
    | publishError => rfl
  | reopened hr ho =>
    cases attempts_of_txn hx with
    | strandedReopen => rfl

theorem Step.waiting_origin (h : Step cfg s a t) (ha : a.native = true) {j : JobId} {job : Job}
    (hj : t.queue j = some job) (hw : job.state = .waiting) :
    s.queue j = some job ∨ ∃ p o rest, a = .publishAdd p ∧ s.publishers p = ⟨o :: rest, false⟩ ∧
      j = jobId o.id o.attempts ∧ s.queue j = none ∧ job = ⟨o.deliveryId, o.attemptNumber, .waiting⟩ := by
  cases h with
  | publishAdd hp =>
    rcases Queue.add_eq_some hj with hold | ⟨hnone, he, hjob⟩
    · exact .inl hold
    · exact .inr ⟨_, _, _, rfl, hp, he, hnone, hjob⟩
  | @take w j₀ job₀ hw₀ hq hu =>
    obtain ⟨job', hold, _, _, hne, hst⟩ := setState_origin hj
    by_cases he : j = j₀
    · rw [hst he] at hw
      cases hw
    · rw [hne he]
      exact .inl hold
  | @finish w k ok hw₀ hp =>
    obtain ⟨job', hold, _, _, hne, hst⟩ := setState_origin hj
    by_cases he : j = k.job
    · rw [hst he] at hw
      cases ok <;> cases hw
    · rw [hne he]
      exact .inl hold
  | evict hq hf => exact .inl (Queue.remove_eq_some.mp hj).2
  | lose hq hf => exact .inl (Queue.remove_eq_some.mp hj).2
  | duplicate => cases ha
  | foreign => cases ha
  | _ => exact .inl hj

theorem Step.native_jobs (h : Step cfg s a t) (ha : a.native = true)
    (hs : ∀ j job, s.queue j = some job → ∃ i m, j = jobId i m) {j : JobId} {job : Job}
    (hj : t.queue j = some job) : ∃ i m, j = jobId i m := by
  rcases h.job_origin hj with ⟨old, hold, _⟩ | ⟨_, hadd⟩
  · exact hs j old hold
  · cases hadd with
    | published hp => exact ⟨_, _, rfl⟩
    | duplicated => cases ha
    | unknown => cases ha

theorem Step.absent_origin (h : Step cfg s a t) {j : JobId} (hj : t.queue j = none) :
    s.queue j = none ∨ a = .evict j ∨ a = .lose j := by
  have added : ∀ (i : JobId) (d n : Nat), s.queue.add i d n j = none → s.queue j = none := by
    intro i d n hadd
    by_contra hsome
    obtain ⟨job, hjob⟩ := Option.ne_none_iff_exists'.mp hsome
    rw [Queue.add_of_some hjob] at hadd
    cases hadd
  have removed : ∀ i : JobId, s.queue.remove i j = none → s.queue j = none ∨ j = i := by
    intro i hrem
    by_cases he : j = i
    · exact .inr he
    · simp only [Queue.remove, Function.update_of_ne he] at hrem
      exact .inl hrem
  have marked : ∀ (i : JobId) (st : JobState), s.queue.setState i st j = none → s.queue j = none := by
    intro i st hset
    rwa [Queue.setState_apply, Option.map_eq_none_iff] at hset
  cases h with
  | publishAdd hp => exact .inl (added _ _ _ hj)
  | duplicate hq hk => exact .inl (added _ _ _ hj)
  | foreign hk => exact .inl (added _ _ _ hj)
  | take hw hq hu => exact .inl (marked _ _ hj)
  | finish hw hp => exact .inl (marked _ _ hj)
  | evict hq hf =>
    rcases removed _ hj with hold | rfl
    · exact .inl hold
    · exact .inr (.inl rfl)
  | lose hq hf =>
    rcases removed _ hj with hold | rfl
    · exact .inl hold
    · exact .inr (.inr rfl)
  | _ => exact .inl hj

theorem Step.pending_origin (h : Step cfg s a t) {p : Nat} {o : OutboxSnapshot}
    (ho : o ∈ (t.publishers p).pending) :
    o ∈ (s.publishers p).pending ∨ ∃ row, s.db.deliveryOutbox.row o.id = some row ∧
      o = ⟨o.id, row.deliveryId, row.attemptNumber, row.attempts⟩ ∧
      Database.publishable s.now row = true := by
  have other : ∀ (p₀ : Nat) (v : Publisher), o ∈ (Function.update s.publishers p₀ v p).pending →
      p = p₀ ∧ o ∈ v.pending ∨ o ∈ (s.publishers p).pending :=
    fun _ _ => Transition.update_cases fun u : Publisher => o ∈ u.pending
  cases h with
  | @publishRead p₀ ids hb hids =>
    rcases other _ _ ho with ⟨rfl, hm⟩ | hm
    · simp only [Publisher.pending, Bool.false_eq_true, if_false, Database.snapshots,
        List.mem_filterMap, Option.map_eq_some_iff] at hm
      obtain ⟨i, hi, row, hrow, rfl⟩ := hm
      obtain ⟨row', hrow', hpub⟩ := hids.1.row hi
      rw [hrow, Option.some.injEq] at hrow'
      exact .inr ⟨row, hrow, rfl, hrow' ▸ hpub⟩
    · exact .inl hm
  | @publishAdd p₀ o₀ rest hp =>
    rcases other _ _ ho with ⟨rfl, hm⟩ | hm
    · rw [hp]
      exact .inl (List.mem_cons_of_mem _ hm)
    · exact .inl hm
  | @publishMark p₀ o₀ rest hp =>
    rcases other _ _ ho with ⟨rfl, hm⟩ | hm
    · rw [hp]
      simp only [Publisher.pending, Bool.false_eq_true, if_false] at hm
      split at hm
      · exact .inl hm
      · cases hm
    · exact .inl hm
  | publishError hb =>
    rcases other _ _ ho with ⟨rfl, hm⟩ | hm
    · cases hm
    · exact .inl hm
  | _ => exact .inl ho

theorem Step.unpublished_origin (h : Step cfg s a t) {i : Nat} {o' : DeliveryOutbox}
    (ho' : t.db.deliveryOutbox.row i = some o') (hun : o'.publishedAt = none) :
    s.db.deliveryOutbox.row i = some o' ∨
      (∃ o, s.Bumps a i o ∧ o'.attempts = o.attempts + 1 ∧ o'.deliveryId = o.deliveryId ∧
        o'.attemptNumber = o.attemptNumber ∧ o'.availableAt = o.availableAt) ∨
      ∃ x, s.txn cfg a = some x ∧ s.ok cfg a = true ∧ s.db.deliveryOutbox.next ≤ i ∧
        (x.scheduled s.now s.db)[i - s.db.deliveryOutbox.next]? = some o' := by
  rw [h.db] at ho'
  rcases s.store_cases cfg a with he | ⟨x, hx, hok, happ⟩
  · rw [he] at ho'
    exact .inl ho'
  rcases (Txn.outbox_becomes happ).origin ho' with ⟨o, ho, _, rfl⟩ | ⟨hge, hnew⟩
  · cases x with
    | markPublished id =>
      by_cases hid : i = id
      · simp [Txn.rewriteOutbox, hid, DeliveryOutbox.published] at hun
      · exact .inl (by simpa [Txn.rewriteOutbox, hid] using ho)
    | recordPublishError id message =>
      by_cases hid : i = id
      · simp only [Txn.rewriteOutbox, hid, if_true] at hun ⊢
        subst hid
        cases attempts_of_txn hx with
        | publishError hb => exact .inr (.inl ⟨o, .error hb ho hun, rfl, rfl, rfl, rfl⟩)
      · exact .inl (by simpa [Txn.rewriteOutbox, hid] using ho)
    | reopenOutbox id state =>
      by_cases hid : i = id
      · simp only [Txn.rewriteOutbox, hid, if_true]
        subst hid
        refine .inr (.inl ⟨o, ?_, rfl, rfl, rfl, rfl⟩)
        generalize hy : Txn.reopenOutbox i state = y at hx
        cases attempts_of_txn hx with
        | strandedReopen hr =>
          cases hy
          exact .reopened hr ho
        | _ => cases hy
      · exact .inl (by simpa [Txn.rewriteOutbox, hid] using ho)
    | _ => exact .inl ho
  · exact .inr (.inr ⟨x, hx, hok, hge, hnew⟩)

/-- Where an offer comes from. A row read into a batch may be published already, so `keep`
has to select it. -/
theorem Step.offer_origin (h : Step cfg s a t) (ha : a.native = true) {keep : Time → Bool}
    (hkeep : ∀ τ ≤ s.now, keep τ = true) {d n i m : Nat} (ho : t.Offers keep d n i m) :
    s.Offers keep d n i m ∨ a = .evict (jobId i m) ∨ a = .lose (jobId i m) ∨
      (∃ o, s.Bumps a i o ∧ keep o.availableAt = true ∧ m = o.attempts + 1 ∧ o.deliveryId = d ∧
        o.attemptNumber = n) ∨
      ∃ x o, s.txn cfg a = some x ∧ s.ok cfg a = true ∧ s.db.deliveryOutbox.next ≤ i ∧
        (x.scheduled s.now s.db)[i - s.db.deliveryOutbox.next]? = some o ∧
        keep o.availableAt = true ∧ m = o.attempts ∧ o.deliveryId = d ∧ o.attemptNumber = n := by
  cases ho with
  | job hj hw hd hn =>
    rcases h.waiting_origin ha hj hw with hold | ⟨p, o, rest, rfl, hp, hid, hnone, rfl⟩
    · exact .inl (.job hold hw hd hn)
    · have hpend : o ∈ (s.publishers p).pending := by
        rw [hp]
        exact List.mem_cons_self
      cases hid
      exact .inl (.entry hpend hnone hd hn)
  | row ho' hun hk hq hd hn =>
    rcases h.unpublished_origin ho' hun with hold | ⟨o, hb, hatt, hd', hn', hav⟩ | ⟨x, hx, hok, hge, hnew⟩
    · rcases h.absent_origin hq with hnone | he | he
      · exact .inl (.row hold hun hk hnone hd hn)
      · exact .inr (.inl he)
      · exact .inr (.inr (.inl he))
    · exact .inr (.inr (.inr (.inl ⟨o, hb, hav ▸ hk, hatt, hd'.symm.trans hd, hn'.symm.trans hn⟩)))
    · exact .inr (.inr (.inr (.inr ⟨x, _, hx, hok, hge, hnew, hk, rfl, hd, hn⟩)))
  | @entry p o ho' hq hd hn =>
    rcases h.absent_origin hq with hnone | he | he
    · rcases h.pending_origin ho' with hold | ⟨row, hrow, he, hpub⟩
      · exact .inl (.entry hold hnone hd hn)
      · simp only [Database.publishable, Bool.and_eq_true, Option.isNone_iff_eq_none,
          decide_eq_true_eq] at hpub
        rw [he] at hd hn hnone ⊢
        exact .inl (.row hrow hpub.1 (hkeep _ hpub.2) hnone hd hn)
    · exact .inr (.inl he)
    · exact .inr (.inr (.inl he))

theorem Step.bumped (h : Step cfg s a t) {i : Nat} {o : DeliveryOutbox} (hb : s.Bumps a i o) :
    ∃ o', t.db.deliveryOutbox.row i = some o' ∧ o'.attempts = o.attempts + 1 := by
  rw [h.db]
  cases hb with
  | @error p message o₀ rest o hb ho hun =>
    exact ⟨o.publishFailed message, by simp [txn, hb, Txn.apply, Database.updateOutbox, ho], rfl⟩
  | @reopened m p rest o hr ho =>
    exact ⟨o.reopened ((s.strandedScans m).found.getD "missing"),
      by simp [txn, hr, Txn.apply, Database.updateOutbox, ho], rfl⟩

theorem Bumps.row {i : Nat} {o : DeliveryOutbox} (h : s.Bumps a i o) :
    s.db.deliveryOutbox.row i = some o := by
  cases h <;> assumption

/-- An offer beside a row that is bumped was there without the row and the batch dropped. -/
theorem Step.offer_besides (h : Step cfg s a t) (ha : a.native = true) {i : Nat} {o : DeliveryOutbox}
    (hb : s.Bumps a i o) {keep : Time → Bool} {d n i' m' : Nat} (ho : t.Offers keep d n i' m')
    (hne : (i', m') ≠ (i, o.attempts + 1)) :
    Offer keep s.queue (Function.update s.db.deliveryOutbox.row i none) (s.remaining a) d n i' m' := by
  have hqueue : t.queue = s.queue := by
    cases hb <;> cases h <;> rfl
  have hpublishers : t.publishers = s.remaining a := by
    cases hb <;> cases h <;> rfl
  cases ho with
  | job hj hw hd hn => exact .job (hqueue ▸ hj) hw hd hn
  | @row i' o' ho' hun hk hq hd hn =>
    rw [hqueue] at hq
    rcases h.unpublished_origin ho' hun with hold | ⟨o₂, hb₂, hatt, _⟩ | ⟨x, hx, _, _, hnew⟩
    · have hi : i' ≠ i := by
        rintro rfl
        obtain ⟨o₂, ho₂, hatt⟩ := h.bumped hb
        rw [ho', Option.some.injEq] at ho₂
        rw [hb.row, Option.some.injEq] at hold
        rw [← ho₂, hold] at hatt
        omega
      exact .row (by rwa [Function.update_of_ne hi]) hun hk hq hd hn
    · obtain ⟨rfl, rfl⟩ := hb.unique hb₂
      exact absurd (by rw [hatt]) hne
    · rw [hb.schedules_none hx] at hnew
      cases hnew
  | entry ho' hq hd hn => exact .entry (hpublishers ▸ ho') (hqueue ▸ hq) hd hn

end System

end WebhookEngine
