import WebhookEngine.Duplicates

/-! Whether a claim can come before the time its delivery has been put off to. Only the
publisher looks at that time, and only at the one of the row it publishes. -/

namespace WebhookEngine

open Relational

/-- The worker may still come to its claim. -/
def Point.mayClaim : Point → Bool
  | .started => true
  | .limiting => true
  | .claiming => true
  | _ => false

/-- The delivery waits for its attempt `n`, and not before `T`. -/
def HeldUntil (s : System) (d n : Nat) (T : Time) : Prop :=
  ∃ r, s.db.deliveries.row d = some r ∧ r.status.claimable = true ∧ r.attempts + 1 = n ∧
    r.nextAttemptAt = some T ∧ s.now < T

/-- The attempt may be claimed before `T`: by a worker on its way, through a job, or
through a row that may be published before. -/
def Pressing (s : System) (d n : Nat) (T : Time) : Prop :=
  (∃ i m, s.Offers (fun τ => decide (τ < T)) d n i m) ∨
    ∃ w k, s.workers w = some k ∧ k.deliveryId = d ∧ k.expectedAttempt = n ∧ k.point.mayClaim = true

def OnTime (s : System) : Prop := ∀ d n T, HeldUntil s d n T → ¬ Pressing s d n T

/-- A claim that succeeds comes at the delivery's `nextAttemptAt` or later. -/
def OnSchedule (s : System) (a : Act) (_ : System) : Prop :=
  ∀ w k delivery r T, a = .claim w → s.workers w = some k → k.point = .claiming →
    (s.db.claimForProcessing s.now k.deliveryId k.expectedAttempt).2 = some delivery →
    s.db.deliveries.row k.deliveryId = some r → r.nextAttemptAt = some T → T ≤ s.now

/-- The delivery a transaction puts off, and until when. -/
def Txn.putsOff : Txn → Option (Nat × Time)
  | .markFailedAndSchedule input => some (input.id, input.nextAttemptAt)
  | .markRateLimitedAndSchedule id nextAttemptAt _ => some (id, nextAttemptAt)
  | _ => none

/-- A deferral or a retry finds nothing that presses the attempt it puts off; and while an
attempt is put off, its started jobs are not taken again, and no row or batch entry for
it with an earlier time is bumped, reopened or set free by a job the queue forgets. -/
structure KeepsTime (cfg : Config) (s : System) (a : Act) (t : System) : Prop where
  putOff : ∀ x d T r, s.txn cfg a = some x → s.ok cfg a = true → x.putsOff = some (d, T) →
    s.now < T → s.db.deliveries.row d = some r → ¬ Pressing s d (r.attempts + 1) T
  taken : ∀ w j job T, a = .take w j → s.queue j = some job → job.state = .active →
    ¬ HeldUntil s job.deliveryId job.expectedAttempt T
  bumped : ∀ i o T, s.Bumps a i o → HeldUntil s o.deliveryId o.attemptNumber T → T ≤ o.availableAt
  forgotten : ∀ i m d n T, a = .evict (jobId i m) ∨ a = .lose (jobId i m) → HeldUntil s d n T →
    ¬ Offer (fun τ => decide (τ < T)) (s.queue.remove (jobId i m)) s.db.deliveryOutbox.row s.publishers d n i m

namespace Txn

variable {cfg : Config} {now T : Time} {db db' : Database} {x : Txn} {d : Nat} {r : Delivery}

theorem rewrite_putOff (hc : (x.rewrite now d r).status.claimable = true)
    (hT : (x.rewrite now d r).nextAttemptAt = some T) (hnow : now < T) :
    x.rewrite now d r = r ∨ x.putsOff = some (d, T) ∧ (x.rewrite now d r).attempts = r.attempts := by
  have ended : ∀ (p : Prop) [Decidable p] (q : Delivery), q.status.claimable = false →
      (if p then q else r).status.claimable = true → (if p then q else r) = r := by
    intro p _ q hq hif
    by_cases hp : p
    · rw [if_pos hp, hq] at hif
      cases hif
    · exact if_neg hp
  have due : ∀ (p : Prop) [Decidable p] (q : Delivery), q.nextAttemptAt = some now →
      (if p then q else r).nextAttemptAt = some T → (if p then q else r) = r := by
    intro p _ q hq hif
    by_cases hp : p
    · rw [if_pos hp, hq, Option.some.injEq] at hif
      exact absurd hif hnow.ne
    · exact if_neg hp
  cases x with
  | claimForProcessing id n => exact .inl (ended _ _ rfl hc)
  | markSuccess id c t => exact .inl (ended _ _ rfl hc)
  | markDeadLetter id c t => exact .inl (ended _ _ rfl hc)
  | markCancelled id t => exact .inl (ended _ _ rfl hc)
  | recoverStaleDelivery id m cutoff => exact .inl (due _ _ rfl hT)
  | resetForReplay id => exact .inl (due _ _ rfl hT)
  | markFailedAndSchedule input =>
    by_cases hd : d = input.id
    · simp only [rewrite, hd, if_true, Delivery.fail, Option.some.injEq] at hT ⊢
      exact .inr ⟨by rw [putsOff, hT], trivial⟩
    · exact .inl (by simp [rewrite, hd])
  | markRateLimitedAndSchedule id at' n =>
    by_cases hd : d = id
    · simp only [rewrite, hd, if_true, Delivery.rateLimit, Option.some.injEq] at hT ⊢
      exact .inr ⟨by rw [putsOff, hT], trivial⟩
    · exact .inl (by simp [rewrite, hd])
  | _ => exact .inl rfl

theorem scheduled_putOff (h : x.apply cfg now db = some db') {o : DeliveryOutbox}
    (ho : o ∈ x.scheduled now db) {r' : Delivery} (hr' : db'.deliveries.row o.deliveryId = some r')
    (hT : r'.nextAttemptAt = some T) : o.availableAt = T := by
  have rewritten : ∀ g : Delivery → Delivery,
      db'.deliveries = db.deliveries.modify o.deliveryId g →
      (∀ q, (g q).nextAttemptAt = some o.availableAt) → o.availableAt = T := by
    intro g hd hg
    rw [hd, Table.modify_row_self, Option.map_eq_some_iff] at hr'
    obtain ⟨q, _, rfl⟩ := hr'
    rwa [hg q, Option.some.injEq] at hT
  cases x with
  | createForTenant input endpointIds =>
    obtain ⟨_, _, _, rfl⟩ := createForTenant_eq_some.mp h
    simp only [scheduled, List.mem_map, List.mem_range'_1] at ho
    obtain ⟨e, he, rfl⟩ := ho
    have hnot : ¬ e < db.deliveries.next := by omega
    simp only [DeliveryOutbox.created, Table.insertAll_row, hnot, if_false, List.getElem?_map,
      Option.map_eq_some_iff] at hr'
    obtain ⟨ep, _, rfl⟩ := hr'
    cases hT
  | markFailedAndSchedule input =>
    obtain ⟨q, _, rfl⟩ := Database.schedule_eq_some.mp h
    rw [scheduled, List.mem_singleton] at ho
    subst ho
    exact rewritten (Delivery.fail input) rfl fun _ => rfl
  | markRateLimitedAndSchedule id at' n =>
    obtain ⟨q, _, rfl⟩ := Database.schedule_eq_some.mp h
    rw [scheduled, List.mem_singleton] at ho
    subst ho
    exact rewritten (Delivery.rateLimit at') rfl fun _ => rfl
  | recoverStaleDelivery id m cutoff =>
    cases h
    rcases Database.recoverStaleDelivery_cases now db id m cutoff with ⟨hno, _⟩ | ⟨q, hq, hs, he⟩
    · simp [scheduled, hno] at ho
    · simp only [scheduled, hq, Option.any_some, hs, if_true, List.mem_singleton] at ho
      subst ho
      exact rewritten (Delivery.recover now) (by rw [he]; rfl) fun _ => rfl
  | resetForReplay id =>
    obtain ⟨q, _, _, rfl⟩ := Database.resetForReplay_eq_some.mp h
    rw [scheduled, List.mem_singleton] at ho
    subst ho
    exact rewritten (Delivery.reset now) rfl fun _ => rfl
  | _ => cases ho

end Txn

namespace OnTime

variable {cfg : Config} {s t : System} {a : Act} {d n : Nat} {T : Time}

/-- An attempt that is put off after a step was put off before it or is by it; either way
nothing presses it before the step. -/
theorem held_origin (hs : OnTime s) (hk : KeepsTime cfg s a t) (h : s.Step cfg a t)
    (hh : HeldUntil t d n T) : ¬ Pressing s d n T ∧
      (HeldUntil s d n T ∨ ∃ x, s.txn cfg a = some x ∧ x.putsOff = some (d, T)) := by
  obtain ⟨r', hr', hc, hn, hT, hnow⟩ := hh
  have hnow' : s.now < T := lt_of_le_of_lt h.now_le hnow
  rcases h.row_origin hr' with ⟨r, hr, rfl | ⟨x, hx, hok, rfl⟩⟩ | ⟨_, e, ep, rfl⟩
  · have hheld : HeldUntil s d n T := ⟨r', hr, hc, hn, hT, hnow'⟩
    exact ⟨hs d n T hheld, .inl hheld⟩
  · rcases Txn.rewrite_putOff hc hT hnow' with hsame | ⟨hput, hatt⟩
    · rw [hsame] at hc hn hT
      have hheld : HeldUntil s d n T := ⟨r, hr, hc, hn, hT, hnow'⟩
      exact ⟨hs d n T hheld, .inl hheld⟩
    · rw [hatt] at hn
      exact ⟨hn ▸ hk.putOff x d T r hx hok hput hnow' hr, .inr ⟨x, hx, hput⟩⟩
  · cases hT

theorem step (hs : OnTime s) (hjobs : ∀ j job, s.queue j = some job → ∃ i m, j = jobId i m)
    (hk : KeepsTime cfg s a t) (h : s.Step cfg a t) (ha : a.native = true) : OnTime t := by
  intro d n T hh hpress
  obtain ⟨hquiet, hheld⟩ := hs.held_origin hk h hh
  obtain ⟨r', hr', hc, hn, hT, hnow⟩ := hh
  have hnow' : s.now < T := lt_of_le_of_lt h.now_le hnow
  have held : (∀ x, s.txn cfg a = some x → x.putsOff = none) → HeldUntil s d n T := by
    intro hnone
    rcases hheld with hheld | ⟨x, hx, hput⟩
    · exact hheld
    · rw [hnone x hx] at hput
      cases hput
  rcases hpress with ⟨i, m, ho⟩ | ⟨w, k', hw', rfl, rfl, hmay⟩
  · have hkeep : ∀ τ ≤ s.now, decide (τ < T) = true := fun τ hτ => by
      simpa using lt_of_le_of_lt hτ hnow'
    rcases h.offer_origin ha hkeep ho with hold | rfl | rfl | ⟨o, hb, hav, rfl, rfl, rfl⟩ |
      ⟨x, o, hx, hok, _, hrow, hav, _, rfl, _⟩
    · exact hquiet (.inl ⟨i, m, hold⟩)
    · refine hk.forgotten i m d n T (.inl rfl) (held fun x hx => by cases hx) ?_
      cases h
      exact ho
    · refine hk.forgotten i m d n T (.inr rfl) (held fun x hx => by cases hx) ?_
      cases h
      exact ho
    · have hle := hk.bumped i o T hb (held fun x hx => ?_)
      · rw [decide_eq_true_eq] at hav
        exact absurd hle (not_le.mpr hav)
      · cases hb with
        | error hb ho hun =>
          cases System.attempts_of_txn hx with
          | publishError => rfl
        | reopened hr ho =>
          cases System.attempts_of_txn hx with
          | strandedReopen => rfl
    · have happ := System.store_of_ok hx hok
      rw [← h.db] at happ
      have heq := Txn.scheduled_putOff happ (List.mem_of_getElem? hrow) hr' hT
      rw [decide_eq_true_eq] at hav
      exact absurd heq hav.ne
  · rcases h.worker_origin hw' with hw | ⟨k, p, hw, rfl, hm⟩ | ⟨job, rfl, hnone, hq, hu, hk'⟩
    · exact hquiet (.inr ⟨w, k', hw, rfl, rfl, hmay⟩)
    · refine hquiet (.inr ⟨w, k, hw, rfl, rfl, ?_⟩)
      cases hm with
      | find hp =>
        rw [hp]
        rfl
      | limit hp =>
        rw [hp]
        rfl
      | @thrown c result delayMs hp =>
        generalize s.outcome cfg c result delayMs = write at hmay
        cases write <;> cases hmay
      | _ => cases hmay
    · have hd : k'.deliveryId = job.deliveryId := by rw [hk']
      have hn : k'.expectedAttempt = job.expectedAttempt := by rw [hk']
      have hjob : HeldUntil s k'.deliveryId k'.expectedAttempt T := held fun x hx => by cases hx
      cases hst : job.state with
      | waiting =>
        obtain ⟨i, m, hid⟩ := hjobs k'.job job hq
        rw [hid] at hq
        exact hquiet (.inl ⟨i, m, .job hq hst hd.symm hn.symm⟩)
      | active =>
        rw [hd, hn] at hjob
        exact hk.taken w k'.job job T rfl hq hst hjob
      | completed => simp [Job.unfinished, hst] at hu
      | failed => simp [Job.unfinished, hst] at hu

theorem onSchedule (hs : OnTime s) (hl : s.db.Linked) : OnSchedule s a t := by
  intro w k delivery r T ha hw hp hclaim hr hT
  obtain ⟨q, hq, hc, _⟩ := hl.claimable_of_claim hclaim
  rw [hr, Option.some.injEq] at hq
  subst hq
  by_contra hearly
  simp only [Delivery.claimableAs, Bool.and_eq_true, beq_iff_eq] at hc
  exact hs k.deliveryId k.expectedAttempt T ⟨r, hr, hc.2, hc.1, hT, not_le.mp hearly⟩
    (.inr ⟨w, k, hw, rfl, rfl, by rw [hp]; rfl⟩)

end OnTime

/-- In every run of the pipeline's own actions and of replays whose steps keep to the times
they put attempts off to, every claim comes at the delivery's `nextAttemptAt` or later. -/
theorem attempts_on_schedule {cfg : Config} {u : Setup} {as : List Act}
    (ha : ∀ a ∈ as, a.native = true)
    (hk : Transition.Along (System.step cfg) (KeepsTime cfg) (.boot u) as) :
    Transition.Along (System.step cfg) OnSchedule (.boot u) as := by
  have hnative : Transition.Along (System.step cfg) (fun _ a _ => a.native = true) (.boot u) as :=
    Transition.along_of_mem fun a ham _ _ => ha a ham
  have hvisits : Transition.Visits (System.step cfg) (fun s => OnTime s ∧ s.db.Linked ∧
      ∀ j job, s.queue j = some job → ∃ i m, j = jobId i m) (.boot u) as := by
    refine (hk.and hnative).visits (fun s a t hs hstep hp => ?_) ⟨?_, System.boot_linked u, ?_⟩
    · have h := System.Step.of_step hstep
      exact ⟨hs.1.step hs.2.2 hp.1 h hp.2, h.linked hs.2.1, fun _ _ => h.native_jobs hp.2 hs.2.2⟩
    · rintro d n T ⟨r, hr, _⟩
      cases hr
    · intro j job hj
      cases hj
  exact hvisits.along.mono fun s a t _ hi => hi.1.1.onSchedule hi.1.2.1

def Act.plain : Act → Bool
  | .take .. => false
  | .defer _ => false
  | .settle .. => false
  | .publishError .. => false
  | .strandedReopen _ => false
  | .evict _ => false
  | .lose _ => false
  | _ => true

section Runs

variable {cfg : Config} {s t : System} {a : Act}

theorem keepsTime_of_plain (hp : a.plain = true) : KeepsTime cfg s a t where
  putOff x d T r hx _ hput := by
    cases System.attempts_of_txn hx with
    | defer => cases hp
    | retry => cases hp
    | _ => cases hput
  taken w j job T he := by
    subst he
    cases hp
  bumped i o T hb := by cases hb <;> cases hp
  forgotten i m d n T hact := by rcases hact with rfl | rfl <;> cases hp

theorem keepsTime_of_waiting {w : Nat} {j : JobId} {job : Job} (hj : s.queue j = some job)
    (hw : job.state = .waiting) : KeepsTime cfg s (.take w j) t where
  putOff x d T r hx := by cases hx
  taken w' j' job' T he hj' hactive := by
    cases he
    rw [hj, Option.some.injEq] at hj'
    rw [← hj', hw] at hactive
    cases hactive
  bumped i o T hb := by cases hb
  forgotten i m d n T hact := by rcases hact with h | h <;> cases h

theorem Idle.keepsTime_defer (hi : Idle s) {w : Nat} (hw : ∀ v k, s.workers v = some k → k.point.mayClaim = false) :
    KeepsTime cfg s (.defer w) t where
  putOff x d T r _ _ _ _ _ hp := by
    rcases hp with ⟨i, m, ho⟩ | ⟨v, k, hv, _, _, hmay⟩
    · exact hi.no_offers ho
    · rw [hw v k hv] at hmay
      cases hmay
  taken w j job T he := by cases he
  bumped i o T hb := by cases hb
  forgotten i m d n T hact := by rcases hact with h | h <;> cases h

end Runs

theorem rateLimitedRun_keepsTime : Transition.Along (System.step .defaults) (KeepsTime .defaults)
    (.boot (.subscribed 1)) (rateLimitedRun ++ Script.claim 0 (jobId 1 0)) := by
  have plain : ∀ (s : System) (as : List Act), (∀ a ∈ as, a.plain = true) →
      Transition.Along (System.step .defaults) (KeepsTime .defaults) s as :=
    fun s as hp => Transition.along_of_mem fun a ha _ _ => keepsTime_of_plain (hp a ha)
  have taking : ∀ (s : System) (j : JobId) (job : Job), s.queue j = some job → job.state = .waiting →
      Transition.Along (System.step .defaults) (KeepsTime .defaults) s [.take 0 j] :=
    fun s j job hj hw t _ => ⟨keepsTime_of_waiting hj hw, trivial⟩
  have reached : ∀ as, (Transition.run (System.step .defaults) (.boot (.subscribed 1)) as).isSome = true →
      System.Reached .defaults (.subscribed 1) as (.after .defaults (.subscribed 1) as) :=
    fun as h => Transition.run_ending h
  have hworkers : ∀ w k, (System.after .defaults (.subscribed 1) limitedRun).workers w = some k →
      k.point.mayClaim = false := by
    have hupdates : ∃ k₀ k₁, (System.after .defaults (.subscribed 1) limitedRun).workers =
        Function.update (Function.update (Function.update (fun _ => none) 0 k₀) 0 k₁) 0
          (some ⟨jobId 0 0, 0, 1, .deferring 1000⟩) := ⟨_, _, rfl⟩
    obtain ⟨k₀, k₁, he⟩ := hupdates
    intro w k hk
    rw [he] at hk
    by_cases hw : w = 0
    · rw [hw, Function.update_self, Option.some.injEq] at hk
      rw [← hk]
      rfl
    · simp [hw] at hk
  have hpublished := plain (.boot (.subscribed 1)) (Script.ingest ++ Script.publish 0) (by decide)
  have htaken := hpublished.append (reached _ (by decide +kernel))
    (taking _ (jobId 0 0) ⟨0, 1, .waiting⟩ (by decide +kernel) rfl)
  have hlimited : Transition.Along (System.step .defaults) (KeepsTime .defaults)
      (.boot (.subscribed 1)) limitedRun :=
    htaken.append (reached _ (by decide +kernel)) (plain _ [.find 0, .limit 0 (some 1000)] (by decide))
  have hdefer : Transition.Along (System.step .defaults) (KeepsTime .defaults)
      (.after .defaults (.subscribed 1) limitedRun) [.defer 0] :=
    fun t _ => ⟨limitedRun_idle.keepsTime_defer hworkers, trivial⟩
  have hdeferred := hlimited.append (reached _ (by decide +kernel)) hdefer
  have hrun := hdeferred.append (reached _ (by decide +kernel))
    (plain _ ([.finish 0, .tick 1000] ++ Script.publish 1) (by decide))
  have hagain := hrun.append (reached _ (by decide +kernel))
    (taking _ (jobId 1 0) ⟨0, 1, .waiting⟩ (by decide +kernel) rfl)
  exact hagain.append (reached _ (by decide +kernel)) (plain _ [.find 0, .limit 0 none, .claim 0] (by decide))

theorem attempts_on_schedule_deferred :
    Transition.Along (System.step .defaults) OnSchedule (.boot (.subscribed 1))
      (rateLimitedRun ++ Script.claim 0 (jobId 1 0)) :=
  attempts_on_schedule (by decide) rateLimitedRun_keepsTime

/-- A retry is scheduled for 60000; the delivery is replayed, fails again and is put off to
90000. The row left over from before the replay brings its second attempt up at 60000. -/
def leftoverRun : List Act :=
  Script.ingest ++ Script.publish 0 ++ Script.claim 0 (jobId 0 0) ++ Script.answer 0 503 ++
    [.settle 0 60000, .finish 0, .replayRead 0 0 0, .replayReset 0] ++ Script.publish 2 ++
    Script.claim 0 (jobId 2 0) ++ Script.answer 0 503 ++ [.tick 30000, .settle 0 60000, .finish 0, .tick 30000] ++
    Script.publish 1 ++ [.take 0 (jobId 1 0), .find 0, .limit 0 none]

theorem attempt_before_schedule : ¬ ∀ (cfg : Config) (u : Setup) (as : List Act),
    (∀ a ∈ as, a.native = true) →
    Transition.Along (System.step cfg) OnSchedule (.boot u) as := by
  intro h
  have hs : System.Reached .defaults (.subscribed 1) leftoverRun
      (.after .defaults (.subscribed 1) leftoverRun) := Transition.run_ending (by decide +kernel)
  have hlast := (h .defaults (.subscribed 1) (leftoverRun ++ [.claim 0]) (by decide)).of_append hs
  have hstep : (System.step .defaults (.after .defaults (.subscribed 1) leftoverRun) (.claim 0)).isSome =
      true := by decide +kernel
  obtain ⟨t, ht⟩ := Option.isSome_iff_exists.mp hstep
  have hclaim : ((System.after .defaults (.subscribed 1) leftoverRun).db.claimForProcessing
      60000 0 2).2.isSome = true := by decide +kernel
  obtain ⟨delivery, hdelivery⟩ := Option.isSome_iff_exists.mp hclaim
  have hworker : (System.after .defaults (.subscribed 1) leftoverRun).workers 0 =
      some ⟨jobId 1 0, 0, 2, .claiming⟩ := by decide +kernel
  have hnow : (System.after .defaults (.subscribed 1) leftoverRun).now = 60000 := by decide +kernel
  have hrow : ((System.after .defaults (.subscribed 1) leftoverRun).db.deliveries.row 0).bind
      Delivery.nextAttemptAt = some 90000 := by decide +kernel
  obtain ⟨r, hr, hT⟩ := Option.bind_eq_some_iff.mp hrow
  have hle := (hlast t ht).1 0 _ delivery r 90000 rfl hworker rfl (by rw [hnow]; exact hdelivery) hr hT
  rw [hnow] at hle
  exact absurd hle (by decide)

end WebhookEngine
