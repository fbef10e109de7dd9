import WebhookEngine.Publication

/-! How the numbers in flight relate to the attempts of a row. Each is copied from a value that
was read earlier; without replays the attempts only grow, so none of them runs ahead. -/

namespace WebhookEngine

open Relational

def System.Committed (s : System) (d n : Nat) : Prop :=
  d < s.db.deliveries.next ∧ ∀ r, s.db.deliveries.row d = some r → n ≤ r.attempts

/-- A number under which the delivery has been claimed or can be claimed next. -/
def System.Numbers (s : System) (d n : Nat) : Prop := 1 ≤ n ∧ s.Committed d (n - 1)

/-- What a process keeps of the delivery is a number or an earlier count of its attempts. -/
structure Numbered (d : Nat) (s : System) : Prop where
  backed : s.db.Backed
  rows : ∀ i o, s.db.deliveryOutbox.row i = some o → o.deliveryId = d → s.Numbers d o.attemptNumber
  batches : ∀ p o, o ∈ (s.publishers p).batch → o.deliveryId = d → s.Numbers d o.attemptNumber
  jobs : ∀ j job, s.queue j = some job → job.deliveryId = d → s.Numbers d job.expectedAttempt
  tasks : ∀ w k, s.workers w = some k → k.deliveryId = d → s.Numbers d k.expectedAttempt
  claims : ∀ w k c, s.workers w = some k → k.point.claimed? = some c → c.delivery.id = d →
    s.Committed d c.delivery.row.attempts
  scans : ∀ m p, p ∈ (s.staleScans m).rest → p.1 = d → s.Committed d p.2

def Act.replays : Act → Bool
  | .replayReset _ => true
  | _ => false

namespace System

variable {cfg : Config} {s t : System} {a : Act} {d n : Nat}

theorem committed_zero {r : Delivery} (hr : s.db.deliveries.row d = some r) : s.Committed d 0 :=
  ⟨Table.lt_next hr, fun _ _ => Nat.zero_le _⟩

theorem Step.attempts_le (h : Step cfg s a t) (ha : a.replays = false) {r r' : Delivery}
    (hr : s.db.deliveries.row d = some r) (hr' : t.db.deliveries.row d = some r') : r.attempts ≤ r'.attempts := by
  rcases h.row_origin hr' with ⟨r₀, hold, rfl | ⟨x, hx, _, he⟩⟩ | ⟨hge, _⟩
  · rw [hr, Option.some.injEq] at hold
    rw [hold]
  · rw [hr, Option.some.injEq] at hold
    subst hold
    cases he ▸ x.rewrites s.now d r with
    | same => exact le_refl _
    | claim _ => exact Nat.le_succ _
    | overwrite _ _ hatt => exact hatt.ge
    | recover _ => exact le_refl _
    | reset =>
      cases attempts_of_txn hx with
      | replayReset => cases ha
  · exact absurd (Table.lt_next hr) (not_lt.mpr hge)

theorem Committed.step (hs : s.Committed d n) (h : Step cfg s a t) (ha : a.replays = false) : t.Committed d n := by
  refine ⟨hs.1.trans_le h.next_le, fun r' hr' => ?_⟩
  rcases h.row_origin hr' with ⟨r, hr, _⟩ | ⟨hge, _⟩
  · exact (hs.2 r hr).trans (h.attempts_le ha hr hr')
  · exact absurd hs.1 (not_lt.mpr hge)

theorem Numbers.step (hs : s.Numbers d n) (h : Step cfg s a t) (ha : a.replays = false) : t.Numbers d n :=
  ⟨hs.1, hs.2.step h ha⟩

theorem claimed_committed (hl : s.db.Linked) {now : Time} {delivery : DispatchableDelivery}
    (h : (s.db.claimForProcessing now d n).2 = some delivery) {db : Database}
    (hdb : db = (s.db.claimForProcessing now d n).1) :
    delivery.id = d ∧ db.deliveries.row d = some delivery.row := by
  obtain ⟨r, hr, hc, hid, hrow⟩ := hl.claimable_of_claim h
  obtain ⟨_, _, _, _, hafter⟩ := hl.claimForProcessing_eq now hr hc
  refine ⟨hid, ?_⟩
  rw [hdb, hafter, hrow]
  simp [hr]

end System

namespace Numbered

variable {cfg : Config} {s t : System} {a : Act} {d : Nat}

/-- A new outbox row carries the first number, a worker's own, or the one after a count. -/
theorem scheduled (hn : Numbered d s) (h : s.Step cfg a t) (ha : a.replays = false) {i : Nat}
    {o : DeliveryOutbox} (ho : t.db.deliveryOutbox.row i = some o) (hd : o.deliveryId = d)
    (hs : s.Schedules cfg a o) : t.Numbers d o.attemptNumber := by
  cases hs with
  | first hone =>
    obtain ⟨r, hr⟩ := Option.isSome_iff_exists.mp (h.backed hn.backed i o ho)
    rw [hd] at hr
    rw [hone]
    exact ⟨le_refl _, System.committed_zero hr⟩
  | deferral hw hp hd' hnum =>
    rw [hnum]
    exact (hn.tasks _ _ hw (hd'.symm.trans hd)).step h ha
  | @retry w delayMs k c result _ hw hp hd' hnum _ =>
    have hcommitted := hn.claims w k c hw (by rw [hp]; rfl) (hd'.symm.trans hd)
    rw [hnum]
    exact ⟨Nat.succ_pos _, hcommitted.step h ha⟩
  | @recovery m p rest r _ hrest hr hst hd' hnum =>
    have hcommitted := hn.scans m p (by rw [hrest]; exact List.mem_cons_self) (hd'.symm.trans hd)
    rw [hnum]
    exact ⟨Nat.succ_pos _, hcommitted.step h ha⟩

theorem step_claims (hn : Numbered d s) (hl : s.db.Linked) (h : s.Step cfg a t) (ha : a.replays = false)
    {w : Nat} {k' : Task} {c : Claimed} (hk : t.workers w = some k') (hc : k'.point.claimed? = some c)
    (hd : c.delivery.id = d) : t.Committed d c.delivery.row.attempts := by
  rcases h.claimed_origin hk hc with ⟨k, hw, hold, _, _⟩ | ⟨k, delivery, rfl, hw, hp, hhit, ht, _, rfl⟩
  · exact (hn.claims w k c hw hold hd).step h ha
  · have hdb : t.db = (s.db.claimForProcessing s.now k.deliveryId k.expectedAttempt).1 := by
      rw [h.db]
      simp [System.txn, hw, Txn.apply]
    obtain ⟨hid, hrow⟩ := System.claimed_committed hl hhit hdb
    have hd' : k.deliveryId = d := hid.symm.trans hd
    rw [hd'] at hrow
    refine ⟨Table.lt_next hrow, fun r hr => ?_⟩
    rw [hrow, Option.some.injEq] at hr
    exact (congrArg Delivery.attempts hr).le

theorem step (hn : Numbered d s) (hl : s.db.Linked) (h : s.Step cfg a t) (ha : a.replays = false)
    (hf : ∀ k n, a ≠ .foreign k d n) : Numbered d t where
  backed := h.backed hn.backed
  rows i o' ho hd := by
    rcases h.outbox_origin ho with ⟨o, hold, hid, hnum⟩ | ⟨_, hsch⟩
    · rw [hnum]
      exact (hn.rows i o hold (hid.symm.trans hd)).step h ha
    · exact hn.scheduled h ha ho hd hsch
  batches p o ho hd := by
    rcases h.batch_origin ho with hold | ⟨ids, row, _, hrow, hrfl⟩
    · exact (hn.batches p o hold hd).step h ha
    · rw [hrfl] at hd ⊢
      exact (hn.rows _ row hrow hd).step h ha
  jobs j job' hj hd := by
    rcases h.job_origin hj with ⟨job, hold, hid, hnum⟩ | ⟨_, hadd⟩
    · rw [hnum]
      exact (hn.jobs j job hold (hid.symm.trans hd)).step h ha
    · cases hadd with
      | published hp => exact (hn.batches _ _ (by rw [hp]; exact List.mem_cons_self) hd).step h ha
      | @duplicated k j₀ job₀ hq hk => exact (hn.jobs j₀ job₀ hq hd).step h ha
      | unknown hk => exact absurd (by rw [← hd]) (hf _ _)
  tasks w k' hw hd := by
    rcases h.task_origin hw with ⟨k, hold, _, hid, hnum⟩ | ⟨job, _, _, hq, _, hrfl⟩
    · rw [← hnum]
      exact (hn.tasks w k hold (hid.trans hd)).step h ha
    · rw [hrfl] at hd ⊢
      exact (hn.jobs _ job hq hd).step h ha
  claims w k c hw hc hd := hn.step_claims hl h ha hw hc hd
  scans m p hp hd := by
    rcases h.scan_origin hp with ⟨hold, _⟩ | ⟨hdb, _, r, hr, hatt⟩
    · exact (hn.scans m p hold hd).step h ha
    · rw [hd, ← hdb] at hr
      refine ⟨Table.lt_next hr, fun r' hr' => ?_⟩
      rw [hr, Option.some.injEq] at hr'
      rw [← hatt, hr']

theorem boot (u : Setup) : Numbered d (.boot u) where
  backed i o ho := by cases ho
  rows i o ho := by cases ho
  batches p o ho := by cases ho
  jobs j job hj := by cases hj
  tasks w k hw := by cases hw
  claims w k c hw := by cases hw
  scans m p hp := by cases hp

end Numbered

def WithinAttempts (d : Nat) (s : System) : Prop :=
  ∀ r, s.db.deliveries.row d = some r →
    (∀ i o, s.db.deliveryOutbox.row i = some o → o.deliveryId = d →
      1 ≤ o.attemptNumber ∧ o.attemptNumber ≤ r.attempts + 1) ∧
    ∀ j job, s.queue j = some job → job.deliveryId = d →
      1 ≤ job.expectedAttempt ∧ job.expectedAttempt ≤ r.attempts + 1

def Unclaimable (d n : Nat) (s : System) : Prop := (s.db.claimForProcessing s.now d n).2 = none

theorem System.Numbers.le {s : System} {d n : Nat} {r : Delivery} (h : s.Numbers d n)
    (hr : s.db.deliveries.row d = some r) : 1 ≤ n ∧ n ≤ r.attempts + 1 := by
  have hle := h.2.2 r hr
  have hpos := h.1
  omega

theorem Numbered.withinAttempts {d : Nat} {s : System} (hn : Numbered d s) : WithinAttempts d s := by
  intro r hr
  exact ⟨fun i o ho hd => (hn.rows i o ho hd).le hr, fun j job hj hd => (hn.jobs j job hj hd).le hr⟩

theorem System.Committed.unclaimable {s : System} {d n : Nat} (h : s.Committed d n) : Unclaimable d n s := by
  rcases Database.claimForProcessing_cases s.now s.db d n with ⟨_, hmiss⟩ | ⟨r, hr, hc, _⟩
  · rw [Unclaimable, hmiss]
  · have hle := h.2 r hr
    simp only [Delivery.claimableAs, Bool.and_eq_true, beq_iff_eq] at hc
    omega

/-- Without replays no number runs ahead of the attempts, and one that the attempts have reached
claims nothing from then on. -/
theorem attempt_numbers_within {cfg : Config} {u : Setup} {as : List Act} {d : Nat}
    (hforeign : ∀ k n, .foreign k d n ∉ as) (hreplay : ∀ q, .replayReset q ∉ as) :
    Transition.Visits (System.step cfg) (WithinAttempts d) (.boot u) as ∧
      ∀ before after s r n, as = before ++ after → System.Reached cfg u before s →
        s.db.deliveries.row d = some r → n ≤ r.attempts →
        Transition.Visits (System.step cfg) (Unclaimable d n) s after := by
  have hquiet : ∀ a ∈ as, a.replays = false ∧ ∀ k n, a ≠ .foreign k d n := by
    intro a ha
    refine ⟨?_, fun k n he => hforeign k n (he ▸ ha)⟩
    cases a with
    | replayReset q => exact absurd ha (hreplay q)
    | _ => rfl
  constructor
  · have hacts : Transition.Along (System.step cfg)
        (fun _ a _ => a.replays = false ∧ ∀ k n, a ≠ .foreign k d n) (.boot u) as :=
      Transition.along_of_mem fun a ha _ _ => hquiet a ha
    have hvisits := hacts.visits (I := fun s => Numbered d s ∧ s.db.Linked)
      (fun s a t hs ht hq => ⟨hs.1.step hs.2 (.of_step ht) hq.1 hq.2, System.Step.linked (.of_step ht) hs.2⟩)
      ⟨.boot u, System.boot_linked u⟩
    exact hvisits.mono fun s hs => hs.1.withinAttempts
  · rintro before after s r n rfl _ hr hle
    have hacts : Transition.Along (System.step cfg) (fun _ a _ => a.replays = false) s after :=
      Transition.along_of_mem fun a ha _ _ => (hquiet a (List.mem_append_right _ ha)).1
    have hcommitted : s.Committed d n := by
      refine ⟨Table.lt_next hr, fun r' hr' => ?_⟩
      rw [hr, Option.some.injEq] at hr'
      rw [← hr']
      exact hle
    have hvisits := hacts.visits (fun s a t hs ht hq => System.Committed.step hs (.of_step ht) hq) hcommitted
    exact hvisits.mono fun s hs => hs.unclaimable

/-- A worker claims the delivery and dies. -/
def claimedFirst : List Act := Script.ingest ++ Script.publish 0 ++ Script.claim 0 (jobId 0 0) ++ [.crash 0]

/-- The job is handed out again. -/
def reclaiming : List Act := Script.claim 1 (jobId 0 0)

theorem attempt_numbers_within_reclaimed :
    let s := System.after .defaults (.subscribed 1) (claimedFirst ++ reclaiming)
    WithinAttempts 0 s ∧ Unclaimable 0 1 s ∧ (s.db.deliveries.row 0).map Delivery.attempts = some 1 := by
  have hforeign : ∀ k n, .foreign k 0 n ∉ claimedFirst ++ reclaiming := by
    simp [claimedFirst, reclaiming, Script.ingest, Script.publish, Script.claim]
  have hreplay : ∀ q, .replayReset q ∉ claimedFirst ++ reclaiming := by
    simp [claimedFirst, reclaiming, Script.ingest, Script.publish, Script.claim]
  obtain ⟨hwithin, hunclaimable⟩ := @attempt_numbers_within .defaults (.subscribed 1) _ _ hforeign hreplay
  have hfirst : System.Reached .defaults (.subscribed 1) claimedFirst (.after .defaults (.subscribed 1) claimedFirst) :=
    Transition.run_ending (by decide +kernel)
  have hrun : System.Reached .defaults (.subscribed 1) (claimedFirst ++ reclaiming)
      (.after .defaults (.subscribed 1) (claimedFirst ++ reclaiming)) := Transition.run_ending (by decide +kernel)
  have hattempts : ((System.after .defaults (.subscribed 1) claimedFirst).db.deliveries.row 0).map
      Delivery.attempts = some 1 := by decide +kernel
  obtain ⟨r, hr, hone⟩ := Option.map_eq_some_iff.mp hattempts
  have hvisits := hunclaimable claimedFirst reclaiming _ r 1 rfl hfirst hr hone.ge
  rw [System.Reached, Transition.run_append, hfirst] at hrun
  exact ⟨hwithin.last (Transition.run_ending (by decide +kernel)), hvisits.last hrun, by decide +kernel⟩

end WebhookEngine
