import WebhookEngine.History
import WebhookEngine.Provenance
import Mathlib.Data.List.Perm.Subperm

/-! How far the attempts of a delivery can go. The executor gives up at the maximum;
the stale recovery schedules one more attempt whatever the count. -/

namespace WebhookEngine

open Relational

def requestsFor (d : Nat) (es : List Entry) : List Claim := (requests es).filter (·.deliveryId = d)

def BoundedAttempts (cfg : Config) (d : Nat) (s : System) : Prop :=
  (∀ r, s.db.deliveries.row d = some r → r.attempts ≤ cfg.maxAttempts) ∧
    (requestsFor d s.trace).length ≤ cfg.maxAttempts

def Act.recovers : Act → Option Nat
  | .staleRecover m => some m
  | _ => none

/-- A stale recovery that finds the delivery stale finds it short of the maximum. -/
def RecoveredEarly (cfg : Config) (d : Nat) (s : System) (a : Act) (_ : System) : Prop :=
  ∀ m ∈ a.recovers, ∀ p ∈ (s.staleScans m).rest.head?, p.1 = d → ∀ r ∈ s.db.deliveries.row d,
    r.staleBefore (s.staleScans m).cutoff = true → r.attempts < cfg.maxAttempts

instance (cfg : Config) (d : Nat) (s : System) (a : Act) (t : System) :
    Decidable (RecoveredEarly cfg d s a t) :=
  inferInstanceAs (Decidable (∀ m ∈ a.recovers, _))

theorem claimed_of_mem_attemptsSinceReset {d n : Nat} {es : List Entry}
    (h : n ∈ attemptsSinceReset d es) :
    ∃ c, .claimed c ∈ es ∧ c.deliveryId = d ∧ c.expectedAttempt = n := by
  induction es with
  | nil => cases h
  | cons e es ih =>
    have older : n ∈ attemptsSinceReset d es → ∃ c, .claimed c ∈ e :: es ∧ c.deliveryId = d ∧
        c.expectedAttempt = n := by
      intro hm
      obtain ⟨c, hc, hd, hn⟩ := ih hm
      exact ⟨c, List.mem_cons_of_mem _ hc, hd, hn⟩
    cases e with
    | claimed c =>
      by_cases hd : c.deliveryId = d
      · simp only [attemptsSinceReset, hd, if_true, List.mem_cons] at h
        rcases h with rfl | h
        · exact ⟨c, List.mem_cons_self, hd, rfl⟩
        · exact older h
      · simp only [attemptsSinceReset, hd, if_false] at h
        exact older h
    | requested c => exact older h
    | reset d' =>
      by_cases hd : d' = d
      · simp [attemptsSinceReset, hd] at h
      · simp only [attemptsSinceReset, hd, if_false] at h
        exact older h

theorem Orderly.expectedAttempt_pos {es : List Entry} {c : Claim} (h : Orderly es)
    (hc : .claimed c ∈ es) : 0 < c.expectedAttempt := by
  induction es with
  | nil => cases hc
  | cons e es ih =>
    rcases List.mem_cons.mp hc with rfl | hc
    · exact h.1.2.2
    · exact ih h.tail hc

/-- A delivery that was never replayed is requested at most once for each attempt number,
so a bound on the claimed numbers bounds the requests. -/
theorem Orderly.requestsFor_length_le {es : List Entry} {d M : Nat} (h : Orderly es)
    (hreset : .reset d ∉ es) (hM : ∀ c, .claimed c ∈ es → c.deliveryId = d → c.expectedAttempt ≤ M) :
    (requestsFor d es).length ≤ M := by
  have hclaimed : ∀ c ∈ requestsFor d es, .claimed c ∈ es ∧ c.deliveryId = d := by
    intro c hc
    simp only [requestsFor, List.mem_filter, decide_eq_true_eq] at hc
    exact ⟨h.claimed_of_requested (mem_requests.mp hc.1), hc.2⟩
  have hgen : generation es d = 0 := List.count_eq_zero.mpr hreset
  have hkey : ∀ c ∈ requestsFor d es, c.key = (d, 0, c.expectedAttempt) := by
    intro c hc
    obtain ⟨hcl, hd⟩ := hclaimed c hc
    have hle := (h.counted hcl).1
    rw [hd, hgen] at hle
    have hzero : c.generation = 0 := by omega
    simp [Claim.key, hd, hzero]
  have hnodup : ((requestsFor d es).map Claim.key).Nodup :=
    h.request_keys_nodup.sublist (List.filter_sublist.map _)
  have hnodup' : ((requestsFor d es).map Claim.expectedAttempt).Nodup := by
    refine List.Nodup.of_map (fun n => (d, 0, n)) ?_
    rw [List.map_map]
    rwa [List.map_congr_left hkey] at hnodup
  have hsub : (requestsFor d es).map Claim.expectedAttempt ⊆ List.range' 1 M := by
    intro n hn
    obtain ⟨c, hc, rfl⟩ := List.mem_map.mp hn
    obtain ⟨hcl, hd⟩ := hclaimed c hc
    have hpos := h.expectedAttempt_pos hcl
    have hle := hM c hcl hd
    rw [List.mem_range'_1]
    omega
  have hlen := (List.Nodup.subperm hnodup' hsub).length_le
  simpa using hlen

structure Capped (cfg : Config) (d : Nat) (s : System) : Prop where
  rows : ∀ i o, s.db.deliveryOutbox.row i = some o → o.deliveryId = d →
    o.attemptNumber ≤ cfg.maxAttempts
  batches : ∀ p o, o ∈ (s.publishers p).batch → o.deliveryId = d → o.attemptNumber ≤ cfg.maxAttempts
  jobs : ∀ j job, s.queue j = some job → job.deliveryId = d → job.expectedAttempt ≤ cfg.maxAttempts
  tasks : ∀ w k, s.workers w = some k → k.deliveryId = d → k.expectedAttempt ≤ cfg.maxAttempts
  claims : ∀ c, .claimed c ∈ s.trace → c.deliveryId = d → c.expectedAttempt ≤ cfg.maxAttempts

namespace Capped

variable {cfg : Config} {d : Nat} {s t : System} {a : Act}

theorem scheduled (hc : Capped cfg d s) (hs : Scanned s) (he : RecoveredEarly cfg d s a t)
    {o : DeliveryOutbox} (ho : s.Schedules cfg a o) (hd : o.deliveryId = d) :
    o.attemptNumber ≤ cfg.maxAttempts := by
  cases ho with
  | first hn =>
    have hpos := cfg.maxAttempts_pos
    omega
  | deferral hw hp hd' hn =>
    have hk := hc.tasks _ _ hw (hd'.symm.trans hd)
    omega
  | retry hw hp hd' hn hlt => omega
  | @recovery m p rest r o hrest hr hst hd' hn =>
    obtain ⟨d', attempts⟩ := p
    have hdd : d' = d := hd'.symm.trans hd
    subst hdd
    have hlt := he m rfl (d', attempts) (by rw [hrest]; rfl) rfl r hr hst
    have hmem : (d', attempts) ∈ (s.staleScans m).rest := by
      rw [hrest]
      exact List.mem_cons_self
    have hatt := (hs m _ hmem).2 r hr hst
    simp only at hatt hn
    omega

theorem step (hc : Capped cfg d s) (hl : Ledger s) (hs : Scanned s) (h : s.Step cfg a t)
    (he : RecoveredEarly cfg d s a t) (hf : ∀ k n, a ≠ .foreign k d n) : Capped cfg d t where
  rows i o' ho hd := by
    rcases h.outbox_origin ho with ⟨o, hold, hid, hn⟩ | ⟨_, hsch⟩
    · rw [hn]
      exact hc.rows i o hold (hid.symm.trans hd)
    · exact hc.scheduled hs he hsch hd
  batches p o ho hd := by
    rcases h.batch_origin ho with hold | ⟨ids, row, _, hrow, hrfl⟩
    · exact hc.batches p o hold hd
    · rw [hrfl] at hd ⊢
      exact hc.rows _ row hrow hd
  jobs j job' hj hd := by
    rcases h.job_origin hj with ⟨job, hold, hid, hn⟩ | ⟨_, hadd⟩
    · rw [hn]
      exact hc.jobs j job hold (hid.symm.trans hd)
    · cases hadd with
      | published hp => exact hc.batches _ _ (by rw [hp]; exact List.mem_cons_self) hd
      | @duplicated k j₀ job₀ hq hk => exact hc.jobs j₀ job₀ hq hd
      | unknown hk => exact absurd (by rw [← hd]) (hf _ _)
  tasks w k' hw hd := by
    rcases h.task_origin hw with ⟨k, hold, _, hid, hn⟩ | ⟨job, _, _, hq, _, hrfl⟩
    · rw [← hn]
      exact hc.tasks w k hold (hid.trans hd)
    · rw [hrfl] at hd ⊢
      exact hc.jobs _ job hq hd
  claims c hm hd := by
    cases h.chronicle hl.linked with
    | quiet ht =>
      rw [ht] at hm
      exact hc.claims c hm hd
    | claim w k delivery r ht hid hrow hr hcl hdb hw =>
      rw [ht] at hm
      rcases List.mem_cons.mp hm with heq | hm
      · cases heq
        exact hc.tasks w k hw (hid.symm.trans hd)
      · exact hc.claims c hm hd
    | send w k c' hw hp ht =>
      rw [ht] at hm
      exact hc.claims c (by simpa using hm) hd
    | reset d' ht =>
      rw [ht] at hm
      exact hc.claims c (by simpa using hm) hd

theorem boot (u : Setup) : Capped cfg d (.boot u) where
  rows i o ho := by cases ho
  batches p o ho := by cases ho
  jobs j job hj := by cases hj
  tasks w k hw := by cases hw
  claims c hm := by cases hm

theorem bounded (hc : Capped cfg d s) (hl : Ledger s) (hreset : .reset d ∉ s.trace) :
    BoundedAttempts cfg d s := by
  refine ⟨fun r hr => ?_, hl.orderly.requestsFor_length_le hreset hc.claims⟩
  by_contra hgt
  have hmem : r.attempts ∈ attemptsSinceReset d s.trace := by
    rw [hl.rows d r hr, mem_countdown]
    omega
  obtain ⟨c, hcl, hd, hn⟩ := claimed_of_mem_attemptsSinceReset hmem
  have hle := hc.claims c hcl hd
  omega

end Capped

/-- Without replays, and with no jobs but those of the outbox and copies of them, a
delivery whose stale recoveries all come before its last attempt stays within the maximum. -/
theorem attempts_bounded {cfg : Config} {u : Setup} {as : List Act} {d : Nat}
    (hforeign : ∀ k n, .foreign k d n ∉ as)
    (hearly : Transition.Along (System.step cfg) (RecoveredEarly cfg d) (.boot u) as) :
    Transition.Visits (System.step cfg) (fun s => .reset d ∉ s.trace → BoundedAttempts cfg d s)
      (.boot u) as := by
  have hnone : Transition.Along (System.step cfg) (fun _ a _ => ∀ k n, a ≠ .foreign k d n) (.boot u) as := by
    refine Transition.along_of_mem fun a ha _ _ k n he => ?_
    rw [he] at ha
    exact hforeign k n ha
  have hstep : ∀ s a t, (Ledger s ∧ Scanned s ∧ Capped cfg d s) → s.step cfg a = some t →
      RecoveredEarly cfg d s a t ∧ (∀ k n, a ≠ .foreign k d n) →
      Ledger t ∧ Scanned t ∧ Capped cfg d t := by
    rintro s a t ⟨hl, hs, hc⟩ ht ⟨he, hf⟩
    have h := System.Step.of_step ht
    exact ⟨hl.step h, hs.step h, hc.step hl hs h he hf⟩
  have hvisits := (hearly.and hnone).visits hstep ⟨.boot u, .boot u, .boot u⟩
  exact hvisits.mono fun s hs hreset => hs.2.2.bounded hs.1 hreset

/-- The first attempt is sent, its worker dies, and the recovery schedules another one. -/
def overrun : List Act :=
  Script.ingest ++ Script.publish 0 ++ Script.claim 0 (jobId 0 0) ++
    [.send 0, .crash 0, .tick 900001, .staleSelect 0 [0], .staleRecover 0] ++
    Script.publish 1 ++ Script.claim 1 (jobId 1 0) ++ [.send 1]

theorem overrun_foreign (k d n : Nat) : .foreign k d n ∉ overrun := by
  simp [overrun, Script.ingest, Script.publish, Script.claim]

theorem attempts_bounded_recovered :
    let s := System.after .defaults (.subscribed 1) overrun
    (requestsFor 0 s.trace).length = 2 ∧ BoundedAttempts .defaults 0 s := by
  have hrun : System.Reached .defaults (.subscribed 1) overrun (.after .defaults (.subscribed 1) overrun) :=
    Transition.run_ending (by decide +kernel)
  have hearly : Transition.Along (System.step .defaults) (RecoveredEarly .defaults 0)
      (.boot (.subscribed 1)) overrun := by decide +kernel
  have hvisits := attempts_bounded (fun k n => overrun_foreign k 0 n) hearly
  exact ⟨by decide +kernel, hvisits.last hrun (by decide +kernel)⟩

def Config.once : Config := { Config.defaults with maxAttempts := 1, maxAttempts_pos := by decide }

/-- With a single attempt allowed, the same run sends two. -/
theorem attempts_exceed_maximum : ¬ ∀ (cfg : Config) (u : Setup) (as : List Act) (d : Nat),
    (∀ k n, .foreign k d n ∉ as) →
      Transition.Visits (System.step cfg) (fun s => .reset d ∉ s.trace → BoundedAttempts cfg d s)
        (.boot u) as := by
  intro h
  have hrun : System.Reached .once (.subscribed 1) overrun (.after .once (.subscribed 1) overrun) :=
    Transition.run_ending (by decide +kernel)
  have hvisits := h .once (.subscribed 1) overrun 0 fun k n => overrun_foreign k 0 n
  have hlast := hvisits.last hrun (by decide +kernel)
  have hcount : (requestsFor 0 (System.after .once (.subscribed 1) overrun).trace).length = 2 := by
    decide +kernel
  have hle : (requestsFor 0 (System.after .once (.subscribed 1) overrun).trace).length ≤ 1 := hlast.2
  omega

end WebhookEngine
