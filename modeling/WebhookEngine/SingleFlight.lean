import WebhookEngine.TerminalStatus

/-! Whether a delivery can be in flight twice. Between a claim and its outcome write
nothing but the PROCESSING status of the row keeps other claims away. -/

namespace WebhookEngine

open Relational

def InFlight (s : System) (w d : Nat) : Prop :=
  ∃ k c, s.workers w = some k ∧ k.point.claimed? = some c ∧ c.delivery.id = d

def SingleFlight (s : System) : Prop :=
  ∀ w w' d, InFlight s w d → InFlight s w' d → w = w'

/-- No live worker is in flight for longer than the stale age. -/
def Prompt (cfg : Config) (s : System) : Prop :=
  ∀ w k c, s.workers w = some k → k.point.claimed? = some c →
    ∀ at' ∈ c.delivery.row.lastAttemptAt, s.now ≤ at' + cfg.staleDeliveryAge

/-- No replay and no deferral makes a delivery PENDING again while it is in flight. -/
def ReopensIdle (cfg : Config) (s : System) (a : Act) (_ : System) : Prop :=
  ∀ x ∈ s.txn cfg a, ∀ d, x.resets = some d ∨ x.overwrites = some (d, .pending) →
    ∀ w, ¬ InFlight s w d

theorem not_lt_cutoff {now at' age cutoff : Nat} (hp : now ≤ at' + age) (hc : cutoff ≤ now - age) :
    ¬ at' < cutoff := by
  omega

/-- A delivery in flight cannot be claimed, and its row carries the time of the claim
until it leaves PROCESSING. -/
structure Exclusive (cfg : Config) (s : System) : Prop where
  single : SingleFlight s
  known : ∀ w k c, s.workers w = some k → k.point.claimed? = some c →
    c.delivery.id < s.db.deliveries.next
  stamped : ∀ w k c, s.workers w = some k → k.point.claimed? = some c →
    c.delivery.row.lastAttemptAt.isSome = true
  held : ∀ w k c r, s.workers w = some k → k.point.claimed? = some c →
    s.db.deliveries.row c.delivery.id = some r → r.status.claimable = false ∧
      (r.status = .processing → r.lastAttemptAt = c.delivery.row.lastAttemptAt)
  cutoffs : ∀ m, (s.staleScans m).cutoff ≤ s.now - cfg.staleDeliveryAge

namespace Exclusive

variable {cfg : Config} {s t : System} {a : Act} {w : Nat} {k k' : Task} {c : Claimed}

theorem claim_unheld (he : Exclusive cfg s) (hl : s.db.Linked) {d n : Nat}
    {delivery : DispatchableDelivery} (hc : (s.db.claimForProcessing s.now d n).2 = some delivery)
    (w : Nat) : ¬ InFlight s w delivery.id := by
  obtain ⟨r, hr, hcl, hid, _⟩ := hl.claimable_of_claim hc
  rintro ⟨k, c, hw, hck, hcd⟩
  have hheld := (he.held w k c r hw hck (by rw [hcd, hid, hr])).1
  simp only [Delivery.claimableAs, Bool.and_eq_true] at hcl
  rw [hheld] at hcl
  cases hcl.2

theorem step_single (he : Exclusive cfg s) (hl : s.db.Linked) (h : s.Step cfg a t) :
    SingleFlight t := by
  rintro w w' d ⟨k, c, hw, hc, hd⟩ ⟨k', c', hw', hc', hd'⟩
  rcases h.claimed_origin hw hc with ⟨k₀, hw₀, hc₀, _⟩ | ⟨k₀, delivery, ha, _, _, hhit, _, _, hrfl⟩
  · rcases h.claimed_origin hw' hc' with ⟨k₁, hw₁, hc₁, _⟩ | ⟨k₁, delivery, _, _, _, hhit, _, _, hrfl⟩
    · exact he.single w w' d ⟨k₀, c, hw₀, hc₀, hd⟩ ⟨k₁, c', hw₁, hc₁, hd'⟩
    · have hdel : c'.delivery.id = delivery.id := by rw [hrfl]
      exact absurd ⟨k₀, c, hw₀, hc₀, hd.trans (hd'.symm.trans hdel)⟩ (he.claim_unheld hl hhit w)
  · rcases h.claimed_origin hw' hc' with ⟨k₁, hw₁, hc₁, _⟩ | ⟨k₁, _, ha', _⟩
    · have hdel : c.delivery.id = delivery.id := by rw [hrfl]
      exact absurd ⟨k₁, c', hw₁, hc₁, hd'.trans (hd.symm.trans hdel)⟩ (he.claim_unheld hl hhit w')
    · rw [ha] at ha'
      cases ha'
      rfl

theorem not_retried (he : Exclusive cfg s) (h : s.Step cfg a t) (hw : s.workers w = some k)
    (hc : k.point.claimed? = some c) (hw' : t.workers w = some k') (hc' : k'.point.claimed? = some c)
    {x : Txn} (hx : s.txn cfg a = some x) (hok : s.ok cfg a = true) :
    x.overwrites ≠ some (c.delivery.id, .failed) := by
  intro ho
  cases System.attempts_of_txn hx with
  | @retry w₁ delayMs k₁ c₁ result input hw₁ hp₁ hout =>
    simp only [Txn.overwrites, Option.some.injEq, Prod.mk.injEq, and_true] at ho
    have hsame : w = w₁ := he.single w w₁ c.delivery.id ⟨k, c, hw, hc, rfl⟩
      ⟨k₁, c₁, hw₁, by rw [hp₁]; rfl, (outcomeWrite_retry hout).1.symm.trans ho⟩
    subst hsame
    have hended := h.settle_ends hw₁ hok
    rw [hw'] at hended
    cases hended
    cases hc'
  | _ => simp [Txn.overwrites] at ho

theorem rewrite_held (he : Exclusive cfg s) (hp : Prompt cfg s) (hr : ReopensIdle cfg s a t)
    (h : s.Step cfg a t) (hw : s.workers w = some k) (hc : k.point.claimed? = some c)
    (hw' : t.workers w = some k') (hc' : k'.point.claimed? = some c) {r : Delivery}
    (hrow : s.db.deliveries.row c.delivery.id = some r) {x : Txn} (hx : s.txn cfg a = some x)
    (hok : s.ok cfg a = true) :
    (x.rewrite s.now c.delivery.id r).status.claimable = false ∧
      ((x.rewrite s.now c.delivery.id r).status = .processing →
        (x.rewrite s.now c.delivery.id r).lastAttemptAt = c.delivery.row.lastAttemptAt) := by
  have hheld := he.held w k c r hw hc hrow
  have hidle : ∀ d, x.resets = some d ∨ x.overwrites = some (d, .pending) → c.delivery.id ≠ d :=
    fun d hd hid => hr x hx d hd w ⟨k, c, hw, hc, hid⟩
  generalize hq : x.rewrite s.now c.delivery.id r = q
  cases hq ▸ x.rewrites s.now c.delivery.id r with
  | same => exact hheld
  | claim hcl =>
    simp only [Delivery.claimableAs, hheld.1, Bool.and_false] at hcl
    cases hcl
  | @overwrite _ st _ ho hst _ =>
    have hopen : st.claimable = false := by
      by_contra hno
      rcases DeliveryStatus.claimable_iff.mp (by simpa using hno) with rfl | rfl
      · exact hidle _ (.inr ho) rfl
      · exact he.not_retried h hw hc hw' hc' hx hok ho
    rw [hst]
    exact ⟨hopen, fun hpr => absurd hpr (Txn.overwrites_ne_processing ho)⟩
  | @recover m cutoff hst =>
    obtain ⟨at', hat⟩ := Option.isSome_iff_exists.mp (he.stamped w k c hw hc)
    obtain ⟨m', hm⟩ := System.cutoff_of_txn hx
    have hprompt := hp w k c hw hc at' hat
    simp only [Delivery.staleBefore, Bool.and_eq_true, beq_iff_eq] at hst
    rw [hheld.2 hst.1, hat] at hst
    have hlt : at' < cutoff := by simpa using hst.2
    have hle := he.cutoffs m'
    rw [hm] at hle
    exact absurd hlt (not_lt_cutoff hprompt hle)
  | reset => exact absurd rfl (hidle _ (.inl rfl))

theorem step_held (he : Exclusive cfg s) (hl : s.db.Linked) (hp : Prompt cfg s)
    (hr : ReopensIdle cfg s a t) (h : s.Step cfg a t) (hw' : t.workers w = some k')
    (hc' : k'.point.claimed? = some c) :
    c.delivery.id < t.db.deliveries.next ∧ c.delivery.row.lastAttemptAt.isSome = true ∧
      ∀ r, t.db.deliveries.row c.delivery.id = some r → r.status.claimable = false ∧
        (r.status = .processing → r.lastAttemptAt = c.delivery.row.lastAttemptAt) := by
  rcases h.claimed_origin hw' hc' with ⟨k, hw, hc, _⟩ | ⟨k, delivery, ha, hw, _, hhit, _, _, hrfl⟩
  · have hknown := he.known w k c hw hc
    refine ⟨hknown.trans_le h.next_le, he.stamped w k c hw hc, fun r' hr' => ?_⟩
    rcases h.row_origin hr' with ⟨r, hrow, rfl | ⟨x, hx, hok, rfl⟩⟩ | ⟨hge, _⟩
    · exact he.held w k c r' hw hc hrow
    · exact he.rewrite_held hp hr h hw hc hw' hc' hrow hx hok
    · omega
  · obtain ⟨r, hrow, hcl, hid, hclaim⟩ := hl.claimable_of_claim hhit
    have hdel : c.delivery = delivery := by rw [hrfl]
    rw [hdel, hclaim, hid]
    refine ⟨(Table.lt_next hrow).trans_le h.next_le, rfl, fun r' hr' => ?_⟩
    obtain ⟨_, _, _, _, hdb⟩ := hl.claimForProcessing_eq s.now hrow hcl
    have htable : t.db.deliveries = s.db.deliveries.modify k.deliveryId (.claim s.now) := by
      rw [h.db, ha]
      simp [System.txn, hw, Txn.apply, hdb]
    rw [htable, Table.modify_row_self, hrow, Option.map_some, Option.some.injEq] at hr'
    rw [← hr']
    exact ⟨rfl, fun _ => rfl⟩

theorem step_cutoffs (he : Exclusive cfg s) (h : s.Step cfg a t) (m : Nat) :
    (t.staleScans m).cutoff ≤ t.now - cfg.staleDeliveryAge := by
  have hold : (s.staleScans m).cutoff ≤ t.now - cfg.staleDeliveryAge :=
    (he.cutoffs m).trans (Nat.sub_le_sub_right h.now_le _)
  cases h with
  | @staleSelect m₀ ids hr hids =>
    by_cases hm : m = m₀
    · subst m
      simp [System.staleCutoff]
    · simpa [hm] using hold
  | @staleRecover m₀ p rest hr =>
    by_cases hm : m = m₀
    · subst m
      simpa using hold
    · simpa [hm] using hold
  | _ => exact hold

theorem step (he : Exclusive cfg s) (hl : s.db.Linked) (hp : Prompt cfg s)
    (hr : ReopensIdle cfg s a t) (h : s.Step cfg a t) : Exclusive cfg t where
  single := he.step_single hl h
  known _ _ _ hw hc := (he.step_held hl hp hr h hw hc).1
  stamped _ _ _ hw hc := (he.step_held hl hp hr h hw hc).2.1
  held _ _ _ r hw hc := (he.step_held hl hp hr h hw hc).2.2 r
  cutoffs := he.step_cutoffs h

theorem boot (cfg : Config) (u : Setup) : Exclusive cfg (.boot u) where
  single := by
    rintro w w' d ⟨k, c, hw, _⟩
    cases hw
  known w k c hw := by cases hw
  stamped w k c hw := by cases hw
  held w k c r hw := by cases hw
  cutoffs m := Nat.zero_le _

end Exclusive

/-- Workers that are done within the stale age keep single flight as long as no replay and
no deferral reopens a delivery in flight. -/
theorem single_flight {cfg : Config} {u : Setup} {as : List Act}
    (hprompt : Transition.Visits (System.step cfg) (Prompt cfg) (.boot u) as)
    (hidle : Transition.Along (System.step cfg) (ReopensIdle cfg) (.boot u) as) :
    Transition.Visits (System.step cfg) SingleFlight (.boot u) as := by
  have hstep : ∀ s a t, s.db.Linked ∧ Exclusive cfg s → s.step cfg a = some t →
      (Prompt cfg s ∧ Prompt cfg t) ∧ ReopensIdle cfg s a t → t.db.Linked ∧ Exclusive cfg t := by
    rintro s a t ⟨hl, he⟩ ht ⟨⟨hp, _⟩, hr⟩
    have h := System.Step.of_step ht
    exact ⟨h.linked hl, he.step hl hp hr h⟩
  have hvisits := (hprompt.along.and hidle).visits hstep ⟨System.boot_linked u, .boot cfg u⟩
  exact hvisits.mono fun s hs => hs.2.single

theorem prompt_of_still {cfg : Config} {u : Setup} {as : List Act} (hnow : u.now = 0)
    (hstill : ∀ ms, .tick ms ∉ as) : Transition.Visits (System.step cfg) (Prompt cfg) (.boot u) as := by
  have halong : Transition.Along (System.step cfg) (fun _ a _ => ∀ ms, a ≠ .tick ms) (.boot u) as := by
    refine Transition.along_of_mem fun a ha _ _ ms he => ?_
    rw [he] at ha
    exact hstill ms ha
  have hvisits := halong.visits (I := fun s => s.now = 0)
    (fun s a t hs ht ha => ((System.Step.of_step ht).now_eq ha).trans hs) hnow
  refine hvisits.mono fun s hs w k c _ _ at' _ => ?_
  rw [hs]
  exact Nat.zero_le _

theorem reopensIdle_of_mem {cfg : Config} {u : Setup} {as : List Act}
    (hr : ∀ q, .replayReset q ∉ as) (hd : ∀ w, .defer w ∉ as) :
    Transition.Along (System.step cfg) (ReopensIdle cfg) (.boot u) as := by
  refine Transition.along_of_mem fun a ha s t x hx d hreopens => ?_
  rcases hreopens with hreset | hpending
  · cases x <;> simp only [Txn.resets, Option.some.injEq, reduceCtorEq] at hreset
    cases System.attempts_of_txn hx with
    | replayReset _ => exact absurd ha (hr _)
  · cases x <;> simp only [Txn.overwrites, Option.some.injEq, Prod.mk.injEq, reduceCtorEq, and_false] at hpending
    cases System.attempts_of_txn hx with
    | defer _ _ => exact absurd ha (hd _)

def duplicateRun : List Act :=
  Script.ingest ++ Script.publish 0 ++ Script.claim 0 (jobId 0 0) ++ [.send 0] ++
    Script.claim 1 (jobId 0 0)

theorem single_flight_duplicate :
    let s := System.after .defaults (.subscribed 1) duplicateRun
    (s.workers 0).any (·.point.claimed?.isSome) = true ∧ SingleFlight s := by
  have hrun : System.Reached .defaults (.subscribed 1) duplicateRun
      (.after .defaults (.subscribed 1) duplicateRun) := Transition.run_ending (by decide +kernel)
  have hprompt : Transition.Visits (System.step .defaults) (Prompt .defaults) (.boot (.subscribed 1))
      duplicateRun :=
    prompt_of_still rfl (by simp [duplicateRun, Script.ingest, Script.publish, Script.claim])
  have hidle : Transition.Along (System.step .defaults) (ReopensIdle .defaults) (.boot (.subscribed 1))
      duplicateRun :=
    reopensIdle_of_mem (by simp [duplicateRun, Script.ingest, Script.publish, Script.claim])
      (by simp [duplicateRun, Script.ingest, Script.publish, Script.claim])
  have hvisits := single_flight hprompt hidle
  exact ⟨by decide +kernel, hvisits.last hrun⟩

def replayInFlight : List Act :=
  Script.ingest ++ Script.publish 0 ++ Script.claim 0 (jobId 0 0) ++
    [.send 0, .replayRead 0 0 0, .replayReset 0] ++ Script.publish 1 ++ Script.claim 1 (jobId 1 0) ++
    [.send 1]

theorem single_flight_fails : ¬ ∀ (cfg : Config) (u : Setup) (as : List Act),
    Transition.Visits (System.step cfg) (Prompt cfg) (.boot u) as →
      Transition.Visits (System.step cfg) SingleFlight (.boot u) as := by
  intro h
  have hrun : System.Reached .defaults (.subscribed 1) replayInFlight
      (.after .defaults (.subscribed 1) replayInFlight) := Transition.run_ending (by decide +kernel)
  have hprompt : Transition.Visits (System.step .defaults) (Prompt .defaults) (.boot (.subscribed 1))
      replayInFlight :=
    prompt_of_still rfl (by simp [replayInFlight, Script.ingest, Script.publish, Script.claim])
  have hsingle := (h .defaults (.subscribed 1) replayInFlight hprompt).last hrun
  have hflight : ∀ w < 2, InFlight (.after .defaults (.subscribed 1) replayInFlight) w 0 := by
    intro w hw
    have hheld : (((System.after .defaults (.subscribed 1) replayInFlight).workers w).bind
        fun k => k.point.claimed?.map fun c => c.delivery.id) = some 0 := by
      revert w
      decide +kernel
    simp only [Option.bind_eq_some_iff, Option.map_eq_some_iff] at hheld
    obtain ⟨k, hk, c, hc, hid⟩ := hheld
    exact ⟨k, c, hk, hc, hid⟩
  have hsame := hsingle 0 1 0 (hflight 0 (by omega)) (hflight 1 (by omega))
  omega

end WebhookEngine
