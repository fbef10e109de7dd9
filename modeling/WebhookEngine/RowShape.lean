import WebhookEngine.Steps

/-! Which columns of a delivery are set in which status, whatever writes meet on the row. -/

namespace WebhookEngine

open Relational

structure Delivery.WellFormed (r : Delivery) : Prop where
  stamped : r.lastAttemptAt.isSome = true ↔ 1 ≤ r.attempts
  processing : r.status = .processing → 1 ≤ r.attempts
  failed : r.status = .failed → r.nextAttemptAt.isSome = true
  unscheduled : r.status = .processing ∨ r.status.terminal = true → r.nextAttemptAt = none
  answered : r.status = .success ∨ r.status = .dlq → r.httpStatusCode.isSome = true

/-- A PROCESSING row is one the stale recovery selects, once it is old enough. -/
def Delivery.Recoverable (cfg : Config) (r : Delivery) : Prop :=
  r.status = .processing → ∃ claimedAt, r.lastAttemptAt = some claimedAt ∧
    ∀ now, claimedAt + cfg.staleDeliveryAge < now → r.staleBefore (now - cfg.staleDeliveryAge) = true

namespace Delivery.WellFormed

variable {now : Time} {r : Delivery}

theorem created (now : Time) (eventId endpointId : Nat) : (Delivery.created now eventId endpointId).WellFormed where
  stamped := by simp [Delivery.created]
  processing h := by cases h
  failed h := by cases h
  unscheduled _ := rfl
  answered h := by rcases h with h | h <;> cases h

theorem claim (now : Time) (r : Delivery) : (r.claim now).WellFormed where
  stamped := by simp [Delivery.claim]
  processing _ := by simp [Delivery.claim]
  failed h := by cases h
  unscheduled _ := rfl
  answered h := by rcases h with h | h <;> cases h

/-- A write that keeps the attempts keeps the row well formed if the other columns fit its status. -/
theorem overwrite (h : r.WellFormed) {q : Delivery} (hattempts : q.attempts = r.attempts)
    (hlast : q.lastAttemptAt = r.lastAttemptAt) (hstatus : q.status ≠ .processing)
    (hfailed : q.status = .failed → q.nextAttemptAt.isSome = true)
    (hterminal : q.status.terminal = true → q.nextAttemptAt = none)
    (hanswered : q.status = .success ∨ q.status = .dlq → q.httpStatusCode.isSome = true) : q.WellFormed where
  stamped := by rw [hattempts, hlast, h.stamped]
  processing hp := absurd hp hstatus
  failed := hfailed
  unscheduled hu := hu.elim (fun hp => absurd hp hstatus) hterminal
  answered := hanswered

theorem reset (now : Time) (r : Delivery) : (r.reset now).WellFormed where
  stamped := by simp [Delivery.reset]
  processing h := by cases h
  failed h := by cases h
  unscheduled h := by rcases h with h | h <;> cases h
  answered h := by rcases h with h | h <;> cases h

theorem rewrite (h : r.WellFormed) (x : Txn) (now : Time) (d : Nat) : (x.rewrite now d r).WellFormed := by
  have hwhere : ∀ (p : Prop) [Decidable p] (q : Delivery), q.WellFormed → (if p then q else r).WellFormed := by
    intro p _ q hq
    split
    · exact hq
    · exact h
  cases x with
  | claimForProcessing id n => exact hwhere _ _ (claim now r)
  | markSuccess id code snippet =>
    exact hwhere _ _ (h.overwrite rfl rfl (by simp [succeed]) (by simp [succeed]) (fun _ => rfl) fun _ => rfl)
  | markDeadLetter id code snippet =>
    exact hwhere _ _ (h.overwrite rfl rfl (by simp [deadLetter]) (by simp [deadLetter]) (fun _ => rfl) fun _ => rfl)
  | markCancelled id reason =>
    exact hwhere _ _ (h.overwrite rfl rfl (by simp [cancel]) (by simp [cancel]) (fun _ => rfl) (by simp [cancel]))
  | markFailedAndSchedule input =>
    exact hwhere _ _ (h.overwrite rfl rfl (by simp [fail]) (fun _ => rfl) (by simp [fail]) (by simp [fail]))
  | markRateLimitedAndSchedule id at' n =>
    exact hwhere _ _ (h.overwrite rfl rfl (by simp [rateLimit]) (fun _ => rfl) (by simp [rateLimit])
      (by simp [rateLimit]))
  | recoverStaleDelivery id m cutoff =>
    exact hwhere _ _ (h.overwrite rfl rfl (by simp [recover]) (fun _ => rfl) (by simp [recover]) (by simp [recover]))
  | resetForReplay id => exact hwhere _ _ (reset now r)
  | _ => exact h

theorem recoverable (h : r.WellFormed) (cfg : Config) : r.Recoverable cfg := by
  intro hp
  obtain ⟨claimedAt, hlast⟩ := Option.isSome_iff_exists.mp (h.stamped.mpr (h.processing hp))
  refine ⟨claimedAt, hlast, fun now hold => ?_⟩
  have hcutoff : claimedAt < now - cfg.staleDeliveryAge := Nat.lt_sub_of_add_lt hold
  simp [staleBefore, hp, hlast, hcutoff]

end Delivery.WellFormed

def Database.RowsWellFormed (db : Database) : Prop :=
  ∀ d r, db.deliveries.row d = some r → r.WellFormed

theorem Database.RowsWellFormed.step {cfg : Config} {s t : System} {a : Act} (hs : s.db.RowsWellFormed)
    (h : s.Step cfg a t) : t.db.RowsWellFormed := by
  intro d r' hr'
  rcases h.row_origin hr' with ⟨r, hr, rfl | ⟨x, _, _, rfl⟩⟩ | ⟨_, e, ep, rfl⟩
  · exact hs d r' hr
  · exact (hs d r hr).rewrite x s.now d
  · exact .created s.now e ep

theorem delivery_rows_well_formed (cfg : Config) (u : Setup) (as : List Act) :
    Transition.Visits (System.step cfg)
      (fun s => ∀ d r, s.db.deliveries.row d = some r → r.WellFormed ∧ r.Recoverable cfg) (.boot u) as := by
  have hboot : (System.boot u).db.RowsWellFormed := by
    intro d r hr
    cases hr
  have hvisits : Transition.Visits (System.step cfg) (fun s => s.db.RowsWellFormed) (.boot u) as :=
    Transition.visits_of_invariant (fun s a t hs ht => Database.RowsWellFormed.step hs (.of_step ht)) hboot
  exact hvisits.mono fun s hs d r hr => ⟨hs d r hr, (hs d r hr).recoverable cfg⟩

end WebhookEngine
