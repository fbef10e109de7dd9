import WebhookEngine.Provenance

/-! Whether an outcome write can land after its claim has been superseded. The claim is
made under a condition on the row; the write that ends it has none. -/

namespace WebhookEngine

open Relational

def Claimed.Holds (c : Claimed) (s : System) : Prop :=
  ∃ r ∈ s.db.deliveries.row c.delivery.id, r.status = .processing ∧ r.attempts = c.expectedAttempt ∧
    WebhookEngine.generation s.trace c.delivery.id = c.generation

/-- An outcome write whose claim no longer holds leaves the delivery and the outbox alone. -/
def Fenced (s : System) (a : Act) (t : System) : Prop :=
  ∀ w delayMs k c result, a = .settle w delayMs → s.workers w = some k →
    k.point = .settling c result → ¬ c.Holds s →
    t.db.deliveries.row c.delivery.id = s.db.deliveries.row c.delivery.id ∧
      t.db.deliveryOutbox = s.db.deliveryOutbox

def OutcomeWrite.Recorded (r : Delivery) : OutcomeWrite → Prop
  | .success statusCode responseSnippet => r.succeed statusCode responseSnippet = r
  | .deadLetter statusCode responseSnippet => r.deadLetter statusCode responseSnippet = r
  | .retry _ => False

/-- The write finds its claim in force, or no row, or its own terminal outcome. -/
def UnderClaim (cfg : Config) (s : System) (a : Act) (_ : System) : Prop :=
  ∀ w delayMs k c result, a = .settle w delayMs → s.workers w = some k →
    k.point = .settling c result →
    c.Holds s ∨ s.db.deliveries.row c.delivery.id = none ∨
      ∃ r ∈ s.db.deliveries.row c.delivery.id, (s.outcome cfg c result delayMs).Recorded r

theorem outcome_id {cfg : Config} {s : System} {c : Claimed} {result : SendResult} {delayMs : Nat}
    {input : DeliveryFailureInput} (h : s.outcome cfg c result delayMs = .retry input) :
    input.id = c.delivery.id :=
  (outcomeWrite_retry h).1

namespace System

variable {cfg : Config} {s t : System} {w delayMs : Nat} {k : Task} {c : Claimed} {result : SendResult}

theorem settle_apply (result : SendResult) (hl : s.db.Linked) {r : Delivery} (hr : s.db.deliveries.row c.delivery.id = some r) :
    ∃ db, ((s.outcome cfg c result delayMs).txn c.delivery.id).apply cfg s.now s.db = some db ∧
      match s.outcome cfg c result delayMs with
      | .success code snippet =>
        db.deliveries.row c.delivery.id = some (r.succeed code snippet) ∧
          db.deliveryOutbox = s.db.deliveryOutbox
      | .deadLetter code snippet =>
        db.deliveries.row c.delivery.id = some (r.deadLetter code snippet) ∧
          db.deliveryOutbox = s.db.deliveryOutbox
      | .retry _ => db.deliveryOutbox.next = s.db.deliveryOutbox.next + 1 := by
  have hev := hl.event _ r hr
  cases ho : s.outcome cfg c result delayMs with
  | success code snippet =>
    exact ⟨_, Database.settle_eq_some.mpr ⟨r, hr, hev, rfl⟩, by simp [hr], rfl⟩
  | deadLetter code snippet =>
    exact ⟨_, Database.settle_eq_some.mpr ⟨r, hr, hev, rfl⟩, by simp [hr], rfl⟩
  | retry input =>
    have hr' : s.db.deliveries.row input.id = some r := by rw [outcome_id ho, hr]
    exact ⟨_, Database.schedule_eq_some.mpr ⟨r, hr', rfl⟩, rfl⟩

theorem settle_absent (hr : s.db.deliveries.row c.delivery.id = none) :
    ((s.outcome cfg c result delayMs).txn c.delivery.id).apply cfg s.now s.db = none := by
  cases ho : s.outcome cfg c result delayMs with
  | success code snippet => exact Database.settle_absent hr
  | deadLetter code snippet => exact Database.settle_absent hr
  | retry input => exact Database.schedule_absent (by rw [outcome_id ho, hr])

theorem Step.settle_db (h : Step cfg s (.settle w delayMs) t) (hw : s.workers w = some k)
    (hp : k.point = .settling c result) :
    t.db = (((s.outcome cfg c result delayMs).txn c.delivery.id).apply cfg s.now s.db).getD s.db := by
  rw [h.db]
  simp [txn, hw, hp]

end System

theorem fenced_iff_underClaim {cfg : Config} {s t : System} {a : Act} (hl : s.db.Linked)
    (h : s.Step cfg a t) : Fenced s a t ↔ UnderClaim cfg s a t := by
  refine forall₄_congr fun w delayMs k c => forall₄_congr fun result ha hw hp => ?_
  subst ha
  have hdb := h.settle_db hw hp
  cases hr : s.db.deliveries.row c.delivery.id with
  | none =>
    have hsame : t.db = s.db := by rw [hdb, System.settle_absent hr, Option.getD_none]
    simp [hsame, hr]
  | some r =>
    obtain ⟨db, happ, hleft⟩ := System.settle_apply result hl hr
    have ht : t.db = db := by rw [hdb, happ, Option.getD_some]
    rw [ht]
    have hwrite : (db.deliveries.row c.delivery.id = some r ∧ db.deliveryOutbox = s.db.deliveryOutbox) ↔
        (s.outcome cfg c result delayMs).Recorded r := by
      cases ho : s.outcome cfg c result delayMs with
      | success code snippet =>
        simp only [ho] at hleft
        simp [OutcomeWrite.Recorded, hleft.1, hleft.2]
      | deadLetter code snippet =>
        simp only [ho] at hleft
        simp [OutcomeWrite.Recorded, hleft.1, hleft.2]
      | retry input =>
        simp only [ho] at hleft
        simp only [OutcomeWrite.Recorded, iff_false]
        rintro ⟨_, hsame⟩
        rw [hsame] at hleft
        omega
    rw [hwrite]
    by_cases hc : c.Holds s
    · simp [hc]
    · simp [hc]

/-- A run fences its outcome writes exactly when each of them finds its claim in force, or
nothing left to change. -/
theorem outcome_writes_fenced_iff (cfg : Config) (u : Setup) (as : List Act) :
    Transition.Along (System.step cfg) Fenced (.boot u) as ↔
      Transition.Along (System.step cfg) (UnderClaim cfg) (.boot u) as := by
  refine Transition.along_congr (J := fun s => s.db.Linked) (fun s a t hl ht => ?_)
    (fun s a t hl ht => ?_) (System.boot_linked u)
  · exact (System.Step.of_step ht).linked hl
  · exact fenced_iff_underClaim hl (.of_step ht)

/-- A slow worker is recovered, a second one claims the next attempt, and then the first
one reports its failure. -/
def supersededRun : List Act :=
  Script.ingest ++ Script.publish 0 ++ Script.claim 0 (jobId 0 0) ++
    [.send 0, .tick 900001, .staleSelect 0 [0], .staleRecover 0] ++ Script.publish 1 ++
    Script.claim 1 (jobId 1 0) ++ [.answer 0 (.rejected ⟨some 503, none, none, none⟩)]

def Point.awaitsWrite (id attempt : Nat) : Point → Bool
  | .settling c _ => c.delivery.id == id && c.expectedAttempt == attempt
  | _ => false

theorem outcome_writes_unfenced : ¬ ∀ (cfg : Config) (u : Setup) (as : List Act),
    Transition.Along (System.step cfg) Fenced (.boot u) as := by
  intro h
  have hrun : System.Reached .defaults (.subscribed 1) supersededRun
      (.after .defaults (.subscribed 1) supersededRun) := Transition.run_ending (by decide +kernel)
  have hlast := (h .defaults (.subscribed 1) (supersededRun ++ [.settle 0 1000])).of_append hrun
  obtain ⟨t, ht⟩ := Option.isSome_iff_exists.mp (show
    ((System.after .defaults (.subscribed 1) supersededRun).step .defaults (.settle 0 1000)).isSome =
      true by decide +kernel)
  have hbefore : (System.after .defaults (.subscribed 1) supersededRun).db.deliveryOutbox.next = 2 := by
    decide +kernel
  have hafter : (((System.after .defaults (.subscribed 1) supersededRun).step .defaults (.settle 0 1000)).map
      fun t => t.db.deliveryOutbox.next) = some 3 := by decide +kernel
  have hattempts : ((System.after .defaults (.subscribed 1) supersededRun).db.deliveries.row 0).map
      Delivery.attempts = some 2 := by decide +kernel
  have hworker : ((System.after .defaults (.subscribed 1) supersededRun).workers 0).any
      (·.point.awaitsWrite 0 1) = true := by decide +kernel
  cases hw : (System.after .defaults (.subscribed 1) supersededRun).workers 0 with
  | none => simp [hw] at hworker
  | some k =>
    rw [hw, Option.any_some] at hworker
    cases hp : k.point with
    | settling c result =>
      simp only [hp, Point.awaitsWrite, Bool.and_eq_true, beq_iff_eq] at hworker
      have hlost : ¬ c.Holds (.after .defaults (.subscribed 1) supersededRun) := by
        rintro ⟨r, hr, _, hn, _⟩
        rw [hworker.1] at hr
        rw [hr, Option.map_some, Option.some.injEq] at hattempts
        omega
      have hkept := ((hlast t ht).1 0 1000 k c result rfl hw hp hlost).2
      rw [ht, Option.map_some, Option.some.injEq, hkept] at hafter
      omega
    | _ => simp [hp, Point.awaitsWrite] at hworker

end WebhookEngine
