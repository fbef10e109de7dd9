import WebhookEngine.History
import WebhookEngine.Provenance

/-! What the stale recovery schedules: the attempt after the one it gives up on, and each
claimed attempt at most once, whatever passes run next to each other. -/

namespace WebhookEngine

open Relational

/-- The outbox rows a recovery pass adds in a step. -/
def System.recoveryRows (s : System) (a : Act) (t : System) : List DeliveryOutbox :=
  match a with
  | .staleRecover _ => s.db.deliveryOutbox.added t.db.deliveryOutbox
  | _ => []

/-- The row schedules the attempt after the committed ones, of a delivery that a claim left
PROCESSING and that fails with the row. -/
def RecoversClaimed (s : System) (a : Act) (t : System) : Prop :=
  ∀ o ∈ s.recoveryRows a t, ∃ r, s.db.deliveries.row o.deliveryId = some r ∧
    o.attemptNumber = r.attempts + 1 ∧
    t.db.deliveries.row o.deliveryId =
      some { r with status := .failed, nextAttemptAt := some s.now } ∧
    ∃ c, .claimed c ∈ s.trace ∧ c.key = (o.deliveryId, generation s.trace o.deliveryId, r.attempts)

/-- The key of a claim under the row. -/
def System.rowKey (s : System) (o : DeliveryOutbox) : Nat × Nat × Nat :=
  (o.deliveryId, generation s.trace o.deliveryId, o.attemptNumber)

def recoverySchedule (cfg : Config) : System → List Act → List (Nat × Nat × Nat)
  | _, [] => []
  | s, a :: as =>
    match s.step cfg a with
    | none => []
    | some t => (s.recoveryRows a t).map s.rowKey ++ recoverySchedule cfg t as

section Claims

variable {es : List Entry} {d n : Nat}

theorem generation_cons_of_ne {e : Entry} (h : e ≠ .reset d) : generation (e :: es) d = generation es d :=
  List.count_cons_of_ne h

theorem Orderly.claim_since_reset (h : Orderly es) (hn : n ∈ attemptsSinceReset d es) :
    ∃ c, .claimed c ∈ es ∧ c.key = (d, generation es d, n) := by
  induction es with
  | nil => cases hn
  | cons e es ih =>
    have older : e ≠ .reset d → n ∈ attemptsSinceReset d es →
        ∃ c, .claimed c ∈ e :: es ∧ c.key = (d, generation (e :: es) d, n) := by
      intro he hm
      obtain ⟨c, hc, hk⟩ := ih h.tail hm
      exact ⟨c, List.mem_cons_of_mem _ hc, by rw [generation_cons_of_ne he, hk]⟩
    cases e with
    | claimed c =>
      by_cases hd : c.deliveryId = d
      · simp only [attemptsSinceReset, hd, if_true, List.mem_cons] at hn
        rcases hn with rfl | hn
        · refine ⟨c, List.mem_cons_self, ?_⟩
          rw [generation_cons_of_ne (by simp), ← hd, Claim.key, h.1.1]
        · exact older (by simp) hn
      · simp only [attemptsSinceReset, hd, if_false] at hn
        exact older (by simp) hn
    | requested c => exact older (by simp) hn
    | reset d' =>
      by_cases hd : d' = d
      · simp [attemptsSinceReset, hd] at hn
      · simp only [attemptsSinceReset, hd, if_false] at hn
        exact older (by simp [hd]) hn

end Claims

section Rows

variable {cfg : Config} {s t : System} {a : Act}

theorem System.Step.recoveryRows_cases (h : s.Step cfg a t) :
    s.recoveryRows a t = [] ∨ ∃ m p rest r, (s.staleScans m).rest = p :: rest ∧
      s.db.deliveries.row p.1 = some r ∧ r.staleBefore (s.staleScans m).cutoff = true ∧
      s.recoveryRows a t = [.created s.now p.1 s.now (p.2 + 1)] ∧
      t.db.deliveries.row p.1 = some (r.recover s.now) ∧ t.trace = s.trace := by
  cases h with
  | @staleRecover m p rest hrest =>
    have hdb : (s.store cfg (.staleRecover m)).db =
        s.db.recoverStaleDelivery s.now p.1 p.2 (s.staleScans m).cutoff := by
      simp [System.txn, hrest, Txn.apply]
    rcases Database.recoverStaleDelivery_cases s.now s.db p.1 p.2 (s.staleScans m).cutoff with
      ⟨_, hsame⟩ | ⟨r, hr, hstale, hnew⟩
    · refine .inl ?_
      rw [System.recoveryRows, System.setStaleScan_db, hdb, hsame]
      exact Table.added_self _
    · refine .inr ⟨m, p, rest, r, hrest, hr, hstale, ?_, ?_, rfl⟩
      · rw [System.recoveryRows, System.setStaleScan_db, hdb, hnew]
        exact Table.added_insert _ _
      · rw [System.setStaleScan_db, hdb, hnew]
        simp [hr]
  | _ => exact .inl rfl

/-- A row is PROCESSING because it was, or because it has just been claimed. -/
theorem System.Step.processing_origin (h : s.Step cfg a t) {d : Nat} {r' : Delivery}
    (hr : t.db.deliveries.row d = some r') (hp : r'.status = .processing) :
    ∃ r, s.db.deliveries.row d = some r ∧
      (r.status = .processing ∧ r'.attempts = r.attempts ∨ r'.attempts = r.attempts + 1) := by
  rcases h.row_origin hr with ⟨r, hold, rfl | ⟨x, _, _, he⟩⟩ | ⟨_, e, ep, rfl⟩
  · exact ⟨r', hold, .inl ⟨hp, rfl⟩⟩
  · refine ⟨r, hold, ?_⟩
    cases he ▸ x.rewrites s.now d r with
    | same => exact .inl ⟨hp, rfl⟩
    | claim _ => exact .inr rfl
    | overwrite hx hst _ => exact absurd (hst.symm.trans hp) (Txn.overwrites_ne_processing hx)
    | recover _ => cases hp
    | reset => cases hp
  · cases hp

def Underway (s : System) : Prop :=
  ∀ d r, s.db.deliveries.row d = some r → r.status = .processing → 0 < r.attempts

theorem Underway.step (hu : Underway s) (h : s.Step cfg a t) : Underway t := by
  intro d r' hr' hp
  obtain ⟨r, hr, ⟨hold, hatt⟩ | hatt⟩ := h.processing_origin hr' hp
  · rw [hatt]
    exact hu d r hr hold
  · omega

theorem System.Step.recoversClaimed (h : s.Step cfg a t) (hl : Ledger s) (hs : Scanned s)
    (hu : Underway s) : RecoversClaimed s a t := by
  intro o ho
  rcases h.recoveryRows_cases with hnone | ⟨m, p, rest, r, hrest, hr, hstale, hrows, hfailed, htrace⟩
  · rw [hnone] at ho
    cases ho
  · rw [hrows, List.mem_singleton] at ho
    subst ho
    have hmem : p ∈ (s.staleScans m).rest := by
      rw [hrest]
      exact List.mem_cons_self
    have hatt : r.attempts = p.2 := (hs m p hmem).2 r hr hstale
    have hprocessing : r.status = .processing := by
      simp only [Delivery.staleBefore, Bool.and_eq_true, beq_iff_eq] at hstale
      exact hstale.1
    have hpos := hu p.1 r hr hprocessing
    have hcounted : r.attempts ∈ attemptsSinceReset p.1 s.trace := by
      rw [hl.rows p.1 r hr, mem_countdown]
      omega
    exact ⟨r, hr, congrArg (· + 1) hatt.symm, hfailed, hl.orderly.claim_since_reset hcounted⟩

end Rows

section Once

variable {cfg : Config} {s t : System} {a : Act} {k : Nat × Nat × Nat} {ks : List (Nat × Nat × Nat)}

/-- No recovery will schedule this attempt again: the delivery has been replayed since, or it
is that far and would have to be claimed first. -/
def Spent (s : System) (k : Nat × Nat × Nat) : Prop :=
  k.1 < s.db.deliveries.next ∧
    (k.2.1 < generation s.trace k.1 ∨ k.2.1 = generation s.trace k.1 ∧
      ∀ r, s.db.deliveries.row k.1 = some r →
        k.2.2 ≤ r.attempts + 1 ∧ (r.status = .processing → k.2.2 ≤ r.attempts))

theorem Spent.row_step (h : s.Step cfg a t) {d n : Nat}
    (hs : ∀ r, s.db.deliveries.row d = some r →
      n ≤ r.attempts + 1 ∧ (r.status = .processing → n ≤ r.attempts)) {r r' : Delivery}
    (hr : s.db.deliveries.row d = some r) (hle : r.attempts ≤ r'.attempts)
    (hr' : t.db.deliveries.row d = some r') :
    n ≤ r'.attempts + 1 ∧ (r'.status = .processing → n ≤ r'.attempts) := by
  have hold := hs r hr
  refine ⟨by omega, fun hp => ?_⟩
  obtain ⟨r₀, hr₀, ⟨hprocessing, hatt⟩ | hatt⟩ := h.processing_origin hr' hp
  · have hbusy := (hs r₀ hr₀).2 hprocessing
    omega
  · have hfirst := (hs r₀ hr₀).1
    omega

theorem Spent.step (hs : Spent s k) (hl : Ledger s) (h : s.Step cfg a t) : Spent t k := by
  obtain ⟨d, g, n⟩ := k
  obtain ⟨hknown, hspent⟩ := hs
  refine ⟨hknown.trans_le h.next_le, ?_⟩
  simp only at hknown hspent ⊢
  cases h.chronicle hl.linked with
  | quiet ht hrow =>
    rw [ht]
    refine hspent.imp_right fun ⟨hg, hrows⟩ => ⟨hg, fun r' hr' => ?_⟩
    rcases hrow d r' hr' with ⟨r, hr, hatt⟩ | ⟨hge, _⟩
    · exact Spent.row_step h hrows hr hatt.ge hr'
    · omega
  | claim w task delivery r ht hid hrow hr hc hdb hw =>
    have htrace : t.trace = .claimed ⟨w, delivery.id, generation s.trace delivery.id, task.expectedAttempt⟩ ::
        s.trace := by
      rw [ht]
      rfl
    rw [htrace, generation_cons_of_ne (by simp)]
    refine hspent.imp_right fun ⟨hg, hrows⟩ => ⟨hg, fun r' hr' => ?_⟩
    have hrewritten := hr'
    rw [hdb, Table.modify_row_eq_map, Option.map_eq_some_iff] at hrewritten
    obtain ⟨r₀, hr₀, he⟩ := hrewritten
    refine Spent.row_step h hrows hr₀ ?_ hr'
    rw [← he]
    split
    · exact Nat.le_succ _
    · exact le_rfl
  | send w task c hw hp ht =>
    have htrace : t.trace = .requested (c.claim w) :: s.trace := by
      rw [ht]
      rfl
    have hdb : t.db = s.db := by
      rw [ht]
      rfl
    rw [htrace, generation_cons_of_ne (by simp), hdb]
    exact hspent
  | reset d' ht hrow hnext hw =>
    rw [ht]
    by_cases hd : d' = d
    · subst hd
      have hmore : generation (.reset d' :: s.trace) d' = generation s.trace d' + 1 := by
        simp [generation]
      rw [hmore]
      omega
    · rw [generation_cons_of_ne (by simp [hd])]
      refine hspent.imp_right fun ⟨hg, hrows⟩ => ⟨hg, fun r' hr' => ?_⟩
      have hkept := hrow d r' hr'
      rw [if_neg (Ne.symm hd)] at hkept
      obtain ⟨r, hr, hatt⟩ := hkept
      exact Spent.row_step h hrows hr hatt.ge hr'

/-- What a pass has just scheduled is spent, and it was not before. -/
theorem System.Step.recovery_spent (h : s.Step cfg a t) (hl : Ledger s) (hs : Scanned s) (hu : Underway s) :
    ((s.recoveryRows a t).map s.rowKey).Nodup ∧
      ∀ k ∈ (s.recoveryRows a t).map s.rowKey, ¬ Spent s k ∧ Spent t k := by
  have hright := h.recoversClaimed hl hs hu
  rcases h.recoveryRows_cases with hnone | ⟨m, p, rest, r, hrest, hr, hstale, hrows, hfailed, htrace⟩
  · rw [hnone]
    exact ⟨List.nodup_nil, by simp⟩
  · obtain ⟨r₀, hr₀, hatt, _, _⟩ := hright _ (by rw [hrows]; exact List.mem_singleton_self _)
    have hsame : r₀ = r := Option.some.inj (hr₀.symm.trans hr)
    subst hsame
    simp only [DeliveryOutbox.created] at hatt
    have hprocessing : r₀.status = .processing := by
      simp only [Delivery.staleBefore, Bool.and_eq_true, beq_iff_eq] at hstale
      exact hstale.1
    rw [hrows]
    refine ⟨List.nodup_singleton _, fun k hk => ?_⟩
    obtain rfl := List.mem_singleton.mp hk
    constructor
    · rintro ⟨_, hless | ⟨_, hbusy⟩⟩
      · exact absurd hless (lt_irrefl _)
      · have hle := (hbusy r₀ hr).2 hprocessing
        simp only [System.rowKey, DeliveryOutbox.created] at hle
        omega
    · refine ⟨Table.lt_next hfailed, .inr ⟨by rw [htrace]; rfl, fun r' hr' => ?_⟩⟩
      have hnow : r' = r₀.recover s.now := Option.some.inj (hr'.symm.trans hfailed)
      rw [hnow]
      exact ⟨by simp [System.rowKey, DeliveryOutbox.created, Delivery.recover, hatt], fun hp => by cases hp⟩

theorem recoverySchedule_nodup {as : List Act} (hl : Ledger s) (hs : Scanned s) (hu : Underway s)
    (hks : ks.Nodup) (hspent : ∀ k ∈ ks, Spent s k) : (ks ++ recoverySchedule cfg s as).Nodup := by
  induction as generalizing s ks with
  | nil => simpa [recoverySchedule] using hks
  | cons a as ih =>
    cases ht : s.step cfg a with
    | none => simpa [recoverySchedule, ht] using hks
    | some t =>
      have h := System.Step.of_step ht
      obtain ⟨hnodup, hnew⟩ := h.recovery_spent hl hs hu
      have hrows : (ks ++ (s.recoveryRows a t).map s.rowKey).Nodup := by
        refine List.nodup_append.mpr ⟨hks, hnodup, ?_⟩
        rintro k hk _ hk' rfl
        exact (hnew k hk').1 (hspent k hk)
      have hlater := ih (hl.step h) (hs.step h) (hu.step h) hrows ?_
      · simpa [recoverySchedule, ht] using hlater
      · intro k hk
        rcases List.mem_append.mp hk with hold | hrow
        · exact (hspent k hold).step hl h
        · exact (hnew k hrow).2

/-- Whatever passes, claims, outcomes, deferrals and replays interleave. -/
theorem stale_recovery_once (cfg : Config) (u : Setup) (as : List Act) :
    Transition.Along (System.step cfg) RecoversClaimed (.boot u) as ∧
      ∀ c : Claim, (recoverySchedule cfg (.boot u) as).count
        (c.deliveryId, c.generation, c.expectedAttempt + 1) ≤ 1 := by
  have hempty : Underway (.boot u) := by
    intro d r hr
    cases hr
  constructor
  · refine Transition.along_of_invariant (I := fun s => Ledger s ∧ Scanned s ∧ Underway s) ?_
      ⟨.boot u, .boot u, hempty⟩ ?_
    · rintro s a t ⟨hl, hs, hu⟩ ht
      have h := System.Step.of_step ht
      exact ⟨hl.step h, hs.step h, hu.step h⟩
    · rintro s a t ⟨hl, hs, hu⟩ ht
      exact (System.Step.of_step ht).recoversClaimed hl hs hu
  · have hnodup : ([] ++ recoverySchedule cfg (.boot u) as).Nodup :=
      recoverySchedule_nodup (.boot u) (.boot u) hempty List.nodup_nil (by simp)
    exact fun c => List.nodup_iff_count_le_one.mp hnodup _

end Once

end WebhookEngine
