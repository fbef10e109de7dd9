import WebhookEngine.Steps

/-! The history of claims, requests and replays, and its agreement with the
attempts column of every delivery. -/

namespace WebhookEngine

open Relational

/-- The attempts claimed since the last replay of the delivery, latest first. -/
def attemptsSinceReset (d : Nat) : List Entry → List Nat
  | [] => []
  | .claimed c :: es =>
    if c.deliveryId = d then c.expectedAttempt :: attemptsSinceReset d es else attemptsSinceReset d es
  | .requested _ :: es => attemptsSinceReset d es
  | .reset d' :: es => if d' = d then [] else attemptsSinceReset d es

def countdown : Nat → List Nat
  | 0 => []
  | n + 1 => (n + 1) :: countdown n

def Claim.key (c : Claim) : Nat × Nat × Nat := (c.deliveryId, c.generation, c.expectedAttempt)

def claims (es : List Entry) : List Claim :=
  es.filterMap fun e => match e with | .claimed c => some c | _ => none

def requests (es : List Entry) : List Claim :=
  es.filterMap fun e => match e with | .requested c => some c | _ => none

theorem mem_claims {es : List Entry} {c : Claim} : c ∈ claims es ↔ .claimed c ∈ es := by
  simp only [claims, List.mem_filterMap]
  constructor
  · rintro ⟨e, he, hc⟩
    split at hc <;> simp_all
  · exact fun h => ⟨_, h, rfl⟩

theorem mem_requests {es : List Entry} {c : Claim} : c ∈ requests es ↔ .requested c ∈ es := by
  simp only [requests, List.mem_filterMap]
  constructor
  · rintro ⟨e, he, hc⟩
    split at hc <;> simp_all
  · exact fun h => ⟨_, h, rfl⟩

theorem mem_countdown {n k : Nat} : k ∈ countdown n ↔ 1 ≤ k ∧ k ≤ n := by
  induction n with
  | zero => simp only [countdown, List.not_mem_nil, false_iff]; omega
  | succ n ih =>
    simp only [countdown, List.mem_cons, ih]
    omega

/-- Every claim takes the number after those claimed since the last replay, and every
request goes out once, under a claim made before it. -/
def Orderly : List Entry → Prop
  | [] => True
  | .claimed c :: es =>
    (c.generation = generation es c.deliveryId ∧
      attemptsSinceReset c.deliveryId es = countdown (c.expectedAttempt - 1) ∧
      0 < c.expectedAttempt) ∧ Orderly es
  | .requested c :: es => (.claimed c ∈ es ∧ .requested c ∉ es) ∧ Orderly es
  | .reset _ :: es => Orderly es

namespace Orderly

variable {es : List Entry} {c : Claim}

theorem tail {e : Entry} (h : Orderly (e :: es)) : Orderly es := by
  cases e with
  | claimed c => exact h.2
  | requested c => exact h.2
  | reset d => exact h

theorem suffix {newer : List Entry} (h : Orderly (newer ++ es)) : Orderly es := by
  induction newer with
  | nil => exact h
  | cons e newer ih => exact ih h.tail

theorem claimed_of_requested (h : Orderly es) (hr : .requested c ∈ es) : .claimed c ∈ es := by
  induction es with
  | nil => cases hr
  | cons e es ih =>
    rcases List.mem_cons.mp hr with rfl | hr
    · exact List.mem_cons_of_mem _ h.1.1
    · exact List.mem_cons_of_mem _ (ih h.tail hr)

theorem counted (h : Orderly es) (hc : .claimed c ∈ es) :
    c.generation ≤ generation es c.deliveryId ∧
      (c.generation = generation es c.deliveryId →
        c.expectedAttempt ∈ attemptsSinceReset c.deliveryId es) := by
  induction es with
  | nil => cases hc
  | cons e es ih =>
    rcases List.mem_cons.mp hc with rfl | hc
    · have hg : generation (.claimed c :: es) c.deliveryId = generation es c.deliveryId := by
        simp [generation]
      rw [hg]
      exact ⟨h.1.1.le, fun _ => by simp [attemptsSinceReset]⟩
    · have hh := ih h.tail hc
      cases e with
      | claimed c' =>
        have hg : generation (.claimed c' :: es) c.deliveryId = generation es c.deliveryId := by
          simp [generation]
        rw [hg]
        refine ⟨hh.1, fun he => ?_⟩
        simp only [attemptsSinceReset]
        split
        · exact List.mem_cons_of_mem _ (hh.2 he)
        · exact hh.2 he
      | requested c' =>
        have hg : generation (.requested c' :: es) c.deliveryId = generation es c.deliveryId := by
          simp [generation]
        rw [hg]
        exact hh
      | reset d =>
        by_cases hd : d = c.deliveryId
        · have hg : generation (.reset d :: es) c.deliveryId = generation es c.deliveryId + 1 := by
            simp [generation, hd]
          rw [hg]
          exact ⟨by omega, fun he => by omega⟩
        · have hg : generation (.reset d :: es) c.deliveryId = generation es c.deliveryId := by
            simp [generation, hd]
          rw [hg]
          simpa [attemptsSinceReset, hd] using hh

theorem claim_keys_nodup (h : Orderly es) : ((claims es).map Claim.key).Nodup := by
  induction es with
  | nil => exact List.nodup_nil
  | cons e es ih =>
    cases e with
    | claimed c =>
      refine List.nodup_cons.mpr ⟨fun hm => ?_, ih h.tail⟩
      obtain ⟨c', hc', hk⟩ := List.mem_map.mp hm
      simp only [Claim.key, Prod.mk.injEq] at hk
      obtain ⟨hd, hg, ha⟩ := hk
      have hcount := (h.tail.counted (mem_claims.mp hc')).2
      rw [hd, hg, ha] at hcount
      have hin := hcount h.1.1
      rw [h.1.2.1, mem_countdown] at hin
      have := h.1.2.2
      omega
    | requested c => exact ih h.tail
    | reset d => exact ih h.tail

theorem eq_of_key_eq (h : Orderly es) {c c' : Claim} (hc : .claimed c ∈ es) (hc' : .claimed c' ∈ es)
    (hk : c.key = c'.key) : c = c' :=
  List.inj_on_of_nodup_map h.claim_keys_nodup (mem_claims.mpr hc) (mem_claims.mpr hc') hk

theorem request_keys_nodup (h : Orderly es) : ((requests es).map Claim.key).Nodup := by
  induction es with
  | nil => exact List.nodup_nil
  | cons e es ih =>
    cases e with
    | claimed c => exact ih h.tail
    | requested c =>
      refine List.nodup_cons.mpr ⟨fun hm => ?_, ih h.tail⟩
      obtain ⟨c', hc', hk⟩ := List.mem_map.mp hm
      have hr := mem_requests.mp hc'
      have he := h.tail.eq_of_key_eq (h.tail.claimed_of_requested hr) h.1.1 hk
      exact h.1.2 (he ▸ hr)
    | reset d => exact ih h.tail

end Orderly

structure Ledger (s : System) : Prop where
  linked : s.db.Linked
  rows : ∀ d r, s.db.deliveries.row d = some r → attemptsSinceReset d s.trace = countdown r.attempts
  unborn : ∀ d, s.db.deliveries.next ≤ d → attemptsSinceReset d s.trace = []
  orderly : Orderly s.trace
  workers : ∀ w k c, s.workers w = some k → k.point.claimed? = some c →
    c.delivery.row.attempts = c.expectedAttempt ∧ .claimed (c.claim w) ∈ s.trace
  unsent : ∀ w k c, s.workers w = some k → k.point = .sending c → .requested (c.claim w) ∉ s.trace

namespace System

variable {cfg : Config} {s t : System} {a : Act}

/-- The four things a step can do to the history and the attempts counters. -/
inductive Chronicle (cfg : Config) (s t : System) : Prop where
  | quiet (ht : t.trace = s.trace)
      (hrow : ∀ d r', t.db.deliveries.row d = some r' →
        (∃ r, s.db.deliveries.row d = some r ∧ r'.attempts = r.attempts) ∨
          s.db.deliveries.next ≤ d ∧ r'.attempts = 0)
  | claim (w : Nat) (k : Task) (delivery : DispatchableDelivery) (r : Delivery)
      (ht : t = s.claimed cfg w k delivery)
      (hid : delivery.id = k.deliveryId) (hrow : delivery.row = r.claim s.now)
      (hr : s.db.deliveries.row k.deliveryId = some r) (hc : r.claimableAs k.expectedAttempt = true)
      (hdb : t.db.deliveries = s.db.deliveries.modify k.deliveryId (.claim s.now))
      (hw : s.workers w = some k)
  | send (w : Nat) (k : Task) (c : Claimed) (hw : s.workers w = some k) (hp : k.point = .sending c)
      (ht : t = (s.goto w k (.awaiting c)).log (.requested (c.claim w)))
  | reset (d : Nat) (ht : t.trace = .reset d :: s.trace)
      (hrow : ∀ d' r', t.db.deliveries.row d' = some r' → if d' = d then r'.attempts = 0 else
        ∃ r, s.db.deliveries.row d' = some r ∧ r'.attempts = r.attempts)
      (hnext : t.db.deliveries.next = s.db.deliveries.next)
      (hw : t.workers = s.workers)

theorem Step.attempts_kept (h : Step cfg s a t)
    (hc : ∀ d n, s.txn cfg a = some (.claimForProcessing d n) →
      ∀ r, s.db.deliveries.row d = some r → r.claimableAs n = false)
    (hr : ∀ d, s.txn cfg a = some (.resetForReplay d) → s.ok cfg a = false) {d : Nat} {r' : Delivery}
    (hrow : t.db.deliveries.row d = some r') :
    (∃ r, s.db.deliveries.row d = some r ∧ r'.attempts = r.attempts) ∨
      s.db.deliveries.next ≤ d ∧ r'.attempts = 0 := by
  rcases h.row_origin hrow with ⟨r, hold, he | ⟨x, hx, hok, he⟩⟩ | ⟨hge, e, ep, he⟩
  · exact .inl ⟨r, hold, by rw [he]⟩
  · refine .inl ⟨r, hold, ?_⟩
    rw [he]
    by_cases hcl : ∃ n, x = .claimForProcessing d n
    · obtain ⟨n, rfl⟩ := hcl
      simp [Txn.rewrite, hc d n hx r hold]
    · refine Txn.rewrite_attempts r (fun n hn => hcl ⟨n, hn⟩) fun hn => ?_
      rw [hn] at hx
      simp [hr d hx] at hok
  · exact .inr ⟨hge, by rw [he]; rfl⟩

theorem Step.chronicle (h : Step cfg s a t) (hl : s.db.Linked) : Chronicle cfg s t := by
  have quiet : (∀ w, a ≠ .claim w) → (∀ q, a ≠ .replayReset q) → t.trace = s.trace →
      Chronicle cfg s t := by
    intro hnc hnr ht
    refine .quiet ht fun d r' hrow => h.attempts_kept (fun d n hx => ?_) (fun d hx => ?_) hrow
    · cases attempts_of_txn hx with
      | claim hw => exact absurd rfl (hnc _)
    · cases attempts_of_txn hx with
      | replayReset hq => exact absurd rfl (hnr _)
  have hstep := h
  cases h with
  | claimMiss hw hp hc =>
    refine .quiet rfl fun d r' hrow => hstep.attempts_kept (fun d n hx r hr => ?_) (fun d hx => ?_) hrow
    · simp only [txn, hw, Option.map_some, Option.some.injEq, Txn.claimForProcessing.injEq] at hx
      obtain ⟨rfl, rfl⟩ := hx
      by_contra hcl
      obtain ⟨delivery, hsome, _⟩ := hl.claimForProcessing_eq s.now hr (by simpa using hcl)
      rw [hc] at hsome
      cases hsome
    · simp [txn, hw] at hx
  | @claimHit w k delivery hw hp hc =>
    obtain ⟨r, hr, hcl, hid, hrow⟩ := hl.claimable_of_claim hc
    refine .claim w k delivery r rfl hid hrow hr hcl ?_ hw
    obtain ⟨_, _, _, _, hdb⟩ := hl.claimForProcessing_eq s.now hr hcl
    rw [hstep.db]
    simp [txn, hw, Txn.apply, hdb]
  | @send w k c hw hp => exact .send w k c hw hp rfl
  | @replayReset q d hq hok =>
    have happ := store_of_ok (show s.txn cfg (.replayReset q) = some (.resetForReplay d) by simp [txn, hq]) hok
    obtain ⟨r, hr, _, hdb⟩ := Database.resetForReplay_eq_some.mp happ
    refine .reset d rfl (fun d' r' hrow => ?_) ?_ rfl
    · change (s.store cfg (.replayReset q)).db.deliveries.row d' = some r' at hrow
      rw [← hdb, Table.modify_row_eq_map, Option.map_eq_some_iff] at hrow
      obtain ⟨r₀, hold, he⟩ := hrow
      by_cases hd : d' = d
      · simp only [hd, if_true] at he ⊢
        rw [← he]
        rfl
      · simp only [hd, if_false] at he ⊢
        exact ⟨r₀, hold, by rw [he]⟩
    · change (s.store cfg (.replayReset q)).db.deliveries.next = _
      rw [← hdb]
      rfl
  | replayMiss hq hok =>
    refine .quiet rfl fun d r' hrow => hstep.attempts_kept (fun d n hx => ?_) (fun _ _ => hok) hrow
    simp [txn, hq] at hx
  | _ => exact quiet (by simp) (by simp) rfl

end System

namespace Ledger

variable {cfg : Config} {s t : System} {a : Act}

theorem trace_mono (hl : Ledger s) (h : s.Step cfg a t) : s.trace ⊆ t.trace := by
  rcases h.chronicle hl.linked with ⟨ht, _⟩ | ⟨w, k, delivery, r, ht⟩ | ⟨w, k, c, _, _, ht⟩ | ⟨d, ht⟩
  · rw [ht]
    exact List.Subset.refl _
  · rw [ht]
    exact List.subset_cons_self _ _
  · rw [ht]
    exact List.subset_cons_self _ _
  · rw [ht]
    exact List.subset_cons_self _ _

theorem fresh_claim (hl : Ledger s) {d n : Nat} {r : Delivery}
    (hr : s.db.deliveries.row d = some r) (hc : r.claimableAs n = true) {c : Claim}
    (hd : c.deliveryId = d) (hg : c.generation = generation s.trace d) (hn : c.expectedAttempt = n) :
    attemptsSinceReset d s.trace = countdown (n - 1) ∧ 0 < n ∧ .claimed c ∉ s.trace := by
  have hatt : r.attempts + 1 = n := by simp [Delivery.claimableAs] at hc; exact hc.1
  have hrow : attemptsSinceReset d s.trace = countdown (n - 1) := by
    rw [hl.rows d r hr]
    congr
    omega
  refine ⟨hrow, by omega, fun hm => ?_⟩
  have hcount := (hl.orderly.counted hm).2
  rw [hd, hn] at hcount
  have hin := hcount hg
  rw [hrow, mem_countdown] at hin
  omega

theorem step_rows (hl : Ledger s) (h : s.Step cfg a t) {d : Nat} {r' : Delivery}
    (hr' : t.db.deliveries.row d = some r') :
    attemptsSinceReset d t.trace = countdown r'.attempts := by
  cases h.chronicle hl.linked with
  | quiet ht hrow =>
    rw [ht]
    rcases hrow d r' hr' with ⟨r, hr, he⟩ | ⟨hge, h0⟩
    · rw [he]
      exact hl.rows d r hr
    · rw [h0]
      exact hl.unborn d hge
  | claim w k delivery r ht hid hrow hr hc hdb =>
    have htrace : t.trace = .claimed ⟨w, delivery.id, generation s.trace delivery.id,
        k.expectedAttempt⟩ :: s.trace := by rw [ht]; rfl
    have hatt : r.attempts + 1 = k.expectedAttempt := by simp [Delivery.claimableAs] at hc; exact hc.1
    rw [hdb, Table.modify_row_eq_map, Option.map_eq_some_iff] at hr'
    obtain ⟨r₀, hr₀, he⟩ := hr'
    rw [htrace, attemptsSinceReset, hid, hl.rows d r₀ hr₀]
    by_cases hd : d = k.deliveryId
    · subst d
      rw [hr] at hr₀
      cases hr₀
      simp only [if_true] at he ⊢
      rw [← he, ← hatt]
      rfl
    · simp only [hd, Ne.symm hd, if_false] at he ⊢
      rw [he]
  | send w k c hw hp ht =>
    rw [ht] at hr' ⊢
    exact hl.rows d r' hr'
  | reset d' ht hrow hnext hw =>
    have hh := hrow d r' hr'
    rw [ht, attemptsSinceReset]
    by_cases hd : d = d'
    · simp only [hd, if_true] at hh ⊢
      rw [hh]
      rfl
    · simp only [hd, Ne.symm hd, if_false] at hh ⊢
      obtain ⟨r, hr, he⟩ := hh
      rw [he]
      exact hl.rows d r hr

theorem step_unborn (hl : Ledger s) (h : s.Step cfg a t) {d : Nat}
    (hd : t.db.deliveries.next ≤ d) : attemptsSinceReset d t.trace = [] := by
  have hs : attemptsSinceReset d s.trace = [] := hl.unborn d (h.next_le.trans hd)
  cases h.chronicle hl.linked with
  | quiet ht hrow => rw [ht, hs]
  | claim w k delivery r ht hid hrow hr hc hdb =>
    have hne : delivery.id ≠ d := by
      have hlt := Table.lt_next hr
      rw [hdb, Table.modify_next] at hd
      omega
    rw [ht]
    simpa [System.claimed, attemptsSinceReset, Claimed.claim, hne] using hs
  | send w k c hw hp ht =>
    rw [ht]
    exact hs
  | reset d' ht hrow hnext hw =>
    rw [ht, attemptsSinceReset]
    split
    · rfl
    · exact hs

theorem step_orderly (hl : Ledger s) (h : s.Step cfg a t) : Orderly t.trace := by
  cases h.chronicle hl.linked with
  | quiet ht hrow =>
    rw [ht]
    exact hl.orderly
  | claim w k delivery r ht hid hrow hr hc hdb =>
    rw [ht]
    have hf := hl.fresh_claim (c := ⟨w, delivery.id, generation s.trace delivery.id,
      k.expectedAttempt⟩) hr hc hid (by simp [hid]) rfl
    exact ⟨⟨rfl, by simpa [Claimed.claim, hid] using hf.1, hf.2.1⟩, hl.orderly⟩
  | send w k c hw hp ht =>
    rw [ht]
    have hcl := hl.workers w k c hw (by rw [hp]; rfl)
    exact ⟨⟨hcl.2, hl.unsent w k c hw hp⟩, hl.orderly⟩
  | reset d ht hrow hnext hw =>
    rw [ht]
    exact hl.orderly

theorem step_workers (hl : Ledger s) (h : s.Step cfg a t) {w : Nat} {k' : Task} {c : Claimed}
    (hk : t.workers w = some k') (hc : k'.point.claimed? = some c) :
    c.delivery.row.attempts = c.expectedAttempt ∧ .claimed (c.claim w) ∈ t.trace := by
  rcases h.claimed_origin hk hc with ⟨k, hw, hck, _⟩ | ⟨k, delivery, ha, hw, hp, hhit, ht, hd, he⟩
  · have hold := hl.workers w k c hw hck
    exact ⟨hold.1, hl.trace_mono h hold.2⟩
  · obtain ⟨r, hr, hcl, hid, hrow⟩ := hl.linked.claimable_of_claim hhit
    have hatt : r.attempts + 1 = k.expectedAttempt := by
      simp [Delivery.claimableAs] at hcl
      exact hcl.1
    rw [he, ht]
    refine ⟨?_, List.mem_cons_self⟩
    rw [hrow]
    exact hatt

theorem step_unsent (hl : Ledger s) (h : s.Step cfg a t) {w : Nat} {k' : Task} {c : Claimed}
    (hk : t.workers w = some k') (hp' : k'.point = .sending c) :
    .requested (c.claim w) ∉ t.trace := by
  have hc : k'.point.claimed? = some c := by rw [hp']; rfl
  rcases h.claimed_origin hk hc with ⟨k, hw, hck, _, hs⟩ | ⟨k, delivery, ha, hw, hp, hhit, ht, hd, he⟩
  · have hold := hl.unsent w k c hw (hs hp')
    cases h.chronicle hl.linked with
    | quiet ht hrow =>
      rw [ht]
      exact hold
    | claim w₀ k₀ delivery r ht hid hrow hr hcl hdb =>
      rw [ht]
      simpa [System.claimed] using hold
    | send w₀ k₀ c₀ hw₀ hp₀ ht =>
      have hne : w ≠ w₀ := by
        intro he
        subst he
        rw [ht] at hk
        simp only [System.log_workers, System.goto_workers, Function.update_self,
          Option.some.injEq] at hk
        rw [← hk] at hp'
        cases hp'
      rw [ht]
      have hcne : c.claim w ≠ c₀.claim w₀ := fun he => hne (congrArg Claim.worker he)
      simpa [hcne] using hold
    | reset d ht hrow hnext hw =>
      rw [ht]
      simpa using hold
  · obtain ⟨r, hr, hcl, hid, hrow⟩ := hl.linked.claimable_of_claim hhit
    have hf := hl.fresh_claim (c := c.claim w) hr hcl (by rw [he]; exact hid)
      (by rw [he, ← hid]; rfl) (by rw [he]; rfl)
    rw [ht]
    simp only [System.claimed, System.log_trace, System.goto_trace, System.store_trace,
      List.mem_cons, reduceCtorEq, false_or]
    exact fun hm => hf.2.2 (hl.orderly.claimed_of_requested hm)

theorem step (hl : Ledger s) (h : s.Step cfg a t) : Ledger t where
  linked := h.linked hl.linked
  rows _ _ := hl.step_rows h
  unborn _ := hl.step_unborn h
  orderly := hl.step_orderly h
  workers _ _ _ := hl.step_workers h
  unsent _ _ _ := hl.step_unsent h

theorem boot (u : Setup) : Ledger (System.boot u) where
  linked := System.boot_linked u
  rows _ _ h := by cases h
  unborn _ _ := rfl
  orderly := trivial
  workers _ _ _ h := by cases h
  unsent _ _ _ h := by cases h

end Ledger

theorem System.Reached.ledger {cfg : Config} {u : Setup} {as : List Act} {s : System}
    (h : System.Reached cfg u as s) : Ledger s :=
  Transition.run_invariant (fun _ _ _ hl hs => hl.step (.of_step hs)) (Ledger.boot u) h

/-- Since the last replay of a delivery its successful claims carried 1, 2, 3, … up to its
attempts column, at every earlier moment as well; every request has a claim of its own
before it; and no delivery, generation and attempt number is requested twice. -/
theorem each_attempt_requested_once {cfg : Config} {u : Setup} {as : List Act} {s : System}
    (h : System.Reached cfg u as s) :
    (∀ d r, s.db.deliveries.row d = some r →
        attemptsSinceReset d s.trace = countdown r.attempts) ∧
      (∀ newer c older, s.trace = newer ++ .claimed c :: older →
        c.generation = generation older c.deliveryId ∧ 0 < c.expectedAttempt ∧
          attemptsSinceReset c.deliveryId older = countdown (c.expectedAttempt - 1)) ∧
      (∀ newer c older, s.trace = newer ++ .requested c :: older →
        .claimed c ∈ older ∧ .requested c ∉ older) ∧
      ((requests s.trace).map Claim.key).Nodup := by
  have hl := h.ledger
  refine ⟨hl.rows, fun newer c older he => ?_, fun newer c older he => ?_,
    hl.orderly.request_keys_nodup⟩
  · have ho := hl.orderly
    rw [he] at ho
    have hc := ho.suffix.1
    exact ⟨hc.1, hc.2.2, hc.2.1⟩
  · have ho := hl.orderly
    rw [he] at ho
    exact ho.suffix.1

/-- A failed first attempt, a replay of the delivery and the first attempt after it. -/
def replayedRun : List Act :=
  Script.ingest ++ Script.publish 0 ++ Script.claim 0 (jobId 0 0) ++ Script.answer 0 503 ++
    [.settle 0 1000, .finish 0, .replayRead 0 0 0, .replayReset 0] ++ Script.publish 2 ++
    Script.claim 1 (jobId 2 0) ++ [.send 1]

theorem each_attempt_requested_once_replayed :
    let s := System.after .defaults (.subscribed 1) replayedRun
    (requests s.trace).map Claim.key = [(0, 1, 1), (0, 0, 1)] ∧
      ((requests s.trace).map Claim.key).Nodup := by
  have hs : System.Reached .defaults (.subscribed 1) replayedRun
      (.after .defaults (.subscribed 1) replayedRun) := Transition.run_ending (by decide +kernel)
  have honce := each_attempt_requested_once hs
  exact ⟨by decide +kernel, honce.2.2.2⟩

end WebhookEngine
