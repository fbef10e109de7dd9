import WebhookEngine.System

/-! What a step can do: to the store, to the claims workers hold, and by which
transaction. The invariants of the system are derived from these lemmas. -/

namespace WebhookEngine

open Relational

namespace System

variable {cfg : Config} {s : System}

theorem Step.of_step {a : Act} {t : System} (h : s.step cfg a = some t) : Step cfg s a t := by
  cases a with
  | tick ms =>
    cases h
    exact .tick
  | ingestRead c input =>
    simp only [step] at h
    split at h
    · rename_i hc he
      cases h
      exact .ingestRead hc he
    · cases h
  | ingestCommit c =>
    simp only [step] at h
    split at h
    · rename_i hc
      cases h
      exact .ingestCommit hc
    · cases h
  | publishRead p ids =>
    simp only [step] at h
    split at h
    · rename_i hc
      cases h
      exact .publishRead hc.1 hc.2
    · cases h
  | publishAdd p =>
    simp only [step] at h
    split at h
    · rename_i hp
      cases h
      exact .publishAdd hp
    · cases h
  | publishMark p =>
    simp only [step] at h
    split at h
    · rename_i hp
      cases h
      exact .publishMark hp
    · cases h
  | publishError p message =>
    simp only [step] at h
    split at h
    · cases h
    · rename_i hp
      cases h
      exact .publishError hp
  | take w job =>
    simp only [step] at h
    split at h
    · rename_i j hw hj
      split at h
      · rename_i hu
        cases h
        exact .take hw hj hu
      · cases h
    · cases h
  | find w =>
    simp only [step] at h
    split at h
    · rename_i k hw
      split at h
      · rename_i hp
        cases h
        exact .find hw hp
      · cases h
    · cases h
  | cancel w =>
    simp only [step] at h
    split at h
    · rename_i k hw
      split at h
      · rename_i hp
        cases h
        exact .cancel hw hp
      · cases h
    · cases h
  | limit w delayMs =>
    simp only [step] at h
    split at h
    · rename_i k hw
      split at h
      · rename_i hp
        cases h
        exact .limit hw hp
      · cases h
    · cases h
  | defer w =>
    simp only [step] at h
    split at h
    · rename_i k hw
      split at h
      · rename_i hp
        cases h
        exact .defer hw hp
      · cases h
    · cases h
  | claim w =>
    simp only [step] at h
    split at h
    · rename_i k hw
      split at h
      · rename_i hp
        split at h
        · rename_i delivery hc
          cases h
          exact .claimHit hw hp hc
        · rename_i hc
          cases h
          exact .claimMiss hw hp hc
      · cases h
    · cases h
  | send w =>
    simp only [step] at h
    split at h
    · rename_i k hw
      split at h
      · rename_i hp
        cases h
        exact .send hw hp
      · cases h
    · cases h
  | answer w result =>
    simp only [step] at h
    split at h
    · rename_i k hw
      split at h
      · rename_i hp
        cases h
        exact .answer hw hp
      · cases h
    · cases h
  | settle w delayMs =>
    simp only [step] at h
    split at h
    · rename_i k hw
      split at h
      · rename_i hp
        cases h
        exact .settle hw hp
      · cases h
    · cases h
  | finish w =>
    simp only [step] at h
    split at h
    · rename_i k hw
      split at h
      · rename_i hp
        cases h
        exact .finish hw hp
      · cases h
    · cases h
  | crash w =>
    simp only [step] at h
    split at h
    · rename_i hw
      cases h
      exact .crash hw
    · cases h
  | staleSelect m ids =>
    simp only [step] at h
    split at h
    · rename_i hc
      cases h
      exact .staleSelect hc.1 hc.2
    · cases h
  | staleRecover m =>
    simp only [step] at h
    split at h
    · rename_i hc
      cases h
      exact .staleRecover hc
    · cases h
  | strandedSelect m ids =>
    simp only [step] at h
    split at h
    · rename_i hc
      cases h
      exact .strandedSelect hc.1 hc.2
    · cases h
  | strandedInspect m =>
    simp only [step] at h
    split at h
    · rename_i hc
      cases h
      exact .strandedInspect hc
    · cases h
  | strandedReopen m =>
    simp only [step] at h
    split at h
    · rename_i hc
      cases h
      exact .strandedReopen hc
    · cases h
  | cleanupExpiredEndpointSecrets =>
    cases h
    exact .cleanupExpiredEndpointSecrets
  | cleanupPublishedOutboxRows =>
    cases h
    exact .cleanupPublishedOutboxRows
  | cleanupOldEvents =>
    cases h
    exact .cleanupOldEvents
  | replayRead q deliveryId tenantId =>
    simp only [step] at h
    split at h
    · rename_i delivery hq hd
      split at h
      · rename_i hc
        cases h
        exact .replayRead hq hd hc.1 hc.2
      · cases h
    · cases h
  | replayReset q =>
    simp only [step] at h
    split at h
    · rename_i d hq
      cases hok : s.ok cfg (.replayReset q) with
      | true =>
        simp only [hok, if_true, Option.some.injEq] at h
        rw [← h]
        exact .replayReset hq hok
      | false =>
        simp only [hok, Bool.false_eq_true, if_false, Option.some.injEq] at h
        rw [← h]
        exact .replayMiss hq hok
    · cases h
  | setEndpointActive e b =>
    cases h
    exact .setEndpointActive
  | duplicate k job =>
    simp only [step] at h
    split at h
    · rename_i hj
      split at h
      · cases h
      · rename_i hk
        cases h
        exact .duplicate hj hk
    · cases h
  | foreign k d n =>
    simp only [step] at h
    split at h
    · cases h
    · rename_i hk
      cases h
      exact .foreign hk
  | evict job =>
    simp only [step] at h
    split at h
    · rename_i hj
      split at h
      · cases h
      · rename_i hu
        cases h
        exact .evict hj (by simpa using hu)
    · cases h
  | lose job =>
    simp only [step] at h
    split at h
    · rename_i hj
      split at h
      · rename_i hu
        cases h
        exact .lose hj hu
      · cases h
    · cases h

theorem Step.db {a : Act} {t : System} (h : Step cfg s a t) : t.db = (s.store cfg a).db := by
  cases h <;> rfl

theorem store_cases (cfg : Config) (s : System) (a : Act) :
    (s.store cfg a).db = s.db ∨
      ∃ x, s.txn cfg a = some x ∧ s.ok cfg a = true ∧
        x.apply cfg s.now s.db = some (s.store cfg a).db := by
  cases hx : s.txn cfg a with
  | none => exact .inl (by simp [hx])
  | some x =>
    cases hy : x.apply cfg s.now s.db with
    | none => exact .inl (by simp [hx, hy])
    | some db => exact .inr ⟨x, rfl, by simp [ok, hx, hy], by simp [hx, hy]⟩

theorem store_of_ok {a : Act} {x : Txn} (hx : s.txn cfg a = some x) (hok : s.ok cfg a = true) :
    x.apply cfg s.now s.db = some (s.store cfg a).db := by
  simp only [ok, hx, Option.all_some, Option.isSome_iff_exists] at hok
  obtain ⟨db, hdb⟩ := hok
  simp [hx, hdb]

theorem Step.row_origin {a : Act} {t : System} (h : Step cfg s a t) {d : Nat} {r' : Delivery}
    (hr : t.db.deliveries.row d = some r') :
    (∃ r, s.db.deliveries.row d = some r ∧
        (r' = r ∨ ∃ x, s.txn cfg a = some x ∧ s.ok cfg a = true ∧ r' = x.rewrite s.now d r)) ∨
      s.db.deliveries.next ≤ d ∧ ∃ e ep, r' = .created s.now e ep := by
  rw [h.db] at hr
  rcases s.store_cases cfg a with he | ⟨x, hx, hok, happ⟩
  · rw [he] at hr
    exact .inl ⟨r', hr, .inl rfl⟩
  · rcases (Txn.deliveries_becomes happ).origin hr with ⟨r, hold, _, hrw⟩ | ⟨hge, hnew⟩
    · exact .inl ⟨r, hold, .inr ⟨x, hx, hok, hrw⟩⟩
    · refine .inr ⟨hge, ?_⟩
      cases x with
      | createForTenant input endpointIds =>
        simp only [Txn.created, List.getElem?_map, Option.map_eq_some_iff] at hnew
        obtain ⟨e, _, rfl⟩ := hnew
        exact ⟨_, _, rfl⟩
      | _ => simp [Txn.created] at hnew

theorem Step.next_le {a : Act} {t : System} (h : Step cfg s a t) :
    s.db.deliveries.next ≤ t.db.deliveries.next := by
  rw [h.db]
  rcases s.store_cases cfg a with he | ⟨x, _, _, happ⟩
  · rw [he]
  · exact (Txn.deliveries_becomes happ).next_le

theorem Step.now_eq {a : Act} {t : System} (h : Step cfg s a t) (ha : ∀ ms, a ≠ .tick ms) :
    t.now = s.now := by
  cases h with
  | @tick ms => exact absurd rfl (ha ms)
  | _ => rfl

theorem afterFind_claimed? (o : Option DispatchableDelivery) : (afterFind o).claimed? = none := by
  cases o with
  | none => rfl
  | some delivery =>
    simp only [afterFind]
    split
    · rfl
    · split <;> rfl

theorem afterLimit_claimed? (now : Time) (o : Option Nat) : (afterLimit now o).claimed? = none := by
  cases o <;> rfl

inductive Moves (cfg : Config) (s : System) (w : Nat) (k : Task) : Act → Point → Prop where
  | find (hp : k.point = .started) : Moves cfg s w k (.find w) (afterFind (s.db.findById k.deliveryId))
  | cancel (hp : k.point = .cancelling) : Moves cfg s w k (.cancel w) (.ended (s.ok cfg (.cancel w)))
  | limit {delayMs} (hp : k.point = .limiting) :
      Moves cfg s w k (.limit w delayMs) (afterLimit s.now delayMs)
  | defer {nextAttemptAt} (hp : k.point = .deferring nextAttemptAt) :
      Moves cfg s w k (.defer w) (.ended (s.ok cfg (.defer w)))
  | claimMiss (hp : k.point = .claiming) : Moves cfg s w k (.claim w) (.ended true)
  | claimHit {delivery} (hp : k.point = .claiming)
      (hc : (s.db.claimForProcessing s.now k.deliveryId k.expectedAttempt).2 = some delivery) :
      Moves cfg s w k (.claim w)
        (.sending ⟨delivery, k.expectedAttempt, generation s.trace delivery.id⟩)
  | send {c} (hp : k.point = .sending c) : Moves cfg s w k (.send w) (.awaiting c)
  | answer {c result} (hp : k.point = .awaiting c) : Moves cfg s w k (.answer w result) (.settling c result)
  | settled {c result delayMs} (hp : k.point = .settling c result) :
      Moves cfg s w k (.settle w delayMs) (.ended true)
  | thrown {c result delayMs} (hp : k.point = .settling c result) :
      Moves cfg s w k (.settle w delayMs) ((s.outcome cfg c result delayMs).onThrow c)

/-- A worker's task after a step is the one it had, moved on or not, or the job it takes. -/
theorem Step.worker_origin {a : Act} {t : System} (h : Step cfg s a t) {w : Nat} {k' : Task}
    (hk : t.workers w = some k') :
    s.workers w = some k' ∨
      (∃ k p, s.workers w = some k ∧ k' = { k with point := p } ∧ Moves cfg s w k a p) ∨
      ∃ job, a = .take w k'.job ∧ s.workers w = none ∧ s.queue k'.job = some job ∧
        job.unfinished = true ∧ k' = ⟨k'.job, job.deliveryId, job.expectedAttempt, .started⟩ := by
  have moved : ∀ (w₀ : Nat) (k₀ : Task) (p : Point), s.workers w₀ = some k₀ → Moves cfg s w₀ k₀ a p →
      Function.update s.workers w₀ (some { k₀ with point := p }) w = some k' →
      s.workers w = some k' ∨
        ∃ k p, s.workers w = some k ∧ k' = { k with point := p } ∧ Moves cfg s w k a p := by
    intro w₀ k₀ p hw₀ hm hu
    rcases Transition.update_cases (· = some k') hu with ⟨rfl, hnew⟩ | hold
    · exact .inr ⟨k₀, p, hw₀, (Option.some.inj hnew).symm, hm⟩
    · exact .inl hold
  have left : ∀ w₀, Function.update s.workers w₀ none w = some k' → s.workers w = some k' := by
    intro w₀ hu
    rcases Transition.update_cases (· = some k') hu with ⟨_, hnone⟩ | hold
    · cases hnone
    · exact hold
  rw [← or_assoc]
  cases h with
  | @take w₀ job j hw₀ hj hu =>
    by_cases hw : w = w₀
    · subst w
      simp only [Function.update_self, Option.some.injEq] at hk
      subst hk
      exact .inr ⟨j, rfl, hw₀, hj, hu, rfl⟩
    · simp only [Function.update_of_ne hw] at hk
      exact .inl (.inl hk)
  | find hw₀ hp => exact .inl (moved _ _ _ hw₀ (.find hp) hk)
  | cancel hw₀ hp => exact .inl (moved _ _ _ hw₀ (.cancel hp) hk)
  | limit hw₀ hp => exact .inl (moved _ _ _ hw₀ (.limit hp) hk)
  | defer hw₀ hp => exact .inl (moved _ _ _ hw₀ (.defer hp) hk)
  | claimMiss hw₀ hp hc => exact .inl (moved _ _ _ hw₀ (.claimMiss hp) hk)
  | claimHit hw₀ hp hc => exact .inl (moved _ _ _ hw₀ (.claimHit hp hc) hk)
  | send hw₀ hp => exact .inl (moved _ _ _ hw₀ (.send hp) hk)
  | answer hw₀ hp => exact .inl (moved _ _ _ hw₀ (.answer hp) hk)
  | @settle w₀ k₀ c result delayMs hw₀ hp =>
    refine .inl (moved w₀ k₀ _ hw₀ ?_ hk)
    split
    · exact .settled hp
    · exact .thrown hp
  | finish hw₀ hp => exact .inl (.inl (left _ hk))
  | crash hw₀ => exact .inl (.inl (left _ hk))
  | _ => exact .inl (.inl hk)

/-- The worker an action belongs to. -/
def worker? : Act → Option Nat
  | .take w _ => some w
  | .find w => some w
  | .cancel w => some w
  | .limit w _ => some w
  | .defer w => some w
  | .claim w => some w
  | .send w => some w
  | .answer w _ => some w
  | .settle w _ => some w
  | .finish w => some w
  | .crash w => some w
  | _ => none

theorem Step.workers_of_ne {a : Act} {t : System} (h : Step cfg s a t) {w : Nat} (hw : worker? a ≠ some w) :
    t.workers w = s.workers w := by
  have hne : ∀ {w₀ : Nat} (v : Option Task), worker? a = some w₀ → Function.update s.workers w₀ v w = s.workers w := by
    intro w₀ v ha
    refine Function.update_of_ne ?_ ..
    intro heq
    exact hw (heq ▸ ha)
  cases h with
  | take | find | cancel | limit | defer | claimMiss | claimHit | send | answer | settle | finish | crash =>
    exact hne _ rfl
  | _ => rfl

theorem Step.claimed_eq {t : System} {w : Nat} {k : Task} {delivery : DispatchableDelivery}
    (h : Step cfg s (.claim w) t) (hw : s.workers w = some k)
    (hc : (s.db.claimForProcessing s.now k.deliveryId k.expectedAttempt).2 = some delivery) :
    t = s.claimed cfg w k delivery := by
  cases h with
  | claimMiss hw' hp' hmiss =>
    rw [hw, Option.some.injEq] at hw'
    rw [← hw', hc] at hmiss
    cases hmiss
  | claimHit hw' hp' hc' =>
    rw [hw, Option.some.injEq] at hw'
    subst hw'
    rw [hc, Option.some.injEq] at hc'
    rw [hc']

theorem Step.claimed_origin {a : Act} {t : System} (h : Step cfg s a t) {w : Nat} {k' : Task}
    {c : Claimed} (hk : t.workers w = some k') (hc : k'.point.claimed? = some c) :
    (∃ k, s.workers w = some k ∧ k.point.claimed? = some c ∧ k.deliveryId = k'.deliveryId ∧
        (k'.point = .sending c → k.point = .sending c)) ∨
      ∃ k delivery, a = .claim w ∧ s.workers w = some k ∧ k.point = .claiming ∧
        (s.db.claimForProcessing s.now k.deliveryId k.expectedAttempt).2 = some delivery ∧
        t = s.claimed cfg w k delivery ∧ k'.deliveryId = k.deliveryId ∧
        c = ⟨delivery, k.expectedAttempt, generation s.trace delivery.id⟩ := by
  rcases h.worker_origin hk with hw | ⟨k, p, hw, rfl, hm⟩ | ⟨_, _, _, _, _, hstarted⟩
  · exact .inl ⟨k', hw, hc, rfl, id⟩
  · cases hm with
    | find =>
      rw [afterFind_claimed?] at hc
      cases hc
    | limit =>
      rw [afterLimit_claimed?] at hc
      cases hc
    | claimHit hp hhit =>
      cases hc
      exact .inr ⟨k, _, rfl, hw, hp, hhit, h.claimed_eq hw hhit, rfl, rfl⟩
    | send hp =>
      cases hc
      exact .inl ⟨k, hw, by rw [hp]; rfl, rfl, fun he => by cases he⟩
    | answer hp =>
      cases hc
      exact .inl ⟨k, hw, by rw [hp]; rfl, rfl, fun he => by cases he⟩
    | @thrown c₀ result delayMs hp =>
      cases ho : s.outcome cfg c₀ result delayMs with
      | success =>
        simp only [ho, OutcomeWrite.onThrow, Point.claimed?, Option.some.injEq] at hc
        subst hc
        exact .inl ⟨k, hw, by rw [hp]; rfl, rfl, fun he => by simp [OutcomeWrite.onThrow] at he⟩
      | _ => simp [ho, OutcomeWrite.onThrow, Point.claimed?] at hc
    | _ => cases hc
  · rw [hstarted] at hc
    cases hc

inductive Attempts (cfg : Config) (s : System) : Act → Txn → Prop where
  | ingestCommit {c p} (h : s.ingests c = some p) :
      Attempts cfg s (.ingestCommit c) (.createForTenant p.1 p.2)
  | publishMark {p o rest} (h : (s.publishers p).batch = o :: rest) :
      Attempts cfg s (.publishMark p) (.markPublished o.id)
  | publishError {p message o rest} (h : (s.publishers p).batch = o :: rest) :
      Attempts cfg s (.publishError p message) (.recordPublishError o.id message)
  | cancel {w k} (h : s.workers w = some k) :
      Attempts cfg s (.cancel w) (.markCancelled k.deliveryId "Endpoint is inactive")
  | defer {w k nextAttemptAt} (h : s.workers w = some k) (hp : k.point = .deferring nextAttemptAt) :
      Attempts cfg s (.defer w) (.markRateLimitedAndSchedule k.deliveryId nextAttemptAt k.expectedAttempt)
  | claim {w k} (h : s.workers w = some k) :
      Attempts cfg s (.claim w) (.claimForProcessing k.deliveryId k.expectedAttempt)
  | success {w delayMs k c result code snippet} (h : s.workers w = some k)
      (hp : k.point = .settling c result) (ho : s.outcome cfg c result delayMs = .success code snippet) :
      Attempts cfg s (.settle w delayMs) (.markSuccess c.delivery.id code snippet)
  | deadLetter {w delayMs k c result code snippet} (h : s.workers w = some k)
      (hp : k.point = .settling c result) (ho : s.outcome cfg c result delayMs = .deadLetter code snippet) :
      Attempts cfg s (.settle w delayMs) (.markDeadLetter c.delivery.id code snippet)
  | retry {w delayMs k c result input} (h : s.workers w = some k) (hp : k.point = .settling c result)
      (ho : s.outcome cfg c result delayMs = .retry input) :
      Attempts cfg s (.settle w delayMs) (.markFailedAndSchedule input)
  | staleRecover {m p rest} (h : (s.staleScans m).rest = p :: rest) :
      Attempts cfg s (.staleRecover m) (.recoverStaleDelivery p.1 p.2 (s.staleScans m).cutoff)
  | strandedReopen {m p rest} (h : (s.strandedScans m).rest = p :: rest) :
      Attempts cfg s (.strandedReopen m) (.reopenOutbox p.1 ((s.strandedScans m).found.getD "missing"))
  | cleanupExpiredEndpointSecrets :
      Attempts cfg s .cleanupExpiredEndpointSecrets .cleanupExpiredEndpointSecrets
  | cleanupPublishedOutboxRows : Attempts cfg s .cleanupPublishedOutboxRows .cleanupPublishedOutboxRows
  | cleanupOldEvents : Attempts cfg s .cleanupOldEvents .cleanupOldEvents
  | replayReset {q d} (h : s.replays q = some d) : Attempts cfg s (.replayReset q) (.resetForReplay d)
  | setEndpointActive {e b} : Attempts cfg s (.setEndpointActive e b) (.setEndpointActive e b)

theorem attempts_of_txn {a : Act} {x : Txn} (hx : s.txn cfg a = some x) : Attempts cfg s a x := by
  cases a with
  | ingestCommit c =>
    obtain ⟨p, hc, rfl⟩ := Option.map_eq_some_iff.mp hx
    exact .ingestCommit hc
  | publishMark p =>
    obtain ⟨o, ho, rfl⟩ := Option.map_eq_some_iff.mp hx
    obtain ⟨rest, hrest⟩ := List.head?_eq_some_iff.mp ho
    exact .publishMark hrest
  | publishError p message =>
    obtain ⟨o, ho, rfl⟩ := Option.map_eq_some_iff.mp hx
    obtain ⟨rest, hrest⟩ := List.head?_eq_some_iff.mp ho
    exact .publishError hrest
  | cancel w =>
    obtain ⟨k, hw, rfl⟩ := Option.map_eq_some_iff.mp hx
    exact .cancel hw
  | defer w =>
    obtain ⟨k, hw, hk⟩ := Option.bind_eq_some_iff.mp hx
    split at hk
    · rename_i hp
      cases hk
      exact .defer hw hp
    · cases hk
  | claim w =>
    obtain ⟨k, hw, rfl⟩ := Option.map_eq_some_iff.mp hx
    exact .claim hw
  | settle w delayMs =>
    obtain ⟨k, hw, hk⟩ := Option.bind_eq_some_iff.mp hx
    split at hk
    · rename_i c result hp
      cases hk
      cases ho : s.outcome cfg c result delayMs with
      | success code snippet => exact .success hw hp ho
      | deadLetter code snippet => exact .deadLetter hw hp ho
      | retry input => exact .retry hw hp ho
    · cases hk
  | staleRecover m =>
    obtain ⟨p, hp, rfl⟩ := Option.map_eq_some_iff.mp hx
    obtain ⟨rest, hrest⟩ := List.head?_eq_some_iff.mp hp
    exact .staleRecover hrest
  | strandedReopen m =>
    obtain ⟨p, hp, rfl⟩ := Option.map_eq_some_iff.mp hx
    obtain ⟨rest, hrest⟩ := List.head?_eq_some_iff.mp hp
    exact .strandedReopen hrest
  | cleanupExpiredEndpointSecrets =>
    cases hx
    exact .cleanupExpiredEndpointSecrets
  | cleanupPublishedOutboxRows =>
    cases hx
    exact .cleanupPublishedOutboxRows
  | cleanupOldEvents =>
    cases hx
    exact .cleanupOldEvents
  | replayReset q =>
    obtain ⟨d, hq, rfl⟩ := Option.map_eq_some_iff.mp hx
    exact .replayReset hq
  | setEndpointActive e b =>
    cases hx
    exact .setEndpointActive
  | _ => cases hx

theorem cutoff_of_txn {a : Act} {d n : Nat} {cutoff : Time}
    (hx : s.txn cfg a = some (.recoverStaleDelivery d n cutoff)) : ∃ m, (s.staleScans m).cutoff = cutoff := by
  cases attempts_of_txn hx with
  | staleRecover _ => exact ⟨_, rfl⟩

theorem Step.settle_ends {w delayMs : Nat} {k : Task} {t : System}
    (h : Step cfg s (.settle w delayMs) t) (hw : s.workers w = some k)
    (hok : s.ok cfg (.settle w delayMs) = true) :
    t.workers w = some { k with point := .ended true } := by
  cases h with
  | settle hw' hp' =>
    rw [hw] at hw'
    cases hw'
    simp [settled, hok]

theorem Step.linked {a : Act} {t : System} (h : Step cfg s a t) (hl : s.db.Linked) : t.db.Linked := by
  rw [h.db]
  rcases s.store_cases cfg a with he | ⟨x, _, _, hx⟩
  · rw [he]
    exact hl
  · exact hl.apply hx

end System

theorem System.boot_linked (u : Setup) : (System.boot u).db.Linked :=
  ⟨fun _ _ h => (by cases h), fun _ _ h => (by cases h), fun _ _ h => (by cases h)⟩

end WebhookEngine
