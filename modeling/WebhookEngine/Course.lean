import WebhookEngine.EventAgreement
import WebhookEngine.History
import WebhookEngine.Specification
import WebhookEngine.Tokens

/-! Orderly runs: one worker, no crash, no loss. Where every delivery stands between two
steps of such a run, and how far its fate has been decided. -/

namespace WebhookEngine

open Relational

def requestsOf (d : Nat) (es : List Entry) : Nat := (requests es).countP fun c => c.deliveryId == d

/-- Jobs run on one worker, and nothing crashes, gets lost, is replayed, (de)activated,
recovered as stale or removed by age. -/
def Act.orderly : Act → Bool
  | .take w _ => w == 0
  | .crash _ => false
  | .lose _ => false
  | .staleRecover _ => false
  | .cleanupOldEvents => false
  | .replayReset _ => false
  | .setEndpointActive _ _ => false
  | _ => true

def Act.answer? : Act → Option (Nat × SendResult)
  | .answer w result => some (w, result)
  | _ => none

def Answered (answers : Nat → Nat → SendResult) (s : System) (a : Act) (_ : System) : Prop :=
  ∀ p ∈ a.answer?, ∀ k ∈ s.workers p.1, p.2 = answers k.deliveryId (requestsOf k.deliveryId s.trace)

instance (answers : Nat → Nat → SendResult) (s : System) (a : Act) (t : System) :
    Decidable (Answered answers s a t) :=
  inferInstanceAs (Decidable (∀ p ∈ a.answer?, ∀ k ∈ s.workers p.1, _))

/-- After `n` requests another one may be made, and the fate is still to come. -/
def Continues (cfg : Config) (answers : Nat → SendResult) (n : Nat) : Prop :=
  n < cfg.maxAttempts ∧ fate answers cfg.maxAttempts 0 = fate answers (cfg.maxAttempts - n) n

/-- Where a delivery stands that no worker has claimed. -/
def Fits (cfg : Config) (answers : Nat → SendResult) (r : Delivery) : Prop :=
  r.status.claimable = true ∧ Continues cfg answers r.attempts ∨
    (r.status = .success ∨ r.status = .dlq) ∧
      fate answers cfg.maxAttempts 0 = (r.status, r.attempts)

structure Holds (cfg : Config) (answers : Nat → Nat → SendResult) (s : System) (k : Task) (c : Claimed)
    (sent : Nat) : Prop where
  same : k.deliveryId = c.delivery.id
  row : ∃ r, s.db.deliveries.row c.delivery.id = some r ∧ r.status = .processing ∧
    r.attempts = c.delivery.row.attempts
  count : ∃ n, c.delivery.row.attempts = n + 1 ∧ Continues cfg (answers c.delivery.id) n ∧
    requestsOf c.delivery.id s.trace = n + sent

/-- What the one worker relies on where it stands. -/
def Stands (cfg : Config) (answers : Nat → Nat → SendResult) (s : System) (k : Task) : Prop :=
  match k.point with
  | .started => True
  | .ended _ => True
  | .cancelling => False
  | .sending c => Holds cfg answers s k c 0
  | .awaiting c => Holds cfg answers s k c 1
  | .settling c result => Holds cfg answers s k c 1 ∧
      result = answers c.delivery.id (requestsOf c.delivery.id s.trace)
  | _ => ∃ r, s.db.deliveries.row k.deliveryId = some r ∧ r.status.claimable = true

def Database.Active (db : Database) (e : Nat) : Prop :=
  ∃ ep, db.endpoints.row e = some ep ∧ ep.isActive = true

structure OnCourse (cfg : Config) (answers : Nat → Nat → SendResult) (s : System) : Prop where
  alone : ∀ w, w ≠ 0 → s.workers w = none
  active : ∀ d r, s.db.deliveries.row d = some r → s.db.Active r.endpointId
  ingests : ∀ c p, s.ingests c = some p → ∀ e ∈ p.2, s.db.Active e
  unborn : ∀ d, s.db.deliveries.next ≤ d → requestsOf d s.trace = 0
  rows : ∀ d r, s.db.deliveries.row d = some r → r.status ≠ .processing →
    Fits cfg (answers d) r ∧ requestsOf d s.trace = r.attempts
  held : ∀ d r, s.db.deliveries.row d = some r → r.status = .processing →
    ∃ k c, s.workers 0 = some k ∧ k.point.claimed? = some c ∧ c.delivery.id = d
  stands : ∀ k, s.workers 0 = some k → Stands cfg answers s k

theorem requestsOf_log {e : Entry} {d : Nat} {es : List Entry} (he : ∀ c, e ≠ .requested c) :
    requestsOf d (e :: es) = requestsOf d es := by
  cases e with
  | requested c => exact absurd rfl (he c)
  | claimed c => rfl
  | reset d => rfl

theorem requestsOf_requested (c : Claim) (d : Nat) (es : List Entry) :
    requestsOf d (.requested c :: es) = requestsOf d es + if c.deliveryId = d then 1 else 0 := by
  simp only [requestsOf, requests, List.filterMap_cons, List.countP_cons, beq_iff_eq]

section Course

variable {cfg : Config} {answers : Nat → Nat → SendResult} {s t : System} {a : Act}

theorem Holds.congr {k : Task} {c : Claimed} {sent : Nat} (hh : Holds cfg answers s k c sent)
    (hd : ∀ d r, s.db.deliveries.row d = some r → t.db.deliveries.row d = some r)
    (ht : t.trace = s.trace) : Holds cfg answers t k c sent := by
  obtain ⟨r, hr, hst, hatt⟩ := hh.row
  exact ⟨hh.same, ⟨r, hd _ r hr, hst, hatt⟩, by rw [ht]; exact hh.count⟩

theorem Stands.congr {k : Task} (hk : Stands cfg answers s k)
    (hd : ∀ d r, s.db.deliveries.row d = some r → t.db.deliveries.row d = some r)
    (ht : t.trace = s.trace) : Stands cfg answers t k := by
  simp only [Stands] at hk ⊢
  split at hk
  · trivial
  · trivial
  · exact hk
  · exact hk.congr hd ht
  · exact hk.congr hd ht
  · exact ⟨hk.1.congr hd ht, by rw [ht]; exact hk.2⟩
  · obtain ⟨r, hr, hcl⟩ := hk
    exact ⟨r, hd _ r hr, hcl⟩

theorem Stands.holds {k : Task} {c : Claimed} (hk : Stands cfg answers s k)
    (hc : k.point.claimed? = some c) : ∃ sent, Holds cfg answers s k c sent := by
  simp only [Stands] at hk
  split at hk
  · rename_i hp
    simp [hp, Point.claimed?] at hc
  · rename_i hp
    simp [hp, Point.claimed?] at hc
  · exact hk.elim
  · rename_i hp
    rw [hp] at hc
    cases hc
    exact ⟨0, hk⟩
  · rename_i hp
    rw [hp] at hc
    cases hc
    exact ⟨1, hk⟩
  · rename_i hp
    rw [hp] at hc
    cases hc
    exact ⟨1, hk.1⟩
  · rename_i hsending hawaiting hsettling
    cases hp : k.point with
    | sending c' => exact absurd hp (hsending c')
    | awaiting c' => exact absurd hp (hawaiting c')
    | settling c' result => exact absurd hp (hsettling c' result)
    | _ => simp [hp, Point.claimed?] at hc

namespace OnCourse

theorem boot (u : Setup) : OnCourse cfg answers (.boot u) where
  alone _ _ := rfl
  active d r hr := by cases hr
  ingests c p hp := by cases hp
  unborn _ _ := rfl
  rows d r hr := by cases hr
  held d r hr := by cases hr
  stands k hk := by cases hk

theorem still (h : OnCourse cfg answers s) (hw : t.workers = s.workers)
    (hd : t.db.deliveries = s.db.deliveries) (he : ∀ e, s.db.Active e → t.db.Active e)
    (hi : ∀ c p, t.ingests c = some p → ∀ e ∈ p.2, s.db.Active e) (ht : t.trace = s.trace) :
    OnCourse cfg answers t where
  alone w hne := by
    rw [hw]
    exact h.alone w hne
  active d r hr := he _ (h.active d r (hd ▸ hr))
  ingests c p hp e hm := he _ (hi c p hp e hm)
  unborn d hge := by
    rw [ht]
    exact h.unborn d (hd ▸ hge)
  rows d r hr hst := by
    rw [ht]
    exact h.rows d r (hd ▸ hr) hst
  held d r hr hst := by
    rw [hw]
    exact h.held d r (hd ▸ hr) hst
  stands k hk := (h.stands k (hw ▸ hk)).congr (fun d r hr => hd ▸ hr) ht

theorem none_processing (h : OnCourse cfg answers s)
    (hfree : ∀ k, s.workers 0 = some k → k.point.claimed? = none) {d : Nat} {r : Delivery}
    (hr : s.db.deliveries.row d = some r) : r.status ≠ .processing := by
  intro hst
  obtain ⟨k, c, hk, hc, _⟩ := h.held d r hr hst
  rw [hfree k hk] at hc
  cases hc

theorem moved (h : OnCourse cfg answers s)
    (hfree : ∀ k, s.workers 0 = some k → k.point.claimed? = none)
    (halone : ∀ w, w ≠ 0 → t.workers w = none) (hdb : t.db = s.db) (hi : t.ingests = s.ingests)
    (ht : t.trace = s.trace) (hstands : ∀ k, t.workers 0 = some k → Stands cfg answers t k) :
    OnCourse cfg answers t where
  alone := halone
  active d r hr := hdb ▸ h.active d r (hdb ▸ hr)
  ingests c p hp e hm := hdb ▸ h.ingests c p (hi ▸ hp) e hm
  unborn d hge := by
    rw [ht]
    exact h.unborn d (hdb ▸ hge)
  rows d r hr hst := by
    rw [ht]
    exact h.rows d r (hdb ▸ hr) hst
  held d r hr hst := absurd hst (h.none_processing hfree (hdb ▸ hr))
  stands := hstands

theorem written (h : OnCourse cfg answers s) {d : Nat} {r : Delivery} {f : Delivery → Delivery}
    (hr : s.db.deliveries.row d = some r)
    (hown : ∀ k c, s.workers 0 = some k → k.point.claimed? = some c → c.delivery.id = d)
    (hd : t.db.deliveries = s.db.deliveries.modify d f) (he : t.db.endpoints = s.db.endpoints)
    (hf : (f r).endpointId = r.endpointId) (hst : (f r).status ≠ .processing)
    (hfits : Fits cfg (answers d) (f r)) (hcount : requestsOf d s.trace = (f r).attempts)
    (halone : ∀ w, w ≠ 0 → t.workers w = none) (hi : t.ingests = s.ingests)
    (ht : t.trace = s.trace) (hstands : ∀ k, t.workers 0 = some k → Stands cfg answers t k) :
    OnCourse cfg answers t := by
  have hactive : ∀ e, s.db.Active e → t.db.Active e := fun e ha => by
    simpa only [Database.Active, he] using ha
  have horigin : ∀ d' r', t.db.deliveries.row d' = some r' →
      d' = d ∧ r' = f r ∨ d' ≠ d ∧ s.db.deliveries.row d' = some r' := by
    intro d' r' hr'
    rw [hd, Table.modify_row] at hr'
    split at hr'
    · rename_i hdd
      rw [hr, Option.map_some, Option.some.injEq] at hr'
      exact .inl ⟨hdd, hr'.symm⟩
    · rename_i hdd
      exact .inr ⟨hdd, hr'⟩
  refine ⟨halone, fun d' r' hr' => ?_, fun c p hp e hm => ?_, fun d' hge => ?_, fun d' r' hr' hst' => ?_,
    fun d' r' hr' hst' => ?_, hstands⟩
  · rcases horigin d' r' hr' with ⟨rfl, rfl⟩ | ⟨_, hold⟩
    · rw [hf]
      exact hactive _ (h.active d' r hr)
    · exact hactive _ (h.active d' r' hold)
  · exact hactive e (h.ingests c p (hi ▸ hp) e hm)
  · rw [hd] at hge
    rw [ht]
    exact h.unborn d' hge
  · rw [ht]
    rcases horigin d' r' hr' with ⟨rfl, rfl⟩ | ⟨_, hold⟩
    · exact ⟨hfits, hcount⟩
    · exact h.rows d' r' hold hst'
  · rcases horigin d' r' hr' with ⟨_, rfl⟩ | ⟨hne, hold⟩
    · exact absurd hst' hst
    · obtain ⟨k, c, hk, hc, hid⟩ := h.held d' r' hold hst'
      exact absurd (hid.symm.trans (hown k c hk hc)) hne

theorem worker (h : OnCourse cfg answers s) {w : Nat} {k : Task} (hw : s.workers w = some k) : w = 0 := by
  by_contra hne
  rw [h.alone w hne] at hw
  cases hw

theorem free {k : Task} (hw : s.workers 0 = some k) (hp : k.point.claimed? = none) :
    ∀ k', s.workers 0 = some k' → k'.point.claimed? = none := by
  intro k' hk'
  rw [hw, Option.some.injEq] at hk'
  exact hk' ▸ hp

theorem goto_alone (h : OnCourse cfg answers s) {v : Option Task} {w : Nat} (hw : w ≠ 0) :
    Function.update s.workers 0 v w = none := by
  rw [Function.update_of_ne hw]
  exact h.alone w hw

theorem take (h : OnCourse cfg answers s) {j : JobId} {job : Job} {q : Queue} (hw : s.workers 0 = none) :
    OnCourse cfg answers { s with
      queue := q
      workers := Function.update s.workers 0 (some ⟨j, job.deliveryId, job.expectedAttempt, .started⟩) } := by
  refine h.moved (fun k hk => ?_) (fun w hne => h.goto_alone hne) rfl rfl rfl fun k hk => ?_
  · rw [hw] at hk
    cases hk
  · simp only [Function.update_self, Option.some.injEq] at hk
    subst hk
    trivial

theorem goto (h : OnCourse cfg answers s) {k : Task} {p : Point} (hw : s.workers 0 = some k)
    (hfree : k.point.claimed? = none) (hp : Stands cfg answers s { k with point := p }) :
    OnCourse cfg answers (s.goto 0 k p) := by
  refine h.moved (free hw hfree) (fun w hne => h.goto_alone hne) rfl rfl rfl fun k' hk' => ?_
  simp only [System.goto_workers, Function.update_self, Option.some.injEq] at hk'
  subst hk'
  exact hp.congr (fun _ _ hr => hr) rfl

theorem find (h : OnCourse cfg answers s) {k : Task} (hw : s.workers 0 = some k)
    (hp : k.point = .started) :
    OnCourse cfg answers (s.goto 0 k (afterFind (s.db.findById k.deliveryId))) := by
  have hfree : k.point.claimed? = none := by rw [hp]; rfl
  refine h.goto hw hfree ?_
  cases hfind : s.db.findById k.deliveryId with
  | none => trivial
  | some delivery =>
    obtain ⟨_, hr, hep, _⟩ := Database.findById_eq_some.mp hfind
    obtain ⟨ep, hep', hactive⟩ := h.active _ _ hr
    rw [hep, Option.some.injEq] at hep'
    subst hep'
    have hno : delivery.row.status ≠ .processing :=
      h.none_processing (free hw hfree) hr
    cases hterm : delivery.row.status.terminal with
    | true => simp [afterFind, hterm, Stands]
    | false =>
      simp only [afterFind, hterm, hactive, Bool.not_true, Bool.false_eq_true, if_false, Stands]
      exact ⟨_, hr, DeliveryStatus.claimable_of_open hterm hno⟩

theorem limit (h : OnCourse cfg answers s) {k : Task} (hw : s.workers 0 = some k)
    (hp : k.point = .limiting) (delayMs : Option Nat) :
    OnCourse cfg answers (s.goto 0 k (afterLimit s.now delayMs)) := by
  have hstands := h.stands k hw
  simp only [Stands, hp] at hstands
  refine h.goto hw (by rw [hp]; rfl) ?_
  cases delayMs <;> exact hstands

theorem defer (h : OnCourse cfg answers s) (hl : s.db.Linked) {k : Task} {at' : Time}
    (hw : s.workers 0 = some k) (hp : k.point = .deferring at') :
    OnCourse cfg answers ((s.store cfg (.defer 0)).goto 0 k (.ended (s.ok cfg (.defer 0)))) := by
  have hstands := h.stands k hw
  simp only [Stands, hp] at hstands
  obtain ⟨r, hr, hcl⟩ := hstands
  have hfree : k.point.claimed? = none := by rw [hp]; rfl
  have hx : s.txn cfg (.defer 0) = some (.markRateLimitedAndSchedule k.deliveryId at' k.expectedAttempt) := by
    simp [System.txn, hw, hp]
  have hsome : ((Txn.markRateLimitedAndSchedule k.deliveryId at' k.expectedAttempt).apply cfg s.now
      s.db).isSome = true := Txn.apply_of_overwrites hl rfl hr
  obtain ⟨db', hdb'⟩ := Option.isSome_iff_exists.mp hsome
  have hstore : (s.store cfg (.defer 0)).db = db' := by simp [hx, hdb']
  obtain ⟨r', hr', hdb⟩ := Database.schedule_eq_some.mp hdb'
  obtain ⟨hfits, hcount⟩ := h.rows k.deliveryId r hr fun hst => by simp [hst] at hcl
  refine h.written (d := k.deliveryId) (f := .rateLimit at') hr (fun k' c hk' hc => ?_) ?_ ?_ rfl
    (by simp [Delivery.rateLimit]) ?_ hcount (fun w hne => h.goto_alone hne) rfl rfl fun k' hk' => ?_
  · rw [free hw hfree k' hk'] at hc
    cases hc
  · simp only [System.goto_db, hstore, ← hdb]
  · simp only [System.goto_db, hstore, ← hdb]
  · rcases hfits with ⟨_, hcont⟩ | ⟨hdone, _⟩
    · exact .inl ⟨rfl, hcont⟩
    · rcases hdone with hst | hst <;> simp [hst] at hcl
  · simp only [System.goto_workers, Function.update_self, Option.some.injEq] at hk'
    subst hk'
    trivial

theorem claimMiss (h : OnCourse cfg answers s) (hl : s.db.Linked) {k : Task}
    (hw : s.workers 0 = some k) (hp : k.point = .claiming)
    (hc : (s.db.claimForProcessing s.now k.deliveryId k.expectedAttempt).2 = none) :
    OnCourse cfg answers ((s.store cfg (.claim 0)).goto 0 k (.ended true)) := by
  have hdb : (s.store cfg (.claim 0)).db = s.db := by
    have hstore : (s.store cfg (.claim 0)).db =
        (s.db.claimForProcessing s.now k.deliveryId k.expectedAttempt).1 := by
      simp [System.txn, hw, Txn.apply]
    rcases Database.claimForProcessing_cases s.now s.db k.deliveryId k.expectedAttempt with
      ⟨_, he⟩ | ⟨r, hr, hclaimable, _⟩
    · rw [hstore, he]
    · obtain ⟨delivery, hsome, _⟩ := hl.claimForProcessing_eq s.now hr hclaimable
      rw [hc] at hsome
      cases hsome
  refine h.moved (free hw (by rw [hp]; rfl)) (fun w hne => h.goto_alone hne) hdb rfl rfl fun k' hk' => ?_
  simp only [System.goto_workers, Function.update_self, Option.some.injEq] at hk'
  subst hk'
  trivial

theorem claimHit (h : OnCourse cfg answers s) (hl : s.db.Linked) {k : Task}
    {delivery : DispatchableDelivery} (hw : s.workers 0 = some k) (hp : k.point = .claiming)
    (hc : (s.db.claimForProcessing s.now k.deliveryId k.expectedAttempt).2 = some delivery) :
    OnCourse cfg answers (s.claimed cfg 0 k delivery) := by
  obtain ⟨r, hr, hclaimable, hid, hrow⟩ := hl.claimable_of_claim hc
  obtain ⟨_, _, _, _, hdb⟩ := hl.claimForProcessing_eq s.now hr hclaimable
  have hstore : (s.claimed cfg 0 k delivery).db =
      (s.db.claimForProcessing s.now k.deliveryId k.expectedAttempt).1 := by
    simp [System.claimed, System.txn, hw, Txn.apply]
  rw [hdb] at hstore
  have hworker : (s.claimed cfg 0 k delivery).workers 0 = some { k with
      point := .sending ⟨delivery, k.expectedAttempt, generation s.trace delivery.id⟩ } := by
    simp [System.claimed]
  have hfree : ∀ k', s.workers 0 = some k' → k'.point.claimed? = none := free hw (by rw [hp]; rfl)
  have hcl : r.status.claimable = true := by
    simp only [Delivery.claimableAs, Bool.and_eq_true] at hclaimable
    exact hclaimable.2
  obtain ⟨hfits, hcount⟩ := h.rows k.deliveryId r hr (h.none_processing hfree hr)
  have hcont : Continues cfg (answers k.deliveryId) r.attempts := by
    rcases hfits with ⟨_, hcont⟩ | ⟨hdone, _⟩
    · exact hcont
    · rcases hdone with hst | hst <;> simp [hst] at hcl
  have htrace : ∀ d, requestsOf d (s.claimed cfg 0 k delivery).trace = requestsOf d s.trace :=
    fun d => requestsOf_log fun c he => by cases he
  have hself : (s.claimed cfg 0 k delivery).db.deliveries.row k.deliveryId = some (r.claim s.now) := by
    simp [hstore, hr]
  have hother : ∀ d r', (s.claimed cfg 0 k delivery).db.deliveries.row d = some r' →
      d = k.deliveryId ∧ r' = r.claim s.now ∨ d ≠ k.deliveryId ∧ s.db.deliveries.row d = some r' := by
    intro d r' hr'
    by_cases hd : d = k.deliveryId
    · subst hd
      rw [hself, Option.some.injEq] at hr'
      exact .inl ⟨rfl, hr'.symm⟩
    · rw [hstore, Table.modify_row_of_ne _ _ hd] at hr'
      exact .inr ⟨hd, hr'⟩
  have hactive : ∀ e, s.db.Active e → (s.claimed cfg 0 k delivery).db.Active e := fun e ha => by
    simpa only [Database.Active, hstore] using ha
  refine ⟨fun w hne => h.goto_alone hne, fun d r' hr' => ?_, fun c p hq e hm => ?_, fun d hge => ?_,
    fun d r' hr' hst => ?_, fun d r' hr' hst => ?_, fun k' hk' => ?_⟩
  · rcases hother d r' hr' with ⟨_, rfl⟩ | ⟨_, hold⟩
    · exact hactive _ (h.active _ r hr)
    · exact hactive _ (h.active d r' hold)
  · exact hactive e (h.ingests c p hq e hm)
  · rw [htrace]
    refine h.unborn d ?_
    rw [hstore] at hge
    exact hge
  · rw [htrace]
    rcases hother d r' hr' with ⟨_, rfl⟩ | ⟨_, hold⟩
    · exact absurd rfl hst
    · exact h.rows d r' hold hst
  · rcases hother d r' hr' with ⟨rfl, _⟩ | ⟨_, hold⟩
    · exact ⟨_, _, hworker, rfl, hid⟩
    · exact absurd hst (h.none_processing hfree hold)
  · rw [hworker, Option.some.injEq] at hk'
    subst hk'
    refine ⟨hid.symm, ⟨r.claim s.now, ?_, rfl, ?_⟩, r.attempts, ?_, ?_, ?_⟩
    · rw [hid]
      exact hself
    · rw [hrow]
    · rw [hrow]
      rfl
    · rw [hid]
      exact hcont
    · rw [htrace, hid]
      exact hcount

theorem carried (h : OnCourse cfg answers s) {k : Task} {c : Claimed} {p : Point} {es : List Entry}
    (hw : s.workers 0 = some k) (hc : k.point.claimed? = some c) (hc' : p.claimed? = some c)
    (hes : ∀ d, d ≠ c.delivery.id → requestsOf d es = requestsOf d s.trace)
    (hp : Stands cfg answers { s.goto 0 k p with trace := es } { k with point := p }) :
    OnCourse cfg answers { s.goto 0 k p with trace := es } := by
  obtain ⟨_, hholds⟩ := (h.stands k hw).holds hc
  obtain ⟨r₀, hr₀, hst₀, _⟩ := hholds.row
  refine ⟨fun w hne => h.goto_alone hne, h.active, h.ingests, fun d hge => ?_, fun d r hr hst => ?_,
    fun d r hr hst => ?_, fun k' hk' => ?_⟩
  · have hlt := Table.lt_next hr₀
    have hne : d ≠ c.delivery.id := by
      intro he
      exact absurd (he ▸ hge) (Nat.not_le.mpr hlt)
    exact (hes d hne).trans (h.unborn d hge)
  · have hne : d ≠ c.delivery.id := by
      intro he
      subst he
      rw [show s.db.deliveries.row c.delivery.id = some r from hr, Option.some.injEq] at hr₀
      exact hst (hr₀ ▸ hst₀)
    obtain ⟨hfits, hcount⟩ := h.rows d r hr hst
    exact ⟨hfits, (hes d hne).trans hcount⟩
  · obtain ⟨k', c', hk', hcl, hid⟩ := h.held d r hr hst
    rw [hw, Option.some.injEq] at hk'
    rw [← hk', hc, Option.some.injEq] at hcl
    exact ⟨{ k with point := p }, c, by simp, hc', by rw [hcl]; exact hid⟩
  · simp only [System.goto_workers, Function.update_self, Option.some.injEq] at hk'
    subst hk'
    exact hp

theorem send (h : OnCourse cfg answers s) {k : Task} {c : Claimed} (hw : s.workers 0 = some k)
    (hp : k.point = .sending c) :
    OnCourse cfg answers ((s.goto 0 k (.awaiting c)).log (.requested (c.claim 0))) := by
  have hstands := h.stands k hw
  simp only [Stands, hp] at hstands
  refine h.carried hw (by rw [hp]; rfl) rfl (fun d hne => ?_) ⟨hstands.same, hstands.row, ?_⟩
  · have hother : (c.claim 0).deliveryId ≠ d := fun he => hne he.symm
    rw [requestsOf_requested, if_neg hother]
    rfl
  · obtain ⟨n, hn, hcont, hcount⟩ := hstands.count
    refine ⟨n, hn, hcont, ?_⟩
    rw [requestsOf_requested, if_pos (show (c.claim 0).deliveryId = c.delivery.id from rfl)]
    exact congrArg (· + 1) hcount

theorem answer (h : OnCourse cfg answers s) {k : Task} {c : Claimed} {result : SendResult}
    (hw : s.workers 0 = some k) (hp : k.point = .awaiting c)
    (hresult : result = answers k.deliveryId (requestsOf k.deliveryId s.trace)) :
    OnCourse cfg answers (s.goto 0 k (.settling c result)) := by
  have hstands := h.stands k hw
  simp only [Stands, hp] at hstands
  refine h.carried hw (by rw [hp]; rfl) rfl (fun _ _ => rfl)
    ⟨⟨hstands.same, hstands.row, hstands.count⟩, ?_⟩
  rw [← hstands.same]
  exact hresult

end OnCourse

def OutcomeWrite.data : OutcomeWrite → Delivery → Delivery
  | .success statusCode responseSnippet => .succeed statusCode responseSnippet
  | .deadLetter statusCode responseSnippet => .deadLetter statusCode responseSnippet
  | .retry input => .fail input

theorem OutcomeWrite.data_endpointId (o : OutcomeWrite) (r : Delivery) : (o.data r).endpointId = r.endpointId := by
  cases o <;> rfl

theorem OutcomeWrite.data_attempts (o : OutcomeWrite) (r : Delivery) : (o.data r).attempts = r.attempts := by
  cases o <;> rfl

theorem OutcomeWrite.data_status (o : OutcomeWrite) (r : Delivery) : (o.data r).status ≠ .processing := by
  cases o <;> simp [data, Delivery.succeed, Delivery.deadLetter, Delivery.fail]

theorem outcome_applies (cfg : Config) (hl : s.db.Linked) {c : Claimed} (result : SendResult) (delayMs : Nat)
    {r : Delivery} (hr : s.db.deliveries.row c.delivery.id = some r) :
    ∃ db', ((s.outcome cfg c result delayMs).txn c.delivery.id).apply cfg s.now s.db = some db' ∧
      db'.deliveries = s.db.deliveries.modify c.delivery.id (s.outcome cfg c result delayMs).data ∧
      db'.endpoints = s.db.endpoints := by
  cases ho : s.outcome cfg c result delayMs with
  | success code snippet =>
    have hsome : ((Txn.markSuccess c.delivery.id code snippet).apply cfg s.now s.db).isSome = true :=
      Txn.apply_of_overwrites hl rfl hr
    obtain ⟨db', hdb'⟩ := Option.isSome_iff_exists.mp hsome
    obtain ⟨_, _, _, rfl⟩ := Database.settle_eq_some.mp hdb'
    exact ⟨_, hdb', rfl, rfl⟩
  | deadLetter code snippet =>
    have hsome : ((Txn.markDeadLetter c.delivery.id code snippet).apply cfg s.now s.db).isSome = true :=
      Txn.apply_of_overwrites hl rfl hr
    obtain ⟨db', hdb'⟩ := Option.isSome_iff_exists.mp hsome
    obtain ⟨_, _, _, rfl⟩ := Database.settle_eq_some.mp hdb'
    exact ⟨_, hdb', rfl, rfl⟩
  | retry input =>
    have hid : input.id = c.delivery.id := (outcomeWrite_retry ho).1
    rw [← hid] at hr ⊢
    have hsome : ((Txn.markFailedAndSchedule input).apply cfg s.now s.db).isSome = true :=
      Txn.apply_of_overwrites hl rfl hr
    obtain ⟨db', hdb'⟩ := Option.isSome_iff_exists.mp hsome
    obtain ⟨_, _, rfl⟩ := Database.schedule_eq_some.mp hdb'
    exact ⟨_, hdb', rfl, rfl⟩

theorem outcome_fits {ans : Nat → SendResult} {delivery : DispatchableDelivery} {n : Nat} {r : Delivery}
    (at' : Time) (hc : Continues cfg ans n) (hd : delivery.row.attempts = n + 1) (hr : r.attempts = n + 1) :
    Fits cfg ans ((outcomeWrite cfg delivery at' (ans (n + 1))).data r) := by
  obtain ⟨hlt, hfate⟩ := hc
  obtain ⟨m, hm⟩ : ∃ m, cfg.maxAttempts - n = m + 1 := ⟨cfg.maxAttempts - n - 1, by omega⟩
  rw [hm] at hfate
  cases hans : ans (n + 1) with
  | resolved status data =>
    have hdone : fate ans (m + 1) n = (.success, n + 1) := by simp [fate, hans, SendResult.verdict]
    exact .inr ⟨.inl rfl, by rw [hfate, hdone, OutcomeWrite.data_attempts, hr]; rfl⟩
  | rejected e =>
    cases hretry : isRetryable e.statusCode with
    | false =>
      have hdead : fate ans (m + 1) n = (.dlq, n + 1) := by simp [fate, hans, verdict_rejected hretry]
      simp only [outcomeWrite, hretry, Bool.not_false, Bool.or_true, if_true]
      exact .inr ⟨.inr rfl, by rw [hfate, hdead, OutcomeWrite.data_attempts, hr]; rfl⟩
    | true =>
      have hnext : fate ans (m + 1) n = fate ans m (n + 1) := by
        simp [fate, hans, (verdict_retryable_iff e).mpr hretry]
      by_cases hlast : n + 1 ≥ cfg.maxAttempts
      · have hm0 : m = 0 := by omega
        subst hm0
        simp only [outcomeWrite, hd, hlast, decide_true, Bool.true_or, if_true]
        exact .inr ⟨.inr rfl, by rw [hfate, hnext, OutcomeWrite.data_attempts, hr]; rfl⟩
      · have hleft : cfg.maxAttempts - (n + 1) = m := by omega
        simp only [outcomeWrite, hd, hlast, hretry, decide_false, Bool.not_true, Bool.or_self, Bool.false_eq_true,
          if_false]
        refine .inl ⟨rfl, ?_, ?_⟩
        · rw [OutcomeWrite.data_attempts, hr]
          omega
        · rw [OutcomeWrite.data_attempts, hr, hleft, hfate, hnext]

namespace OnCourse

theorem settle (h : OnCourse cfg answers s) (hl : s.db.Linked) {k : Task} {c : Claimed} {result : SendResult}
    {delayMs : Nat} (hw : s.workers 0 = some k) (hp : k.point = .settling c result) :
    OnCourse cfg answers (s.settled cfg 0 k c result delayMs) := by
  have hstands := h.stands k hw
  simp only [Stands, hp] at hstands
  obtain ⟨hholds, hresult⟩ := hstands
  obtain ⟨r, hr, _, hatt⟩ := hholds.row
  obtain ⟨n, hn, hcont, hcount⟩ := hholds.count
  have hx : s.txn cfg (.settle 0 delayMs) = some ((s.outcome cfg c result delayMs).txn c.delivery.id) := by
    simp [System.txn, hw, hp]
  obtain ⟨db', happ, hdeliveries, hendpoints⟩ :=
    outcome_applies cfg hl result delayMs hr
  have hok : s.ok cfg (.settle 0 delayMs) = true := by simp [System.ok, hx, happ]
  have hdb : (s.settled cfg 0 k c result delayMs).db = db' := by simp [System.settled, hx, happ]
  have hworker : (s.settled cfg 0 k c result delayMs).workers 0 = some { k with point := .ended true } := by
    simp [System.settled, hok]
  refine h.written (d := c.delivery.id) (f := (s.outcome cfg c result delayMs).data) hr
    (fun k' c' hk' hc' => ?_) (by rw [hdb, hdeliveries]) (by rw [hdb, hendpoints])
    (OutcomeWrite.data_endpointId _ r) (OutcomeWrite.data_status _ r) ?_ ?_
    (fun w hne => h.goto_alone hne) rfl rfl fun k' hk' => ?_
  · rw [hw, Option.some.injEq] at hk'
    rw [← hk', hp] at hc'
    cases hc'
    rfl
  · rw [hcount] at hresult
    rw [System.outcome, hresult]
    exact outcome_fits _ hcont hn (hatt.trans hn)
  · rw [OutcomeWrite.data_attempts, hcount, hatt, hn]
  · rw [hworker, Option.some.injEq] at hk'
    subst hk'
    trivial

theorem finish (h : OnCourse cfg answers s) {k : Task} {ok : Bool} (hw : s.workers 0 = some k)
    (hp : k.point = .ended ok) : OnCourse cfg answers (s.retire 0 k.job ok) := by
  refine h.moved (free hw (by rw [hp]; rfl)) (fun w hne => h.goto_alone hne) rfl rfl rfl fun k' hk' => ?_
  simp at hk'

end OnCourse

/-- The transactions that write no delivery and no endpoint's activity. -/
def Txn.aside : Txn → Bool
  | .markPublished _ => true
  | .recordPublishError _ _ => true
  | .reopenOutbox _ _ => true
  | .cleanupExpiredEndpointSecrets => true
  | .cleanupPublishedOutboxRows => true
  | _ => false

theorem Txn.apply_aside {now : Time} {db db' : Database} {x : Txn} (hx : x.aside = true)
    (h : x.apply cfg now db = some db') :
    db'.deliveries = db.deliveries ∧ ∀ e, db.Active e → db'.Active e := by
  have outbox : ∀ (id : Nat) (f : DeliveryOutbox → DeliveryOutbox), db.updateOutbox id f = some db' →
      db'.deliveries = db.deliveries ∧ ∀ e, db.Active e → db'.Active e := by
    intro id f hf
    obtain ⟨_, _, rfl⟩ := Database.updateOutbox_eq_some.mp hf
    exact ⟨rfl, fun _ ha => ha⟩
  cases x with
  | markPublished id => exact outbox id _ h
  | recordPublishError id message => exact outbox id _ h
  | reopenOutbox id state => exact outbox id _ h
  | cleanupExpiredEndpointSecrets =>
    cases h
    refine ⟨rfl, fun e ⟨ep, hep, hactive⟩ => ?_⟩
    refine ⟨ep.dropExpiredSecret now, by simp [Database.cleanupExpiredEndpointSecrets, hep], ?_⟩
    simp only [Endpoint.dropExpiredSecret]
    split
    · exact hactive
    · exact hactive
  | cleanupPublishedOutboxRows =>
    cases h
    exact ⟨rfl, fun _ ha => ha⟩
  | _ => cases hx

theorem store_aside (hx : ∀ x ∈ s.txn cfg a, x.aside = true) :
    (s.store cfg a).db.deliveries = s.db.deliveries ∧
      ∀ e, s.db.Active e → (s.store cfg a).db.Active e := by
  rcases s.store_cases cfg a with he | ⟨x, hx', _, happ⟩
  · rw [he]
    exact ⟨rfl, fun _ ha => ha⟩
  · exact Txn.apply_aside (hx x hx') happ

theorem active_of_subscribed {db : Database} {input : CreateWebhookEventInput} {endpointIds : List Nat}
    (h : db.subscribedEndpoints input = some endpointIds) {e : Nat} (he : e ∈ endpointIds) : db.Active e := by
  simp only [Database.subscribedEndpoints, Option.map_eq_some_iff] at h
  obtain ⟨_, _, rfl⟩ := h
  simp only [List.mem_map, Prod.exists, exists_and_right, exists_eq_right] at he
  obtain ⟨ep, hep⟩ := he
  obtain ⟨hrow, hc⟩ := Table.mem_select.mp hep
  simp only [Bool.and_eq_true] at hc
  exact ⟨ep, hrow, hc.1.2⟩

namespace OnCourse

theorem ingestRead (h : OnCourse cfg answers s) {c : Nat} {input : CreateWebhookEventInput}
    {endpointIds : List Nat} (hread : s.db.subscribedEndpoints input = some endpointIds) :
    OnCourse cfg answers (s.setIngest c (some (input, endpointIds))) := by
  refine h.still rfl rfl (fun _ ha => ha) (fun c' p hp e he => ?_) rfl
  by_cases hc : c' = c
  · subst hc
    simp only [System.setIngest_ingests, Function.update_self, Option.some.injEq] at hp
    subst hp
    exact active_of_subscribed hread he
  · simp only [System.setIngest_ingests, Function.update_of_ne hc] at hp
    exact h.ingests c' p hp e he

theorem created (h : OnCourse cfg answers s) {input : CreateWebhookEventInput} {endpointIds : List Nat}
    {db' : Database} (hcreate : s.db.createForTenant s.now input endpointIds = some db')
    (hactive : ∀ e ∈ endpointIds, s.db.Active e) : OnCourse cfg answers { s with db := db' } := by
  obtain ⟨_, _, _, rfl⟩ := Txn.createForTenant_eq_some.mp hcreate
  have hcommit : (Txn.createForTenant input endpointIds).apply cfg s.now s.db = some _ := hcreate
  have hb := Txn.deliveries_becomes hcommit
  have hnew : ∀ d r, (s.db.deliveries.insertAll (endpointIds.map (.created s.now s.db.events.next))).row d = some r →
      s.db.deliveries.row d = some r ∨ s.db.deliveries.next ≤ d ∧ ∃ e ∈ endpointIds,
        r = .created s.now s.db.events.next e := by
    intro d r hr
    rcases hb.origin hr with ⟨r₀, hold, _, rfl⟩ | ⟨hge, hget⟩
    · exact .inl hold
    · simp only [Txn.created, List.getElem?_map, Option.map_eq_some_iff] at hget
      obtain ⟨e, he, rfl⟩ := hget
      exact .inr ⟨hge, e, List.mem_of_getElem? he, rfl⟩
  refine ⟨h.alone, fun d r hr => ?_, h.ingests, fun d hge => ?_, fun d r hr hst => ?_,
    fun d r hr hst => ?_, fun k hk => ?_⟩
  · rcases hnew d r hr with hold | ⟨_, e, he, rfl⟩
    · exact h.active d r hold
    · exact hactive e he
  · exact h.unborn d (hb.next_le.trans hge)
  · rcases hnew d r hr with hold | ⟨hge, e, _, rfl⟩
    · exact h.rows d r hold hst
    · exact ⟨.inl ⟨rfl, cfg.maxAttempts_pos, rfl⟩, h.unborn d hge⟩
  · rcases hnew d r hr with hold | ⟨_, e, _, rfl⟩
    · exact h.held d r hold hst
    · cases hst
  · exact (h.stands k hk).congr (fun d r hr => hb.kept hr rfl) rfl

theorem ingestCommit (h : OnCourse cfg answers s) {c : Nat} {p : CreateWebhookEventInput × List Nat}
    (hc : s.ingests c = some p) :
    OnCourse cfg answers ((s.store cfg (.ingestCommit c)).setIngest c none) := by
  have hstore : OnCourse cfg answers (s.store cfg (.ingestCommit c)) := by
    have hx : s.txn cfg (.ingestCommit c) = some (.createForTenant p.1 p.2) := by simp [System.txn, hc]
    cases happ : s.db.createForTenant s.now p.1 p.2 with
    | none =>
      have hsame : (s.store cfg (.ingestCommit c)).db = s.db := by simp [hx, Txn.apply, happ]
      exact h.still rfl (by rw [hsame]) (fun _ ha => hsame ▸ ha) h.ingests rfl
    | some db' =>
      have hdb : (s.store cfg (.ingestCommit c)).db = db' := by simp [hx, Txn.apply, happ]
      have hcreated := h.created happ (h.ingests c p hc)
      rw [← hdb] at hcreated
      exact hcreated
  refine hstore.still rfl rfl (fun _ ha => ha) (fun c' p' hp' => ?_) rfl
  by_cases hcc : c' = c
  · subst hcc
    simp at hp'
  · simp only [System.setIngest_ingests, Function.update_of_ne hcc] at hp'
    exact hstore.ingests c' p' hp'

theorem step (h : OnCourse cfg answers s) (hl : s.db.Linked) (ht : s.Step cfg a t) (ha : a.orderly = true)
    (hanswered : Answered answers s a t) : OnCourse cfg answers t := by
  have still : ∀ {t : System}, t.workers = s.workers → t.db = s.db → t.ingests = s.ingests →
      t.trace = s.trace → OnCourse cfg answers t := fun hw hdb hi htr =>
    h.still hw (by rw [hdb]) (fun _ ha => hdb ▸ ha) (fun c p hp => h.ingests c p (hi ▸ hp)) htr
  have aside : ∀ {t : System}, (∀ x ∈ s.txn cfg a, x.aside = true) → t.workers = s.workers →
      t.db = (s.store cfg a).db → t.ingests = s.ingests → t.trace = s.trace →
      OnCourse cfg answers t := by
    intro t hx hw hdb hi htr
    obtain ⟨hd, hactive⟩ := store_aside hx
    exact h.still hw (by rw [hdb, hd]) (fun e ha => hdb ▸ hactive e ha)
      (fun c p hp => h.ingests c p (hi ▸ hp)) htr
  cases ht with
  | tick => exact still rfl rfl rfl rfl
  | ingestRead _ hread => exact h.ingestRead hread
  | ingestCommit hc => exact h.ingestCommit hc
  | publishRead => exact still rfl rfl rfl rfl
  | publishAdd => exact still rfl rfl rfl rfl
  | publishMark => exact aside (by simp +contextual [System.txn, Txn.aside]) rfl rfl rfl rfl
  | publishError => exact aside (by simp +contextual [System.txn, Txn.aside]) rfl rfl rfl rfl
  | take hw =>
    simp only [Act.orderly, beq_iff_eq] at ha
    subst ha
    exact h.take hw
  | find hw hp =>
    obtain rfl := h.worker hw
    exact h.find hw hp
  | cancel hw hp =>
    obtain rfl := h.worker hw
    have hstands := h.stands _ hw
    simp only [Stands, hp] at hstands
  | limit hw hp =>
    obtain rfl := h.worker hw
    exact h.limit hw hp _
  | defer hw hp =>
    obtain rfl := h.worker hw
    exact h.defer hl hw hp
  | claimMiss hw hp hc =>
    obtain rfl := h.worker hw
    exact h.claimMiss hl hw hp hc
  | claimHit hw hp hc =>
    obtain rfl := h.worker hw
    exact h.claimHit hl hw hp hc
  | send hw hp =>
    obtain rfl := h.worker hw
    exact h.send hw hp
  | answer hw hp =>
    obtain rfl := h.worker hw
    exact h.answer hw hp (hanswered _ rfl _ hw)
  | settle hw hp =>
    obtain rfl := h.worker hw
    exact h.settle hl hw hp
  | finish hw hp =>
    obtain rfl := h.worker hw
    exact h.finish hw hp
  | crash => cases ha
  | staleSelect => exact still rfl rfl rfl rfl
  | staleRecover => cases ha
  | strandedSelect => exact still rfl rfl rfl rfl
  | strandedInspect => exact still rfl rfl rfl rfl
  | strandedReopen =>
    refine aside (fun x hx => ?_) rfl rfl rfl rfl
    cases System.attempts_of_txn hx with
    | strandedReopen => rfl
  | cleanupExpiredEndpointSecrets => exact aside (by simp [System.txn, Txn.aside]) rfl rfl rfl rfl
  | cleanupPublishedOutboxRows => exact aside (by simp [System.txn, Txn.aside]) rfl rfl rfl rfl
  | cleanupOldEvents => cases ha
  | replayRead => exact still rfl rfl rfl rfl
  | replayReset => cases ha
  | replayMiss => cases ha
  | setEndpointActive => cases ha
  | duplicate => exact still rfl rfl rfl rfl
  | foreign => exact still rfl rfl rfl rfl
  | evict => exact still rfl rfl rfl rfl
  | lose => cases ha

/-- A write that leaves its delivery unfinished finds it waiting, or claimed at the attempt
before the one it schedules. -/
theorem unfinished (h : OnCourse cfg answers s) {x : Txn} {d : Nat} {st : DeliveryStatus}
    (hx : s.txn cfg a = some x) (hp : x.overwrites = some (d, st)) (hst : st.terminal = false) {r : Delivery}
    (hr : s.db.deliveries.row d = some r) :
    r.status.claimable = true ∨
      r.status = .processing ∧ ∃ o ∈ x.scheduled s.now s.db, o.attemptNumber = r.attempts + 1 := by
  cases x with
  | markFailedAndSchedule input =>
    cases hp
    cases System.attempts_of_txn hx with
    | retry hw hpt ho =>
      obtain rfl := h.worker hw
      have hstands := h.stands _ hw
      simp only [Stands, hpt] at hstands
      obtain ⟨r', hr', hst', hatt⟩ := hstands.1.row
      obtain ⟨hid, hnext, _⟩ := outcomeWrite_retry ho
      rw [← hid, hr, Option.some.injEq] at hr'
      subst hr'
      refine .inr ⟨hst', _, List.mem_singleton_self _, ?_⟩
      rw [hatt]
      exact hnext
  | markRateLimitedAndSchedule id at' n =>
    cases hp
    cases System.attempts_of_txn hx with
    | defer hw hpt =>
      obtain rfl := h.worker hw
      have hstands := h.stands _ hw
      simp only [Stands, hpt] at hstands
      obtain ⟨r', hr', hcl⟩ := hstands
      rw [hr, Option.some.injEq] at hr'
      exact .inl (hr' ▸ hcl)
  | markSuccess id code snippet =>
    cases hp
    cases hst
  | markDeadLetter id code snippet =>
    cases hp
    cases hst
  | markCancelled id reason =>
    cases hp
    cases hst
  | _ => cases hp

theorem schedulesNext (h : OnCourse cfg answers s) : SchedulesNext cfg s a t := by
  rintro x hx ⟨d, st⟩ hp hcl r hr
  have hst : st.terminal = false := by
    rcases DeliveryStatus.claimable_iff.mp hcl with he | he <;> simp only at he <;> rw [he] <;> rfl
  rcases h.unfinished hx hp hst hr with hc | ⟨_, hnext⟩
  · exact .inl hc
  · exact .inr hnext

theorem defersOpen (h : OnCourse cfg answers s) : DefersOpen cfg s a t := by
  rintro x hx ⟨d, st⟩ hp hst r hr
  refine ⟨r.status, Database.mem_statuses.mpr ⟨d, r, hr, rfl, rfl⟩, ?_⟩
  rcases h.unfinished hx hp hst hr with hc | ⟨hprocessing, _⟩
  · rcases DeliveryStatus.claimable_iff.mp hc with he | he <;> rw [he] <;> rfl
  · rw [hprocessing]
    rfl

end OnCourse

def Busy (s : System) : Prop :=
  ∀ w k, s.workers w = some k → ∃ job, s.queue k.job = some job ∧ job.unfinished = true

theorem Act.orderly.keeps (ha : a.orderly = true) (j : JobId) : a ≠ .lose j := by
  rintro rfl
  cases ha

theorem Busy.step (hb : Busy s) (h : OnCourse cfg answers s) (ht : s.Step cfg a t) (ha : a.orderly = true) :
    Busy t := by
  intro w k' hw'
  obtain ⟨job, hj, hu⟩ : ∃ job, s.queue k'.job = some job ∧ job.unfinished = true := by
    rcases ht.task_origin hw' with ⟨k, hw, hjob, _⟩ | ⟨job, _, _, hq, hu, _⟩
    · exact hjob ▸ hb w k hw
    · exact ⟨job, hq, hu⟩
  obtain ⟨job', hj', hu', _⟩ := ht.job_kept (fun j => Act.orderly.keeps ha j) hj hu fun w₀ k ok he hw hp _ => by
    subst he
    obtain rfl := h.worker hw
    rcases ht.task_origin hw' with ⟨k₀, hw₀, _⟩ | ⟨_, hno, _⟩
    · obtain rfl := h.worker hw₀
      cases ht
      simp at hw'
    · cases hno
  exact ⟨job', hj', hu'⟩

end Course

end WebhookEngine
