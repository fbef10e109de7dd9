import WebhookEngine.Tokens
import WebhookEngine.RowShape
import Mathlib.Data.Prod.Lex

/-! Whether the pipeline can still finish. From every state in which no delivery is stranded, one
worker, one publisher and one recovery pass can bring all deliveries to an end, whatever the other
processes have left behind. -/

namespace WebhookEngine

open Relational

/-- The operations of one worker, one publisher and one recovery pass, when no limit is hit and
every request is answered. -/
def Act.serves (w p m : Nat) : Act → Bool
  | .tick _ => true
  | .publishRead q _ => q == p
  | .publishAdd q => q == p
  | .publishMark q => q == p
  | .staleSelect n _ => n == m
  | .staleRecover n => n == m
  | .take v _ => v == w
  | .find v => v == w
  | .cancel v => v == w
  | .limit v delayMs => v == w && delayMs.isNone
  | .claim v => v == w
  | .send v => v == w
  | .answer v (.resolved _ _) => v == w
  | .settle v _ => v == w
  | .finish v => v == w
  | _ => false

def DeliveryStatus.EndsWell (st : DeliveryStatus) : Prop := st = .success ∨ st = .cancelled

theorem DeliveryStatus.EndsWell.terminal {st : DeliveryStatus} (h : st.EndsWell) : st.terminal = true := by
  rcases h with rfl | rfl <;> rfl

/-- A delivery that had ended is the same, and one that was open has not ended in failure. -/
def Delivery.Served (r r' : Delivery) : Prop :=
  r' = r ∨ r.status.terminal = false ∧ (r'.status.terminal = true → r'.status.EndsWell)

namespace Delivery.Served

variable {r r' r'' : Delivery}

theorem trans (h : r.Served r') (h' : r'.Served r'') : r.Served r'' := by
  rcases h with rfl | ⟨hopen, hend⟩
  · exact h'
  · rcases h' with rfl | ⟨_, hend'⟩
    · exact .inr ⟨hopen, hend⟩
    · exact .inr ⟨hopen, hend'⟩

theorem eq_of_terminal (h : r.Served r') (hr : r.status.terminal = true) : r' = r := by
  rcases h with rfl | ⟨hopen, _⟩
  · rfl
  · rw [hr] at hopen
    cases hopen

end Delivery.Served

/-- A transaction ends a delivery only by overwriting it. -/
theorem Txn.rewrite_open {x : Txn} {now : Time} {d : Nat} {r : Delivery} (hr : r.status.terminal = false)
    (hend : (x.rewrite now d r).status.terminal = true) :
    ∃ st, x.overwrites = some (d, st) ∧ (x.rewrite now d r).status = st := by
  generalize hq : x.rewrite now d r = q at hend
  cases hq ▸ x.rewrites now d r with
  | same =>
    rw [hr] at hend
    cases hend
  | overwrite h hst => exact ⟨_, h, hst⟩
  | claim | recover | reset => cases hend

namespace System

variable {cfg : Config} {s t v : System} {a : Act} {w p m : Nat}

/-- The step brings an open delivery to a good end, or overwrites none. -/
def Gentle (cfg : Config) (s : System) (a : Act) : Prop :=
  ∀ x ∈ s.txn cfg a, ∀ q ∈ x.overwrites,
    q.2.EndsWell ∧ ∀ r ∈ s.db.deliveries.row q.1, r.status.terminal = false

theorem gentle_of_none (h : ∀ x ∈ s.txn cfg a, x.overwrites = none) : Gentle cfg s a := by
  intro x hx q hq
  rw [h x hx] at hq
  cases hq

/-- `t` is reached from `s` by these operations, and no delivery that had ended is touched. -/
structure Serves (cfg : Config) (w p m : Nat) (s t : System) : Prop where
  run : ∃ bs, (∀ b ∈ bs, b.serves w p m = true) ∧ Transition.run (step cfg) s bs = some t
  sound : Sound s → Sound t
  shaped : s.db.RowsWellFormed → t.db.RowsWellFormed
  kept : ∀ d r, s.db.deliveries.row d = some r →
    ∃ r', t.db.deliveries.row d = some r' ∧ r.Served r'
  origin : ∀ d r', t.db.deliveries.row d = some r' → ∃ r, s.db.deliveries.row d = some r

namespace Serves

theorem refl (s : System) : Serves cfg w p m s s where
  run := ⟨[], by simp, rfl⟩
  sound h := h
  shaped h := h
  kept _ r h := ⟨r, h, .inl rfl⟩
  origin _ r' h := ⟨r', h⟩

theorem trans (h : Serves cfg w p m s t) (h' : Serves cfg w p m t v) : Serves cfg w p m s v where
  run := by
    obtain ⟨bs, hbs, hrun⟩ := h.run
    obtain ⟨bs', hbs', hrun'⟩ := h'.run
    refine ⟨bs ++ bs', fun b hb => ?_, Transition.run_append_of hrun hrun'⟩
    exact (List.mem_append.mp hb).elim (hbs b) (hbs' b)
  sound hs := h'.sound (h.sound hs)
  shaped hs := h'.shaped (h.shaped hs)
  kept d r hr := by
    obtain ⟨r', hr', hsame⟩ := h.kept d r hr
    obtain ⟨r'', hr'', hsame'⟩ := h'.kept d r' hr'
    exact ⟨r'', hr'', hsame.trans hsame'⟩
  origin d r' hr' := by
    obtain ⟨r, hr⟩ := h'.origin d r' hr'
    exact h.origin d r hr

/-- What a transaction of these operations is not. -/
theorem txn_cases {x : Txn} (ha : a.serves w p m = true) (hx : s.txn cfg a = some x) :
    x ≠ .cleanupOldEvents ∧ x.created s.now s.db = [] ∧ x.resets = none := by
  cases attempts_of_txn hx with
  | ingestCommit | publishError | defer | strandedReopen | cleanupExpiredEndpointSecrets |
    cleanupPublishedOutboxRows | cleanupOldEvents | replayReset | setEndpointActive => cases ha
  | _ => exact ⟨by simp, rfl, rfl⟩

theorem of_step (h : s.step cfg a = some t) (ha : a.serves w p m = true) (hg : Gentle cfg s a) :
    Serves cfg w p m s t := by
  have hstep : s.Step cfg a t := .of_step h
  have hlose : ∀ j, a ≠ .lose j := by
    rintro j rfl
    cases ha
  have hnext : SchedulesNext cfg s a t := by
    intro x hx q hq hcl
    rw [DeliveryStatus.claimable_of_terminal (hg x hx q hq).1.terminal] at hcl
    cases hcl
  have hrows : ∀ d, t.db.deliveries.row d = s.db.deliveries.row d ∨ ∃ x, s.txn cfg a = some x ∧
      t.db.deliveries.row d = (s.db.deliveries.row d).map (x.rewrite s.now d) := by
    intro d
    rw [hstep.db]
    rcases s.store_cases cfg a with he | ⟨x, hx, _, happ⟩
    · exact .inl (by rw [he])
    · obtain ⟨hkeep, hnone, _⟩ := txn_cases ha hx
      refine .inr ⟨x, hx, ?_⟩
      have hbecomes := Txn.deliveries_becomes happ
      rw [hnone] at hbecomes
      cases hr : s.db.deliveries.row d with
      | none =>
        rw [hbecomes.row, hr]
        simp
      | some r =>
        refine hbecomes.kept hr ?_
        cases x with
        | cleanupOldEvents => exact absurd rfl hkeep
        | _ => rfl
  refine ⟨⟨[a], by simpa using ha, by simp [Transition.run, h]⟩, fun hs => hs.step hstep hlose hnext,
    fun hs => hs.step hstep, fun d r hr => ?_, fun d r' hr' => ?_⟩
  · rcases hrows d with heq | ⟨x, hx, heq⟩
    · exact ⟨r, heq.trans hr, .inl rfl⟩
    · refine ⟨x.rewrite s.now d r, by rw [heq, hr, Option.map_some], ?_⟩
      cases hopen : r.status.terminal with
      | true =>
        refine .inl (Txn.rewrite_terminal hopen (fun st hst => ?_) (by rw [(txn_cases ha hx).2.2]; simp))
        rw [(hg x hx _ hst).2 r hr] at hopen
        cases hopen
      | false =>
        refine .inr ⟨hopen, fun hend => ?_⟩
        obtain ⟨st, hover, hst⟩ := Txn.rewrite_open hopen hend
        rw [hst]
        exact (hg x hx _ hover).1
  · rcases hrows d with heq | ⟨x, hx, heq⟩
    · exact ⟨r', heq.symm.trans hr'⟩
    · rw [heq, Option.map_eq_some_iff] at hr'
      obtain ⟨r, hr, _⟩ := hr'
      exact ⟨r, hr⟩

end Serves

/-! ### The rank -/

def openDeliveries (s : System) : Nat := (s.db.deliveries.select fun _ r => !r.status.terminal).length

def underway (s : System) : Nat := (s.db.deliveries.select fun _ r => r.status == .processing).length

def unpublished (s : System) : Nat := (s.db.deliveryOutbox.select fun _ o => o.publishedAt.isNone).length

/-- What is left of the publisher's batch and of the pass. -/
def backlog (p m : Nat) (s : System) : Nat :=
  2 * (s.publishers p).batch.length - (if (s.publishers p).added then 1 else 0) + (s.staleScans m).rest.length

def rank (p m : Nat) (s : System) : Nat ×ₗ Nat ×ₗ Nat ×ₗ Nat :=
  toLex (s.openDeliveries, toLex (s.underway, toLex (s.unpublished, s.backlog p m)))

namespace Serves

theorem openDeliveries_le (h : Serves cfg w p m s t) : t.openDeliveries ≤ s.openDeliveries := by
  refine Table.select_length_le fun d r' hr' hopen => ?_
  obtain ⟨r, hr⟩ := h.origin d r' hr'
  obtain ⟨r'', hr'', hsame⟩ := h.kept d r hr
  rw [hr', Option.some.injEq] at hr''
  subst hr''
  refine ⟨r, hr, ?_⟩
  cases hend : r.status.terminal with
  | false => rfl
  | true => rwa [hsame.eq_of_terminal hend, hend] at hopen

theorem openDeliveries_lt (h : Serves cfg w p m s t) {d : Nat} {r : Delivery} (hr : s.db.deliveries.row d = some r)
    (hopen : r.status.terminal = false) (hend : ∀ r', t.db.deliveries.row d = some r' → r'.status.terminal = true) :
    t.openDeliveries < s.openDeliveries := by
  refine Table.select_length_lt (fun d r' hr' hopen => ?_) hr (by rw [hopen]; rfl)
    (fun r' hr' => by rw [hend r' hr']; rfl)
  obtain ⟨q, hq⟩ := h.origin d r' hr'
  obtain ⟨r'', hr'', hsame⟩ := h.kept d q hq
  rw [hr', Option.some.injEq] at hr''
  subst hr''
  refine ⟨q, hq, ?_⟩
  cases hqend : q.status.terminal with
  | false => rfl
  | true => rwa [hsame.eq_of_terminal hqend, hqend] at hopen

theorem rank_lt_of_open (h : t.openDeliveries < s.openDeliveries) : t.rank p m < s.rank p m :=
  Prod.Lex.toLex_lt_toLex'.mpr ⟨h.le, fun heq => absurd heq h.ne⟩

theorem rank_lt_of_underway (h : Serves cfg w p m s t) (hlt : t.underway < s.underway) : t.rank p m < s.rank p m :=
  Prod.Lex.toLex_lt_toLex'.mpr ⟨h.openDeliveries_le, fun _ =>
    Prod.Lex.toLex_lt_toLex'.mpr ⟨hlt.le, fun heq => absurd heq hlt.ne⟩⟩

theorem rank_lt_of_unpublished (h : Serves cfg w p m s t) (hle : t.underway ≤ s.underway)
    (hlt : t.unpublished < s.unpublished) : t.rank p m < s.rank p m :=
  Prod.Lex.toLex_lt_toLex'.mpr ⟨h.openDeliveries_le, fun _ =>
    Prod.Lex.toLex_lt_toLex'.mpr ⟨hle, fun _ =>
      Prod.Lex.toLex_lt_toLex'.mpr ⟨hlt.le, fun heq => absurd heq hlt.ne⟩⟩⟩

theorem rank_lt_of_backlog (h : Serves cfg w p m s t) (hle : t.underway ≤ s.underway)
    (hle' : t.unpublished ≤ s.unpublished) (hlt : t.backlog p m < s.backlog p m) : t.rank p m < s.rank p m :=
  Prod.Lex.toLex_lt_toLex'.mpr ⟨h.openDeliveries_le, fun _ =>
    Prod.Lex.toLex_lt_toLex'.mpr ⟨hle, fun _ => Prod.Lex.toLex_lt_toLex'.mpr ⟨hle', fun _ => hlt⟩⟩⟩

end Serves

/-! ### What a step wins -/

section Steps

theorem underway_congr (h : t.db.deliveries = s.db.deliveries) : t.underway = s.underway := by
  simp only [underway, h]

theorem unpublished_congr (h : t.db.deliveryOutbox = s.db.deliveryOutbox) : t.unpublished = s.unpublished := by
  simp only [unpublished, h]

/-- The publisher marks its first row, and if that was not published yet, one less is unpublished. -/
theorem exists_mark (cfg : Config) {o : OutboxSnapshot} {rest : List OutboxSnapshot}
    (hbatch : s.publishers p = ⟨o :: rest, true⟩) :
    ∃ t, s.step cfg (.publishMark p) = some t ∧ t.db.deliveries = s.db.deliveries ∧ t.workers = s.workers ∧
      t.backlog p m < s.backlog p m ∧ t.unpublished ≤ s.unpublished ∧
      ∀ row, s.db.deliveryOutbox.row o.id = some row → row.publishedAt = none → t.unpublished < s.unpublished := by
  let t := (s.store cfg (.publishMark p)).setPublisher p ⟨if s.ok cfg (.publishMark p) then rest else [], false⟩
  have hstep : s.step cfg (.publishMark p) = some t := by simp only [step, hbatch, t]
  have hv : t.publishers p = ⟨if s.ok cfg (.publishMark p) then rest else [], false⟩ := Function.update_self ..
  have hlen : (if s.ok cfg (.publishMark p) then rest else []).length ≤ rest.length := by
    split
    · exact le_refl _
    · exact Nat.zero_le _
  have hdb : t.db.deliveries = s.db.deliveries ∧ ((t.db.deliveryOutbox = s.db.deliveryOutbox ∧
      s.db.deliveryOutbox.row o.id = none) ∨
        t.db.deliveryOutbox = s.db.deliveryOutbox.modify o.id (.published s.now)) := by
    have happly : t.db = ((s.db.updateOutbox o.id (.published s.now))).getD s.db := by
      simp only [t, setPublisher_db, store_db, txn, hbatch, List.head?_cons, Option.map_some, Option.bind_some,
        Txn.apply]
    cases hrow : s.db.deliveryOutbox.row o.id with
    | none => simp [happly, Database.updateOutbox, hrow]
    | some row => simp [happly, Database.updateOutbox, hrow]
  have hrows : ∀ i o', t.db.deliveryOutbox.row i = some o' → o'.publishedAt = none →
      s.db.deliveryOutbox.row i = some o' ∧ (i = o.id → s.db.deliveryOutbox.row o.id = none) := by
    intro i o' ho' hnone
    rcases hdb.2 with ⟨heq, hno⟩ | heq <;> rw [heq] at ho'
    · exact ⟨ho', fun _ => hno⟩
    · simp only [Table.modify_row] at ho'
      split at ho'
      · rename_i hi
        simp only [Option.map_eq_some_iff] at ho'
        obtain ⟨o'', _, rfl⟩ := ho'
        cases hnone
      · rename_i hi
        exact ⟨ho', fun heq => absurd heq hi⟩
  refine ⟨t, hstep, hdb.1, rfl, ?_, ?_, fun row hrow hnone => ?_⟩
  · have hsame : t.staleScans = s.staleScans := rfl
    simp only [backlog, hv, hsame, hbatch, List.length_cons, if_true, Bool.false_eq_true, if_false]
    omega
  · refine Table.select_length_le fun i o' ho' hp => ?_
    exact ⟨o', (hrows i o' ho' (Option.isNone_iff_eq_none.mp hp)).1, hp⟩
  · refine Table.select_length_lt (fun i o' ho' hp => ?_) hrow (by rw [hnone]; rfl) (fun o' ho' => ?_)
    · exact ⟨o', (hrows i o' ho' (Option.isNone_iff_eq_none.mp hp)).1, hp⟩
    · cases hp : o'.publishedAt with
      | some _ => rfl
      | none =>
        have hno := (hrows o.id o' ho' hp).2 rfl
        rw [hrow] at hno
        cases hno

/-- The pass takes its first row, and if that was stale, one less is under way. -/
theorem exists_recover (cfg : Config) {q : Nat × Nat} {rest : List (Nat × Nat)}
    (hscan : (s.staleScans m).rest = q :: rest) :
    ∃ t, s.step cfg (.staleRecover m) = some t ∧ t.workers = s.workers ∧ t.publishers = s.publishers ∧
      (t.staleScans m).rest = rest ∧ (t.db = s.db ∨ t.underway < s.underway) ∧
      ∀ r, s.db.deliveries.row q.1 = some r → r.staleBefore (s.staleScans m).cutoff = true →
        t.underway < s.underway := by
  let t := (s.store cfg (.staleRecover m)).setStaleScan m ⟨(s.staleScans m).cutoff, rest⟩
  have hstep : s.step cfg (.staleRecover m) = some t := by simp only [step, hscan, t]
  have hdb : t.db = s.db.recoverStaleDelivery s.now q.1 q.2 (s.staleScans m).cutoff := by
    simp only [t, setStaleScan_db, store_db, txn, hscan, List.head?_cons, Option.map_some, Option.bind_some,
      Txn.apply, Option.getD_some]
  have hv : t.staleScans m = ⟨(s.staleScans m).cutoff, rest⟩ := Function.update_self ..
  have hcases := Database.recoverStaleDelivery_cases s.now s.db q.1 q.2 (s.staleScans m).cutoff
  have hwin : ∀ r, s.db.deliveries.row q.1 = some r → r.staleBefore (s.staleScans m).cutoff = true →
      t.underway < s.underway := by
    intro r hr hstale
    rcases hcases with ⟨hno, _⟩ | ⟨r', hr', _, heq⟩
    · rw [hr, Option.any_some, hstale] at hno
      cases hno
    · have hrows : t.db.deliveries = s.db.deliveries.modify q.1 (Delivery.recover s.now) := by rw [hdb, heq]
      have hst : r.status = .processing := by
        simp only [Delivery.staleBefore, Bool.and_eq_true, beq_iff_eq] at hstale
        exact hstale.1
      refine Table.select_length_lt (fun d r'' hr'' hp => ?_) hr (by simp [hst]) (fun r'' hr'' => ?_)
      · rw [hrows, Table.modify_row] at hr''
        split at hr''
        · obtain ⟨r₀, _, rfl⟩ := Option.map_eq_some_iff.mp hr''
          cases hp
        · exact ⟨r'', hr'', hp⟩
      · rw [hrows, Table.modify_row_self, hr, Option.map_some, Option.some.injEq] at hr''
        subst hr''
        rfl
  refine ⟨t, hstep, rfl, rfl, by rw [hv], ?_, hwin⟩
  rcases hcases with ⟨_, heq⟩ | ⟨r, hr, hstale, _⟩
  · exact .inl (hdb.trans heq)
  · exact .inr (hwin r hr hstale)

/-- A step that overwrites no delivery, with what it wins. -/
theorem Serves.of_plain (h : s.step cfg a = some t) (ha : a.serves w p m = true)
    (hnone : ∀ x ∈ s.txn cfg a, x.overwrites = none) : Serves cfg w p m s t :=
  .of_step h ha (gentle_of_none hnone)

end Steps

/-! ### Progress -/

section Progress

theorem exists_publish_progress (cfg : Config) (hbatch : (s.publishers p).batch ≠ []) :
    ∃ t, Serves cfg w p m s t ∧ t.workers = s.workers ∧ t.rank p m < s.rank p m := by
  obtain ⟨o, rest, hrest⟩ := List.exists_cons_of_ne_nil hbatch
  have hv : s.publishers p = ⟨o :: rest, (s.publishers p).added⟩ := by rw [← hrest]
  cases hadded : (s.publishers p).added with
  | true =>
    rw [hadded] at hv
    obtain ⟨t, hstep, hrows, hworkers, hbacklog, hle, _⟩ := exists_mark cfg hv
    have hserves : Serves cfg w p m s t := .of_plain hstep (by simp [Act.serves]) fun x hx => by
      cases attempts_of_txn hx
      rfl
    exact ⟨t, hserves, hworkers, hserves.rank_lt_of_backlog (underway_congr hrows).le hle hbacklog⟩
  | false =>
    rw [hadded] at hv
    let t := (s.setQueue (s.queue.add (jobId o.id o.attempts) o.deliveryId o.attemptNumber)).setPublisher p
      ⟨o :: rest, true⟩
    have hstep : s.step cfg (.publishAdd p) = some t := by simp only [step, hv, t]
    have hserves : Serves cfg w p m s t := .of_plain hstep (by simp [Act.serves]) fun x hx => by
      cases hx
    refine ⟨t, hserves, rfl, hserves.rank_lt_of_backlog (le_refl _) (le_refl _) ?_⟩
    have hv' : t.publishers p = ⟨o :: rest, true⟩ := Function.update_self ..
    have hsame : t.staleScans = s.staleScans := rfl
    simp only [backlog, hv, hv', hsame, List.length_cons, if_true, Bool.false_eq_true, if_false]
    omega

theorem exists_recover_progress (cfg : Config) (hscan : (s.staleScans m).rest ≠ []) :
    ∃ t, Serves cfg w p m s t ∧ t.workers = s.workers ∧ t.rank p m < s.rank p m := by
  obtain ⟨q, rest, hrest⟩ := List.exists_cons_of_ne_nil hscan
  obtain ⟨t, hstep, hworkers, hpublishers, hrest', hdb, _⟩ := exists_recover cfg hrest
  have hserves : Serves cfg w p m s t := .of_plain hstep (by simp [Act.serves]) fun x hx => by
    cases attempts_of_txn hx
    rfl
  refine ⟨t, hserves, hworkers, ?_⟩
  rcases hdb with heq | hlt
  · refine hserves.rank_lt_of_backlog (underway_congr (by rw [heq])).le (unpublished_congr (by rw [heq])).le ?_
    simp only [backlog, hpublishers, hrest, hrest', List.length_cons]
    omega
  · exact hserves.rank_lt_of_underway hlt

theorem serves_tick (ms : Nat) : Serves cfg w p m s { s with now := s.now + ms } :=
  .of_plain (a := .tick ms) rfl rfl fun x hx => by cases hx

/-- A delivery that is under way goes stale, and the pass takes it first. -/
theorem exists_stale_progress (hshape : s.db.RowsWellFormed) (hscan : (s.staleScans m).rest = []) {d : Nat}
    {r : Delivery} (hr : s.db.deliveries.row d = some r) (hst : r.status = .processing) :
    ∃ t, Serves cfg w p m s t ∧ t.workers = s.workers ∧ t.rank p m < s.rank p m := by
  obtain ⟨claimedAt, _, hstale⟩ := (hshape d r hr).recoverable cfg hst
  let s₁ : System := { s with now := s.now + (claimedAt + cfg.staleDeliveryAge + 1) }
  have hserves₁ : Serves cfg w p m s s₁ := serves_tick _
  have hold : r.staleBefore (s₁.staleCutoff cfg) = true := hstale s₁.now
    (Nat.lt_of_lt_of_le (Nat.lt_succ_self _) (Nat.le_add_left ..))
  obtain ⟨ids, hids⟩ := Table.exists_answers_cons (p := fun _ r => r.staleBefore (s₁.staleCutoff cfg)) 99 hr hold
  let s₂ := s₁.setStaleScan m ⟨s₁.staleCutoff cfg, s₁.db.staleSnapshots (d :: ids)⟩
  have hstep₂ : s₁.step cfg (.staleSelect m (d :: ids)) = some s₂ := if_pos ⟨hscan, hids⟩
  have hserves₂ : Serves cfg w p m s₁ s₂ := .of_plain hstep₂ (by simp [Act.serves]) fun x hx => by cases hx
  have hv : s₂.staleScans m = ⟨s₁.staleCutoff cfg, s₁.db.staleSnapshots (d :: ids)⟩ := Function.update_self ..
  have hrest : (s₂.staleScans m).rest = (d, r.attempts) :: s₁.db.staleSnapshots ids := by
    rw [hv]
    have hrow : s₁.db.deliveries.row d = some r := hr
    simp only [Database.staleSnapshots, List.filterMap_cons, hrow, Option.map_some]
  obtain ⟨t, hstep, hworkers, _, _, _, hwin⟩ := exists_recover cfg hrest
  have hserves : Serves cfg w p m s₂ t := .of_plain hstep (by simp [Act.serves]) fun x hx => by
    cases attempts_of_txn hx
    rfl
  have hlt : t.underway < s₂.underway := hwin r hr (by rw [hv]; exact hold)
  have hall := (hserves₁.trans hserves₂).trans hserves
  exact ⟨t, hall, hworkers, hall.rank_lt_of_underway hlt⟩

/-- A row comes due, and the publisher marks the first one of those that are. -/
theorem exists_row_progress (cfg : Config) (hbatch : (s.publishers p).batch = []) {i : Nat} {o : DeliveryOutbox}
    (ho : s.db.deliveryOutbox.row i = some o) (hnone : o.publishedAt = none) :
    ∃ t, Serves cfg w p m s t ∧ t.workers = s.workers ∧ t.rank p m < s.rank p m := by
  let s₁ : System := { s with now := s.now + o.availableAt }
  have hserves₁ : Serves cfg w p m s s₁ := serves_tick _
  have hdue : Database.publishable s₁.now o = true := by
    simp only [Database.publishable, hnone, Option.isNone_none, Bool.true_and, decide_eq_true_eq]
    exact Nat.le_add_left ..
  obtain ⟨ids, hids⟩ := s₁.db.deliveryOutbox.exists_first_answers (fun _ o => Database.publishable s₁.now o) 100
    DeliveryOutbox.createdAt
  have hbatch₁ : s₁.db.PublishBatch s₁.now ids := hids
  obtain ⟨i', rest, rfl⟩ : ∃ i' rest, ids = i' :: rest := by
    refine List.exists_cons_of_length_pos ?_
    have hmem : (i, o) ∈ s₁.db.deliveryOutbox.select fun _ o => Database.publishable s₁.now o :=
      Table.mem_select.mpr ⟨ho, hdue⟩
    have hpos := List.length_pos_of_mem hmem
    rw [hids.1.2.2]
    omega
  obtain ⟨o', ho', hdue'⟩ : ∃ o', s₁.db.deliveryOutbox.row i' = some o' ∧ Database.publishable s₁.now o' = true :=
    hids.1.row List.mem_cons_self
  have hnone' : o'.publishedAt = none := by
    simp only [Database.publishable, Bool.and_eq_true, Option.isNone_iff_eq_none] at hdue'
    exact hdue'.1
  let head : OutboxSnapshot := ⟨i', o'.deliveryId, o'.attemptNumber, o'.attempts⟩
  have hsnapshots : s₁.db.snapshots (i' :: rest) = head :: s₁.db.snapshots rest := by
    simp only [Database.snapshots, List.filterMap_cons, ho', Option.map_some, head]
  let s₂ := s₁.setPublisher p ⟨head :: s₁.db.snapshots rest, false⟩
  have hstep₂ : s₁.step cfg (.publishRead p (i' :: rest)) = some s₂ := by
    simp only [step, if_pos (And.intro hbatch hbatch₁), hsnapshots, s₂, s₁]
  have hserves₂ : Serves cfg w p m s₁ s₂ := .of_plain hstep₂ (by simp [Act.serves]) fun x hx => by cases hx
  have hv₂ : s₂.publishers p = ⟨head :: s₁.db.snapshots rest, false⟩ := Function.update_self ..
  let s₃ := (s₂.setQueue (s₂.queue.add (jobId i' o'.attempts) o'.deliveryId o'.attemptNumber)).setPublisher p
    ⟨head :: s₁.db.snapshots rest, true⟩
  have hstep₃ : s₂.step cfg (.publishAdd p) = some s₃ := by simp only [step, hv₂, s₃, head]
  have hserves₃ : Serves cfg w p m s₂ s₃ := .of_plain hstep₃ (by simp [Act.serves]) fun x hx => by cases hx
  have hv₃ : s₃.publishers p = ⟨head :: s₁.db.snapshots rest, true⟩ := Function.update_self ..
  obtain ⟨t, hstep, hrows, hworkers, _, _, hlt⟩ := exists_mark (m := m) cfg hv₃
  have hserves : Serves cfg w p m s₃ t := .of_plain hstep (by simp [Act.serves]) fun x hx => by
    cases attempts_of_txn hx
    rfl
  have hall := ((hserves₁.trans hserves₂).trans hserves₃).trans hserves
  exact ⟨t, hall, hworkers, hall.rank_lt_of_unpublished (underway_congr hrows).le (hlt o' ho' hnone')⟩

theorem serves_goto {k : Task} {q : Point} (h : s.step cfg a = some (s.goto w k q)) (ha : a.serves w p m = true)
    (hx : s.txn cfg a = none) : Serves cfg w p m s (s.goto w k q) :=
  .of_plain h ha fun x hx' => by
    rw [hx] at hx'
    cases hx'

/-- The worker ends the delivery it writes, and is free again. -/
theorem exists_ended {k : Task} {d : Nat} {r : Delivery} {x : Txn} {st : DeliveryStatus} (hl : s.db.Linked)
    (hstep : s.step cfg a = some t) (ha : a.serves w p m = true)
    (hx : s.txn cfg a = some x) (hover : x.overwrites = some (d, st)) (hend : st.EndsWell)
    (hr : s.db.deliveries.row d = some r) (hopen : r.status.terminal = false)
    (hworker : t.workers w = some { k with point := .ended true }) :
    ∃ v, Serves cfg w p m s v ∧ v.workers w = none ∧ v.openDeliveries < s.openDeliveries := by
  have hserves : Serves cfg w p m s t := by
    refine .of_step hstep ha fun x' hx' q hq => ?_
    rw [hx, Option.mem_some_iff] at hx'
    subst hx'
    rw [hover, Option.mem_some_iff] at hq
    subst hq
    refine ⟨hend, fun r' hr' => ?_⟩
    rw [hr, Option.mem_some_iff] at hr'
    subst hr'
    exact hopen
  have hfinish : t.step cfg (.finish w) = some (t.retire w k.job true) := by simp only [step, hworker]
  have hserves' : Serves cfg w p m t (t.retire w k.job true) :=
    .of_plain hfinish (by simp [Act.serves]) fun x hx => by cases hx
  have hrow : t.db.deliveries.row d = some (x.rewrite s.now d r) :=
    (Step.of_step hstep).rewritten hx (Txn.apply_of_overwrites hl hover hr) hr (by rintro rfl; cases hover)
  have hall := hserves.trans hserves'
  refine ⟨_, hall, Function.update_self .., hall.openDeliveries_lt hr hopen fun r' hr' => ?_⟩
  rw [retire_db, hrow, Option.some.injEq] at hr'
  rw [← hr', Txn.rewrite_overwrites hover]
  exact hend.terminal

/-- The worker takes the job, finds an inactive endpoint and cancels. -/
theorem exists_cancelled {k : Task} {d : Nat} {r : Delivery} (hl : s.db.Linked) (hk : s.workers w = some k)
    (hp : k.point = .cancelling) (hd : k.deliveryId = d) (hr : s.db.deliveries.row d = some r)
    (hopen : r.status.terminal = false) :
    ∃ v, Serves cfg w p m s v ∧ v.workers w = none ∧ v.openDeliveries < s.openDeliveries := by
  subst hd
  have hx : s.txn cfg (.cancel w) = some (.markCancelled k.deliveryId "Endpoint is inactive") := by
    simp only [txn, hk, Option.map_some]
  have hok : s.ok cfg (.cancel w) = true := by
    simp only [ok, hx, Option.all_some]
    exact Txn.apply_of_overwrites hl rfl hr
  have hstep : s.step cfg (.cancel w) = some ((s.store cfg (.cancel w)).goto w k (.ended true)) := by
    simp only [step, hk, hp, if_true, hok]
  exact exists_ended hl hstep (by simp [Act.serves]) hx rfl (.inr rfl) hr hopen (Function.update_self ..)

/-- The worker claims the attempt, sends the request and has it answered. -/
theorem exists_delivered {k : Task} {d : Nat} {r : Delivery} (hs : Sound s) (hk : s.workers w = some k)
    (hp : k.point = .claiming) (hd : k.deliveryId = d) (hr : s.db.deliveries.row d = some r)
    (hcl : r.claimableAs k.expectedAttempt = true) :
    ∃ v, Serves cfg w p m s v ∧ v.workers w = none ∧ v.openDeliveries < s.openDeliveries := by
  subst hd
  obtain ⟨delivery, hhit, hid, _, _⟩ := hs.linked.claimForProcessing_eq s.now hr hcl
  let c : Claimed := ⟨delivery, k.expectedAttempt, generation s.trace delivery.id⟩
  have hstep₁ : s.step cfg (.claim w) = some (s.claimed cfg w k delivery) := by
    simp only [step, hk, hp, if_true, hhit]
  have hx₁ : s.txn cfg (.claim w) = some (.claimForProcessing k.deliveryId k.expectedAttempt) := by
    simp only [txn, hk, Option.map_some]
  have hserves₁ : Serves cfg w p m s (s.claimed cfg w k delivery) := .of_plain hstep₁ (by simp [Act.serves]) fun x hx => by
    rw [hx₁, Option.mem_some_iff] at hx
    subst hx
    rfl
  have hrow₁ : (s.claimed cfg w k delivery).db.deliveries.row k.deliveryId = some (r.claim s.now) := by
    have hrewritten := (Step.of_step hstep₁).rewritten hx₁ rfl hr (by simp)
    simpa only [Txn.rewrite, hcl, and_self, if_true] using hrewritten
  let k₁ : Task := { k with point := .sending c }
  have hk₁ : (s.claimed cfg w k delivery).workers w = some k₁ := Function.update_self ..
  let s₂ := ((s.claimed cfg w k delivery).goto w k₁ (.awaiting c)).log (.requested (c.claim w))
  have hstep₂ : (s.claimed cfg w k delivery).step cfg (.send w) = some s₂ := by simp only [step, hk₁, k₁, s₂]
  have hserves₂ : Serves cfg w p m (s.claimed cfg w k delivery) s₂ :=
    .of_plain hstep₂ (by simp [Act.serves]) fun x hx => by cases hx
  let k₂ : Task := { k with point := .awaiting c }
  have hk₂ : s₂.workers w = some k₂ := Function.update_self ..
  let s₃ := s₂.goto w k₂ (.settling c (.resolved 200 ""))
  have hserves₃ : Serves cfg w p m s₂ s₃ :=
    serves_goto (a := .answer w (.resolved 200 "")) (by simp only [step, hk₂, k₂]) (by simp [Act.serves]) rfl
  let k₃ : Task := { k with point := .settling c (.resolved 200 "") }
  have hk₃ : s₃.workers w = some k₃ := Function.update_self ..
  have hall := (hserves₁.trans hserves₂).trans hserves₃
  have hl₃ := (hall.sound hs).linked
  have hrow₃ : s₃.db.deliveries.row delivery.id = some (r.claim s.now) := by rw [hid]; exact hrow₁
  have hx : s₃.txn cfg (.settle w 0) = some (.markSuccess delivery.id 200 (successSnippet cfg 200 "")) := by
    simp only [txn, hk₃, Option.bind_some, k₃]
    rfl
  have hok : s₃.ok cfg (.settle w 0) = true := by
    simp only [ok, hx, Option.all_some]
    exact Txn.apply_of_overwrites hl₃ rfl hrow₃
  have hstep : s₃.step cfg (.settle w 0) = some ((s₃.store cfg (.settle w 0)).goto w k₃ (.ended true)) := by
    simp only [step, hk₃, k₃, settled, hok, if_true]
  obtain ⟨v, hserves, hfree, hlt⟩ := exists_ended hl₃ hstep (by simp [Act.serves]) hx rfl (.inl rfl) hrow₃ rfl
    (Function.update_self ..)
  exact ⟨v, hall.trans hserves, hfree, lt_of_lt_of_le hlt hall.openDeliveries_le⟩

/-- The worker takes the job of an open delivery and brings it to its end. -/
theorem exists_job_progress (hs : Sound s) (hw : s.workers w = none) {j : JobId} {job : Job} {r : Delivery}
    (hj : s.queue j = some job) (hu : job.unfinished = true) (hr : s.db.deliveries.row job.deliveryId = some r)
    (hn : job.expectedAttempt = r.attempts + 1) (hcl : r.status.claimable = true) :
    ∃ v, Serves cfg w p m s v ∧ v.workers w = none ∧ v.openDeliveries < s.openDeliveries := by
  let k : Task := ⟨j, job.deliveryId, job.expectedAttempt, .started⟩
  let s₁ : System := { s with
    queue := s.queue.setState j .active
    workers := Function.update s.workers w (some k) }
  have hstep₁ : s.step cfg (.take w j) = some s₁ := by simp only [step, hw, hj, hu, if_true, s₁, k]
  have hserves₁ : Serves cfg w p m s s₁ := .of_plain hstep₁ (by simp [Act.serves]) fun x hx => by cases hx
  have hk₁ : s₁.workers w = some k := Function.update_self ..
  have hopen : r.status.terminal = false := by
    cases hend : r.status.terminal with
    | false => rfl
    | true =>
      rw [DeliveryStatus.claimable_of_terminal hend] at hcl
      cases hcl
  obtain ⟨delivery, hfind, _, hrow⟩ := hs.linked.findById_isSome hr
  let s₂ := s₁.goto w k (afterFind (s₁.db.findById job.deliveryId))
  have hserves₂ : Serves cfg w p m s₁ s₂ :=
    serves_goto (a := .find w) (by simp only [step, hk₁, k, if_true]) (by simp [Act.serves]) rfl
  have hafter : afterFind (s₁.db.findById job.deliveryId) =
      if delivery.endpoint.isActive then .limiting else .cancelling := by
    rw [show s₁.db.findById job.deliveryId = some delivery from hfind]
    simp only [afterFind, hrow, hopen]
    cases delivery.endpoint.isActive <;> rfl
  have hs₂ := (hserves₁.trans hserves₂).sound hs
  have hk₂ : s₂.workers w = some { k with point := afterFind (s₁.db.findById job.deliveryId) } :=
    Function.update_self ..
  rw [hafter] at hk₂
  by_cases hactive : delivery.endpoint.isActive = true
  · rw [if_pos hactive] at hk₂
    let k₂ : Task := { k with point := .limiting }
    let s₃ := s₂.goto w k₂ .claiming
    have hserves₃ : Serves cfg w p m s₂ s₃ :=
      serves_goto (a := .limit w none) (by simp only [step, hk₂, if_true, afterLimit, k₂]) (by simp [Act.serves]) rfl
    have hall := (hserves₁.trans hserves₂).trans hserves₃
    have hclaimable : r.claimableAs job.expectedAttempt = true := by
      simp [Delivery.claimableAs, hn, hcl]
    obtain ⟨v, hserves, hfree, hlt⟩ := exists_delivered (s := s₃) (k := { k with point := .claiming }) (p := p) (m := m)
      (hall.sound hs) (Function.update_self ..) rfl rfl hr hclaimable
    exact ⟨v, hall.trans hserves, hfree, lt_of_lt_of_le hlt hall.openDeliveries_le⟩
  · rw [if_neg hactive] at hk₂
    have hall := hserves₁.trans hserves₂
    obtain ⟨v, hserves, hfree, hlt⟩ := exists_cancelled (p := p) (m := m) hs₂.linked hk₂ rfl rfl hr hopen
    exact ⟨v, hall.trans hserves, hfree, lt_of_lt_of_le hlt hall.openDeliveries_le⟩

/-- Where a delivery is open there is something to do: a batch or a pass at hand, a row that can go
stale, a job, or a row that can come due. -/
theorem exists_progress (cfg : Config) (w p m : Nat) (hs : Sound s) (hshape : s.db.RowsWellFormed) (hw : s.workers w = none)
    (hopen : ¬ ∀ d r, s.db.deliveries.row d = some r → r.status.terminal = true) :
    ∃ t, Serves cfg w p m s t ∧ t.workers w = none ∧ t.rank p m < s.rank p m := by
  have hidle : (∃ t, Serves cfg w p m s t ∧ t.workers = s.workers ∧ t.rank p m < s.rank p m) →
      ∃ t, Serves cfg w p m s t ∧ t.workers w = none ∧ t.rank p m < s.rank p m := by
    rintro ⟨t, hserves, hworkers, hlt⟩
    exact ⟨t, hserves, by rw [hworkers]; exact hw, hlt⟩
  by_cases hbatch : (s.publishers p).batch = []
  · by_cases hscan : (s.staleScans m).rest = []
    · simp only [not_forall] at hopen
      obtain ⟨d, r, hr, hlive⟩ := hopen
      rw [Bool.not_eq_true] at hlive
      by_cases hst : r.status = .processing
      · exact hidle (exists_stale_progress hshape hscan hr hst)
      · have hcl := DeliveryStatus.claimable_of_open hlive hst
        rcases hs.live d r hr hcl with ⟨i, hrow⟩ | ⟨j, hjob⟩
        · obtain ⟨o, ho, _, _, hnone⟩ := hrow.row
          exact hidle (exists_row_progress cfg hbatch ho hnone)
        · obtain ⟨job, hj, hu, rfl, hn⟩ := hjob.job
          obtain ⟨v, hserves, hfree, hlt⟩ := exists_job_progress (p := p) (m := m) hs hw hj hu hr hn hcl
          exact ⟨v, hserves, hfree, Serves.rank_lt_of_open hlt⟩
    · exact hidle (exists_recover_progress cfg hscan)
  · exact hidle (exists_publish_progress cfg hbatch)

end Progress

/-- From every state of a run that loses no job and schedules the attempts a claim will accept, an
idle worker, a publisher and a recovery pass can bring every open delivery to SUCCESS or CANCELLED,
whatever has become of the other processes, and leave the others as they are. In the run no call of
a worker on the store or the limiter fails, but for writes whose row is gone. -/
theorem deliveries_can_be_finished {u : Setup} {as : List Act} (h : Reached cfg u as s) (hlose : ∀ j, .lose j ∉ as)
    (hnext : Transition.Along (System.step cfg) (SchedulesNext cfg) (.boot u) as) (hw : s.workers w = none) :
    ∃ bs t, (∀ b ∈ bs, b.serves w p m = true) ∧ Transition.run (step cfg) s bs = some t ∧
      (∀ d r', t.db.deliveries.row d = some r' → ∃ r, s.db.deliveries.row d = some r) ∧
      ∀ d r, s.db.deliveries.row d = some r → ∃ r', t.db.deliveries.row d = some r' ∧
        (r.status.terminal = true → r' = r) ∧
        (r.status.terminal = false → r'.status = .success ∨ r'.status = .cancelled) := by
  have hnone : Transition.Along (System.step cfg) (fun _ a _ => ∀ j, a ≠ .lose j) (.boot u) as := by
    refine Transition.along_of_mem fun a ha _ _ j he => ?_
    rw [he] at ha
    exact hlose j ha
  have hsound : Sound s := ((hnext.and hnone).visits (I := Sound) (fun _ _ _ hs ht hp => hs.step (.of_step ht) hp.2 hp.1)
    (.boot u)).last h
  have hshape : s.db.RowsWellFormed := Transition.run_invariant (I := fun s => s.db.RowsWellFormed)
    (fun _ _ _ hs ht => hs.step (.of_step ht)) (fun d r hr => by cases hr) h
  obtain ⟨t, hserves, _, hend⟩ := Transition.exists_goal (R := Serves cfg w p m)
    (I := fun s => Sound s ∧ s.db.RowsWellFormed ∧ s.workers w = none)
    (G := fun s => ∀ d r, s.db.deliveries.row d = some r → r.status.terminal = true) (rank p m) Serves.refl
    (fun _ _ _ => Serves.trans)
    (fun s hi hg => by
      obtain ⟨t, hserves, hfree, hlt⟩ := exists_progress cfg w p m hi.1 hi.2.1 hi.2.2 hg
      exact ⟨t, hserves, ⟨hserves.sound hi.1, hserves.shaped hi.2.1, hfree⟩, hlt⟩)
    ⟨hsound, hshape, hw⟩
  obtain ⟨bs, hbs, hrun⟩ := hserves.run
  refine ⟨bs, t, hbs, hrun, hserves.origin, fun d r hr => ?_⟩
  obtain ⟨r', hr', hserved⟩ := hserves.kept d r hr
  refine ⟨r', hr', hserved.eq_of_terminal, fun hopen => ?_⟩
  rcases hserved with rfl | ⟨_, hwell⟩
  · rw [hend d r' hr'] at hopen
    cases hopen
  · exact hwell (hend d r' hr')

/-- The only worker has died after its claim. -/
def abandonedRun : List Act :=
  Script.ingest ++ Script.publish 0 ++ Script.claim 0 (jobId 0 0) ++ [.send 0, .crash 0]

theorem deliveries_can_be_finished_abandoned : ∃ bs t,
    Transition.run (step .defaults) (after .defaults (.subscribed 1) abandonedRun) bs = some t ∧
      ∃ r, t.db.deliveries.row 0 = some r ∧ (r.status = .success ∨ r.status = .cancelled) := by
  have hreached : Reached .defaults (.subscribed 1) abandonedRun (after .defaults (.subscribed 1) abandonedRun) :=
    Transition.run_ending (by decide +kernel)
  have hlose : ∀ j, Act.lose j ∉ abandonedRun := by
    intro j
    simp [abandonedRun, Script.ingest, Script.publish, Script.claim]
  obtain ⟨bs, t, _, hrun, _, hkept⟩ := deliveries_can_be_finished (w := 1) (p := 0) (m := 0) hreached hlose
    (by decide +kernel) (by decide +kernel)
  have hclaimed : ((after .defaults (.subscribed 1) abandonedRun).db.deliveries.row 0).map Delivery.status =
      some .processing := by decide +kernel
  obtain ⟨r, hr, hst⟩ := Option.map_eq_some_iff.mp hclaimed
  obtain ⟨r', hr', _, hwell⟩ := hkept 0 r hr
  exact ⟨bs, t, hrun, r', hr', hwell (by rw [hst]; rfl)⟩

end System

end WebhookEngine
