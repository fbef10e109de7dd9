import WebhookEngine.Provenance

/-! Publication is an add to the queue followed by a mark in the store. Wherever the
processes stop between the two, a row stays unpublished until a job for its delivery and
attempt has been in the queue. -/

namespace WebhookEngine

open Relational

/-- The identifier of a job as the queue is given it. -/
def jobIdText (outboxId : String) (publishAttempts : Nat) : String :=
  s!"outbox-{outboxId}-{publishAttempts}"

/-- At some moment of the run the queue held a job of the row, for this delivery and attempt. -/
def Added (cfg : Config) (u : Setup) (as : List Act) (i d n : Nat) : Prop :=
  ∃ before after s m job, as = before ++ after ∧ System.Reached cfg u before s ∧
    s.queue (jobId i m) = some job ∧ job.deliveryId = d ∧ job.expectedAttempt = n

/-- A retention pass of the run deleted the event. -/
def Retired (cfg : Config) (u : Setup) (as : List Act) (e : Nat) : Prop :=
  ∃ before after s t, as = before ++ .cleanupOldEvents :: after ∧ System.Reached cfg u before s ∧
    s.step cfg .cleanupOldEvents = some t ∧ (s.db.events.row e).isSome = true ∧
    t.db.events.row e = none

theorem append_sep_inj {α : Type*} {sep : α} {x x' z z' : List α} (hx : sep ∉ x) (hx' : sep ∉ x')
    (h : x ++ sep :: z = x' ++ sep :: z') : x = x' ∧ z = z' := by
  induction x generalizing x' with
  | nil =>
    cases x' with
    | nil => simpa using h
    | cons c x' =>
      rw [List.nil_append, List.cons_append, List.cons.injEq] at h
      exact absurd (h.1 ▸ List.mem_cons_self) hx'
  | cons c x ih =>
    cases x' with
    | nil =>
      rw [List.nil_append, List.cons_append, List.cons.injEq] at h
      exact absurd (h.1 ▸ List.mem_cons_self) hx
    | cons c' x' =>
      rw [List.cons_append, List.cons_append, List.cons.injEq] at h
      have htail := ih (List.not_mem_of_not_mem_cons hx) (List.not_mem_of_not_mem_cons hx') h.2
      exact ⟨by rw [h.1, htail.1], htail.2⟩

theorem jobIdText_inj {i i' : String} {m m' : Nat} (h : jobIdText i m = jobIdText i' m') :
    i = i' ∧ m = m' := by
  have hdash : ∀ k, '-' ∉ (Nat.toDigits 10 k).reverse := by
    intro k hk
    have hd := Nat.isDigit_of_mem_toDigits (by omega) (by omega) (List.mem_reverse.mp hk)
    exact absurd hd (by decide)
  have htext : ∀ (t : String) (k : Nat), (jobIdText t k).toList.reverse =
      (Nat.toDigits 10 k).reverse ++ '-' :: (t.toList.reverse ++ "outbox-".toList.reverse) := by
    intro t k
    have hlist : (jobIdText t k).toList = "outbox-".toList ++ (t.toList ++ '-' :: Nat.toDigits 10 k) := by
      simp [jobIdText, toString]
    rw [hlist]
    simp
  have hrev := congrArg (fun t => t.toList.reverse) h
  simp only [htext] at hrev
  obtain ⟨hdigits, hrest⟩ := append_sep_inj (hdash m) (hdash m') hrev
  have hnum : Nat.toDigits 10 m = Nat.toDigits 10 m' := List.reverse_injective hdigits
  have hlist : i.toList = i'.toList := List.reverse_injective (List.append_cancel_right hrest)
  refine ⟨String.toList_injective hlist, ?_⟩
  rw [← Nat.ofDigitChars_toDigits (b := 10) (n := m) (by omega) (by omega), hnum,
    Nat.ofDigitChars_toDigits (by omega) (by omega)]

/-- Every outbox row has its delivery. -/
def Database.Backed (db : Database) : Prop :=
  ∀ i o, db.deliveryOutbox.row i = some o → (db.deliveries.row o.deliveryId).isSome = true

/-- The rows, batch entries and jobs of one outbox identifier are for one delivery and attempt. -/
structure Stamped (stamp : Nat → Nat × Nat) (s : System) : Prop where
  rows : ∀ i o, s.db.deliveryOutbox.row i = some o → stamp i = (o.deliveryId, o.attemptNumber)
  batches : ∀ p o, o ∈ (s.publishers p).batch →
    o.id < s.db.deliveryOutbox.next ∧ stamp o.id = (o.deliveryId, o.attemptNumber)
  jobs : ∀ i m job, s.queue (.outbox i m) = some job →
    i < s.db.deliveryOutbox.next ∧ stamp i = (job.deliveryId, job.expectedAttempt)

/-- What a run has published so far. -/
structure Publication (cfg : Config) (u : Setup) (as : List Act) (s : System) : Prop where
  linked : s.db.Linked
  backed : s.db.Backed
  stamped : ∃ stamp, Stamped stamp s
  marking : ∀ p o rest, s.publishers p = ⟨o :: rest, true⟩ →
    Added cfg u as o.id o.deliveryId o.attemptNumber
  published : ∀ i o, s.db.deliveryOutbox.row i = some o → o.publishedAt ≠ none →
    Added cfg u as i o.deliveryId o.attemptNumber

theorem Added.snoc {cfg : Config} {u : Setup} {as : List Act} {i d n : Nat} (h : Added cfg u as i d n)
    (a : Act) : Added cfg u (as ++ [a]) i d n := by
  obtain ⟨before, after, s, m, job, rfl, hs, hjob⟩ := h
  exact ⟨before, after ++ [a], s, m, job, by simp, hs, hjob⟩

theorem Retired.snoc {cfg : Config} {u : Setup} {as : List Act} {e : Nat} (h : Retired cfg u as e)
    (a : Act) : Retired cfg u (as ++ [a]) e := by
  obtain ⟨before, after, s, t, rfl, hs, hgone⟩ := h
  exact ⟨before, after ++ [a], s, t, by simp, hs, hgone⟩

namespace Txn

variable {cfg : Config} {now : Time} {db db' : Database} {x : Txn}

theorem scheduled_delivery (h : x.apply cfg now db = some db') {o : DeliveryOutbox}
    (ho : o ∈ x.scheduled now db) : (db'.deliveries.row o.deliveryId).isSome = true := by
  cases x with
  | createForTenant input endpointIds =>
    obtain ⟨_, _, _, rfl⟩ := createForTenant_eq_some.mp h
    simp only [scheduled, List.mem_map, List.mem_range'_1] at ho
    obtain ⟨d, hd, rfl⟩ := ho
    have hnot : ¬ d < db.deliveries.next := by omega
    have hlt : d - db.deliveries.next < endpointIds.length := by omega
    simp [DeliveryOutbox.created, Table.insertAll_row, hnot, hlt]
  | markFailedAndSchedule input =>
    obtain ⟨r, hr, rfl⟩ := Database.schedule_eq_some.mp h
    rw [scheduled, List.mem_singleton] at ho
    simp [ho, DeliveryOutbox.created, hr]
  | markRateLimitedAndSchedule id at' n =>
    obtain ⟨r, hr, rfl⟩ := Database.schedule_eq_some.mp h
    rw [scheduled, List.mem_singleton] at ho
    simp [ho, DeliveryOutbox.created, hr]
  | recoverStaleDelivery id m cutoff =>
    cases h
    rcases Database.recoverStaleDelivery_cases now db id m cutoff with ⟨hno, _⟩ | ⟨r, hr, hs, he⟩
    · simp [scheduled, hno] at ho
    · rw [he]
      simp only [scheduled, hr, Option.any_some, hs, if_true, List.mem_singleton] at ho
      simp [ho, DeliveryOutbox.created, hr]
  | resetForReplay id =>
    obtain ⟨r, hr, _, rfl⟩ := Database.resetForReplay_eq_some.mp h
    rw [scheduled, List.mem_singleton] at ho
    simp [ho, DeliveryOutbox.created, hr]
  | _ => cases ho

end Txn

theorem Database.Backed.apply {cfg : Config} {now : Time} {db db' : Database} {x : Txn}
    (hb : db.Backed) (h : x.apply cfg now db = some db') : db'.Backed := by
  intro i o' ho'
  rcases (Txn.outbox_becomes h).origin ho' with ⟨o, ho, hkeep, rfl⟩ | ⟨_, hnew⟩
  · obtain ⟨r, hr⟩ := Option.isSome_iff_exists.mp (hb i o ho)
    -- a row and its delivery go in the same retention pass
    have hkept : x.keepsDelivery cfg now db r = true := by
      cases x with
      | cleanupOldEvents => simpa [Txn.keepsOutbox, Txn.keepsDelivery, hr] using hkeep
      | _ => rfl
    rw [(x.rewriteOutbox_ids now i o).1, (Txn.deliveries_becomes h).kept hr hkept]
    rfl
  · exact Txn.scheduled_delivery h (List.mem_of_getElem? hnew)

namespace System

variable {cfg : Config} {s t : System} {a : Act}

theorem Step.backed (h : Step cfg s a t) (hb : s.db.Backed) : t.db.Backed := by
  rw [h.db]
  rcases s.store_cases cfg a with he | ⟨x, _, _, happ⟩
  · rw [he]
    exact hb
  · exact hb.apply happ

theorem Step.delivery_gone (h : Step cfg s a t) (hl : s.db.Linked) {d : Nat} {r : Delivery}
    (hr : s.db.deliveries.row d = some r) (hgone : t.db.deliveries.row d = none) :
    a = .cleanupOldEvents ∧ (s.db.events.row r.eventId).isSome = true ∧
      t.db.events.row r.eventId = none := by
  rw [h.db] at hgone ⊢
  rcases s.store_cases cfg a with he | ⟨x, hx, _, happ⟩
  · rw [he, hr] at hgone
    cases hgone
  have hdrop : x.keepsDelivery cfg s.now s.db r = false := by
    by_contra hkeep
    rw [(Txn.deliveries_becomes happ).kept hr (by simpa using hkeep)] at hgone
    cases hgone
  cases x with
  | cleanupOldEvents =>
    obtain ⟨ev, hev⟩ := Option.isSome_iff_exists.mp (hl.event d r hr)
    obtain ⟨f, hbecomes, _⟩ := Txn.events_becomes happ
    have ha : a = .cleanupOldEvents := by
      cases attempts_of_txn hx with
      | cleanupOldEvents => rfl
    refine ⟨ha, by rw [hev]; rfl, hbecomes.gone hev ?_⟩
    simpa [Txn.keepsDelivery, Txn.keepsEvent, Database.doomed, hev] using hdrop
  | _ => cases hdrop

end System

namespace Stamped

variable {cfg : Config} {s t : System} {a : Act} {stamp : Nat → Nat × Nat}

/-- The stamps after a step: new rows bring identifiers of their own. -/
def next (stamp : Nat → Nat × Nat) (s t : System) (i : Nat) : Nat × Nat :=
  if i < s.db.deliveryOutbox.next then stamp i
  else ((t.db.deliveryOutbox.row i).map fun o => (o.deliveryId, o.attemptNumber)).getD (stamp i)

theorem next_of_lt {i : Nat} (h : i < s.db.deliveryOutbox.next) : next stamp s t i = stamp i := by
  simp [next, h]

theorem step (hs : Stamped stamp s) (h : s.Step cfg a t) : Stamped (next stamp s t) t where
  rows i o' ho' := by
    rcases h.outbox_origin ho' with ⟨o, ho, hd, hn⟩ | ⟨hge, _⟩
    · rw [next_of_lt (Table.lt_next ho), hs.rows i o ho, hd, hn]
    · simp [next, not_lt.mpr hge, ho']
  batches p o ho := by
    have hold : o.id < s.db.deliveryOutbox.next ∧ stamp o.id = (o.deliveryId, o.attemptNumber) := by
      rcases h.batch_origin ho with hold | ⟨ids, row, _, hrow, he⟩
      · exact hs.batches p o hold
      · refine ⟨Table.lt_next hrow, ?_⟩
        rw [hs.rows _ row hrow, he]
    exact ⟨lt_of_lt_of_le hold.1 h.outbox_next_le, by rw [next_of_lt hold.1, hold.2]⟩
  jobs i m job' hj := by
    have hold : i < s.db.deliveryOutbox.next ∧ stamp i = (job'.deliveryId, job'.expectedAttempt) := by
      rcases h.job_origin hj with ⟨job, hold, hd, hn⟩ | ⟨_, hadd⟩
      · rw [hd, hn]
        exact hs.jobs i m job hold
      · cases hadd with
        | @published p o rest hp => exact hs.batches p o (by rw [hp]; exact List.mem_cons_self)
    exact ⟨lt_of_lt_of_le hold.1 h.outbox_next_le, by rw [next_of_lt hold.1, hold.2]⟩

theorem boot (u : Setup) : Stamped (fun _ => (0, 0)) (.boot u) where
  rows i o ho := by cases ho
  batches p o ho := by cases ho
  jobs i m job hj := by cases hj

end Stamped

namespace Publication

variable {cfg : Config} {u : Setup} {as : List Act} {s t : System} {a : Act}

theorem step_marking (hp : Publication cfg u as s) (hr : System.Reached cfg u (as ++ [a]) t)
    (h : s.Step cfg a t) {p : Nat} {o : OutboxSnapshot} {rest : List OutboxSnapshot}
    (ho : t.publishers p = ⟨o :: rest, true⟩) :
    Added cfg u (as ++ [a]) o.id o.deliveryId o.attemptNumber := by
  rcases h.marking_origin ho with hold | ⟨_, job, hj⟩
  · exact (hp.marking p o rest hold).snoc a
  · obtain ⟨stamp, hs⟩ := hp.stamped
    have hst := hs.step h
    have hbatch := (hst.batches p o (by rw [ho]; exact List.mem_cons_self)).2
    have hjob := (hst.jobs o.id o.attempts job hj).2
    rw [hbatch, Prod.mk.injEq] at hjob
    exact ⟨as ++ [a], [], t, o.attempts, job, by simp, hr, hj, hjob.1.symm, hjob.2.symm⟩

theorem added_of_published (hp : Publication cfg u as s) (h : s.Step cfg a t) {i : Nat}
    {o' : DeliveryOutbox} (ho' : t.db.deliveryOutbox.row i = some o') (hpub : o'.publishedAt ≠ none) :
    Added cfg u as i o'.deliveryId o'.attemptNumber := by
  rw [h.db] at ho'
  rcases s.store_cases cfg a with he | ⟨x, hx, _, happ⟩
  · rw [he] at ho'
    exact hp.published i o' ho' hpub
  rcases (Txn.outbox_becomes happ).origin ho' with ⟨o, ho, _, rfl⟩ | ⟨_, hnew⟩
  · have hids := x.rewriteOutbox_ids s.now i o
    rw [hids.1, hids.2]
    by_cases hold : o.publishedAt = none
    · cases x with
      | markPublished id =>
        by_cases hid : i = id
        · obtain ⟨stamp, hs⟩ := hp.stamped
          cases System.attempts_of_txn hx with
          | @publishMark p o₀ rest hbatch =>
            cases h with
            | publishMark hpp =>
              rw [hpp] at hbatch
              cases hbatch
              have hrow := hs.rows i o ho
              rw [hid, (hs.batches p o₀ (by rw [hpp]; exact List.mem_cons_self)).2, Prod.mk.injEq] at hrow
              rw [hid, ← hrow.1, ← hrow.2]
              exact hp.marking p o₀ rest hpp
        · simp [Txn.rewriteOutbox, hid, hold] at hpub
      | recordPublishError id message =>
        refine absurd ?_ hpub
        simp only [Txn.rewriteOutbox]
        split
        · exact hold
        · exact hold
      | reopenOutbox id state =>
        refine absurd ?_ hpub
        simp only [Txn.rewriteOutbox]
        split
        · rfl
        · exact hold
      | _ => exact absurd hold hpub
    · exact hp.published i o ho hold
  · exact absurd (Txn.scheduled_unpublished (List.mem_of_getElem? hnew)) hpub

theorem step (hp : Publication cfg u as s) (hr : System.Reached cfg u (as ++ [a]) t)
    (h : s.Step cfg a t) : Publication cfg u (as ++ [a]) t where
  linked := h.linked hp.linked
  backed := h.backed hp.backed
  stamped := by
    obtain ⟨stamp, hs⟩ := hp.stamped
    exact ⟨_, hs.step h⟩
  marking _ _ _ := hp.step_marking hr h
  published _ _ ho hpub := (hp.added_of_published h ho hpub).snoc a

theorem of_reached (h : System.Reached cfg u as s) : Publication cfg u as s := by
  induction as using List.reverseRecOn generalizing s with
  | nil =>
    cases h
    exact
      { linked := System.boot_linked u
        backed := fun i o ho => by cases ho
        stamped := ⟨_, Stamped.boot u⟩
        marking := fun p o rest hp => by cases hp
        published := fun i o ho => by cases ho }
  | append_singleton as a ih =>
    obtain ⟨r, hr, hstep⟩ := Transition.run_concat_eq_some.mp h
    exact (ih hr).step h (.of_step hstep)

end Publication

/-- What has become of an outbox row: unpublished, brought to the queue, or gone with its event. -/
def Fate (cfg : Config) (u : Setup) (as : List Act) (s : System) (i : Nat) (o : DeliveryOutbox)
    (e : Nat) : Prop :=
  (∃ o', s.db.deliveryOutbox.row i = some o' ∧ o'.deliveryId = o.deliveryId ∧
      o'.attemptNumber = o.attemptNumber ∧ o'.publishedAt = none) ∨
    Added cfg u as i o.deliveryId o.attemptNumber ∨ Retired cfg u as e

namespace Fate

variable {cfg : Config} {u : Setup} {as bs : List Act} {s t : System} {a : Act} {i e : Nat}
  {o : DeliveryOutbox}

theorem step (hf : Fate cfg u as s i o e) (hs : System.Reached cfg u as s)
    (hstep : s.step cfg a = some t) (he : ∀ r, s.db.deliveries.row o.deliveryId = some r → r.eventId = e) :
    Fate cfg u (as ++ [a]) t i o e := by
  have hp := Publication.of_reached hs
  have h := System.Step.of_step hstep
  rcases hf with ⟨o₁, ho, hd, hn, hun⟩ | hadded | hretired
  · obtain ⟨r, hr⟩ := Option.isSome_iff_exists.mp (hp.backed i o₁ ho)
    cases hr' : t.db.deliveries.row o₁.deliveryId with
    | none =>
      obtain ⟨rfl, hthere, hgone⟩ := h.delivery_gone hp.linked hr hr'
      have hev := he r (hd ▸ hr)
      rw [hev] at hthere hgone
      exact .inr (.inr ⟨as, [], s, t, rfl, hs, hstep, hthere, hgone⟩)
    | some r' =>
      obtain ⟨o', ho', hd', hn', hun' | ⟨p, o₀, rest, _, hpp, hid⟩⟩ := h.unpublished_kept ho hun hr'
      · exact .inl ⟨o', ho', hd'.trans hd, hn'.trans hn, hun'⟩
      · obtain ⟨stamp, hst⟩ := hp.stamped
        have hrow := hst.rows i o₁ ho
        rw [← hid, (hst.batches p o₀ (by rw [hpp]; exact List.mem_cons_self)).2, Prod.mk.injEq] at hrow
        have hadded := hp.marking p o₀ rest hpp
        rw [hid, hrow.1, hrow.2, hd, hn] at hadded
        exact .inr (.inl (hadded.snoc a))
  · exact .inr (.inl (hadded.snoc a))
  · exact .inr (.inr (hretired.snoc a))

theorem run (hf : Fate cfg u as s i o e) (hs : System.Reached cfg u as s)
    (hlt : o.deliveryId < s.db.deliveries.next)
    (he : ∀ r, s.db.deliveries.row o.deliveryId = some r → r.eventId = e)
    (hrun : Transition.run (System.step cfg) s bs = some t) : Fate cfg u (as ++ bs) t i o e := by
  induction bs generalizing as s with
  | nil =>
    cases hrun
    simpa using hf
  | cons b bs ih =>
    obtain ⟨r, hstep, hrest⟩ := Transition.run_cons_eq_some.mp hrun
    have hr : System.Reached cfg u (as ++ [b]) r := Transition.run_concat_eq_some.mpr ⟨s, hs, hstep⟩
    have h := System.Step.of_step hstep
    have hnext := ih (hf.step hs hstep he) hr (lt_of_lt_of_le hlt h.next_le) (fun q hq => ?_) hrest
    · simpa using hnext
    · -- the delivery is an old one, and its event stays its event
      rcases h.row_origin hq with ⟨q₀, hold, rfl | ⟨x, _, _, rfl⟩⟩ | ⟨hge, _⟩
      · exact he q hold
      · rw [Txn.rewrite_eventId]
        exact he q₀ hold
      · omega

end Fate

/-- Every outbox row ever created is later still unpublished, or a job for exactly its delivery
and attempt has been in the queue, or retention has deleted its event. No row is marked
published, and none is cleaned up as published, before such a job was there. -/
theorem outbox_published_at_least_once {cfg : Config} {u : Setup} {as : List Act} {s : System}
    (h : System.Reached cfg u as s) :
    (∀ before after s₀ i o, as = before ++ after → System.Reached cfg u before s₀ →
        s₀.db.deliveryOutbox.row i = some o →
        ∃ r, s₀.db.deliveries.row o.deliveryId = some r ∧ Fate cfg u as s i o r.eventId) ∧
      (∀ a t i o, s.step cfg a = some t → t.db.deliveryOutbox.row i = some o → o.publishedAt ≠ none →
        Added cfg u as i o.deliveryId o.attemptNumber) ∧
      (∀ t i o, s.step cfg .cleanupPublishedOutboxRows = some t → s.db.deliveryOutbox.row i = some o →
        t.db.deliveryOutbox.row i = none → Added cfg u as i o.deliveryId o.attemptNumber) ∧
      ∀ i m i' m', jobIdText i m = jobIdText i' m' → i = i' ∧ m = m' := by
  have hp := Publication.of_reached h
  refine ⟨fun before after s₀ i o he h₀ ho => ?_, fun a t i o hstep ho hpub => ?_,
    fun t i o hstep ho hgone => ?_, fun i m i' m' => jobIdText_inj⟩
  · subst he
    have hp₀ := Publication.of_reached h₀
    have hrun : Transition.run (System.step cfg) s₀ after = some s := by
      have hall := h
      rw [System.Reached, Transition.run_append, h₀] at hall
      exact hall
    obtain ⟨r, hr⟩ := Option.isSome_iff_exists.mp (hp₀.backed i o ho)
    have hfate : Fate cfg u before s₀ i o r.eventId := by
      by_cases hun : o.publishedAt = none
      · exact .inl ⟨o, ho, rfl, rfl, hun⟩
      · exact .inr (.inl (hp₀.published i o ho hun))
    refine ⟨r, hr, hfate.run h₀ (Table.lt_next hr) (fun q hq => ?_) hrun⟩
    rw [hr, Option.some.injEq] at hq
    rw [hq]
  · exact hp.added_of_published (.of_step hstep) ho hpub
  · refine hp.published i o ho fun hun => ?_
    cases hstep
    have hkept : (s.db.cleanupPublishedOutboxRows s.now).deliveryOutbox.row i = some o :=
      Table.deleteWhere_row_eq_some.mpr ⟨ho, by simp [hun]⟩
    have hsame : (s.store cfg .cleanupPublishedOutboxRows).db = s.db.cleanupPublishedOutboxRows s.now := rfl
    rw [hsame, hkept] at hgone
    cases hgone

theorem outbox_published_at_least_once_ingested :
    Added .defaults (.subscribed 1) (Script.ingest ++ Script.publish 0) 0 0 1 := by
  have hs : System.Reached .defaults (.subscribed 1) (Script.ingest ++ Script.publish 0)
      (.after .defaults (.subscribed 1) (Script.ingest ++ Script.publish 0)) :=
    Transition.run_ending (by decide +kernel)
  have hrow : (System.after .defaults (.subscribed 1)
      (Script.ingest ++ Script.publish 0)).db.deliveryOutbox.row 0 =
        some ⟨0, 0, 1, some 0, 0, none, 0⟩ := by decide +kernel
  exact (outbox_published_at_least_once hs).2.1 (.tick 0) _ 0 _ rfl hrow (by simp)

end WebhookEngine
