import WebhookEngine.EventAgreement

/-! What the retention deletes. It looks at the status of an event alone, so it is as exact as
that status: it leaves events that never had a delivery, and takes events whose status a
deferral has not reopened. -/

namespace WebhookEngine

open Relational

/-- Whenever it runs, the retention deletes the events that are old and have no delivery left
to send, and no others. -/
structure RetentionExact (cfg : Config) (s : System) : Prop where
  events : ∀ now, s.now ≤ now → ∀ e ev, s.db.events.row e = some ev →
    ((s.db.cleanupOldEvents cfg.eventRetentionDays now).events.row e = none ↔
      ev.updatedAt + cfg.eventRetentionDays * 24 * 60 * 60 * 1000 < now ∧
        ∀ d r, s.db.deliveries.row d = some r → r.eventId = e →
          r.status ≠ .pending ∧ r.status ≠ .processing ∧ r.status ≠ .failed)
  deliveries : ∀ now, s.now ≤ now → ∀ d r, s.db.deliveries.row d = some r →
    r.status = .pending ∨ r.status = .processing ∨ r.status = .failed →
      (s.db.cleanupOldEvents cfg.eventRetentionDays now).deliveries.row d = some r

theorem DeliveryStatus.terminal_iff_finished (st : DeliveryStatus) :
    st.terminal = true ↔ st ≠ .pending ∧ st ≠ .processing ∧ st ≠ .failed := by
  cases st <;> decide

namespace Database

variable {db db' : Database} {days : Nat} {now : Time} {e : Nat} {ev : WebhookEvent}

theorem cleanupOldEvents_deletes (hdays : days ≠ 0) (hev : db.events.row e = some ev) :
    (db.cleanupOldEvents days now).events.row e = none ↔ ev.expired days now = true := by
  simp [cleanupOldEvents, hdays, Table.deleteWhere_row, hev]

theorem cleanupOldEvents_keeps (hdays : days ≠ 0) {d : Nat} {r : Delivery}
    (hr : db.deliveries.row d = some r) (hev : db.events.row r.eventId = some ev)
    (hkept : ev.expired days now = false) :
    (db.cleanupOldEvents days now).deliveries.row d = some r := by
  simp only [cleanupOldEvents, hdays, if_false]
  exact Table.deleteWhere_row_eq_some.mpr ⟨hr, by simp [doomed, hev, hkept]⟩

/-- The status of every event tells whether its deliveries are all finished. -/
def Settled (db : Database) : Prop :=
  ∀ e ev, db.events.row e = some ev →
    (ev.status = .done ∨ ev.status = .failed ↔ ∀ st ∈ db.statuses e, st.terminal = true)

theorem expired_iff : ev.expired days now = true ↔
    (ev.status = .done ∨ ev.status = .failed) ∧ ev.updatedAt + days * 24 * 60 * 60 * 1000 < now := by
  simp [WebhookEvent.expired]

theorem statuses_terminal_iff : (∀ st ∈ db.statuses e, st.terminal = true) ↔
    ∀ d r, db.deliveries.row d = some r → r.eventId = e →
      r.status ≠ .pending ∧ r.status ≠ .processing ∧ r.status ≠ .failed := by
  simp only [← DeliveryStatus.terminal_iff_finished]
  constructor
  · intro h d r hr he
    exact h r.status (mem_statuses.mpr ⟨d, r, hr, he, rfl⟩)
  · intro h st hst
    obtain ⟨d, r, hr, he, rfl⟩ := mem_statuses.mp hst
    exact h d r hr he

end Database

theorem retentionExact_iff_settled {cfg : Config} {s : System} (hdays : 0 < cfg.eventRetentionDays)
    (hl : s.db.Linked) : RetentionExact cfg s ↔ s.db.Settled := by
  have hne : cfg.eventRetentionDays ≠ 0 := Nat.pos_iff_ne_zero.mp hdays
  constructor
  · intro h e ev hev
    -- late enough for every event of that age
    obtain ⟨now, hnow, hold⟩ : ∃ now, s.now ≤ now ∧
        ev.updatedAt + cfg.eventRetentionDays * 24 * 60 * 60 * 1000 < now :=
      ⟨s.now + (ev.updatedAt + cfg.eventRetentionDays * 24 * 60 * 60 * 1000 + 1), Nat.le_add_right _ _,
        Nat.lt_add_left _ (Nat.lt_succ_self _)⟩
    have hdeletes := h.events now hnow e ev hev
    rw [Database.cleanupOldEvents_deletes hne hev, Database.expired_iff] at hdeletes
    rw [Database.statuses_terminal_iff]
    simpa only [hold, and_true, true_and] using hdeletes
  · intro h
    refine ⟨fun now hnow e ev hev => ?_, fun now hnow d r hr hopen => ?_⟩
    · rw [Database.cleanupOldEvents_deletes hne hev, Database.expired_iff, h e ev hev,
        Database.statuses_terminal_iff]
      exact and_comm
    · obtain ⟨ev, hev⟩ := Option.isSome_iff_exists.mp (hl.event d r hr)
      refine Database.cleanupOldEvents_keeps hne hr hev (Bool.eq_false_iff.mpr fun hexpired => ?_)
      have hstatus := (Database.expired_iff.mp hexpired).1
      have hfinished := Database.statuses_terminal_iff.mp ((h _ ev hev).mp hstatus) d r hr rfl
      rcases hopen with hp | hp | hp
      · exact hfinished.1 hp
      · exact hfinished.2.1 hp
      · exact hfinished.2.2 hp

section Attended

variable {cfg : Config} {now : Time} {db db' : Database} {x : Txn}

def Database.Attended (db : Database) : Prop :=
  ∀ e ev, db.events.row e = some ev → db.statuses e ≠ []

/-- The transaction accepts an event for which no endpoint is subscribed. -/
def Txn.Unattended (x : Txn) : Prop := ∃ input, x = .createForTenant input []

theorem Summarises.finished_iff {status : EventStatus} {ss : List DeliveryStatus}
    (h : Summarises status ss) (hne : ss ≠ []) :
    status = .done ∨ status = .failed ↔ ∀ st ∈ ss, st.terminal = true := by
  have hopen := h.open_iff hne
  have hsome : status ≠ .noSubscribers := fun hno => hne (h.noSubscribers.mp hno)
  constructor
  · intro hstatus st hst
    by_contra hterm
    have hpending := hopen.mpr ⟨st, hst, Bool.eq_false_iff.mpr hterm⟩
    rcases hstatus with rfl | rfl <;> simp at hpending
  · intro hall
    have hno : ¬ (status = .pending ∨ status = .processing) := by
      intro hpending
      obtain ⟨st, hst, hterm⟩ := hopen.mp hpending
      rw [hall st hst] at hterm
      cases hterm
    cases status with
    | pending => exact absurd (.inl rfl) hno
    | processing => exact absurd (.inr rfl) hno
    | done => exact .inl rfl
    | failed => exact .inr rfl
    | noSubscribers => exact absurd rfl hsome

theorem Database.EventsAgree.settled (ha : db.EventsAgree) (hd : db.Attended) : db.Settled :=
  fun e ev hev => (ha e ev hev).finished_iff (hd e ev hev)

theorem Database.statuses_ne_nil {e : Nat} :
    db.statuses e ≠ [] ↔ ∃ d r, db.deliveries.row d = some r ∧ r.eventId = e := by
  constructor
  · intro hne
    obtain ⟨st, hst⟩ := List.exists_mem_of_ne_nil _ hne
    obtain ⟨d, r, hr, he, _⟩ := Database.mem_statuses.mp hst
    exact ⟨d, r, hr, he⟩
  · rintro ⟨d, r, hr, he⟩
    exact List.ne_nil_of_mem (Database.mem_statuses.mpr ⟨d, r, hr, he, rfl⟩)

/-- An event that stays keeps a delivery, and one that comes brings a delivery unless no
endpoint is subscribed. -/
theorem Database.Attended.apply (hd : db.Attended) (h : x.apply cfg now db = some db')
    (hx : ¬ x.Unattended) : db'.Attended := by
  intro e ev' hev'
  obtain ⟨f, hevents, _⟩ := Txn.events_becomes h
  have hrows := Txn.deliveries_becomes h
  rw [Database.statuses_ne_nil]
  rcases hevents.origin hev' with ⟨ev, hev, hkeep, _⟩ | ⟨hge, hnew⟩
  · obtain ⟨d, r, hr, he⟩ := Database.statuses_ne_nil.mp (hd e ev hev)
    refine ⟨d, _, hrows.kept hr ?_, (Txn.rewrite_eventId d r).trans he⟩
    cases x with
    | cleanupOldEvents =>
      simp only [Txn.keepsEvent, Bool.or_eq_true] at hkeep
      simp only [Txn.keepsDelivery, Database.doomed, he, hev, Option.any_some, Bool.or_eq_true]
      exact hkeep
    | _ => rfl
  · cases x with
    | createForTenant input endpointIds =>
      cases endpointIds with
      | nil => exact absurd ⟨input, rfl⟩ hx
      | cons ep rest =>
        have hnext : e = db.events.next := by
          simp only [Txn.accepts] at hnew
          have hlt := (List.getElem?_eq_some_iff.mp hnew).1
          simp only [List.length_singleton] at hlt
          omega
        refine ⟨db.deliveries.next + 0, .created now db.events.next ep, hrows.new_row rfl, ?_⟩
        exact hnext.symm
    | _ => simp [Txn.accepts] at hnew

/-- A deferral writes the delivery and leaves the event as it is. -/
theorem Txn.apply_open {d : Nat} {st : DeliveryStatus} {r : Delivery} (h : x.apply cfg now db = some db')
    (hx : x.overwrites = some (d, st)) (hst : st.terminal = false) (hr : db.deliveries.row d = some r) :
    db'.events = db.events ∧ ∃ r', db'.deliveries.row d = some r' ∧ r'.eventId = r.eventId ∧ r'.status = st := by
  have scheduled : ∀ (f : Delivery → Delivery) (availableAt n : Nat), (f r).eventId = r.eventId →
      (f r).status = st → db.schedule now d f availableAt n = some db' →
      db'.events = db.events ∧
        ∃ r', db'.deliveries.row d = some r' ∧ r'.eventId = r.eventId ∧ r'.status = st := by
    intro f availableAt n he hs happ
    obtain ⟨r₀, hr₀, rfl⟩ := Database.schedule_eq_some.mp happ
    exact ⟨rfl, f r, by simp [hr], he, hs⟩
  cases x with
  | markFailedAndSchedule input =>
    cases hx
    exact scheduled _ _ _ rfl rfl h
  | markRateLimitedAndSchedule id at' n =>
    cases hx
    exact scheduled _ _ _ rfl rfl h
  | markSuccess | markDeadLetter | markCancelled =>
    cases hx
    cases hst
  | _ => cases hx

theorem Database.Settled.defersOpen (ha : db.Settled) (ha' : db'.Settled) (hl : db.Linked)
    (h : x.apply cfg now db = some db') : x.DefersOpen db := by
  intro p hp hst r hr
  obtain ⟨ev, hev⟩ := Option.isSome_iff_exists.mp (hl.event p.1 r hr)
  obtain ⟨hevents, r', hr', he, hs⟩ := Txn.apply_open h hp hst hr
  by_contra hno
  have hall : ∀ st ∈ db.statuses r.eventId, st.terminal = true := fun st hmem =>
    by
    by_contra hopen
    exact hno ⟨st, hmem, Bool.eq_false_iff.mpr hopen⟩
  have hfinished := (ha _ ev hev).mpr hall
  have hterm := (ha' r.eventId ev (by rw [hevents, hev])).mp hfinished p.2
    (Database.mem_statuses.mpr ⟨p.1, r', hr', he, hs⟩)
  rw [hst] at hterm
  cases hterm

theorem Database.Settled.not_unattended (ha : db'.Settled) (hl : db.Linked)
    (h : x.apply cfg now db = some db') : ¬ x.Unattended := by
  rintro ⟨input, rfl⟩
  obtain ⟨_, _, _, hdb⟩ := Txn.createForTenant_eq_some.mp h
  have hevent : (db'.events.row db.events.next).map WebhookEvent.status = some .noSubscribers := by
    rw [← hdb, Table.insert_row, if_pos rfl]
    rfl
  have hdeliveries : db'.deliveries = db.deliveries := by
    rw [← hdb]
    rfl
  obtain ⟨ev, hev, hstatus⟩ := Option.map_eq_some_iff.mp hevent
  have hnone : ∀ st ∈ db'.statuses db.events.next, st.terminal = true := by
    intro st hst
    obtain ⟨d, r, hr, he, _⟩ := Database.mem_statuses.mp hst
    obtain ⟨ev₀, hev₀⟩ := Option.isSome_iff_exists.mp (hl.event d r (hdeliveries ▸ hr))
    have hlt := Table.lt_next hev₀
    omega
  have hfinished := (ha db.events.next ev hev).mpr hnone
  rw [hstatus] at hfinished
  simp at hfinished

end Attended

/-- A deferral or a scheduled retry lands on an event with an unfinished delivery, and an event
is accepted with a delivery. -/
def Retains (cfg : Config) (s : System) (a : Act) (t : System) : Prop :=
  DefersOpen cfg s a t ∧ ∀ x ∈ s.txn cfg a, x.Unattended → s.ok cfg a = false

/-- The retention is exact all along a run just when no event is accepted without a delivery
and no deferral reopens a finished one. -/
theorem retention_exact_iff_retains {cfg : Config} {u : Setup} {as : List Act}
    (hdays : 0 < cfg.eventRetentionDays) :
    Transition.Visits (System.step cfg) (RetentionExact cfg) (.boot u) as ↔
      Transition.Along (System.step cfg) (Retains cfg) (.boot u) as := by
  refine Transition.visits_iff_along_of (J := fun s => s.db.Linked)
    (K := fun s => s.db.EventsAgree ∧ s.db.Attended) ?_ ?_ ?_ ?_ (System.boot_linked u) ?_
  · intro s a t hl ht
    exact (System.Step.of_step ht).linked hl
  · rintro s a t hl ⟨ha, hd⟩ ht ⟨hopen, hattended⟩
    have h := System.Step.of_step ht
    refine ⟨(eventsAgree_step_iff hl ha h).mpr hopen, ?_⟩
    rw [h.db]
    rcases s.store_cases cfg a with hsame | ⟨x, hx, hok, happ⟩
    · rw [hsame]
      exact hd
    · refine hd.apply happ fun hun => ?_
      have hrefused := hattended x hx hun
      rw [hok] at hrefused
      cases hrefused
  · rintro s a t hl ⟨ha, hd⟩ ht hexact
    have h := System.Step.of_step ht
    have hsettled := (retentionExact_iff_settled hdays (h.linked hl)).mp hexact
    rw [h.db] at hsettled
    constructor
    · intro x hx p hp hst r hr
      have happ := System.store_of_ok hx (by
        rw [System.ok, hx]
        exact Txn.apply_of_overwrites hl hp hr)
      exact (ha.settled hd).defersOpen hsettled hl happ p hp hst r hr
    · intro x hx hun
      refine Bool.eq_false_iff.mpr fun hok => ?_
      exact hsettled.not_unattended hl (System.store_of_ok hx hok) hun
  · rintro s hl ⟨ha, hd⟩
    exact (retentionExact_iff_settled hdays hl).mpr (ha.settled hd)
  · constructor
    · intro e ev hev
      cases hev
    · intro e ev hev
      cases hev

def Config.retaining : Config := { Config.defaults with eventRetentionDays := 1 }

theorem retention_exact_iff_retains_late :
    Transition.Visits (System.step .retaining) (RetentionExact .retaining) (.boot (.subscribed 1)) lateRetry ↔
      Transition.Along (System.step .retaining) (Retains .retaining) (.boot (.subscribed 1)) lateRetry :=
  retention_exact_iff_retains (by decide)

/-- An event of a tenant without endpoints outlives the retention. -/
theorem retention_inexact : ¬ ∀ (cfg : Config) (u : Setup) (as : List Act), 0 < cfg.eventRetentionDays →
    Transition.Visits (System.step cfg) (RetentionExact cfg) (.boot u) as := by
  intro h
  have hrun : System.Reached .retaining (.subscribed 0) Script.ingest
      (.after .retaining (.subscribed 0) Script.ingest) := Transition.run_ending (by decide +kernel)
  have hlast := (h .retaining (.subscribed 0) Script.ingest (by decide)).last hrun
  have hstatus : ((System.after .retaining (.subscribed 0) Script.ingest).db.events.row 0).map
      WebhookEvent.status = some .noSubscribers := by decide +kernel
  have hlinked := Transition.run_invariant (fun _ _ _ hl ht => (System.Step.of_step ht).linked hl)
    (System.boot_linked _) hrun
  have hdeliveries : ∀ d, (System.after .retaining (.subscribed 0) Script.ingest).db.deliveries.row d = none :=
    fun d => Table.fresh _ d (Nat.zero_le d)
  obtain ⟨ev, hev, hnone⟩ := Option.map_eq_some_iff.mp hstatus
  have hsettled := (retentionExact_iff_settled (by decide) hlinked).mp hlast
  have hfinished := (hsettled 0 ev hev).mpr fun st hst => by
    obtain ⟨d, r, hr, _⟩ := Database.mem_statuses.mp hst
    rw [hdeliveries d] at hr
    cases hr
  rw [hnone] at hfinished
  simp at hfinished

end WebhookEngine
