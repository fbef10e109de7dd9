import WebhookEngine.Integrity
import WebhookEngine.Retention

/-! The fan-out of an event after it has been made: which deliveries it has, and the status of
one that has none. -/

namespace WebhookEngine

open Relational

/-- A transaction leaves an event alone, or writes a status that one of its deliveries gives rise to. -/
inductive EventWrite (now : Time) (db : Database) (e : Nat) (ev : WebhookEvent) : WebhookEvent → Prop where
  | same : EventWrite now db e ev ev
  | written {d r st} (hr : db.deliveries.row d = some r) (he : r.eventId = e) (hst : st ≠ .noSubscribers) :
      EventWrite now db e ev (ev.setStatus now st)

theorem calculateEventStatus_ne (ss : List DeliveryStatus) : calculateEventStatus ss ≠ .noSubscribers := by
  simp only [calculateEventStatus]
  split
  · simp
  · split <;> simp

namespace Txn

variable {cfg : Config} {now : Time} {db db' : Database} {x : Txn}

theorem events_written (h : x.apply cfg now db = some db') : ∃ f : Nat → WebhookEvent → WebhookEvent,
    db.events.Becomes db'.events (x.keepsEvent cfg now) f (x.accepts now) ∧
      ∀ e ev, EventWrite now db e ev (f e ev) := by
  have hself : db.events.Becomes db.events (fun _ => true) (fun _ e => e) [] :=
    Table.becomes_self fun _ _ _ => rfl
  have hset : ∀ {d : Nat} {r : Delivery} (i : Nat) (st : EventStatus), db.deliveries.row d = some r →
      r.eventId = i → st ≠ .noSubscribers → ∃ f : Nat → WebhookEvent → WebhookEvent,
      db.events.Becomes (db.events.modify i (.setStatus now st)) (fun _ => true) f [] ∧
        ∀ e ev, EventWrite now db e ev (f e ev) := by
    intro d r i st hr hi hst
    refine ⟨fun e ev => if e = i then ev.setStatus now st else ev,
      Table.becomes_modify (by simp) (by simp +contextual), fun e ev => ?_⟩
    by_cases he : e = i
    · simp only [he, if_true]
      exact .written hr hi hst
    · simp only [he, if_false]
      exact .same
  have hsame : ∀ (e : Nat) (ev : WebhookEvent), EventWrite now db e ev ev := fun _ _ => .same
  have hsettle : ∀ {id : Nat} {g : Delivery → Delivery}, (∀ r, (g r).eventId = r.eventId) →
      db.settle now id g = some db' → ∃ f : Nat → WebhookEvent → WebhookEvent,
      db.events.Becomes db'.events (fun _ => true) f [] ∧ ∀ e ev, EventWrite now db e ev (f e ev) := by
    intro id g hg hdb
    obtain ⟨r, hr, _, rfl⟩ := Database.settle_eq_some.mp hdb
    exact hset _ _ hr (hg r).symm (calculateEventStatus_ne _)
  cases x with
  | createForTenant input endpointIds =>
    obtain ⟨_, _, _, rfl⟩ := createForTenant_eq_some.mp h
    exact ⟨_, hself.insertAll [_], hsame⟩
  | claimForProcessing id n =>
    cases h
    simp only [Database.claimForProcessing]
    split
    · exact ⟨_, hself, hsame⟩
    · rename_i r hr
      split
      · split
        · exact ⟨_, hself, hsame⟩
        · rename_i delivery hfind
          obtain ⟨_, hrow, _⟩ := Database.findById_eq_some.mp hfind
          simp only [Table.modify_row_self, hr, Option.map_some, Option.some.injEq] at hrow
          refine hset _ _ hr ?_ (by simp)
          rw [← hrow]
          rfl
      · exact ⟨_, hself, hsame⟩
  | markSuccess id c t => exact hsettle (g := .succeed c t) (fun _ => rfl) h
  | markDeadLetter id c t => exact hsettle (g := .deadLetter c t) (fun _ => rfl) h
  | markCancelled id t => exact hsettle (g := .cancel t) (fun _ => rfl) h
  | markFailedAndSchedule input =>
    obtain ⟨q, _, rfl⟩ := Database.schedule_eq_some.mp h
    exact ⟨_, hself, hsame⟩
  | markRateLimitedAndSchedule id t n =>
    obtain ⟨q, _, rfl⟩ := Database.schedule_eq_some.mp h
    exact ⟨_, hself, hsame⟩
  | recoverStaleDelivery id a cutoff =>
    cases h
    rcases Database.recoverStaleDelivery_cases now db id a cutoff with ⟨_, he⟩ | ⟨_, _, _, he⟩
    · rw [he]
      exact ⟨_, hself, hsame⟩
    · rw [he]
      exact ⟨_, hself, hsame⟩
  | resetForReplay id =>
    obtain ⟨r, hr, _, rfl⟩ := Database.resetForReplay_eq_some.mp h
    exact hset _ _ hr rfl (by simp)
  | markPublished id =>
    obtain ⟨o, _, rfl⟩ := Database.updateOutbox_eq_some.mp h
    exact ⟨_, hself, hsame⟩
  | recordPublishError id m =>
    obtain ⟨o, _, rfl⟩ := Database.updateOutbox_eq_some.mp h
    exact ⟨_, hself, hsame⟩
  | reopenOutbox id m =>
    obtain ⟨o, _, rfl⟩ := Database.updateOutbox_eq_some.mp h
    exact ⟨_, hself, hsame⟩
  | cleanupExpiredEndpointSecrets =>
    cases h
    exact ⟨_, hself, hsame⟩
  | cleanupPublishedOutboxRows =>
    cases h
    exact ⟨_, hself, hsame⟩
  | cleanupOldEvents =>
    cases h
    simp only [Database.cleanupOldEvents]
    split
    · rename_i h0
      have hk : keepsEvent cfg now .cleanupOldEvents = fun _ => true :=
        funext fun e => by simp [keepsEvent, h0]
      rw [hk]
      exact ⟨_, hself, hsame⟩
    · rename_i h0
      exact ⟨_, Table.becomes_deleteWhere fun e => by simp [keepsEvent, h0], hsame⟩
  | setEndpointActive id b =>
    simp only [apply, Database.setEndpointActive, Option.map_eq_some_iff] at h
    obtain ⟨e, _, rfl⟩ := h
    exact ⟨_, hself, hsame⟩

theorem event_gone_of_delivery (h : x.apply cfg now db = some db') {r : Delivery}
    (hkeep : x.keepsDelivery cfg now db r = false) : db'.events.row r.eventId = none := by
  cases x with
  | cleanupOldEvents =>
    cases h
    simp only [keepsDelivery, Bool.or_eq_false_iff, beq_eq_false_iff_ne, Bool.not_eq_false',
      Database.doomed, Option.any_eq_true] at hkeep
    obtain ⟨hdays, ev, hev, hexpired⟩ := hkeep
    simp [Database.cleanupOldEvents, hdays, Table.deleteWhere_row, hev, hexpired]
  | _ => cases hkeep

end Txn

namespace Service

variable {cfg : Config} {hashApiKey : String → String} {u : Setup} {s t : Service} {a : Operation}
  {as : List Operation} {e : Nat} {ev : WebhookEvent}

/-- The event has the delivery, to the endpoint. -/
def Fans (db : Database) (e d endpointId : Nat) : Prop :=
  ∃ r, db.deliveries.row d = some r ∧ r.eventId = e ∧ r.endpointId = endpointId

theorem events_next_le (h : s.step cfg hashApiKey a = some t) : s.db.events.next ≤ t.db.events.next := by
  rcases step_system_or h with ⟨b, rfl, hstep⟩ | ⟨_, db, hdb, hw⟩
  · rw [Service.db, Service.db, hstep.db]
    rcases s.system.store_cases cfg b with hsame | ⟨x, _, _, happ⟩
    · rw [hsame]
    · obtain ⟨f, hbecomes, _⟩ := Txn.events_becomes happ
      exact hbecomes.next_le
  · rw [Service.db, Service.db, hdb, hw.pipeline.1]

theorem delivery_kept (h : s.step cfg hashApiKey a = some t) {d : Nat} {r : Delivery}
    (hr : s.db.deliveries.row d = some r) :
    (∃ r', t.db.deliveries.row d = some r' ∧ r'.eventId = r.eventId ∧ r'.endpointId = r.endpointId) ∨
      t.db.events.row r.eventId = none := by
  rcases step_system_or h with ⟨b, rfl, hstep⟩ | ⟨_, db, hdb, hw⟩
  · rw [Service.db, hstep.db]
    rcases s.system.store_cases cfg b with hsame | ⟨x, _, _, happ⟩
    · rw [hsame]
      exact .inl ⟨r, hr, rfl, rfl⟩
    · cases hkeep : x.keepsDelivery cfg s.system.now s.system.db r with
      | true =>
        exact .inl ⟨_, (Txn.deliveries_becomes happ).kept hr hkeep, Txn.rewrite_eventId d r,
          Txn.rewrite_endpointId d r⟩
      | false => exact .inr (Txn.event_gone_of_delivery happ hkeep)
  · refine .inl ⟨r, ?_, rfl, rfl⟩
    rw [Service.db, hdb, hw.pipeline.2.1]
    exact hr

/-- No step gives an event that is there another delivery, or takes one away from an event that stays. -/
theorem fans_step (h : s.step cfg hashApiKey a = some t) (he : (s.db.events.row e).isSome = true)
    (he' : (t.db.events.row e).isSome = true) (d endpointId : Nat) :
    Fans t.db e d endpointId ↔ Fans s.db e d endpointId := by
  constructor
  · rintro ⟨r', hr', rfl, rfl⟩
    rcases delivery_origin h hr' with ⟨r, hr, hevent, hendpoint⟩ | ⟨c, p, k, _, _, _, _, rfl, _⟩
    · exact ⟨r, hr, hevent.symm, hendpoint.symm⟩
    · obtain ⟨q, hq⟩ := Option.isSome_iff_exists.mp he
      exact absurd (Table.lt_next hq) (Nat.lt_irrefl _)
  · rintro ⟨r, hr, rfl, rfl⟩
    rcases delivery_kept h hr with ⟨r', hr', hevent, hendpoint⟩ | hgone
    · exact ⟨r', hr', hevent, hendpoint⟩
    · rw [hgone] at he'
      cases he'

theorem event_stays_gone (h : s.step cfg hashApiKey a = some t) (hlt : e < s.db.events.next)
    (hgone : s.db.events.row e = none) : t.db.events.row e = none := by
  rw [Option.eq_none_iff_forall_not_mem]
  intro ev' hev'
  rcases event_origin h hev' with ⟨q, hq, _⟩ | ⟨hlast, _⟩
  · rw [hgone] at hq
    cases hq
  · omega

theorem fans_run (h : Transition.run (step cfg hashApiKey) s as = some t)
    (he : (s.db.events.row e).isSome = true) :
    e < t.db.events.next ∧ (t.db.events.row e = none ∨ ∀ d endpointId, Fans t.db e d endpointId ↔ Fans s.db e d endpointId) := by
  refine Transition.run_invariant (I := fun t : Service => e < t.db.events.next ∧ (t.db.events.row e = none ∨
    ∀ d endpointId, Fans t.db e d endpointId ↔ Fans s.db e d endpointId)) (fun v b w hv hstep => ?_) ?_ h
  · obtain ⟨hlt, hcase⟩ := hv
    refine ⟨hlt.trans_le (events_next_le hstep), ?_⟩
    cases hev : v.db.events.row e with
    | none => exact .inl (event_stays_gone hstep hlt hev)
    | some ev =>
      cases hev' : w.db.events.row e with
      | none => exact .inl rfl
      | some ev' =>
        rcases hcase with hgone | hsame
        · rw [hev] at hgone
          cases hgone
        · refine .inr fun d endpointId => ?_
          rw [fans_step hstep (by rw [hev]; rfl) (by rw [hev']; rfl)]
          exact hsame d endpointId
  · obtain ⟨ev, hev⟩ := Option.isSome_iff_exists.mp he
    exact ⟨Table.lt_next hev, .inr fun _ _ => Iff.rfl⟩

/-- How an event of a state comes about: it stays, written to at most on behalf of one of its
deliveries, or it is made with its deliveries. -/
theorem event_written (h : s.step cfg hashApiKey a = some t) {ev' : WebhookEvent}
    (hev' : t.db.events.row e = some ev') :
    (∃ ev, s.db.events.row e = some ev ∧ EventWrite s.now s.db e ev ev') ∨
      e = s.db.events.next ∧ ∃ input endpointIds, ev' = .accepted s.now input endpointIds.length ∧
        s.db.createForTenant s.now input endpointIds = some t.db := by
  rcases step_system_or h with ⟨b, rfl, hstep⟩ | ⟨_, db, hdb, hw⟩
  · have hdb : t.db = (s.system.store cfg b).db := hstep.db
    rw [hdb] at hev' ⊢
    rcases s.system.store_cases cfg b with hsame | ⟨x, _, _, happ⟩
    · rw [hsame] at hev'
      exact .inl ⟨ev', hev', .same⟩
    · obtain ⟨f, hbecomes, hf⟩ := Txn.events_written happ
      rcases hbecomes.origin hev' with ⟨ev, hev, _, rfl⟩ | ⟨hge, hnew⟩
      · exact .inl ⟨ev, hev, hf e ev⟩
      · cases x with
        | createForTenant input endpointIds =>
          obtain ⟨hlt, hrow⟩ := List.getElem?_eq_some_iff.mp hnew
          have hlast : e = s.system.db.events.next := by
            simp only [Txn.accepts, List.length_singleton] at hlt
            omega
          simp only [Txn.accepts, List.getElem_singleton] at hrow
          exact .inr ⟨hlast, input, endpointIds, hrow.symm, happ⟩
        | _ => simp [Txn.accepts] at hnew
  · rw [Service.db, hdb, hw.pipeline.1] at hev'
    exact .inl ⟨ev', hev', .same⟩

/-- An event is marked as one without subscribers just when it has no deliveries. -/
def MarksUnsubscribed (db : Database) : Prop :=
  ∀ e ev, db.events.row e = some ev → (ev.status = .noSubscribers ↔ ∀ d endpointId, ¬Fans db e d endpointId)

theorem MarksUnsubscribed.step (hm : MarksUnsubscribed s.db) (hl : s.db.Linked)
    (h : s.step cfg hashApiKey a = some t) : MarksUnsubscribed t.db := by
  intro e ev' hev'
  rcases event_written h hev' with ⟨ev, hev, hwrite⟩ | ⟨rfl, input, endpointIds, rfl, hcreate⟩
  · have hfans := fans_step h (by rw [hev]; rfl) (by rw [hev']; rfl)
    simp only [hfans]
    cases hwrite with
    | same => exact hm e _ hev
    | @written d r st hr he hst =>
      constructor
      · intro hnone
        exact absurd hnone hst
      · intro hno
        exact absurd ⟨r, hr, he, rfl⟩ (hno d r.endpointId)
  · obtain ⟨_, _, _, hdb⟩ := Txn.createForTenant_eq_some.mp hcreate
    cases endpointIds with
    | nil =>
      refine iff_of_true rfl fun d endpointId => ?_
      rintro ⟨r, hr, he, _⟩
      rw [← hdb] at hr
      obtain ⟨q, hq⟩ := Option.isSome_iff_exists.mp (hl.event d r hr)
      rw [he] at hq
      exact absurd (Table.lt_next hq) (Nat.lt_irrefl _)
    | cons k ids =>
      refine iff_of_false (by simp [WebhookEvent.accepted]) fun hno => ?_
      refine hno s.db.deliveries.next k ⟨.created s.now s.db.events.next k, ?_, rfl, rfl⟩
      rw [← hdb]
      simp [Table.insertAll_row]

theorem unique_step (hu : s.db.deliveries.Unique fun r => (r.eventId, r.endpointId)) (hl : s.db.Linked)
    (hr : ReadsStand s) (h : s.step cfg hashApiKey a = some t) :
    t.db.deliveries.Unique fun r => (r.eventId, r.endpointId) := by
  rcases step_system_or h with ⟨b, rfl, hstep⟩ | ⟨_, db, hdb, hw⟩
  · rw [Service.db, hstep.db]
    rcases s.system.store_cases cfg b with hsame | ⟨x, hx, _, happ⟩
    · rw [hsame]
      exact hu
    · refine hu.becomes (Txn.deliveries_becomes happ) (fun d r _ => ?_) ?_ fun r hr' d q hq hkey => ?_
      · rw [Txn.rewrite_eventId, Txn.rewrite_endpointId]
      · cases x with
        | createForTenant input endpointIds =>
          cases System.attempts_of_txn hx with
          | @ingestCommit c p hc =>
            simp only [Txn.created, List.map_map]
            exact (hr c p hc).2.1.map fun k k' heq => (Prod.mk.inj heq).2
        | _ => exact List.nodup_nil
      · cases x with
        | createForTenant input endpointIds =>
          obtain ⟨k, _, rfl⟩ := List.mem_map.mp hr'
          obtain ⟨ev, hev⟩ := Option.isSome_iff_exists.mp (hl.event d q hq)
          have hlast : q.eventId = s.db.events.next := (Prod.mk.inj hkey).1
          rw [hlast] at hev
          exact absurd (Table.lt_next hev) (Nat.lt_irrefl _)
        | _ => cases hr'
  · rw [Service.db, hdb, hw.pipeline.2.1]
    exact hu

/-- What a step leaves of an event without subscribers: all of it. -/
theorem unsubscribed_step (h : s.step cfg hashApiKey a = some t) (hev : s.db.events.row e = some ev)
    (hstatus : ev.status = .noSubscribers) (hno : ∀ d endpointId, ¬Fans s.db e d endpointId) :
    t.db.events.row e = some ev := by
  rcases step_system_or h with ⟨b, rfl, hstep⟩ | ⟨_, db, hdb, hw⟩
  · rw [Service.db, hstep.db]
    rcases s.system.store_cases cfg b with hsame | ⟨x, _, _, happ⟩
    · rw [hsame]
      exact hev
    · obtain ⟨f, hbecomes, hf⟩ := Txn.events_written happ
      have hkeep : x.keepsEvent cfg s.system.now ev = true := by
        cases x with
        | cleanupOldEvents => simp [Txn.keepsEvent, WebhookEvent.expired, hstatus]
        | _ => rfl
      rw [hbecomes.kept hev hkeep]
      have hwrite := hf e ev
      generalize f e ev = ev' at hwrite ⊢
      cases hwrite with
      | same => rfl
      | @written d r st hr he hst => exact absurd ⟨r, hr, he, rfl⟩ (hno d r.endpointId)
  · rw [Service.db, hdb, hw.pipeline.1]
    exact hev

theorem Reached.marksUnsubscribed (h : Reached cfg hashApiKey u as s) :
    MarksUnsubscribed s.db ∧ (s.db.deliveries.Unique fun r => (r.eventId, r.endpointId)) ∧ s.db.Linked ∧ ReadsStand s := by
  refine Transition.run_invariant (I := fun s : Service => MarksUnsubscribed s.db ∧
    (s.db.deliveries.Unique fun r => (r.eventId, r.endpointId)) ∧ s.db.Linked ∧ ReadsStand s)
    (fun v b w hv hstep => ?_) ?_ h
  · obtain ⟨hm, hu, hl, hr⟩ := hv
    exact ⟨hm.step hl hstep, unique_step hu hl hr hstep, linked_step hl hstep, hr.step hstep⟩
  · exact ⟨fun _ _ hev => (by cases hev), Table.unique_empty _, System.boot_linked u, fun _ _ hp => (by cases hp)⟩

theorem unsubscribed_run (h : Transition.run (step cfg hashApiKey) s as = some t)
    (hev : s.db.events.row e = some ev) (hstatus : ev.status = .noSubscribers)
    (hno : ∀ d endpointId, ¬Fans s.db e d endpointId) : t.db.events.row e = some ev := by
  have hall : t.db.events.row e = some ev ∧ ∀ d endpointId, ¬Fans t.db e d endpointId := by
    refine Transition.run_invariant (I := fun t : Service => t.db.events.row e = some ev ∧
      ∀ d endpointId, ¬Fans t.db e d endpointId) (fun v b w hv hstep => ?_) ⟨hev, hno⟩ h
    obtain ⟨hv, hnone⟩ := hv
    have hw := unsubscribed_step hstep hv hstatus hnone
    refine ⟨hw, fun d endpointId => ?_⟩
    rw [fans_step hstep (by rw [hv]; rfl) (by rw [hw]; rfl)]
    exact hnone d endpointId
  exact hall.1

/-- The fan-out of an event is settled when it is made: for each endpoint it has one delivery at
most, and as long as it stays it keeps the deliveries it has. One that has none says so, and stays
as it is for ever. -/
theorem fan_out_settled (h : Reached cfg hashApiKey u as s) :
    (s.db.deliveries.Unique fun r => (r.eventId, r.endpointId)) ∧
    (∀ e ev, s.db.events.row e = some ev →
      (ev.status = .noSubscribers ↔ ∀ d endpointId, ¬Fans s.db e d endpointId)) ∧
    ∀ bs t e ev, Transition.run (step cfg hashApiKey) s bs = some t → s.db.events.row e = some ev →
      (t.db.events.row e = none ∨ ∀ d endpointId, Fans t.db e d endpointId ↔ Fans s.db e d endpointId) ∧
      (ev.status = .noSubscribers → t.db.events.row e = some ev) := by
  obtain ⟨hmarks, hunique, _, _⟩ := h.marksUnsubscribed
  refine ⟨hunique, hmarks, fun bs t e ev hrun hev => ⟨(fans_run hrun (by rw [hev]; rfl)).2, fun hstatus => ?_⟩⟩
  exact unsubscribed_run hrun hev hstatus ((hmarks e ev hev).mp hstatus)

/-- An event that nobody subscribes to. -/
def unheardRun : List Operation := Script.ingest.map .system

/-- A retention pass long after everything else. -/
def lateCleanup : List Operation := [.system (.tick 200000000), .system .cleanupOldEvents]

theorem fan_out_settled_unheard :
    (after .retaining id (.subscribed 0) (unheardRun ++ lateCleanup)).db.events.row 0 =
      (after .retaining id (.subscribed 0) unheardRun).db.events.row 0 := by
  have hreached : Reached .retaining id (.subscribed 0) unheardRun (after .retaining id (.subscribed 0) unheardRun) :=
    Transition.run_ending (by decide +kernel)
  have hrun : Reached .retaining id (.subscribed 0) (unheardRun ++ lateCleanup)
      (after .retaining id (.subscribed 0) (unheardRun ++ lateCleanup)) := Transition.run_ending (by decide +kernel)
  rw [Reached, Transition.run_append, hreached, Option.bind_some] at hrun
  have hev : (after .retaining id (.subscribed 0) unheardRun).db.events.row 0 =
      some (.accepted 0 ⟨0, "key", "order.created", "{}"⟩ 0) := by decide +kernel
  rw [hev]
  exact ((fan_out_settled hreached).2.2 _ _ 0 _ hrun hev).2 rfl

end Service

end WebhookEngine
