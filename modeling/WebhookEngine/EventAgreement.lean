import WebhookEngine.TerminalStatus

/-! The status of an event as a summary of its deliveries: which transactions keep it,
and what the two deferrals, which leave the event alone, rely on. -/

namespace WebhookEngine

open Relational

/-- What the status of an event says about the statuses of its deliveries. -/
structure Summarises (status : EventStatus) (ss : List DeliveryStatus) : Prop where
  noSubscribers : status = .noSubscribers ↔ ss = []
  done : ss ≠ [] → (status = .done ↔ ∀ s ∈ ss, s = .success)
  failed : ss ≠ [] → (status = .failed ↔ (∀ s ∈ ss, s.terminal = true) ∧ ∃ s ∈ ss, s ≠ .success)
  otherwise : ss ≠ [] → (¬ ∀ s ∈ ss, s = .success) →
    (¬ ((∀ s ∈ ss, s.terminal = true) ∧ ∃ s ∈ ss, s ≠ .success)) →
    status = .pending ∨ status = .processing

namespace Summarises

variable {status : EventStatus} {ss ss' : List DeliveryStatus}

theorem of_unfinished (hu : ∃ s ∈ ss, s.terminal = false)
    (h : status = .pending ∨ status = .processing) : Summarises status ss := by
  obtain ⟨s, hs, hterm⟩ := hu
  have hne : ss ≠ [] := List.ne_nil_of_mem hs
  have hsuccess : ¬ ∀ s ∈ ss, s = .success := by
    intro hall
    rw [hall s hs] at hterm
    cases hterm
  have hfailed : ¬ ((∀ s ∈ ss, s.terminal = true) ∧ ∃ s ∈ ss, s ≠ .success) := by
    rintro ⟨hall, _⟩
    rw [hall s hs] at hterm
    cases hterm
  refine ⟨?_, fun _ => ?_, fun _ => ?_, fun _ _ _ => h⟩
  · rcases h with rfl | rfl <;> simp [hne]
  · rcases h with rfl | rfl <;> simp only [reduceCtorEq, false_iff] <;> exact hsuccess
  · rcases h with rfl | rfl <;> simp only [reduceCtorEq, false_iff] <;> exact hfailed

theorem open_iff (h : Summarises status ss) (hne : ss ≠ []) :
    status = .pending ∨ status = .processing ↔ ∃ s ∈ ss, s.terminal = false := by
  constructor
  · intro hopen
    by_contra hno
    have hall : ∀ s ∈ ss, s.terminal = true := by
      intro s hs
      by_contra hterm
      exact hno ⟨s, hs, Bool.eq_false_iff.mpr hterm⟩
    by_cases hsuccess : ∀ s ∈ ss, s = .success
    · have hdone := (h.done hne).mpr hsuccess
      rcases hopen with rfl | rfl <;> cases hdone
    · simp only [not_forall] at hsuccess
      obtain ⟨s, hs, hns⟩ := hsuccess
      have hfailed := (h.failed hne).mpr ⟨hall, s, hs, hns⟩
      rcases hopen with rfl | rfl <;> cases hfailed
  · rintro ⟨s, hs, hterm⟩
    refine h.otherwise hne (fun hall => ?_) fun hall => ?_
    · rw [hall s hs] at hterm
      cases hterm
    · rw [hall.1 s hs] at hterm
      cases hterm

theorem of_mem_iff (hm : ∀ s, s ∈ ss ↔ s ∈ ss') (h : Summarises status ss) :
    Summarises status ss' := by
  have hnil : ss = [] ↔ ss' = [] := by simp only [List.eq_nil_iff_forall_not_mem, hm]
  refine ⟨h.noSubscribers.trans hnil, fun hne => ?_, fun hne => ?_, fun hne => ?_⟩
  · have hdone := h.done (fun he => hne (hnil.mp he))
    simpa only [hm] using hdone
  · have hfailed := h.failed (fun he => hne (hnil.mp he))
    simpa only [hm] using hfailed
  · have hopen := h.otherwise (fun he => hne (hnil.mp he))
    simpa only [hm] using hopen

end Summarises

theorem calculateEventStatus_unfinished {ss : List DeliveryStatus}
    (h : ∃ s ∈ ss, s.terminal = false) : calculateEventStatus ss = .processing := by
  obtain ⟨s, hs, hterm⟩ := h
  have hu : (ss.any fun s => [.pending, .processing, .failed].contains s) = true :=
    List.any_eq_true.mpr ⟨s, hs, by cases s <;> first | rfl | cases hterm⟩
  simp only [calculateEventStatus, hu, if_true]

theorem calculateEventStatus_finished {ss : List DeliveryStatus} (h : ∀ s ∈ ss, s.terminal = true) :
    calculateEventStatus ss = if ∀ s ∈ ss, s = .success then .done else .failed := by
  have hu : (ss.any fun s => [.pending, .processing, .failed].contains s) = false := by
    refine List.any_eq_false.mpr fun s hs => ?_
    have hterm := h s hs
    cases s <;> first | decide | cases hterm
  have hf : (ss.any fun s => [.dlq, .cancelled].contains s) = true ↔ ¬ ∀ s ∈ ss, s = .success := by
    rw [List.any_eq_true]
    constructor
    · rintro ⟨s, hs, hc⟩ hall
      rw [hall s hs] at hc
      cases hc
    · intro hno
      simp only [not_forall] at hno
      obtain ⟨s, hs, hne⟩ := hno
      have hterm := h s hs
      refine ⟨s, hs, ?_⟩
      cases s <;> first | rfl | exact absurd rfl hne | cases hterm
  simp only [calculateEventStatus, hu, Bool.false_eq_true, if_false, hf]
  by_cases hall : ∀ s ∈ ss, s = .success
  · rw [if_neg (not_not.mpr hall), if_pos hall]
  · rw [if_pos hall, if_neg hall]

theorem calculateEventStatus_summarises {ss : List DeliveryStatus} (hne : ss ≠ []) :
    Summarises (calculateEventStatus ss) ss := by
  by_cases hu : ∃ s ∈ ss, s.terminal = false
  · rw [calculateEventStatus_unfinished hu]
    exact .of_unfinished hu (.inr rfl)
  · have hterm : ∀ s ∈ ss, s.terminal = true := by
      intro s hs
      by_contra hno
      exact hu ⟨s, hs, Bool.eq_false_iff.mpr hno⟩
    rw [calculateEventStatus_finished hterm]
    by_cases hall : ∀ s ∈ ss, s = .success
    · rw [if_pos hall]
      have hno : ¬ ∃ s ∈ ss, s ≠ .success := fun ⟨s, hs, hns⟩ => hns (hall s hs)
      exact ⟨by simp [hne], fun _ => ⟨fun _ => hall, fun _ => rfl⟩, fun _ => by simp [hno],
        fun _ h => absurd hall h⟩
    · rw [if_neg hall]
      have hex : ∃ s ∈ ss, s ≠ .success := by
        simp only [not_forall] at hall
        obtain ⟨s, hs, hns⟩ := hall
        exact ⟨s, hs, hns⟩
      exact ⟨by simp [hne], fun _ => by simp [hall], fun _ => ⟨fun _ => ⟨hterm, hex⟩, fun _ => rfl⟩,
        fun _ _ h => absurd ⟨hterm, hex⟩ h⟩

namespace Database

theorem mem_statuses {db : Database} {e : Nat} {st : DeliveryStatus} :
    st ∈ db.statuses e ↔ ∃ d r, db.deliveries.row d = some r ∧ r.eventId = e ∧ r.status = st := by
  simp only [statuses, List.mem_map, Prod.exists, Table.mem_select, beq_iff_eq, and_assoc]

def EventsAgree (db : Database) : Prop :=
  ∀ e ev, db.events.row e = some ev → Summarises ev.status (db.statuses e)

variable {cfg : Config} {now : Time} {db db' : Database} {d : Nat} {r : Delivery} {f : Delivery → Delivery}

theorem mem_statuses_self (hd : db'.deliveries = db.deliveries.modify d f)
    (hr : db.deliveries.row d = some r) (hf : (f r).eventId = r.eventId) :
    (f r).status ∈ db'.statuses r.eventId :=
  mem_statuses.mpr ⟨d, f r, by simp [hd, hr], hf, rfl⟩

theorem eventsAgree_modify (ha : db.EventsAgree) (hd : db'.deliveries = db.deliveries.modify d f)
    (hr : db.deliveries.row d = some r) (hf : (f r).eventId = r.eventId)
    (he : ∀ e, e ≠ r.eventId → db'.events.row e = db.events.row e) :
    db'.EventsAgree ↔ ∀ ev, db'.events.row r.eventId = some ev →
      Summarises ev.status (db'.statuses r.eventId) := by
  constructor
  · intro h ev hev
    exact h r.eventId ev hev
  · intro h e ev hev
    by_cases hre : e = r.eventId
    · subst hre
      exact h ev hev
    · rw [he e hre] at hev
      refine (ha e ev hev).of_mem_iff fun st => ?_
      have hother : ∀ d' r', r'.eventId = e →
          (db'.deliveries.row d' = some r' ↔ db.deliveries.row d' = some r') := by
        intro d' r' hr'
        rw [hd, Table.modify_row_eq_map]
        by_cases hdd : d' = d
        · subst hdd
          rw [hr]
          simp only [if_true, Option.map_some, Option.some.injEq]
          constructor
          · rintro rfl
            exact absurd (hr'.symm.trans hf) hre
          · rintro rfl
            exact absurd hr'.symm hre
        · simp [hdd]
      rw [mem_statuses, mem_statuses]
      constructor
      · rintro ⟨d', r', hr', hev', hst⟩
        exact ⟨d', r', (hother d' r' hev').mpr hr', hev', hst⟩
      · rintro ⟨d', r', hr', hev', hst⟩
        exact ⟨d', r', (hother d' r' hev').mp hr', hev', hst⟩

theorem eventsAgree_processing (ha : db.EventsAgree) (hd : db'.deliveries = db.deliveries.modify d f)
    (he : db'.events = db.events.modify r.eventId (.setStatus now .processing))
    (hr : db.deliveries.row d = some r) (hf : (f r).eventId = r.eventId)
    (hu : (f r).status.terminal = false) : db'.EventsAgree := by
  refine (eventsAgree_modify ha hd hr hf fun e hne => ?_).mpr fun ev hev => ?_
  · rw [he, Table.modify_row_of_ne _ _ hne]
  · rw [he, Table.modify_row_self, Option.map_eq_some_iff] at hev
    obtain ⟨ev₀, _, rfl⟩ := hev
    exact .of_unfinished ⟨_, mem_statuses_self hd hr hf, hu⟩ (.inr rfl)

theorem eventsAgree_unfinished (hl : db.Linked) (ha : db.EventsAgree)
    (hd : db'.deliveries = db.deliveries.modify d f) (he : db'.events = db.events)
    (hr : db.deliveries.row d = some r) (hf : (f r).eventId = r.eventId)
    (hu : (f r).status.terminal = false) :
    db'.EventsAgree ↔ ∃ st ∈ db.statuses r.eventId, st.terminal = false := by
  have hmem := mem_statuses_self hd hr hf
  have hmem₀ : r.status ∈ db.statuses r.eventId := mem_statuses.mpr ⟨d, r, hr, rfl, rfl⟩
  obtain ⟨ev, hev⟩ := Option.isSome_iff_exists.mp (hl.event d r hr)
  rw [eventsAgree_modify ha hd hr hf fun e _ => by rw [he], he,
    ← (ha _ ev hev).open_iff (List.ne_nil_of_mem hmem₀)]
  constructor
  · intro h
    exact ((h ev hev).open_iff (List.ne_nil_of_mem hmem)).mpr ⟨_, hmem, hu⟩
  · intro hopen ev' hev'
    rw [hev] at hev'
    cases hev'
    exact .of_unfinished ⟨_, hmem, hu⟩ hopen

theorem eventsAgree_settle (ha : db.EventsAgree) (h : db.settle now d f = some db')
    (hf : ∀ r, (f r).eventId = r.eventId) : db'.EventsAgree := by
  obtain ⟨r, hr, _, hdb⟩ := settle_eq_some.mp h
  have hd : db'.deliveries = db.deliveries.modify d f := by rw [← hdb]
  have he : db'.events = db.events.modify r.eventId
      (.setStatus now (calculateEventStatus (db'.statuses r.eventId))) := by
    rw [← hdb, hf]
    rfl
  refine (eventsAgree_modify ha hd hr (hf r) fun e hne => ?_).mpr fun ev hev => ?_
  · rw [he, Table.modify_row_of_ne _ _ hne]
  · rw [he, Table.modify_row_self, Option.map_eq_some_iff] at hev
    obtain ⟨ev₀, _, rfl⟩ := hev
    exact calculateEventStatus_summarises (List.ne_nil_of_mem (mem_statuses_self hd hr (hf r)))

theorem eventsAgree_createForTenant {input : CreateWebhookEventInput} {endpointIds : List Nat}
    (hl : db.Linked) (ha : db.EventsAgree) (h : db.createForTenant now input endpointIds = some db') :
    db'.EventsAgree := by
  obtain ⟨_, _, _, hdb⟩ := Txn.createForTenant_eq_some.mp h
  have hb : db.deliveries.Becomes db'.deliveries (fun _ => true) (fun _ r => r)
      (endpointIds.map (Delivery.created now db.events.next)) := by
    have hself : db.deliveries.Becomes db.deliveries (fun _ => true) (fun _ r => r) [] :=
      Table.becomes_self fun _ _ _ => rfl
    rw [← hdb]
    exact hself.insertAll _
  intro e ev hev
  rw [← hdb] at hev
  simp only [Table.insert_row] at hev
  split at hev
  · rename_i hnew
    subst hnew
    cases hev
    have hmem : ∀ st, st ∈ db'.statuses db.events.next ↔ st = .pending ∧ endpointIds ≠ [] := by
      intro st
      rw [mem_statuses]
      constructor
      · rintro ⟨d, r, hr, he, hst⟩
        rcases hb.origin hr with ⟨r₀, hold, _, rfl⟩ | ⟨_, hget⟩
        · obtain ⟨ev₀, hev₀⟩ := Option.isSome_iff_exists.mp (hl.event d r hold)
          have hlt := Table.lt_next hev₀
          omega
        · simp only [List.getElem?_map, Option.map_eq_some_iff] at hget
          obtain ⟨ep, hep, rfl⟩ := hget
          exact ⟨hst.symm, List.ne_nil_of_mem (List.mem_of_getElem? hep)⟩
      · rintro ⟨rfl, hne⟩
        obtain ⟨ep, rest, rfl⟩ := List.exists_cons_of_ne_nil hne
        exact ⟨db.deliveries.next + 0, .created now db.events.next ep, hb.new_row rfl, rfl, rfl⟩
    by_cases hnone : endpointIds = []
    · subst hnone
      have hempty : Summarises .noSubscribers [] := ⟨by simp, by simp, by simp, by simp⟩
      refine hempty.of_mem_iff fun st => ?_
      rw [hmem]
      simp
    · have hlen : endpointIds.length ≠ 0 := by simpa using hnone
      simp only [hlen, if_false]
      exact .of_unfinished ⟨.pending, (hmem _).mpr ⟨rfl, hnone⟩, rfl⟩ (.inl rfl)
  · rename_i hne
    refine (ha e ev hev).of_mem_iff fun st => ?_
    rw [mem_statuses, mem_statuses]
    constructor
    · rintro ⟨d, r, hr, he, hst⟩
      exact ⟨d, r, hb.kept hr rfl, he, hst⟩
    · rintro ⟨d, r, hr, he, hst⟩
      rcases hb.origin hr with ⟨r₀, hold, _, rfl⟩ | ⟨_, hget⟩
      · exact ⟨d, r, hold, he, hst⟩
      · simp only [List.getElem?_map, Option.map_eq_some_iff] at hget
        obtain ⟨ep, _, rfl⟩ := hget
        exact absurd he.symm hne

/-- Retention takes an event away with all of its deliveries, or leaves all of them. -/
theorem eventsAgree_cleanupOldEvents (days : Nat) (ha : db.EventsAgree) :
    (db.cleanupOldEvents days now).EventsAgree := by
  by_cases h0 : days = 0
  · simpa [cleanupOldEvents, h0] using ha
  · simp only [cleanupOldEvents, h0, if_false]
    intro e ev hev
    obtain ⟨hev, hkept⟩ := Table.deleteWhere_row_eq_some.mp hev
    refine (ha e ev hev).of_mem_iff fun st => ?_
    rw [mem_statuses, mem_statuses]
    constructor
    · rintro ⟨d, r, hr, rfl, hst⟩
      exact ⟨d, r, Table.deleteWhere_row_eq_some.mpr ⟨hr, by simp [doomed, hev, hkept]⟩, rfl, hst⟩
    · rintro ⟨d, r, hr, he, hst⟩
      exact ⟨d, r, (Table.deleteWhere_row_eq_some.mp hr).1, he, hst⟩

theorem EventsAgree.of_same (ha : db.EventsAgree) (hd : db'.deliveries = db.deliveries)
    (he : db'.events = db.events) : db'.EventsAgree := by
  intro e ev hev
  rw [he] at hev
  simpa only [statuses, hd] using ha e ev hev

end Database

/-- A write by identifier that leaves its delivery unfinished finds the event with an
unfinished delivery already. -/
def Txn.DefersOpen (db : Database) (x : Txn) : Prop :=
  ∀ p ∈ x.overwrites, p.2.terminal = false → ∀ r ∈ db.deliveries.row p.1,
    ∃ st ∈ db.statuses r.eventId, st.terminal = false

namespace Txn

variable {cfg : Config} {now : Time} {db db' : Database} {x : Txn}

theorem eventsAgree_schedule {id availableAt n : Nat} {f : Delivery → Delivery} (hl : db.Linked)
    (ha : db.EventsAgree) (h : db.schedule now id f availableAt n = some db')
    (hf : ∀ r, (f r).eventId = r.eventId) (hu : ∀ r, (f r).status.terminal = false) :
    db'.EventsAgree ↔ ∀ r ∈ db.deliveries.row id, ∃ st ∈ db.statuses r.eventId, st.terminal = false := by
  obtain ⟨r, hr, hdb⟩ := Database.schedule_eq_some.mp h
  have hd : db'.deliveries = db.deliveries.modify id f := by rw [← hdb]
  have he : db'.events = db.events := by rw [← hdb]
  rw [Database.eventsAgree_unfinished hl ha hd he hr (hf r) (hu r)]
  simp [hr]

theorem eventsAgree_apply_iff (hl : db.Linked) (ha : db.EventsAgree)
    (h : x.apply cfg now db = some db') : db'.EventsAgree ↔ x.DefersOpen db := by
  have kept : db'.EventsAgree → (∀ p ∈ x.overwrites, p.2.terminal = true) →
      (db'.EventsAgree ↔ x.DefersOpen db) := by
    intro hagree hterm
    refine iff_of_true hagree fun p hp hno => ?_
    rw [hterm p hp] at hno
    cases hno
  cases x with
  | createForTenant input endpointIds =>
    exact kept (Database.eventsAgree_createForTenant hl ha h) (by simp [overwrites])
  | claimForProcessing id n =>
    refine kept ?_ (by simp [overwrites])
    cases h
    rcases Database.claimForProcessing_cases now db id n with ⟨_, he⟩ | ⟨r, hr, hc, _⟩
    · rw [he]
      exact ha
    · obtain ⟨_, _, _, _, hdb⟩ := hl.claimForProcessing_eq now hr hc
      rw [hdb]
      exact Database.eventsAgree_processing ha rfl rfl hr rfl rfl
  | markSuccess id code snippet =>
    exact kept (Database.eventsAgree_settle ha h fun _ => rfl) (by simp [overwrites])
  | markDeadLetter id code snippet =>
    exact kept (Database.eventsAgree_settle ha h fun _ => rfl) (by simp [overwrites])
  | markCancelled id reason =>
    exact kept (Database.eventsAgree_settle ha h fun _ => rfl) (by simp [overwrites])
  | markFailedAndSchedule input =>
    rw [eventsAgree_schedule hl ha h (fun _ => rfl) fun _ => rfl]
    simp [DefersOpen, overwrites, DeliveryStatus.terminal]
  | markRateLimitedAndSchedule id at' n =>
    rw [eventsAgree_schedule hl ha h (fun _ => rfl) fun _ => rfl]
    simp [DefersOpen, overwrites, DeliveryStatus.terminal]
  | recoverStaleDelivery id attempts cutoff =>
    refine kept ?_ (by simp [overwrites])
    cases h
    rcases Database.recoverStaleDelivery_cases now db id attempts cutoff with
      ⟨_, he⟩ | ⟨r, hr, hst, he⟩
    · rw [he]
      exact ha
    · have hprocessing : r.status = .processing := by
        simp only [Delivery.staleBefore, Bool.and_eq_true, beq_iff_eq] at hst
        exact hst.1
      have hopen : ∃ st ∈ db.statuses r.eventId, st.terminal = false :=
        ⟨r.status, Database.mem_statuses.mpr ⟨id, r, hr, rfl, rfl⟩, by rw [hprocessing]; rfl⟩
      exact (Database.eventsAgree_unfinished (f := .recover now) hl ha (by rw [he]) (by rw [he]) hr rfl
        rfl).mpr hopen
  | resetForReplay id =>
    refine kept ?_ (by simp [overwrites])
    obtain ⟨r, hr, _, hdb⟩ := Database.resetForReplay_eq_some.mp h
    rw [← hdb]
    exact Database.eventsAgree_processing ha rfl rfl hr rfl rfl
  | cleanupOldEvents =>
    refine kept ?_ (by simp [overwrites])
    cases h
    exact Database.eventsAgree_cleanupOldEvents _ ha
  | setEndpointActive id b =>
    refine kept ?_ (by simp [overwrites])
    simp only [apply, Database.setEndpointActive, Option.map_eq_some_iff] at h
    obtain ⟨_, _, rfl⟩ := h
    exact ha.of_same rfl rfl
  | cleanupExpiredEndpointSecrets =>
    cases h
    exact kept (ha.of_same rfl rfl) (by simp [overwrites])
  | cleanupPublishedOutboxRows =>
    cases h
    exact kept (ha.of_same rfl rfl) (by simp [overwrites])
  | _ =>
    obtain ⟨_, _, rfl⟩ := Database.updateOutbox_eq_some.mp h
    exact kept (ha.of_same rfl rfl) (by simp [overwrites])

end Txn

def DefersOpen (cfg : Config) (s : System) (a : Act) (_ : System) : Prop :=
  ∀ x ∈ s.txn cfg a, x.DefersOpen s.db

theorem eventsAgree_step_iff {cfg : Config} {s t : System} {a : Act} (hl : s.db.Linked)
    (ha : s.db.EventsAgree) (h : s.Step cfg a t) : t.db.EventsAgree ↔ DefersOpen cfg s a t := by
  have hdb : t.db = ((s.txn cfg a).bind fun x => x.apply cfg s.now s.db).getD s.db := h.db
  cases hx : s.txn cfg a with
  | none =>
    rw [hdb, hx]
    exact iff_of_true ha fun x hx' => by simp [hx] at hx'
  | some x =>
    have hcond : DefersOpen cfg s a t ↔ x.DefersOpen s.db := by simp [DefersOpen, hx]
    rw [hcond, hdb, hx, Option.bind_some]
    cases happ : x.apply cfg s.now s.db with
    | some db' => exact Txn.eventsAgree_apply_iff hl ha happ
    | none =>
      -- a write by identifier throws only where its row is missing
      refine iff_of_true ha fun p hp _ r hr => ?_
      have hsome : (x.apply cfg s.now s.db).isSome = true := Txn.apply_of_overwrites hl hp hr
      rw [happ] at hsome
      cases hsome

/-- The statuses of the events agree with their deliveries all along a run exactly when
its deferrals and scheduled retries land on events with an unfinished delivery. -/
theorem event_statuses_agree_iff (cfg : Config) (u : Setup) (as : List Act) :
    Transition.Visits (System.step cfg) (fun s => s.db.EventsAgree) (.boot u) as ↔
      Transition.Along (System.step cfg) (DefersOpen cfg) (.boot u) as := by
  refine Transition.visits_iff_along (J := fun s => s.db.Linked) (fun s a t hl ht => ?_)
    (fun s a t hl ha ht => ?_) (System.boot_linked u) fun e ev hev => ?_
  · exact (System.Step.of_step ht).linked hl
  · exact eventsAgree_step_iff hl ha (.of_step ht)
  · cases hev

/-- A retry is scheduled by a worker whose delivery another one has meanwhile finished. -/
def lateRetry : List Act :=
  Script.ingest ++ Script.publish 0 ++ Script.claim 0 (jobId 0 0) ++
    [.send 0, .tick 900001, .staleSelect 0 [0], .staleRecover 0] ++ Script.publish 1 ++
    Script.claim 1 (jobId 1 0) ++ Script.answer 1 200 ++
    [.settle 1 0, .answer 0 (.rejected ⟨some 503, none, none, none⟩), .settle 0 1000]

theorem event_statuses_disagree : ¬ ∀ (cfg : Config) (u : Setup) (as : List Act),
    Transition.Visits (System.step cfg) (fun s => s.db.EventsAgree) (.boot u) as := by
  intro h
  have hrun : System.Reached .defaults (.subscribed 1) lateRetry
      (.after .defaults (.subscribed 1) lateRetry) := Transition.run_ending (by decide +kernel)
  have hlast := (h .defaults (.subscribed 1) lateRetry).last hrun
  have hevent : ((System.after .defaults (.subscribed 1) lateRetry).db.events.row 0).map
      WebhookEvent.status = some .done := by decide +kernel
  have hstatuses : (System.after .defaults (.subscribed 1) lateRetry).db.statuses 0 = [.failed] := by
    decide +kernel
  obtain ⟨ev, hev, hdone⟩ := Option.map_eq_some_iff.mp hevent
  have hagree := hlast 0 ev hev
  rw [hstatuses] at hagree
  have hall := (hagree.done (by simp)).mp hdone
  simp at hall

end WebhookEngine
