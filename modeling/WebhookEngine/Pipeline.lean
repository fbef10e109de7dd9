import WebhookEngine.Course

/-! The running system takes every delivery of an orderly run to the fate its answers have
for it, whatever the order of publications and jobs. -/

namespace WebhookEngine

open Relational

/-- No outbox row is unpublished, and no job is waiting or running. -/
structure Drained (s : System) : Prop where
  published : ∀ i o, s.db.deliveryOutbox.row i = some o → o.publishedAt ≠ none
  empty : ∀ j job, s.queue j = some job → job.unfinished = false

section Course

variable {cfg : Config} {answers : Nat → Nat → SendResult} {s t : System} {a : Act}

structure Flowing (cfg : Config) (answers : Nat → Nat → SendResult) (s : System) : Prop where
  sound : Sound s
  agree : s.db.EventsAgree
  course : OnCourse cfg answers s
  busy : Busy s

namespace Flowing

theorem boot (u : Setup) : Flowing cfg answers (.boot u) where
  sound := .boot u
  agree e ev hev := by cases hev
  course := .boot u
  busy w k hw := by cases hw

theorem step (h : Flowing cfg answers s) (ht : s.Step cfg a t) (ha : a.orderly = true)
    (hanswered : Answered answers s a t) : Flowing cfg answers t where
  sound := h.sound.step ht (Act.orderly.keeps ha) h.course.schedulesNext
  agree := (eventsAgree_step_iff h.sound.linked h.agree ht).mpr h.course.defersOpen
  course := h.course.step h.sound.linked ht ha hanswered
  busy := h.busy.step h.course ht ha

theorem of_reached {u : Setup} {as : List Act} (hrun : System.Reached cfg u as s)
    (horderly : ∀ a ∈ as, a.orderly = true)
    (hanswered : Transition.Along (System.step cfg) (Answered answers) (.boot u) as) :
    Flowing cfg answers s := by
  have hacts : Transition.Along (System.step cfg) (fun _ a _ => a.orderly = true) (.boot u) as :=
    Transition.along_of_mem fun a ha _ _ => horderly a ha
  have hvisits : Transition.Visits (System.step cfg) (Flowing cfg answers) (.boot u) as :=
    (hacts.and hanswered).visits (fun _ _ _ h ht hp => h.step (.of_step ht) hp.1 hp.2) (boot u)
  exact hvisits.last hrun

variable (h : Flowing cfg answers s) (hd : Drained s)
include h hd

/-- Nothing waits, for its token would be left, and nothing is in a worker's hands. -/
theorem finished {d : Nat} {r : Delivery} (hr : s.db.deliveries.row d = some r) :
    r.status.terminal = true ∧ fate (answers d) cfg.maxAttempts 0 = (r.status, requestsOf d s.trace) := by
  have hidle : r.status ≠ .processing := by
    intro hst
    obtain ⟨k, _, hk, _⟩ := h.course.held d r hr hst
    obtain ⟨job, hj, hu⟩ := h.busy 0 k hk
    rw [hd.empty _ job hj] at hu
    cases hu
  have hsettled : r.status.claimable = false := by
    rw [Bool.eq_false_iff]
    intro hcl
    rcases h.sound.covered d r hr hcl with ⟨i, o, ho, _, _, hun⟩ | ⟨j, job, hj, hu, _⟩
    · exact hd.published i o ho hun
    · rw [hd.empty j job hj] at hu
      cases hu
  obtain ⟨hfits, hcount⟩ := h.course.rows d r hr hidle
  rcases hfits with ⟨hcl, _⟩ | ⟨hdone, hfate⟩
  · rw [hsettled] at hcl
    cases hcl
  · refine ⟨?_, by rw [hcount, hfate]⟩
    rcases hdone with he | he <;> rw [he] <;> rfl

theorem event_status {e : Nat} {ev : WebhookEvent} (hev : s.db.events.row e = some ev)
    (hne : s.db.statuses e ≠ []) :
    ev.status = if ∀ st ∈ s.db.statuses e, st = .success then .done else .failed := by
  have hagree := h.agree e ev hev
  have hterm : ∀ st ∈ s.db.statuses e, st.terminal = true := by
    intro st hst
    obtain ⟨d, r, hr, _, rfl⟩ := Database.mem_statuses.mp hst
    exact (h.finished hd hr).1
  split
  · rename_i hall
    exact (hagree.done hne).mpr hall
  · rename_i hno
    simp only [not_forall] at hno
    obtain ⟨st, hst, hns⟩ := hno
    exact (hagree.failed hne).mpr ⟨hterm, st, hst, hns⟩

end Flowing

/-- In an orderly run, whatever its order, once no outbox row and no job is left every
delivery has come to what its answers mean for it, and every event sums its deliveries up. -/
theorem pipeline_meets_specification {u : Setup} {as : List Act} (hrun : System.Reached cfg u as s)
    (horderly : ∀ a ∈ as, a.orderly = true)
    (hanswered : Transition.Along (System.step cfg) (Answered answers) (.boot u) as) (hd : Drained s) :
    (∀ d r, s.db.deliveries.row d = some r →
      AsSpecified cfg.maxAttempts (answers d) r.status (requestsOf d s.trace)) ∧
    ∀ e ev, s.db.events.row e = some ev → s.db.statuses e ≠ [] →
      ev.status = if ∀ st ∈ s.db.statuses e, st = .success then .done else .failed := by
  have h := Flowing.of_reached hrun horderly hanswered
  refine ⟨fun d r hr => ?_, fun e ev hev hne => h.event_status hd hev hne⟩
  have hfate := fate_asSpecified cfg.maxAttempts (answers d)
  rw [(h.finished hd hr).2] at hfate
  exact hfate

end Course

/-- The first delivery is answered with 503 and then 200, the second with 404. -/
def mixedAnswers (d n : Nat) : SendResult :=
  if d = 1 then .rejected ⟨some 404, none, none, none⟩
  else if n = 1 then .rejected ⟨some 503, none, none, none⟩
  else .resolved 200 ""

/-- The first delivery is retried, with a second job for its first attempt in between, and
the limiter holds back the second one. -/
def mixedRun : List Act :=
  Script.ingest ++ [.publishRead 0 [0, 1], .publishAdd 0, .publishMark 0, .publishAdd 0, .publishMark 0,
    .duplicate 0 (jobId 0 0)] ++
    Script.claim 0 (jobId 0 0) ++ Script.answer 0 503 ++ [.settle 0 1000, .finish 0] ++
    [.take 0 (jobId 1 0), .find 0, .limit 0 (some 1000), .defer 0, .finish 0] ++
    Script.claim 0 (.extra 0) ++ [.finish 0, .tick 1000, .publishRead 0 [2, 3], .publishAdd 0, .publishMark 0,
      .publishAdd 0, .publishMark 0] ++
    Script.claim 0 (jobId 3 0) ++ Script.answer 0 404 ++ [.settle 0 0, .finish 0] ++
    Script.claim 0 (jobId 2 0) ++ Script.answer 0 200 ++ [.settle 0 0, .finish 0]

theorem mixedRun_queue {j : JobId} {job : Job}
    (h : (System.after .defaults (.subscribed 2) mixedRun).queue j = some job) :
    j ∈ [jobId 0 0, jobId 1 0, .extra 0, jobId 2 0, jobId 3 0] := by
  have hqueue : (System.after .defaults (.subscribed 2) mixedRun).queue =
      (Queue.add (fun _ => none) (jobId 0 0) 0 1
        |>.add (jobId 1 0) 1 1 |>.add (.extra 0) 0 1
        |>.setState (jobId 0 0) .active |>.setState (jobId 0 0) .completed
        |>.setState (jobId 1 0) .active |>.setState (jobId 1 0) .completed
        |>.setState (.extra 0) .active |>.setState (.extra 0) .completed
        |>.add (jobId 2 0) 0 2 |>.add (jobId 3 0) 1 1
        |>.setState (jobId 3 0) .active |>.setState (jobId 3 0) .completed
        |>.setState (jobId 2 0) .active |>.setState (jobId 2 0) .completed) := rfl
  rw [hqueue] at h
  by_contra hne
  simp only [List.mem_cons, List.not_mem_nil, or_false, not_or] at hne
  obtain ⟨h₀, h₁, h₂, h₃, h₄⟩ := hne
  simp only [Queue.setState_of_ne _ _ h₀, Queue.setState_of_ne _ _ h₁, Queue.setState_of_ne _ _ h₂,
    Queue.setState_of_ne _ _ h₃, Queue.setState_of_ne _ _ h₄, Queue.add_of_ne _ _ _ h₀, Queue.add_of_ne _ _ _ h₁,
    Queue.add_of_ne _ _ _ h₂, Queue.add_of_ne _ _ _ h₃, Queue.add_of_ne _ _ _ h₄] at h
  cases h

theorem mixedRun_drained : Drained (.after .defaults (.subscribed 2) mixedRun) where
  published i o ho := by
    have hnext : (System.after .defaults (.subscribed 2) mixedRun).db.deliveryOutbox.next = 4 := by decide +kernel
    have hrows : ∀ i < 4, ∀ o ∈ (System.after .defaults (.subscribed 2) mixedRun).db.deliveryOutbox.row i,
        o.publishedAt ≠ none := by decide +kernel
    exact hrows i (hnext ▸ Table.lt_next ho) o ho
  empty j job hj := by
    have hjobs : ∀ j ∈ [jobId 0 0, jobId 1 0, .extra 0, jobId 2 0, jobId 3 0],
        ∀ job ∈ (System.after .defaults (.subscribed 2) mixedRun).queue j, job.unfinished = false := by
      decide +kernel
    exact hjobs j (mixedRun_queue hj) job hj

theorem pipeline_meets_specification_mixed :
    let s := System.after .defaults (.subscribed 2) mixedRun
    AsSpecified 5 (mixedAnswers 0) .success 2 ∧ AsSpecified 5 (mixedAnswers 1) .dlq 1 ∧
      (s.db.events.row 0).map WebhookEvent.status = some .failed := by
  have hrun : System.Reached .defaults (.subscribed 2) mixedRun (.after .defaults (.subscribed 2) mixedRun) :=
    Transition.run_ending (by decide +kernel)
  have horderly : ∀ a ∈ mixedRun, a.orderly = true := by decide +kernel
  have hanswered : Transition.Along (System.step .defaults) (Answered mixedAnswers) (.boot (.subscribed 2))
      mixedRun := by decide +kernel
  obtain ⟨hdeliveries, hevents⟩ :=
    pipeline_meets_specification hrun horderly hanswered mixedRun_drained
  have hrow₀ : ((System.after .defaults (.subscribed 2) mixedRun).db.deliveries.row 0).map Delivery.status =
      some .success := by decide +kernel
  have hrow₁ : ((System.after .defaults (.subscribed 2) mixedRun).db.deliveries.row 1).map Delivery.status =
      some .dlq := by decide +kernel
  have hsent₀ : requestsOf 0 (System.after .defaults (.subscribed 2) mixedRun).trace = 2 := by decide +kernel
  have hsent₁ : requestsOf 1 (System.after .defaults (.subscribed 2) mixedRun).trace = 1 := by decide +kernel
  have hstatuses : (System.after .defaults (.subscribed 2) mixedRun).db.statuses 0 = [.success, .dlq] := by
    decide +kernel
  have hevent : ((System.after .defaults (.subscribed 2) mixedRun).db.events.row 0).isSome = true := by
    decide +kernel
  obtain ⟨r₀, hr₀, hst₀⟩ := Option.map_eq_some_iff.mp hrow₀
  obtain ⟨r₁, hr₁, hst₁⟩ := Option.map_eq_some_iff.mp hrow₁
  obtain ⟨ev, hev⟩ := Option.isSome_iff_exists.mp hevent
  have hfate₀ := hdeliveries 0 r₀ hr₀
  have hfate₁ := hdeliveries 1 r₁ hr₁
  have hstatus := hevents 0 ev hev (by simp [hstatuses])
  rw [hst₀, hsent₀] at hfate₀
  rw [hst₁, hsent₁] at hfate₁
  rw [hstatuses] at hstatus
  exact ⟨hfate₀, hfate₁, by simpa [hev] using hstatus⟩

end WebhookEngine
