import WebhookEngine.EventAgreement
import WebhookEngine.System

/-! The terminal transactions of several workers, statement by statement, under READ
COMMITTED: a statement sees what is committed before it and what its own transaction has
written, and a write to the event waits for the transaction that wrote it before. -/

namespace WebhookEngine

open Relational

/-- The terminal transaction of a delivery's worker, with what it is passed. -/
inductive Settlement where
  | success (statusCode : Nat) (responseSnippet : String)
  | deadLetter (statusCode : Nat) (responseSnippet : String)
  | cancelled (reason : String)
  deriving DecidableEq, Repr

def Settlement.data : Settlement → Delivery → Delivery
  | .success statusCode responseSnippet => .succeed statusCode responseSnippet
  | .deadLetter statusCode responseSnippet => .deadLetter statusCode responseSnippet
  | .cancelled reason => .cancel reason

/-- The statements of a terminal transaction, by the delivery it is about. -/
inductive Stmt where
  | update (d : Nat)
  | read (d : Nat)
  | write (d : Nat) (now : Time)
  | commit (d : Nat)
  deriving DecidableEq, Repr

def Stmt.delivery : Stmt → Nat
  | .update d => d
  | .read d => d
  | .write d _ => d
  | .commit d => d

inductive Progress where
  | idle
  | updated
  | read (seen : List DeliveryStatus)
  | written (status : EventStatus) (now : Time)
  | committed
  deriving DecidableEq, Repr

def Progress.unread : Progress → Prop
  | .idle => True
  | .updated => True
  | _ => False

/-- The transaction has read these statuses, or has gone on from them. -/
def Progress.readFrom (seen : List DeliveryStatus) : Progress → Prop
  | .read seen' => seen' = seen
  | .written status _ => status = calculateEventStatus seen
  | .committed => True
  | _ => False

/-- `holder` is the transaction that has written the event and not committed. -/
structure Completions where
  db : Database
  progress : Nat → Progress
  holder : Option Nat

namespace Completions

def start (db : Database) : Completions := ⟨db, fun _ => .idle, none⟩

def goto (s : Completions) (d : Nat) (p : Progress) : Completions :=
  { s with progress := Function.update s.progress d p }

variable (e : Nat) (outcome : Nat → Settlement)

def view (s : Completions) (d : Nat) : Database :=
  { s.db with deliveries := s.db.deliveries.modify d (outcome d).data }

def step (s : Completions) : Stmt → Option Completions
  | .update d =>
    match s.progress d, s.db.deliveries.row d with
    | .idle, some r => if r.eventId = e then some (s.goto d .updated) else none
    | _, _ => none
  | .read d =>
    match s.progress d with
    | .updated => some (s.goto d (.read ((s.view outcome d).statuses e)))
    | _ => none
  | .write d now =>
    match s.progress d, s.holder with
    | .read seen, none => some { s.goto d (.written (calculateEventStatus seen) now) with holder := some d }
    | _, _ => none
  | .commit d =>
    match s.progress d with
    | .written status now =>
      some
        { db := { s.view outcome d with events := s.db.events.modify e (.setStatus now status) }
          progress := Function.update s.progress d .committed
          holder := none }
    | _ => none

inductive Runs (s : Completions) : Stmt → Completions → Prop where
  | update {d r} (hp : s.progress d = .idle) (hr : s.db.deliveries.row d = some r) (he : r.eventId = e) :
      Runs s (.update d) (s.goto d .updated)
  | read {d} (hp : s.progress d = .updated) :
      Runs s (.read d) (s.goto d (.read ((s.view outcome d).statuses e)))
  | write {d now seen} (hp : s.progress d = .read seen) (hh : s.holder = none) :
      Runs s (.write d now)
        { s.goto d (.written (calculateEventStatus seen) now) with holder := some d }
  | commit {d status now} (hp : s.progress d = .written status now) :
      Runs s (.commit d)
        { db := { s.view outcome d with events := s.db.events.modify e (.setStatus now status) }
          progress := Function.update s.progress d .committed
          holder := none }

variable {e outcome} {s t : Completions} {a : Stmt}

theorem Runs.of_step (h : s.step e outcome a = some t) : Runs e outcome s a t := by
  cases a with
  | update d =>
    simp only [step] at h
    split at h
    · rename_i r hp hr
      split at h
      · rename_i he
        cases h
        exact .update hp hr he
      · cases h
    · cases h
  | read d =>
    simp only [step] at h
    split at h
    · rename_i hp
      cases h
      exact .read hp
    · cases h
  | write d now =>
    simp only [step] at h
    split at h
    · rename_i hp hh
      cases h
      exact .write hp hh
    · cases h
  | commit d =>
    simp only [step] at h
    split at h
    · rename_i hp
      cases h
      exact .commit hp
    · cases h

/-- The four statements of one worker with nothing in between are the repository's transaction. -/
theorem alone_eq_settle {db : Database} {d : Nat} {now : Time} {r : Delivery}
    (hr : db.deliveries.row d = some r) (hev : (db.events.row r.eventId).isSome = true) :
    (Transition.run (step r.eventId outcome) (start db) [.update d, .read d, .write d now, .commit d]).map
      Completions.db = db.settle now d (outcome d).data := by
  have hid : ((outcome d).data r).eventId = r.eventId := by cases outcome d <;> rfl
  have hsettle : db.settle now d (outcome d).data = some
      { db with
        deliveries := db.deliveries.modify d (outcome d).data
        events := db.events.modify r.eventId (.setStatus now (calculateEventStatus
          ({ db with deliveries := db.deliveries.modify d (outcome d).data }.statuses r.eventId))) } :=
    Database.settle_eq_some.mpr ⟨r, hr, by rw [hid]; exact hev, by rw [hid]⟩
  rw [hsettle]
  simp [Transition.run, step, start, goto, hr, view]

theorem Runs.other (h : Runs e outcome s a t) {d : Nat} (hd : d ≠ a.delivery) :
    t.progress d = s.progress d := by
  cases h with
  | update => exact Function.update_of_ne hd _ _
  | read => exact Function.update_of_ne hd _ _
  | write => exact Function.update_of_ne hd _ _
  | commit => exact Function.update_of_ne hd _ _

theorem Runs.uncommitted (h : Runs e outcome s a t) : s.progress a.delivery ≠ .committed := by
  cases h with
  | update hp => simp [Stmt.delivery, hp]
  | read hp => simp [Stmt.delivery, hp]
  | write hp => simp [Stmt.delivery, hp]
  | commit hp => simp [Stmt.delivery, hp]

theorem Runs.committed_stays (h : Runs e outcome s a t) {d : Nat} (hd : s.progress d = .committed) :
    t.progress d = .committed ∧ a ≠ .commit d := by
  have hne : d ≠ a.delivery := by
    rintro rfl
    exact h.uncommitted hd
  refine ⟨(h.other hne).trans hd, ?_⟩
  rintro rfl
  exact hne rfl

theorem run_committed {as : List Stmt} (h : Transition.run (step e outcome) s as = some t) {d : Nat}
    (hd : s.progress d = .committed) : t.progress d = .committed ∧ .commit d ∉ as := by
  induction as generalizing s with
  | nil =>
    cases h
    exact ⟨hd, List.not_mem_nil⟩
  | cons a as ih =>
    obtain ⟨u, hu, ht⟩ := Transition.run_cons_eq_some.mp h
    obtain ⟨hdu, hne⟩ := (Runs.of_step hu).committed_stays hd
    obtain ⟨hdt, hmem⟩ := ih ht hdu
    refine ⟨hdt, fun hm => ?_⟩
    rcases List.mem_cons.mp hm with he | hm
    · exact hne he.symm
    · exact hmem hm

theorem run_commit_mem {as : List Stmt} (h : Transition.run (step e outcome) s as = some t) {d : Nat}
    (hm : .commit d ∈ as) : t.progress d = .committed := by
  obtain ⟨pre, post, rfl⟩ := List.append_of_mem hm
  rw [Transition.run_append, Option.bind_eq_some_iff] at h
  obtain ⟨u, _, hu⟩ := h
  obtain ⟨v, hv, ht⟩ := Transition.run_cons_eq_some.mp hu
  have hcommitted : v.progress d = .committed := by
    cases Runs.of_step hv with
    | commit hp => simp
  exact (run_committed ht hcommitted).1

theorem run_quiet {as : List Stmt} (h : Transition.run (step e outcome) s as = some t)
    (hm : ∀ d, .commit d ∉ as) : t.db = s.db := by
  induction as generalizing s with
  | nil =>
    cases h
    rfl
  | cons a as ih =>
    obtain ⟨u, hu, ht⟩ := Transition.run_cons_eq_some.mp h
    rw [ih ht fun d hd => hm d (List.mem_cons_of_mem _ hd)]
    cases Runs.of_step hu with
    | @commit d => exact absurd List.mem_cons_self (hm d)
    | _ => rfl

theorem run_row {db : Database} {as : List Stmt}
    (h : Transition.run (step e outcome) (start db) as = some s) (d : Nat) :
    s.db.deliveries.row d = if s.progress d = .committed then (db.deliveries.row d).map (outcome d).data
      else db.deliveries.row d := by
  refine Transition.run_invariant (I := fun s => ∀ d, s.db.deliveries.row d =
    if s.progress d = .committed then (db.deliveries.row d).map (outcome d).data
      else db.deliveries.row d) (fun s a t hi ht d => ?_) (fun d => by simp [start]) h d
  have moved : ∀ (d₀ : Nat) (p : Progress), s.progress d₀ ≠ .committed → p ≠ .committed →
      s.db.deliveries.row d = if Function.update s.progress d₀ p d = .committed then
        (db.deliveries.row d).map (outcome d).data else db.deliveries.row d := by
    intro d₀ p hp hp'
    rw [hi d]
    by_cases hd : d = d₀
    · subst d
      simp [hp, hp']
    · simp [hd]
  cases Runs.of_step ht with
  | update hp => exact moved _ _ (by rw [hp]; simp) (by simp)
  | read hp => exact moved _ _ (by rw [hp]; simp) (by simp)
  | write hp => exact moved _ _ (by rw [hp]; simp) (by simp)
  | @commit d₀ status now hp =>
    have hd₀ := hi d₀
    rw [hp, if_neg (by simp)] at hd₀
    by_cases hd : d = d₀
    · subst d
      simp [view, hd₀]
    · simp [view, hd, Table.modify_row, hi d]

theorem Runs.unread_stays (h : Runs e outcome s a t) {d : Nat} (hd : (s.progress d).unread)
    (ha : a ≠ .read d) : (t.progress d).unread := by
  by_cases hne : d = a.delivery
  · subst hne
    cases h with
    | update => simp [goto, Stmt.delivery, Progress.unread]
    | read => exact absurd rfl ha
    | write hp => simp [Stmt.delivery, hp, Progress.unread] at hd
    | commit hp => simp [Stmt.delivery, hp, Progress.unread] at hd
  · rw [h.other hne]
    exact hd

theorem run_unread {as : List Stmt} (h : Transition.run (step e outcome) s as = some t) {d : Nat}
    (hd : (s.progress d).unread) (hm : .read d ∉ as) : (t.progress d).unread := by
  induction as generalizing s with
  | nil =>
    cases h
    exact hd
  | cons a as ih =>
    obtain ⟨u, hu, ht⟩ := Transition.run_cons_eq_some.mp h
    have hne : a ≠ .read d := by
      rintro rfl
      exact hm List.mem_cons_self
    exact ih ht ((Runs.of_step hu).unread_stays hd hne) fun hr => hm (List.mem_cons_of_mem _ hr)

theorem Runs.readFrom_stays (h : Runs e outcome s a t) {d : Nat} {seen : List DeliveryStatus}
    (hd : (s.progress d).readFrom seen) : (t.progress d).readFrom seen := by
  by_cases hne : d = a.delivery
  · subst hne
    cases h with
    | update hp => simp [Stmt.delivery, hp, Progress.readFrom] at hd
    | read hp => simp [Stmt.delivery, hp, Progress.readFrom] at hd
    | write hp =>
      simp only [Stmt.delivery, hp, Progress.readFrom] at hd
      simp [goto, Stmt.delivery, Progress.readFrom, hd]
    | commit hp => simp [Stmt.delivery, Progress.readFrom]
  · rw [h.other hne]
    exact hd

theorem run_from_read {pre mid : List Stmt} {d : Nat}
    (h : Transition.run (step e outcome) s (pre ++ .read d :: mid) = some t) :
    ∃ u, Transition.run (step e outcome) s pre = some u ∧
      Transition.run (step e outcome) u (.read d :: mid) = some t ∧
      (t.progress d).readFrom ((u.view outcome d).statuses e) := by
  rw [Transition.run_append, Option.bind_eq_some_iff] at h
  obtain ⟨u, hu, h⟩ := h
  obtain ⟨v, hv, ht⟩ := Transition.run_cons_eq_some.mp h
  have hread : (v.progress d).readFrom ((u.view outcome d).statuses e) := by
    cases Runs.of_step hv with
    | read hp => simp [goto, Progress.readFrom]
  have hlast : (t.progress d).readFrom ((u.view outcome d).statuses e) :=
    Transition.run_invariant
      (I := fun t : Completions => (t.progress d).readFrom ((u.view outcome d).statuses e))
      (fun s a t hi hs => (Runs.of_step hs).readFrom_stays hi) hread ht
  exact ⟨u, hu, h, hlast⟩

theorem run_event {as : List Stmt} (h : Transition.run (step e outcome) s as = some t)
    (hev : (s.db.events.row e).isSome = true) : (t.db.events.row e).isSome = true := by
  refine Transition.run_invariant (I := fun s : Completions => (s.db.events.row e).isSome = true)
    (fun s a t hi ht => ?_) hev h
  cases Runs.of_step ht with
  | commit hp => simpa using hi
  | _ => exact hi

theorem run_started {db : Database} {as : List Stmt}
    (h : Transition.run (step e outcome) (start db) as = some s) {d : Nat} (hd : s.progress d ≠ .idle) :
    ∃ r, db.deliveries.row d = some r ∧ r.eventId = e := by
  induction as using List.reverseRecOn generalizing s with
  | nil =>
    cases h
    exact absurd rfl hd
  | append_singleton as a ih =>
    obtain ⟨u, hu, ht⟩ := Transition.run_concat_eq_some.mp h
    by_cases hne : d = a.delivery
    · subst hne
      cases Runs.of_step ht with
      | @update d r hp hr he =>
        rw [run_row hu d, hp, if_neg (by simp)] at hr
        exact ⟨r, hr, he⟩
      | read hp => exact ih hu (by simp [Stmt.delivery, hp])
      | write hp => exact ih hu (by simp [Stmt.delivery, hp])
      | commit hp => exact ih hu (by simp [Stmt.delivery, hp])
    · rw [(Runs.of_step ht).other hne] at hd
      exact ih hu hd

/-- The transaction that commits last has read after every other commit. -/
def LastReadsAll (as : List Stmt) : Prop :=
  ∃ pre mid d, as = pre ++ .read d :: (mid ++ [.commit d]) ∧ ∀ d', .commit d' ∉ mid

theorem data_terminal (o : Settlement) (r : Delivery) : (o.data r).status.terminal = true := by
  cases o <;> rfl

section Complete

variable {db : Database} {as : List Stmt}

theorem complete_terminal (hrun : Transition.run (step e outcome) (start db) as = some s)
    (hdone : ∀ d r, db.deliveries.row d = some r → r.eventId = e → s.progress d = .committed)
    {st : DeliveryStatus} (hst : st ∈ s.db.statuses e) : st.terminal = true := by
  obtain ⟨d, r', hr', he, rfl⟩ := Database.mem_statuses.mp hst
  rw [run_row hrun d] at hr'
  split at hr'
  · obtain ⟨r, _, rfl⟩ := Option.map_eq_some_iff.mp hr'
    exact data_terminal (outcome d) r
  · rename_i hno
    exact absurd (hdone d r' hr' he) hno

theorem complete_last {d₀ : Nat} {r₀ : Delivery}
    (hrun : Transition.run (step e outcome) (start db) as = some s)
    (hdone : ∀ d r, db.deliveries.row d = some r → r.eventId = e → s.progress d = .committed)
    (hr₀ : db.deliveries.row d₀ = some r₀) (he₀ : r₀.eventId = e) :
    ∃ rest d u status now, as = rest ++ [.commit d] ∧
      Transition.run (step e outcome) (start db) rest = some u ∧
      u.progress d = .written status now ∧ s.progress d = .committed ∧
      s.db = { u.view outcome d with events := u.db.events.modify e (.setStatus now status) } := by
  have hne : as ≠ [] := by
    rintro rfl
    cases hrun
    have hcommitted := hdone d₀ r₀ hr₀ he₀
    cases hcommitted
  obtain ⟨rest, a, rfl⟩ := (List.eq_nil_or_concat' as).resolve_left hne
  obtain ⟨u, hu, hs⟩ := Transition.run_concat_eq_some.mp hrun
  have unfinished : ∀ d, s.progress d ≠ .idle → s.progress d = .committed := by
    intro d hd
    obtain ⟨r, hr, he⟩ := run_started hrun hd
    exact hdone d r hr he
  cases Runs.of_step hs with
  | @update d r hp hr he =>
    have hcommitted := unfinished d (by simp [goto])
    simp [goto] at hcommitted
  | @read d hp =>
    have hcommitted := unfinished d (by simp [goto])
    simp [goto] at hcommitted
  | @write d now seen hp =>
    have hcommitted := unfinished d (by simp [goto])
    simp [goto] at hcommitted
  | @commit d status now hp => exact ⟨rest, d, u, status, now, rfl, hu, hp, by simp, rfl⟩

end Complete

/-- Where every delivery of the event starts out PROCESSING and every one of them has been
settled, the event's status is the summary of theirs exactly when the last transaction to
commit has read after all other commits. -/
theorem concurrent_settle_iff {db : Database} {as : List Stmt}
    (hev : (db.events.row e).isSome = true) (hsome : db.statuses e ≠ [])
    (hprocessing : ∀ st ∈ db.statuses e, st = .processing)
    (hrun : Transition.run (step e outcome) (start db) as = some s)
    (hdone : ∀ d r, db.deliveries.row d = some r → r.eventId = e → s.progress d = .committed) :
    (s.db.events.row e).map WebhookEvent.status = some (calculateEventStatus (s.db.statuses e)) ↔
      LastReadsAll as := by
  obtain ⟨st₀, hst₀⟩ := List.exists_mem_of_ne_nil _ hsome
  obtain ⟨d₀, r₀, hr₀, he₀, _⟩ := Database.mem_statuses.mp hst₀
  obtain ⟨rest, d, u, status, now, rfl, hu, hp, hd, hdb⟩ := complete_last hrun hdone hr₀ he₀
  have hstatus : (s.db.events.row e).map WebhookEvent.status = some status := by
    obtain ⟨ev', hev'⟩ := Option.isSome_iff_exists.mp (run_event hu hev)
    simp [hdb, hev', WebhookEvent.setStatus]
  have hfinal : s.db.statuses e = (u.view outcome d).statuses e := by
    rw [hdb]
    rfl
  rw [hstatus, Option.some.injEq]
  constructor
  · intro heq
    have hread : .read d ∈ rest := by
      by_contra hno
      have hunread := run_unread hu (d := d) trivial hno
      rw [hp] at hunread
      exact hunread
    obtain ⟨pre, mid, rfl⟩ := List.append_of_mem hread
    obtain ⟨v, hv, hmid, hfrom⟩ := run_from_read hu
    rw [hp] at hfrom
    refine ⟨pre, mid, d, by simp, fun d' hd' => ?_⟩
    -- a sibling committed after the read was still PROCESSING in it
    have hd'mem : .commit d' ∈ Stmt.read d :: mid := List.mem_cons_of_mem _ hd'
    have hcommitted : u.progress d' = .committed := run_commit_mem hmid hd'mem
    have hne : d' ≠ d := by
      rintro rfl
      rw [hp] at hcommitted
      cases hcommitted
    have hnot : v.progress d' ≠ .committed := fun hc => (run_committed hmid hc).2 hd'mem
    obtain ⟨r, hr, he⟩ := run_started hu (d := d') (by rw [hcommitted]; simp)
    have hrow : (v.view outcome d).deliveries.row d' = some r := by
      simp [view, Table.modify_row, hne, run_row hv d', hnot, hr]
    have hprocessing' : r.status = .processing :=
      hprocessing r.status (Database.mem_statuses.mpr ⟨d', r, hr, he, rfl⟩)
    have hseen : .processing ∈ (v.view outcome d).statuses e :=
      Database.mem_statuses.mpr ⟨d', r, hrow, he, hprocessing'⟩
    have hopen : calculateEventStatus (s.db.statuses e) = .processing := by
      rw [← heq, hfrom]
      exact calculateEventStatus_unfinished ⟨.processing, hseen, rfl⟩
    rw [calculateEventStatus_finished fun st hst => complete_terminal hrun hdone hst] at hopen
    split at hopen <;> cases hopen
  · rintro ⟨pre, mid, d', heq, hquiet⟩
    have hsplit : rest ++ [.commit d] = (pre ++ .read d' :: mid) ++ [.commit d'] := by simp [heq]
    obtain ⟨rfl, hlast⟩ := List.append_inj' hsplit rfl
    cases hlast
    obtain ⟨v, hv, hmid, hfrom⟩ := run_from_read hu
    rw [hp] at hfrom
    have hsame : u.db = v.db := by
      refine run_quiet hmid fun d' hd' => ?_
      rcases List.mem_cons.mp hd' with he | hd'
      · cases he
      · exact hquiet d' hd'
    have hview : u.view outcome d = v.view outcome d := by simp only [view, hsame]
    rw [hfinal, hview]
    exact hfrom

def bothClaimed : List Act :=
  Script.ingest ++
    [.publishRead 0 [0, 1], .publishAdd 0, .publishMark 0, .publishAdd 0, .publishMark 0] ++
    Script.claim 0 (jobId 0 0) ++ Script.claim 1 (jobId 1 0)

def processingPair : Database := (System.after .defaults (.subscribed 2) bothClaimed).db

theorem processingPair_next : processingPair.deliveries.next = 2 := by decide +kernel

theorem processingPair_done (h₀ : s.progress 0 = .committed) (h₁ : s.progress 1 = .committed) :
    ∀ d r, processingPair.deliveries.row d = some r → r.eventId = 0 → s.progress d = .committed := by
  intro d r hr _
  have hlt : d < 2 := processingPair_next ▸ Table.lt_next hr
  obtain rfl | rfl : d = 0 ∨ d = 1 := by omega
  · exact h₀
  · exact h₁

theorem processingPair_statuses : processingPair.statuses 0 = [.processing, .processing] := by
  decide +kernel

def inTurn : List Stmt :=
  [.update 0, .update 1, .read 0, .write 0 1, .commit 0, .read 1, .write 1 2, .commit 1]

theorem concurrent_settle_in_turn :
    ∃ s, Transition.run (step 0 fun _ => .success 200 "OK") (start processingPair) inTurn = some s ∧
      (s.db.events.row 0).map WebhookEvent.status =
        some (calculateEventStatus (s.db.statuses 0)) := by
  have hsome : (Transition.run (step 0 fun _ => .success 200 "OK") (start processingPair)
      inTurn).map (fun s => (s.progress 0, s.progress 1)) = some (.committed, .committed) := by
    decide +kernel
  obtain ⟨s, hrun, hprogress⟩ := Option.map_eq_some_iff.mp hsome
  rw [Prod.mk.injEq] at hprogress
  have hdone := processingPair_done hprogress.1 hprogress.2
  refine ⟨s, hrun, (concurrent_settle_iff (by decide +kernel) ?_ ?_ hrun hdone).mpr ?_⟩
  · simp [processingPair_statuses]
  · simp [processingPair_statuses]
  · exact ⟨[.update 0, .update 1, .read 0, .write 0 1, .commit 0], [.write 1 2], 1, rfl, by simp⟩

/-- Both workers read before either commits. -/
def overlapping : List Stmt :=
  [.update 0, .update 1, .read 0, .read 1, .write 0 1, .commit 0, .write 1 2, .commit 1]

theorem event_left_processing : ¬ ∀ (cfg : Config) (u : Setup) (acts : List Act) (σ : System)
    (e : Nat) (outcome : Nat → Settlement) (as : List Stmt) (s : Completions),
    System.Reached cfg u acts σ → 2 ≤ (σ.db.statuses e).length →
    (∀ st ∈ σ.db.statuses e, st = .processing) →
    Transition.run (step e outcome) (start σ.db) as = some s →
    (∀ d r, σ.db.deliveries.row d = some r → r.eventId = e → s.progress d = .committed) →
    (s.db.events.row e).map WebhookEvent.status = some (calculateEventStatus (s.db.statuses e)) := by
  intro h
  have hreached : System.Reached .defaults (.subscribed 2) bothClaimed
      (.after .defaults (.subscribed 2) bothClaimed) := Transition.run_ending (by decide +kernel)
  have hsome : (Transition.run (step 0 fun _ => .success 200 "OK") (start processingPair)
      overlapping).map (fun s => (s.progress 0, s.progress 1,
        (s.db.events.row 0).map WebhookEvent.status, s.db.statuses 0)) =
      some (.committed, .committed, some .processing, [.success, .success]) := by
    decide +kernel
  obtain ⟨s, hrun, hs⟩ := Option.map_eq_some_iff.mp hsome
  simp only [Prod.mk.injEq] at hs
  obtain ⟨hzero, hone, hevent, hstatuses⟩ := hs
  have hdone := processingPair_done hzero hone
  have hstatuses₀ : (System.after .defaults (.subscribed 2) bothClaimed).db.statuses 0 =
    [.processing, .processing] := processingPair_statuses
  have hsettled := h .defaults (.subscribed 2) bothClaimed _ 0 (fun _ => .success 200 "OK")
    overlapping s hreached (by simp [hstatuses₀]) (by simp [hstatuses₀]) hrun hdone
  rw [hevent, hstatuses] at hsettled
  exact absurd hsettled (by decide)

end Completions

end WebhookEngine
