import WebhookEngine.PublisherCalls
import WebhookEngine.PublisherProgram

/-! What the calls of `publishPending` perform in a run of the deployment is what its program
performs: whole passes before the clock is set, and a bounded number of awaited calls. -/

namespace WebhookEngine

open Interaction PublisherProgram

variable {cfg : Config} {hashApiKey : String → String}

/-! ### What an operation of the publisher calls -/

/-- An update throws when its row is gone. -/
def updated (ok : Bool) : Except String Unit := if ok then .ok () else .error "Record to update not found."

/-- `getJob` and `getState` answer from one state of the queue. -/
def Queue.inspected (q : Queue) (outboxId attempts : Nat) : List PublisherEvent :=
  let getJob (id : JobId) : Option JobId := (q id).map fun _ => id
  let found := (getJob (jobId outboxId attempts)).or (getJob (.legacy outboxId))
  [⟨.getJob (jobId outboxId attempts), .ok (getJob (jobId outboxId attempts))⟩,
    ⟨.getJob (.legacy outboxId), .ok (getJob (.legacy outboxId))⟩] ++
    match found with
    | some job => (q job).toList.map fun j => ⟨.getState job, .ok j.state⟩
    | none => []

/-- The awaited calls an operation of the system stands for, with the answers they get. The error of
an update that finds no row is recorded by another one, which throws too. -/
def System.performed (cfg : Config) (r : System) (b : Act) : List PublisherEvent :=
  match b with
  | .cleanupExpiredEndpointSecrets => [⟨.cleanupExpiredEndpointSecrets, .ok ()⟩]
  | .cleanupPublishedOutboxRows => [⟨.cleanupPublishedOutboxRows, .ok ()⟩]
  | .cleanupOldEvents => [⟨.cleanupOldEvents, .ok ()⟩]
  | .staleSelect _ ids => [⟨.findStale, .ok (r.staleCutoff cfg, r.db.staleSnapshots ids)⟩]
  | .staleRecover c =>
    match (r.staleScans c).rest with
    | p :: _ => [⟨.recoverStale p.1 p.2 (r.staleScans c).cutoff, .ok ()⟩]
    | [] => []
  | .strandedSelect _ ids => [⟨.findStranded, .ok (r.db.strandedSnapshots ids)⟩]
  | .strandedInspect c =>
    match (r.strandedScans c).rest with
    | p :: _ => r.queue.inspected p.1 p.2
    | [] => []
  | .strandedReopen c =>
    match r.strandedScans c with
    | ⟨p :: _, some state⟩ => [⟨.reopen p.1 state, updated (r.ok cfg b)⟩]
    | _ => []
  | .publishRead _ ids => [⟨.findPending, .ok (r.db.snapshots ids)⟩]
  | .publishAdd c =>
    match (r.publishers c).batch with
    | o :: _ => [⟨.add (jobId o.id o.attempts) o.deliveryId o.attemptNumber, .ok ()⟩]
    | [] => []
  | .publishMark c =>
    match (r.publishers c).batch with
    | o :: _ =>
      ⟨.markPublished o.id, updated (r.ok cfg b)⟩ ::
        if r.ok cfg b then [] else [⟨.recordError o.id "Record to update not found.", updated false⟩]
    | [] => []
  | .publishError c message =>
    match (r.publishers c).batch with
    | o :: _ => [⟨.recordError o.id message, updated (r.ok cfg b)⟩]
    | [] => []
  | _ => []

/-- Of the awaited calls of an operation that throws, the first one does. -/
def System.refused (cfg : Config) (r : System) (b : Act) (message : String) : List PublisherEvent :=
  (r.performed cfg b).head?.toList.map fun e => ⟨e.op, .error message⟩

namespace Stage

/-- What is left of `recoverAndCleanup` where a call stands. -/
def pass (r : System) (c : Nat) : Stage → PublisherProgram Unit
  | .cleanupExpiredEndpointSecrets => recoverAndCleanup
  | .cleanupPublishedOutboxRows => do
    call .cleanupPublishedOutboxRows
    call .cleanupOldEvents
    recoverStaleDeliveries
    recoverStrandedPublishedOutbox
  | .cleanupOldEvents => do
    call .cleanupOldEvents
    recoverStaleDeliveries
    recoverStrandedPublishedOutbox
  | .selectStale => do
    recoverStaleDeliveries
    recoverStrandedPublishedOutbox
  | .recoverStale => do
    recoverEach (r.staleScans c).cutoff (r.staleScans c).rest
    recoverStrandedPublishedOutbox
  | .selectStranded => recoverStrandedPublishedOutbox
  | .recoverStranded =>
    match r.strandedScans c with
    | ⟨p :: rest, some state⟩ => do
      reopen p.1 state
      reopenEach rest
    | ⟨rest, _⟩ => reopenEach rest
  | _ => pure ()

/-- What is left of `publishPending` after its pass. -/
def rows (r : System) (c : Nat) : Stage → PublisherProgram Unit
  | .select => publishRows
  | .publish =>
    match r.publishers c with
    | ⟨o :: rest, true⟩ => do
      tryCatch (call (.markPublished o.id)) (failed o)
      publishEach rest
    | ⟨batch, _⟩ => publishEach batch
  | .recordError message =>
    match (r.publishers c).batch with
    | o :: rest => do
      failed o message
      publishEach rest
    | [] => throw message
  | _ => pure ()

/-- What is left of `publishPending` where a call stands. -/
def left (r : System) (c : Nat) (stage : Stage) : PublisherProgram Unit :=
  if stage.maintains then do
    stage.pass r c
    call .stamp
    publishRows
  else stage.rows r c

end Stage

/-! ### One operation of a call -/

theorem inspected_trace (q : Queue) (outboxId attempts : Nat) :
    (inspect outboxId attempts).Trace (q.inspected outboxId attempts) (pure (q.outboxState outboxId attempts)) := by
  cases hcurrent : q (jobId outboxId attempts) with
  | some job =>
    simp only [Queue.inspected, Queue.outboxState, hcurrent, Option.map_some, Option.some_or, Option.toList_some,
      List.map_cons, List.map_nil, List.cons_append, List.nil_append]
    exact .cons (.cons (.cons (.nil _)))
  | none =>
    cases hlegacy : q (.legacy outboxId) with
    | some job =>
      simp only [Queue.inspected, Queue.outboxState, hcurrent, hlegacy, Option.map_some, Option.map_none, Option.none_or,
        Option.toList_some, List.map_cons, List.map_nil, List.cons_append, List.nil_append]
      exact .cons (.cons (.cons (.nil _)))
    | none =>
      simp only [Queue.inspected, Queue.outboxState, hcurrent, hlegacy, Option.map_none, Option.none_or,
        List.append_nil]
      exact .cons (.cons (.nil _))

theorem reopenStranded_outboxState (q : Queue) (outboxId attempts : Nat) :
    reopenStranded outboxId (q.outboxState outboxId attempts) =
      if q.stranded outboxId attempts then reopen outboxId (q.stateText outboxId attempts) else pure () := by
  cases hstate : q.outboxState outboxId attempts with
  | none => simp [Queue.stranded, Queue.stateText, hstate, reopenStranded]
  | some state => cases state <;> simp [Queue.stranded, Queue.stateText, hstate, reopenStranded]

namespace Stage

open Deployment

variable {r r' : System} {c : Nat} {ids : List Nat} {stage stage' : Stage}

theorem pass_recover (r : System) (c : Nat) :
    (if (r.staleScans c).rest = [] then Stage.selectStranded else .recoverStale).pass r c = (do
      recoverEach (r.staleScans c).cutoff (r.staleScans c).rest
      recoverStrandedPublishedOutbox) := by
  split
  · rename_i hrest
    rw [hrest]
    rfl
  · rfl

theorem pass_of_none {rest : List (Nat × Nat)} (h : r.strandedScans c = ⟨rest, none⟩) :
    Stage.recoverStranded.pass r c = reopenEach rest := by
  cases rest <;> simp only [pass, h]

theorem pass_reopen {scan : StrandedScan} (hscan : r.strandedScans c = scan)
    (hfound : scan.rest = [] → scan.found = none) :
    (if (r.strandedScans c).rest = [] then Stage.select else .recoverStranded).pass r c =
      Stage.recoverStranded.pass r c := by
  split
  · rename_i hrest
    rw [hscan] at hrest
    have hempty : r.strandedScans c = ⟨[], none⟩ := by
      rw [hscan, ← hrest, ← hfound hrest]
    simp only [pass, hempty]
    rfl
  · rfl

theorem pass_inspected (h : r.Step cfg (.strandedInspect c) r') :
    (Stage.recoverStranded.pass r c).Trace (r.performed cfg (.strandedInspect c)) (Stage.recoverStranded.pass r' c) := by
  cases h with
  | @strandedInspect _ p rest hscan =>
    have hperformed : r.performed cfg (.strandedInspect c) = r.queue.inspected p.1 p.2 := by
      simp [System.performed, hscan]
    have htrace : (reopenEach (p :: rest)).Trace (r.queue.inspected p.1 p.2) (do
        reopenStranded p.1 (r.queue.outboxState p.1 p.2)
        reopenEach rest) := (inspected_trace r.queue p.1 p.2).bind
    rw [hperformed, pass_of_none hscan]
    refine htrace.of_eq ?_
    rw [reopenStranded_outboxState]
    split
    · simp only [pass, System.setStrandedScan_strandedScans, Function.update_self]
    · rw [pass_of_none (Function.update_self ..)]
      rfl

theorem pass_reopened (h : r.Step cfg (.strandedReopen c) r') (hok : r.ok cfg (.strandedReopen c) = true) :
    (Stage.recoverStranded.pass r c).Trace (r.performed cfg (.strandedReopen c)) (Stage.recoverStranded.pass r' c) ∧
      (r'.strandedScans c).found = none := by
  cases h with
  | @strandedReopen _ p rest state hscan =>
    constructor
    · have hv : ((r.store cfg (.strandedReopen c)).setStrandedScan c
          ⟨if r.ok cfg (.strandedReopen c) then rest else [], none⟩).strandedScans c = ⟨rest, none⟩ := by
        simp only [System.setStrandedScan_strandedScans, Function.update_self, hok, if_true]
      rw [pass_of_none hv]
      simp only [pass, System.performed, hscan, hok]
      exact .cons (.nil _)
    · simp

theorem found_inspected (h : r.Step cfg (.strandedInspect c) r') (hrest : (r'.strandedScans c).rest = []) :
    (r'.strandedScans c).found = none := by
  cases h with
  | @strandedInspect _ p rest hscan =>
    rw [System.setStrandedScan_strandedScans, Function.update_self] at hrest ⊢
    split at hrest
    · cases hrest
    · rename_i hno
      rw [if_neg hno]

/-- An operation of a pass that does not throw leaves the rest of the pass. -/
theorem pass_performed (hf : Fits r c stage) (hm : stage.maintains = true) (h : r.Step cfg (stage.act r c ids) r')
    (hafter : stage.after r' c (r.ok cfg (stage.act r c ids)) = some stage') :
    (stage.pass r c).Trace (r.performed cfg (stage.act r c ids)) (stage'.pass r' c) := by
  cases stage with
  | cleanupExpiredEndpointSecrets | cleanupPublishedOutboxRows | cleanupOldEvents =>
    cases hafter
    exact .cons (.nil _)
  | selectStale =>
    cases h with
    | staleSelect =>
      cases hafter
      rw [pass_recover, System.setStaleScan_staleScans, Function.update_self]
      exact .cons (.nil _)
  | recoverStale =>
    cases h with
    | @staleRecover _ p rest hscan =>
      cases hafter
      rw [pass_recover, System.setStaleScan_staleScans, Function.update_self]
      simp only [pass, act, System.performed, hscan]
      exact .cons (.nil _)
  | selectStranded =>
    cases h with
    | @strandedSelect _ _ hempty hids =>
      cases hafter
      rw [pass_reopen (Function.update_self ..) fun _ => rfl, pass_of_none (Function.update_self ..)]
      exact .cons (.nil _)
  | recoverStranded =>
    simp only [after] at hafter
    split at hafter <;> cases hafter
    rename_i hok
    simp only [act] at h hok ⊢
    split at h
    · rename_i hfound
      rw [if_pos hfound]
      rw [pass_reopen rfl (found_inspected h)]
      exact pass_inspected h
    · rename_i hfound
      rw [if_neg hfound] at hok ⊢
      obtain ⟨htrace, hnone⟩ := pass_reopened h hok
      rw [pass_reopen rfl fun _ => hnone]
      exact htrace
  | select | publish | recordError => cases hm

/-- A pass that throws is over: an update of it finds no row, or an operation of it is refused. -/
theorem pass_failed (hm : stage.maintains = true) (h : r.Step cfg (stage.act r c ids) r')
    (hafter : stage.after r' c (r.ok cfg (stage.act r c ids)) = none) :
    ∃ message, (stage.pass r c).Trace (r.performed cfg (stage.act r c ids)) (.ended (.error message)) := by
  cases stage with
  | recoverStranded =>
    simp only [after] at hafter
    split at hafter
    · cases hafter
    rename_i hok
    simp only [act] at h hok ⊢
    split at h
    · rename_i hfound
      rw [if_pos hfound] at hok
      exact absurd rfl hok
    · rename_i hfound
      rw [if_neg hfound] at hok ⊢
      cases h with
      | @strandedReopen _ p rest state hscan =>
        refine ⟨"Record to update not found.", ?_⟩
        simp only [pass, System.performed, hscan, Bool.eq_false_iff.mpr hok]
        exact .cons (.nil _)
  | select | publish | recordError => cases hm
  | _ => cases hafter

theorem pass_refused (cfg : Config) (hf : Fits r c stage) (hm : stage.maintains = true) (message : String) :
    (stage.pass r c).Trace (r.refused cfg (stage.act r c []) message) (.ended (.error message)) := by
  cases stage with
  | recoverStale =>
    obtain ⟨p, rest, hrest⟩ := List.exists_cons_of_ne_nil hf.2.2.1
    simp only [pass, act, System.refused, System.performed, hrest]
    exact .cons (.nil _)
  | recoverStranded =>
    obtain ⟨p, rest, hrest⟩ := List.exists_cons_of_ne_nil hf.2.2.1
    have hscan : r.strandedScans c = ⟨p :: rest, (r.strandedScans c).found⟩ := by rw [← hrest]
    cases hfound : (r.strandedScans c).found with
    | none =>
      rw [hfound] at hscan
      rw [pass_of_none hscan, act, hfound]
      simp only [System.refused, System.performed, hrest, Option.isNone_none, if_true]
      exact .cons (.nil _)
    | some state =>
      rw [hfound] at hscan
      rw [pass, act, hfound, hscan]
      simp only [System.refused, System.performed, hscan, Option.isNone_some, Bool.false_eq_true, if_false]
      exact .cons (.nil _)
  | select | publish | recordError => cases hm
  | _ => exact .cons (.nil _)

/-! Then the rows. -/

theorem rows_of_added {batch : List OutboxSnapshot} (h : r.publishers c = ⟨batch, false⟩) :
    Stage.publish.rows r c = publishEach batch := by
  cases batch <;> simp only [rows, h]

theorem rows_of_empty (h : (r.publishers c).batch = []) : Stage.publish.rows r c = pure () := by
  have hbatch : r.publishers c = ⟨[], (r.publishers c).added⟩ := by rw [← h]
  rw [rows, hbatch]
  rfl

theorem rows_added (h : r.Step cfg (.publishAdd c) r') :
    (Stage.publish.rows r c).Trace (r.performed cfg (.publishAdd c)) (Stage.publish.rows r' c) := by
  cases h with
  | @publishAdd _ o rest hbatch =>
    simp only [rows, System.performed, hbatch, System.setPublisher_publishers, Function.update_self]
    exact .cons (.nil _)

/-- An update that finds no row throws, and so does the one that records its error. -/
theorem rows_marked (h : r.Step cfg (.publishMark c) r') :
    (Stage.publish.rows r c).Trace (r.performed cfg (.publishMark c)) (Stage.publish.rows r' c) ∨
      (r'.publishers c).batch = [] ∧
        ∃ message, (Stage.publish.rows r c).Trace (r.performed cfg (.publishMark c)) (.ended (.error message)) := by
  cases h with
  | @publishMark _ o rest hbatch =>
    have hv : ((r.store cfg (.publishMark c)).setPublisher c
        ⟨if r.ok cfg (.publishMark c) then rest else [], false⟩).publishers c =
          ⟨if r.ok cfg (.publishMark c) then rest else [], false⟩ := Function.update_self ..
    cases hok : r.ok cfg (.publishMark c) with
    | true =>
      left
      rw [hok] at hv
      rw [rows_of_added hv]
      simp only [rows, System.performed, hbatch, hok, if_true]
      exact .cons (.nil _)
    | false =>
      right
      rw [hok] at hv
      refine ⟨congrArg Publisher.batch hv, "Record to update not found.", ?_⟩
      simp only [rows, System.performed, hbatch, hok, Bool.false_eq_true, if_false]
      exact .cons (.cons (.nil _))

/-- An operation after the pass leaves the rows that are left, or ends the call. -/
theorem rows_performed (hf : Fits r c stage) (hm : stage.maintains = false) (h : r.Step cfg (stage.act r c ids) r') :
    match stage.after r' c (r.ok cfg (stage.act r c ids)) with
    | some stage' => stage'.maintains = false ∧
        (stage.rows r c).Trace (r.performed cfg (stage.act r c ids)) (stage'.rows r' c)
    | none => ∃ result, (stage.rows r c).Trace (r.performed cfg (stage.act r c ids)) (.ended result) := by
  have hends : ∀ {events}, (stage.rows r c).Trace events (Stage.publish.rows r' c) →
      match if (r'.publishers c).batch = [] then none else some Stage.publish with
      | some stage' => stage'.maintains = false ∧ (stage.rows r c).Trace events (stage'.rows r' c)
      | none => ∃ result, (stage.rows r c).Trace events (.ended result) := by
    intro events htrace
    by_cases hempty : (r'.publishers c).batch = []
    · rw [if_pos hempty]
      exact ⟨.ok (), htrace.of_eq (rows_of_empty hempty)⟩
    · rw [if_neg hempty]
      exact ⟨rfl, htrace⟩
  cases stage with
  | select =>
    refine hends ?_
    cases h with
    | publishRead =>
      rw [rows_of_added (Function.update_self ..)]
      exact .cons (.nil _)
  | publish =>
    simp only [act] at h ⊢
    split at h
    · rename_i hadded
      rw [if_pos hadded]
      rcases rows_marked h with htrace | ⟨hempty, message, htrace⟩
      · exact hends htrace
      · simp only [after, hempty]
        exact ⟨_, htrace⟩
    · rename_i hadded
      rw [if_neg hadded]
      exact hends (rows_added h)
  | recordError message =>
    obtain ⟨o, rest, hbatch⟩ := List.exists_cons_of_ne_nil hf.1
    simp only [after, rows, act, System.performed, hbatch]
    cases r.ok cfg (.publishError c message) with
    | true => exact ⟨.error message, .cons (.nil _)⟩
    | false => exact ⟨.error "Record to update not found.", .cons (.nil _)⟩
  | _ => cases hm

theorem rows_refused (cfg : Config) (hf : Fits r c stage) (hm : stage.maintains = false) (message : String) :
    (stage.rows r c).Trace (r.refused cfg (stage.act r c []) message)
      (match stage with
        | .publish => (Stage.recordError message).rows r c
        | _ => .ended (.error message)) := by
  cases stage with
  | select => exact .cons (.nil _)
  | publish =>
    obtain ⟨o, rest, hbatch⟩ := List.exists_cons_of_ne_nil hf.1
    cases hadded : (r.publishers c).added with
    | true =>
      have hpublisher : r.publishers c = ⟨o :: rest, true⟩ := by rw [← hbatch, ← hadded]
      simp only [rows, act, System.refused, System.performed, hpublisher, if_true]
      exact .cons (.nil _)
    | false =>
      have hpublisher : r.publishers c = ⟨o :: rest, false⟩ := by rw [← hbatch, ← hadded]
      simp only [rows, act, System.refused, System.performed, hpublisher, Bool.false_eq_true, if_false]
      exact .cons (.nil _)
  | recordError text =>
    obtain ⟨o, rest, hbatch⟩ := List.exists_cons_of_ne_nil hf.1
    simp only [rows, act, System.refused, System.performed, hbatch]
    exact .cons (.nil _)
  | _ => cases hm

/-- What a call has performed, and where this leaves it: in its pass, or at its rows. -/
def Standing (r : System) (c : Nat) (events : List PublisherEvent) (stage : Stage) : Prop :=
  if stage.maintains then
    ∃ pass, events = ⟨.maintenanceDue, .ok true⟩ :: pass ∧ recoverAndCleanup.Trace pass (stage.pass r c)
  else publishPending.Trace events (stage.rows r c)

/-- The clock is set when a pass is over. -/
def stamped (stage : Option Stage) : List PublisherEvent :=
  if stage = some .select then [⟨.stamp, .ok ()⟩] else []

theorem maintains_or_select (hm : stage.maintains = true) {ok : Bool} (hafter : stage.after r c ok = some stage') :
    stage'.maintains = true ∧ stage' ≠ .select ∨ stage' = .select := by
  have hcases : ∀ {p : Prop} [Decidable p] {next : Stage}, next.maintains = true ∧ next ≠ .select →
      ∀ {s}, (if p then Stage.select else next) = s → s.maintains = true ∧ s ≠ .select ∨ s = .select := by
    intro p _ next hnext s hs
    split at hs <;> subst hs
    · exact .inr rfl
    · exact .inl hnext
  cases stage with
  | selectStranded => exact hcases ⟨rfl, by simp⟩ (Option.some.inj hafter)
  | recoverStranded =>
    simp only [after] at hafter
    split at hafter
    · exact hcases ⟨rfl, by simp⟩ (Option.some.inj hafter)
    · cases hafter
  | selectStale | recoverStale =>
    cases hafter
    split <;> exact .inl ⟨rfl, by simp⟩
  | select | publish | recordError => cases hm
  | _ =>
    cases hafter
    exact .inl ⟨rfl, by simp⟩

theorem pass_then {pass : List PublisherEvent} {m : PublisherProgram Unit} (h : recoverAndCleanup.Trace pass m) :
    publishPending.Trace (⟨.maintenanceDue, .ok true⟩ :: pass) (do
      m
      call .stamp
      publishRows) :=
  .cons h.bind

namespace Standing

variable {events : List PublisherEvent}

theorem trace (h : Standing r c events stage) : publishPending.Trace events (stage.left r c) := by
  simp only [Standing] at h
  rw [left]
  split at h
  · rename_i hm
    obtain ⟨pass, rfl, htrace⟩ := h
    rw [if_pos hm]
    exact pass_then htrace
  · rename_i hm
    rw [if_neg hm]
    exact h

theorem of_maintains (h : Standing r c events stage) (hm : stage.maintains = true) :
    ∃ pass, events = ⟨.maintenanceDue, .ok true⟩ :: pass ∧ recoverAndCleanup.Trace pass (stage.pass r c) := by
  rwa [Standing, if_pos hm] at h

theorem of_rows (h : Standing r c events stage) (hm : stage.maintains = false) :
    publishPending.Trace events (stage.rows r c) := by
  rwa [Standing, if_neg (Bool.eq_false_iff.mp hm)] at h

theorem resumed (h : Standing r c events stage) (hf : Fits r c stage) (hstep : r.Step cfg (stage.act r c ids) r')
    (hafter : stage.after r' c (r.ok cfg (stage.act r c ids)) = some stage') :
    Standing r' c (events ++ (r.performed cfg (stage.act r c ids) ++ stamped (some stage'))) stage' := by
  cases hm : stage.maintains with
  | true =>
    obtain ⟨pass, rfl, htrace⟩ := h.of_maintains hm
    have hpass := htrace.append (pass_performed hf hm hstep hafter)
    rcases maintains_or_select hm hafter with ⟨hm', hne⟩ | rfl
    · rw [Standing, if_pos hm', stamped, if_neg (by simpa using hne), List.append_nil]
      exact ⟨_, rfl, hpass⟩
    · rw [Standing, if_neg (by simp [maintains]), stamped, if_pos rfl, ← List.append_assoc]
      exact (pass_then hpass).append (.cons (.nil _))
  | false =>
    have hrows := rows_performed hf hm hstep
    rw [hafter] at hrows
    obtain ⟨hm', hrest⟩ := hrows
    have hne : stage' ≠ .select := by
      rintro rfl
      rw [maintains_of_select hafter] at hm
      cases hm
    rw [Standing, if_neg (by simp [hm']), stamped, if_neg (by simpa using hne), List.append_nil]
    exact (h.of_rows hm).append hrest

theorem ended (h : Standing r c events stage) (hf : Fits r c stage) (hstep : r.Step cfg (stage.act r c ids) r')
    (hafter : stage.after r' c (r.ok cfg (stage.act r c ids)) = none) :
    ∃ result, publishPending.Trace (events ++ (r.performed cfg (stage.act r c ids) ++ stamped none)) (.ended result) := by
  rw [stamped, if_neg (by simp), List.append_nil]
  cases hm : stage.maintains with
  | true =>
    obtain ⟨pass, rfl, htrace⟩ := h.of_maintains hm
    obtain ⟨message, hfailed⟩ := pass_failed hm hstep hafter
    exact ⟨.error message, pass_then (htrace.append hfailed)⟩
  | false =>
    have hrows := rows_performed hf hm hstep
    rw [hafter] at hrows
    obtain ⟨result, hrest⟩ := hrows
    exact ⟨result, (h.of_rows hm).append hrest⟩

theorem refused (cfg : Config) (h : Standing r c events stage) (hf : Fits r c stage) (message : String)
    (hne : stage ≠ .publish) :
    publishPending.Trace (events ++ r.refused cfg (stage.act r c []) message) (.ended (.error message)) := by
  cases hm : stage.maintains with
  | true =>
    obtain ⟨pass, rfl, htrace⟩ := h.of_maintains hm
    exact pass_then (htrace.append (pass_refused cfg hf hm message))
  | false =>
    refine (h.of_rows hm).append ((rows_refused cfg hf hm message).of_eq ?_)
    cases stage <;> first | rfl | exact absurd rfl hne

theorem caught (cfg : Config) (h : Standing r c events .publish) (hf : Fits r c .publish) (message : String) :
    Standing r c (events ++ r.refused cfg (Stage.publish.act r c []) message) (.recordError message) := by
  rw [Standing, if_neg (by simp [maintains])]
  exact (h.of_rows rfl).append (rows_refused cfg hf rfl message)

theorem of_sameScans (h : Standing r c events stage) (hscans : SameScans c r r') : Standing r' c events stage := by
  obtain ⟨hp, ht, hd⟩ := hscans
  cases stage <;> simpa only [Standing, pass, rows, hp, ht, hd] using h

end Standing

end Stage

/-! ### What the calls are answered -/

theorem possible_error (op : PublisherCall) (message : String) : op.Possible (.error message) := by
  cases op <;> trivial

/-- The selects answer with a hundred rows at most. -/
theorem performed_possible {r r' : System} {b : Act} (h : r.Step cfg b r') :
    ∀ e ∈ r.performed cfg b, e.op.Possible e.answer := by
  intro e he
  cases h with
  | staleSelect _ hids =>
    obtain rfl := List.mem_singleton.mp he
    exact Deployment.answers_length hids _
  | strandedSelect _ hids =>
    obtain rfl := List.mem_singleton.mp he
    exact Deployment.answers_length hids _
  | publishRead _ hids =>
    obtain rfl := List.mem_singleton.mp he
    exact Deployment.answers_length hids.1 _
  | @strandedInspect _ p rest hscan =>
    simp only [System.performed, hscan, Queue.inspected, List.mem_append, List.mem_cons, List.not_mem_nil, or_false] at he
    rcases he with (rfl | rfl) | he
    · trivial
    · trivial
    · split at he
      · obtain ⟨j, _, rfl⟩ := List.mem_map.mp he
        trivial
      · cases he
  | @publishMark _ o rest hbatch =>
    simp only [System.performed, hbatch, List.mem_cons] at he
    rcases he with rfl | he
    · trivial
    · split at he
      · cases he
      · obtain rfl := List.mem_singleton.mp he
        trivial
  | @publishError _ _ hbatch =>
    simp only [System.performed] at he
    split at he
    · obtain rfl := List.mem_singleton.mp he
      trivial
    · cases he
  | @publishAdd _ o rest hbatch =>
    simp only [System.performed, hbatch] at he
    obtain rfl := List.mem_singleton.mp he
    trivial
  | @staleRecover _ p rest hscan =>
    simp only [System.performed, hscan] at he
    obtain rfl := List.mem_singleton.mp he
    trivial
  | @strandedReopen _ p rest state hscan =>
    simp only [System.performed, hscan] at he
    obtain rfl := List.mem_singleton.mp he
    trivial
  | cleanupExpiredEndpointSecrets | cleanupPublishedOutboxRows | cleanupOldEvents =>
    obtain rfl := List.mem_singleton.mp he
    trivial
  | _ => cases he

theorem performed_head (cfg : Config) {r : System} {c : Nat} {stage : Stage} (hf : Deployment.Fits r c stage) (ids : List Nat) :
    ∃ e rest, r.performed cfg (stage.act r c ids) = e :: rest ∧ e.op.awaited = true := by
  cases stage with
  | recoverStale =>
    obtain ⟨p, rest, hrest⟩ := List.exists_cons_of_ne_nil hf.2.2.1
    simp only [Stage.act, System.performed, hrest]
    exact ⟨_, _, rfl, rfl⟩
  | recoverStranded =>
    obtain ⟨p, rest, hrest⟩ := List.exists_cons_of_ne_nil hf.2.2.1
    have hscan : r.strandedScans c = ⟨p :: rest, (r.strandedScans c).found⟩ := by rw [← hrest]
    cases hfound : (r.strandedScans c).found with
    | none =>
      simp only [Stage.act, hfound, Option.isNone_none, if_true, System.performed, hrest]
      exact ⟨_, _, rfl, rfl⟩
    | some state =>
      rw [hfound] at hscan
      simp only [Stage.act, Option.isNone_some, Bool.false_eq_true, if_false, System.performed, hscan]
      exact ⟨_, _, rfl, rfl⟩
  | publish =>
    obtain ⟨o, rest, hbatch⟩ := List.exists_cons_of_ne_nil hf.1
    simp only [Stage.act]
    split <;> simp only [System.performed, hbatch] <;> exact ⟨_, _, rfl, rfl⟩
  | recordError message =>
    obtain ⟨o, rest, hbatch⟩ := List.exists_cons_of_ne_nil hf.1
    simp only [Stage.act, System.performed, hbatch]
    exact ⟨_, _, rfl, rfl⟩
  | _ => exact ⟨_, _, rfl, rfl⟩

/-! ### Runs -/

namespace Deployment

variable {s t : Deployment} {a : ProcessAct} {u : Setup} {as : List ProcessAct} {c : Nat}

/-- What call `c` performs in a step of the deployment. -/
def events (cfg : Config) (c : Nat) (s : Deployment) (a : ProcessAct) (t : Deployment) : List PublisherEvent :=
  match a, s.calls c with
  | .publishPending node, _ =>
    if s.publishing node = false ∧ c = s.next then
      [⟨.maintenanceDue, .ok (decide (s.lastMaintenanceAt node + 60000 ≤ s.now))⟩]
    else []
  | .resume c' ids, some k =>
    if c' = c then
      s.system.performed cfg (k.stage.act s.system c ids) ++
        Stage.stamped (k.stage.after t.system c (s.system.ok cfg (k.stage.act s.system c ids)))
    else []
  | .throws c' message, some k => if c' = c then s.system.refused cfg (k.stage.act s.system c []) message else []
  | _, _ => []

/-- What call `c` performs in a run. -/
def history (cfg : Config) (hashApiKey : String → String) (u : Setup) (c : Nat) (as : List ProcessAct) :
    List PublisherEvent :=
  Transition.collect (step cfg hashApiKey) (events cfg c) (boot u) as

theorem events_of_ne {c' : Nat} (hc : c' ≠ c) :
    (∀ ids, events cfg c s (.resume c' ids) t = []) ∧ ∀ message, events cfg c s (.throws c' message) t = [] := by
  cases hk : s.calls c <;> simp [events, hk, hc]

theorem resumed_next (s : Deployment) (c : Nat) (k : PendingCall) (stage : Option Stage) :
    (s.resumed c k stage).next = s.next := by
  rcases resumed_cases s c k stage with ⟨_, heq⟩ | ⟨_, heq⟩ | ⟨_, _, _, heq⟩ <;> rw [heq] <;> rfl

theorem thrown_next (s : Deployment) (c : Nat) (k : PendingCall) (message : String) :
    (s.thrown c k message).next = s.next := by
  rcases thrown_cases s c k message with ⟨_, heq⟩ | ⟨_, heq⟩ <;> rw [heq] <;> rfl

theorem resumed_calls_of_ne {c' : Nat} (hc : c' ≠ c) {k : PendingCall} {stage : Option Stage} {r : Service} :
    ((s.setService r).resumed c' k stage).calls c = s.calls c := by
  rcases resumed_cases (s.setService r) c' k stage with ⟨_, heq⟩ | ⟨_, heq⟩ | ⟨_, _, _, heq⟩ <;> rw [heq] <;>
    exact Function.update_of_ne (Ne.symm hc) ..

theorem thrown_calls_of_ne {c' : Nat} (hc : c' ≠ c) {k : PendingCall} {message : String} :
    (s.thrown c' k message).calls c = s.calls c := by
  rcases thrown_cases s c' k message with ⟨_, heq⟩ | ⟨_, heq⟩ <;> rw [heq] <;>
    exact Function.update_of_ne (Ne.symm hc) ..

theorem history_concat (h : Reached cfg hashApiKey u as s) (hstep : s.step cfg hashApiKey a = some t) (c : Nat) :
    history cfg hashApiKey u c (as ++ [a]) = history cfg hashApiKey u c as ++ events cfg c s a t :=
  Transition.collect_concat h hstep

/-- What call `c` has performed, and where this leaves it. A call that is over has ended, `whole`
telling that no process was restarted. -/
structure Recorded (c : Nat) (whole : Prop) (events : List PublisherEvent) (s : Deployment) : Prop where
  new : s.next ≤ c → events = []
  underway : ∀ k, s.calls c = some k → k.stage.Standing s.system c events
  done : s.calls c = none → c < s.next →
    ∃ m, publishPending.Trace events m ∧ (whole → ∃ result, m = .ended result)

namespace Recorded

variable {whole whole' : Prop} {events : List PublisherEvent}

theorem quiet (h : Recorded c whole events s) (hwhole : whole' → whole) (hnext : t.next ≤ c ↔ s.next ≤ c)
    (hcalls : t.calls c = s.calls c) (hscans : SameScans c s.system t.system) : Recorded c whole' events t where
  new hc := h.new (hnext.mp hc)
  underway k hk := (h.underway k (hcalls ▸ hk)).of_sameScans hscans
  done hnone hc := by
    obtain ⟨m, htrace, hends⟩ := h.done (hcalls ▸ hnone) (by omega)
    exact ⟨m, htrace, fun hw => hends (hwhole hw)⟩

theorem of_underway {k : PendingCall} (hk : t.calls c = some k) (hc : c < t.next)
    (h : k.stage.Standing t.system c events) : Recorded c whole events t where
  new hle := absurd hc (by omega)
  underway k' hk' := by
    cases hk.symm.trans hk'
    exact h
  done hnone := by
    rw [hk] at hnone
    cases hnone

theorem of_ended {result : Except String Unit} (hnone : t.calls c = none) (hc : c < t.next)
    (h : publishPending.Trace events (.ended result)) : Recorded c whole events t where
  new hle := absurd hc (by omega)
  underway k hk := by
    rw [hnone] at hk
    cases hk
  done _ _ := ⟨_, h, fun _ => ⟨result, rfl⟩⟩

theorem entered (s : Deployment) (hn : events = []) (node : Nat) :
    Recorded s.next whole
      (events ++ [⟨.maintenanceDue, .ok (decide (s.lastMaintenanceAt node + 60000 ≤ s.now))⟩]) (s.enter node) := by
  refine of_underway (Function.update_self ..) (Nat.lt_succ_self _) ?_
  subst hn
  by_cases hdue : s.lastMaintenanceAt node + 60000 ≤ s.now
  · rw [if_pos hdue, decide_eq_true hdue]
    exact ⟨[], rfl, .nil _⟩
  · rw [if_neg hdue, decide_eq_false hdue]
    exact .cons (.nil _)

theorem resumed (h : Recorded c whole events s) (hs : InHand s) {k : PendingCall} {ids : List Nat} {r : Service}
    (hk : s.calls c = some k) (hr : s.service.step cfg hashApiKey (.system (k.stage.act s.system c ids)) = some r) :
    let stage := k.stage.after r.system c (s.system.ok cfg (k.stage.act s.system c ids))
    Recorded c whole (events ++ (s.system.performed cfg (k.stage.act s.system c ids) ++ Stage.stamped stage))
      ((s.setService r).resumed c k stage) := by
  intro stage
  have hstep : s.system.Step cfg (k.stage.act s.system c ids) r.system := .of_step (Service.step_system hr).1
  have hfits := hs.calls c k hk
  have hlt := hs.single.lt_next hk
  have hmoved : ∀ {v : PendingCall}, Function.update s.calls c (some v) c = some v := Function.update_self ..
  rcases resumed_cases (s.setService r) c k stage with ⟨hafter, heq⟩ | ⟨hafter, heq⟩ | ⟨stage', hafter, _, heq⟩
  · obtain ⟨result, htrace⟩ := (h.underway k hk).ended hfits hstep hafter
    rw [heq, hafter]
    exact of_ended (Function.update_self ..) hlt htrace
  · rw [heq, hafter]
    exact of_underway hmoved hlt ((h.underway k hk).resumed hfits hstep hafter)
  · rw [heq, hafter]
    exact of_underway hmoved hlt ((h.underway k hk).resumed hfits hstep hafter)

theorem thrown (h : Recorded c whole events s) (hs : InHand s) {k : PendingCall} (hk : s.calls c = some k)
    (message : String) :
    Recorded c whole (events ++ s.system.refused cfg (k.stage.act s.system c []) message) (s.thrown c k message) := by
  have hfits := hs.calls c k hk
  have hlt := hs.single.lt_next hk
  have hstanding := h.underway k hk
  rcases thrown_cases s c k message with ⟨hne, heq⟩ | ⟨hpublish, heq⟩ <;> rw [heq]
  · exact of_ended (Function.update_self ..) hlt (hstanding.refused cfg hfits message hne)
  · rw [hpublish] at hfits hstanding ⊢
    exact of_underway (k := ⟨k.node, .recordError message⟩) (Function.update_self ..) hlt
      (hstanding.caught cfg hfits message)

theorem restarted (h : Recorded c whole events s) (node : Nat) (hno : ¬ whole') :
    Recorded c whole' events (s.restarted node) where
  new hc := h.new hc
  underway k hk := by
    simp only [restarted_calls, Option.filter_eq_some_iff] at hk
    exact h.underway k hk.1
  done _ hc := by
    cases hk : s.calls c with
    | some k => exact ⟨_, (h.underway k hk).trace, fun hw => absurd hw hno⟩
    | none =>
      obtain ⟨m, htrace, _⟩ := h.done hk hc
      exact ⟨m, htrace, fun hw => absurd hw hno⟩

/-- What the calls perform is recorded step by step. -/
theorem step (h : Recorded c whole events s) (hs : InHand s) (hstep : s.step cfg hashApiKey a = some t)
    (hwhole : whole' → whole) (hno : ∀ n, a = .restart n → ¬ whole') :
    Recorded c whole' (events ++ Deployment.events cfg c s a t) t := by
  have h' : Recorded c whole' events s := h.quiet hwhole Iff.rfl rfl ⟨rfl, rfl, rfl⟩
  cases Step.of_step hstep with
  | operation hb hr =>
    simp only [Deployment.events, List.append_nil]
    exact h'.quiet id Iff.rfl rfl (sameScans_of_operation hb hr c)
  | skip hflag =>
    simp only [Deployment.events, hflag, Bool.true_eq_false, false_and, if_false, List.append_nil]
    exact h'
  | @enter node hflag =>
    by_cases hc : c = s.next
    · subst hc
      simp only [Deployment.events, hflag, and_self, if_true]
      exact entered s (h.new (le_refl _)) node
    · simp only [Deployment.events, hc, and_false, if_false, List.append_nil]
      refine h'.quiet id ?_ (Function.update_of_ne hc ..) ⟨rfl, rfl, rfl⟩
      rw [enter_next]
      omega
  | @resume c' ids k r hk hr =>
    by_cases hc : c' = c
    · subst hc
      simp only [Deployment.events, hk, if_true]
      rw [show ((s.setService r).resumed c' k _).system = r.system from congrArg Service.system (resumed_service ..)]
      exact h'.resumed hs hk hr
    · have hscans : SameScans c s.system r.system :=
        sameScans_of_ne (.of_step (Service.step_system hr).1) (call?_act k.stage s.system ids (Ne.symm hc))
      rw [(events_of_ne hc).1 ids, List.append_nil]
      refine h'.quiet id ?_ ?_ ?_
      · rw [resumed_next, setService_next]
      · exact resumed_calls_of_ne hc
      · rw [show ((s.setService r).resumed c' k _).system = r.system from congrArg Service.system (resumed_service ..)]
        exact hscans
  | @throws c' message k hk =>
    by_cases hc : c' = c
    · subst hc
      simp only [Deployment.events, hk, if_true]
      exact h'.thrown hs hk message
    · rw [(events_of_ne hc).2 message, List.append_nil]
      refine h'.quiet id ?_ (thrown_calls_of_ne hc) ?_
      · rw [thrown_next]
      · rw [show (s.thrown c' k message).system = s.system from congrArg Service.system (thrown_service ..)]
        exact ⟨rfl, rfl, rfl⟩
  | @restart node =>
    simp only [Deployment.events, List.append_nil]
    exact h.restarted node (hno node rfl)

end Recorded

theorem Reached.recorded (h : Reached cfg hashApiKey u as s) :
    InHand s ∧ ∀ c, Recorded c (∀ n, .restart n ∉ as) (history cfg hashApiKey u c as) s := by
  refine Transition.run_history (H := fun as s => InHand s ∧
    ∀ c, Recorded c (∀ n, .restart n ∉ as) (history cfg hashApiKey u c as) s) ?_ ?_ h
  · exact ⟨.boot u, fun c => ⟨fun _ => rfl, fun _ hk => (by cases hk), fun _ hc => absurd hc (Nat.not_lt_zero c)⟩⟩
  · rintro as a s t hrun ⟨hs, hrecorded⟩ hstep
    refine ⟨hs.step hstep, fun c => ?_⟩
    rw [history_concat hrun hstep]
    refine (hrecorded c).step hs hstep (fun hno n hn => hno n (List.mem_append_left _ hn)) fun n hn hno => ?_
    exact hno n (List.mem_append_right _ (by rw [hn]; exact List.mem_singleton_self _))

/-- The operations on the service of a step of the deployment. -/
def operations (s : Deployment) (a : ProcessAct) (_ : Deployment) : List Operation :=
  match a with
  | .operation b => [b]
  | .resume c ids => (s.calls c).toList.map fun k => .system (k.stage.act s.system c ids)
  | _ => []

theorem run_operations (h : s.step cfg hashApiKey a = some t) :
    Transition.run (Service.step cfg hashApiKey) s.service (operations s a t) = some t.service := by
  cases Step.of_step h with
  | operation _ hr => simp [operations, Transition.run, hr]
  | resume hk hr => simp [operations, Transition.run, hk, hr]
  | throws => rw [thrown_service]; rfl
  | _ => rfl

/-- What a process has done when it sets its clock. -/
def PassDone (as : List ProcessAct) (cfg : Config) (hashApiKey : String → String) (u : Setup) (c : Nat) : Prop :=
  ∃ pass, history cfg hashApiKey u c as = ⟨.maintenanceDue, .ok true⟩ :: (pass ++ [⟨.stamp, .ok ()⟩]) ∧
    recoverAndCleanup.Trace pass (.ended (.ok ()))

theorem passDone_of_select (h : Reached cfg hashApiKey u as s) {ids : List Nat} {k : PendingCall} {r : Service}
    (hk : s.calls c = some k) (hr : s.service.step cfg hashApiKey (.system (k.stage.act s.system c ids)) = some r)
    (hafter : k.stage.after r.system c (s.system.ok cfg (k.stage.act s.system c ids)) = some .select) :
    PassDone (as ++ [.resume c ids]) cfg hashApiKey u c := by
  obtain ⟨hs, hrecorded⟩ := h.recorded
  have hm := maintains_of_select hafter
  have hstep : s.system.Step cfg (k.stage.act s.system c ids) r.system := .of_step (Service.step_system hr).1
  obtain ⟨pass, hpass, htrace⟩ := ((hrecorded c).underway k hk).of_maintains hm
  have hdone := htrace.append (Stage.pass_performed (hs.calls c k hk) hm hstep hafter)
  refine ⟨pass ++ s.system.performed cfg (k.stage.act s.system c ids), ?_, hdone⟩
  have hnext : s.step cfg hashApiKey (.resume c ids) = some ((s.setService r).resumed c k (some .select)) := by
    simp only [Deployment.step, hk, hr, Option.map_some, hafter]
  rw [history_concat h hnext, hpass]
  have hsystem : ((s.setService r).resumed c k (some .select)).system = r.system :=
    congrArg Service.system (resumed_service ..)
  simp only [events, hk, if_true, hsystem, hafter, Stage.stamped, List.cons_append, List.append_assoc]

/-- A process sets its maintenance clock when a call of it has performed a whole pass, and at no other
step: to the present, a minute after the last time at the earliest. A call that begins when the
clock is not a minute old goes to its rows. -/
theorem maintenance_paced (h : Reached cfg hashApiKey u as s) (hstep : s.step cfg hashApiKey a = some t) :
    Paced s a t ∧ ∀ n, t.lastMaintenanceAt n ≠ s.lastMaintenanceAt n → a ≠ .restart n →
      ∃ c ids k, a = .resume c ids ∧ s.calls c = some k ∧ k.node = n ∧ PassDone (as ++ [a]) cfg hashApiKey u c := by
  refine ⟨paced_step h.due hstep, fun n hn hno => ?_⟩
  cases Step.of_step hstep with
  | @resume c ids k r hk hr =>
    rcases resumed_cases (s.setService r) c k _ with ⟨_, heq⟩ | ⟨hafter, heq⟩ | ⟨_, _, _, heq⟩
    · rw [heq] at hn
      exact absurd rfl hn
    · rw [heq] at hn
      refine ⟨c, ids, k, rfl, hk, ?_, passDone_of_select h hk hr hafter⟩
      by_contra hnode
      exact hn (Function.update_of_ne (Ne.symm hnode) ..)
    · rw [heq] at hn
      exact absurd rfl hn
  | @throws c message k hk =>
    rcases thrown_cases s c k message with ⟨_, heq⟩ | ⟨_, heq⟩ <;> rw [heq] at hn <;> exact absurd rfl hn
  | @restart node => exact absurd (Function.update_of_ne (fun heq => hno (by rw [heq])) ..) hn
  | _ => exact absurd rfl hn

/-- The first pass of a process, over an empty store. -/
def firstPass : List ProcessAct :=
  [.operation (.system (.tick 60000)), .publishPending 0, .resume 0 [], .resume 0 [], .resume 0 [], .resume 0 []]

theorem maintenance_paced_first : ∃ c ids k, (.resume 0 [] : ProcessAct) = .resume c ids ∧
    (after .defaults id (.subscribed 1) firstPass).calls c = some k ∧ k.node = 0 ∧
      PassDone (firstPass ++ [.resume 0 []]) .defaults id (.subscribed 1) c := by
  have hreached : Reached .defaults id (.subscribed 1) firstPass (after .defaults id (.subscribed 1) firstPass) :=
    Transition.run_ending (by decide +kernel)
  have hpassed : Reached .defaults id (.subscribed 1) (firstPass ++ [.resume 0 []])
    (after .defaults id (.subscribed 1) (firstPass ++ [.resume 0 []])) := Transition.run_ending (by decide +kernel)
  obtain ⟨s, hs, hstep⟩ := Transition.run_concat_eq_some.mp hpassed
  cases hs.symm.trans hreached
  exact (maintenance_paced hreached hstep).2 0 (by decide +kernel) (by simp)

/-! ### The end of a call -/

/-- The steps of call `c`. -/
def own (c : Nat) : ProcessAct → Bool
  | .resume c' _ => c' == c
  | .throws c' _ => c' == c
  | _ => false

theorem events_possible (hstep : s.step cfg hashApiKey a = some t) :
    ∀ e ∈ events cfg c s a t, e.op.Possible e.answer := by
  intro e he
  cases Step.of_step hstep with
  | enter | skip =>
    simp only [events] at he
    split at he
    · obtain rfl := List.mem_singleton.mp he
      trivial
    · cases he
  | @resume c' ids k r hk hr =>
    by_cases hc : c' = c
    · subst hc
      simp only [events, hk, if_true, List.mem_append, Stage.stamped] at he
      rcases he with he | he
      · exact performed_possible (.of_step (Service.step_system hr).1) e he
      · split at he
        · obtain rfl := List.mem_singleton.mp he
          trivial
        · cases he
    · rw [(events_of_ne hc).1] at he
      cases he
  | @throws c' message k hk =>
    by_cases hc : c' = c
    · subst hc
      simp only [events, hk, if_true, System.refused] at he
      obtain ⟨e, _, rfl⟩ := List.mem_map.mp he
      exact possible_error _ _
    · rw [(events_of_ne hc).2] at he
      cases he
  | _ => cases he

theorem awaited_own (hs : InHand s) (hstep : s.step cfg hashApiKey a = some t) (hown : own c a = true) :
    0 < (events cfg c s a t).countP fun e => e.op.awaited := by
  rw [List.countP_pos_iff]
  cases Step.of_step hstep with
  | @resume c' ids k r hk hr =>
    obtain rfl := beq_iff_eq.mp hown
    obtain ⟨e, rest, hhead, hawaited⟩ := performed_head cfg (hs.calls _ k hk) ids
    refine ⟨e, ?_, hawaited⟩
    simp [events, hk, hhead]
  | @throws c' message k hk =>
    obtain rfl := beq_iff_eq.mp hown
    obtain ⟨e, rest, hhead, hawaited⟩ := performed_head cfg (hs.calls _ k hk) []
    refine ⟨⟨e.op, .error message⟩, ?_, hawaited⟩
    simp [events, hk, System.refused, hhead]
  | _ => cases hown

/-- Every call ends: in no run does a call await more than 707 answers of the store and the queue,
counting the ones that throw, every step of it awaits one, and the next one can always come. -/
theorem publishPending_ends (h : Reached cfg hashApiKey u as s) (c : Nat) :
    as.countP (own c) ≤ ((history cfg hashApiKey u c as).countP fun e => e.op.awaited) ∧
      ((history cfg hashApiKey u c as).countP fun e => e.op.awaited) ≤ 707 ∧
      ∀ k, s.calls c = some k → ∃ ids t, s.step cfg hashApiKey (.resume c ids) = some t := by
  obtain ⟨hs, hrecorded⟩ := h.recorded
  refine ⟨?_, ?_, fun k hk => ?_⟩
  · exact Transition.countP_le_countP_collect (I := InHand) (fun _ _ _ hi ha => hi.step ha)
      (fun _ _ _ hi ha hown => awaited_own hi ha hown) (.boot u) h
  · have hpossible : ∀ e ∈ history cfg hashApiKey u c as, e.op.Possible e.answer :=
      Transition.forall_mem_collect (I := fun _ => True) (fun _ _ _ _ _ => trivial)
        (fun _ _ _ _ ha => events_possible ha) trivial
    have htrace : ∃ m, publishPending.Trace (history cfg hashApiKey u c as) m := by
      cases hk : s.calls c with
      | some k => exact ⟨_, ((hrecorded c).underway k hk).trace⟩
      | none =>
        by_cases hc : c < s.next
        · obtain ⟨m, htrace, _⟩ := (hrecorded c).done hk hc
          exact ⟨m, htrace⟩
        · rw [(hrecorded c).new (by omega)]
          exact ⟨_, .nil _⟩
    obtain ⟨m, htrace⟩ := htrace
    exact htrace.countP_le affords_publishPending hpossible
  · obtain ⟨ids, r, hr⟩ := exists_resume cfg (hs.calls c k hk)
    exact ⟨ids, _, by simp only [Deployment.step, hk, Service.step, hr, Option.map_some]; rfl⟩

theorem publishPending_ends_read :
    ((history .defaults id (.subscribed 1) 0 (batchRead [0, 1])).countP fun e => e.op.awaited) ≤ 707 ∧
    ∃ ids t, (after .defaults id (.subscribed 1) (batchRead [0, 1])).step .defaults id (.resume 0 ids) = some t := by
  have hreached : Reached .defaults id (.subscribed 1) (batchRead [0, 1])
    (after .defaults id (.subscribed 1) (batchRead [0, 1])) := Transition.run_ending (by decide +kernel)
  obtain ⟨_, hcount, hresume⟩ := publishPending_ends hreached 0
  exact ⟨hcount, hresume ⟨0, .publish⟩ (by decide +kernel)⟩

end Deployment

end WebhookEngine
