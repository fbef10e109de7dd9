import WebhookEngine.Transactions
import WebhookEngine.Executor
import WebhookEngine.Transition
import Mathlib.Tactic.Simps.Basic

/-! The running system: the store, the queue and the clock, and every process between
two of its database or queue operations. An action is one such operation. Processes
are numbered without bound, so one that stops for ever is one that is not stepped. -/

namespace WebhookEngine

open Relational

/-- A claim as the history records it; `generation` is the number of replays of the
delivery before it. -/
structure Claim where
  worker : Nat
  deliveryId : Nat
  generation : Nat
  expectedAttempt : Nat
  deriving DecidableEq, Repr

/-- The history, newest entry first. -/
inductive Entry where
  | claimed (c : Claim)
  | requested (c : Claim)
  | reset (deliveryId : Nat)
  deriving DecidableEq, Repr

/-- The row a worker claimed, the attempt it claimed and the generation it did so in. -/
structure Claimed where
  delivery : DispatchableDelivery
  expectedAttempt : Nat
  generation : Nat
  deriving DecidableEq, Repr

def Claimed.claim (c : Claimed) (worker : Nat) : Claim :=
  ⟨worker, c.delivery.id, c.generation, c.expectedAttempt⟩

/-- Where `ProcessDeliveryUseCase.execute` stands: the operation it performs next. -/
inductive Point where
  | started
  | cancelling
  | limiting
  | deferring (nextAttemptAt : Time)
  | claiming
  | sending (c : Claimed)
  | awaiting (c : Claimed)
  | settling (c : Claimed) (result : SendResult)
  | ended (ok : Bool)
  deriving DecidableEq, Repr

/-- The claim of a worker between its claim and its outcome write. -/
def Point.claimed? : Point → Option Claimed
  | .sending c => some c
  | .awaiting c => some c
  | .settling c _ => some c
  | _ => none

structure Task where
  job : JobId
  deliveryId : Nat
  expectedAttempt : Nat
  point : Point
  deriving DecidableEq, Repr

/-- The rest of a publisher's batch; `added` tells that its head is in the queue. -/
structure Publisher where
  batch : List OutboxSnapshot
  added : Bool
  deriving DecidableEq, Repr

/-- The rest of a stale-recovery pass: identifiers and attempts from its select. -/
structure StaleScan where
  cutoff : Time
  rest : List (Nat × Nat)
  deriving DecidableEq, Repr

/-- The rest of a stranded-row pass, and the state found for the head's job. -/
structure StrandedScan where
  rest : List (Nat × Nat)
  found : Option String
  deriving DecidableEq, Repr

/-- `finished` keeps the identifiers of the jobs that have run to an end; the queue does
not hand them out to new jobs of its own numbering. -/
structure System where
  db : Database
  queue : Queue
  now : Time
  workers : Nat → Option Task
  publishers : Nat → Publisher
  staleScans : Nat → StaleScan
  strandedScans : Nat → StrandedScan
  ingests : Nat → Option (CreateWebhookEventInput × List Nat)
  replays : Nat → Option Nat
  finished : List JobId
  trace : List Entry

inductive Act where
  | tick (ms : Nat)
  | ingestRead (c : Nat) (input : CreateWebhookEventInput)
  | ingestCommit (c : Nat)
  | publishRead (p : Nat) (ids : List Nat)
  | publishAdd (p : Nat)
  | publishMark (p : Nat)
  | publishError (p : Nat) (message : String)
  | take (w : Nat) (job : JobId)
  | find (w : Nat)
  | cancel (w : Nat)
  | limit (w : Nat) (delayMs : Option Nat)
  | defer (w : Nat)
  | claim (w : Nat)
  | send (w : Nat)
  | answer (w : Nat) (result : SendResult)
  | settle (w : Nat) (delayMs : Nat)
  | finish (w : Nat)
  | crash (w : Nat)
  | staleSelect (m : Nat) (ids : List Nat)
  | staleRecover (m : Nat)
  | strandedSelect (m : Nat) (ids : List Nat)
  | strandedInspect (m : Nat)
  | strandedReopen (m : Nat)
  | cleanupExpiredEndpointSecrets
  | cleanupPublishedOutboxRows
  | cleanupOldEvents
  | replayRead (q : Nat) (deliveryId tenantId : Nat)
  | replayReset (q : Nat)
  | setEndpointActive (endpointId : Nat) (isActive : Bool)
  | duplicate (k : Nat) (job : JobId)
  | foreign (k deliveryId expectedAttempt : Nat)
  | evict (job : JobId)
  | lose (job : JobId)

/-- The branches of `execute` after its first read. -/
def afterFind : Option DispatchableDelivery → Point
  | none => .ended true
  | some delivery =>
    if delivery.row.status.terminal then .ended true
    else if !delivery.endpoint.isActive then .cancelling
    else .limiting

/-- The branches of `execute` after the rate limiter's answers. -/
def afterLimit (now : Time) : Option Nat → Point
  | none => .claiming
  | some delayMs => .deferring (now + delayMs)

def OutcomeWrite.txn (id : Nat) : OutcomeWrite → Txn
  | .success statusCode responseSnippet => .markSuccess id statusCode responseSnippet
  | .deadLetter statusCode responseSnippet => .markDeadLetter id statusCode responseSnippet
  | .retry input => .markFailedAndSchedule input

/-- Where a worker goes when its outcome write throws: a success is caught and
classified as a failed request, a failure ends the job. -/
def OutcomeWrite.onThrow (c : Claimed) : OutcomeWrite → Point
  | .success .. => .settling c (.rejected recordNotFound)
  | _ => .ended false

def generation (trace : List Entry) (deliveryId : Nat) : Nat := trace.count (.reset deliveryId)

namespace System

variable (cfg : Config) (s : System)

@[simps]
def goto (w : Nat) (k : Task) (p : Point) : System :=
  { s with workers := Function.update s.workers w (some { k with point := p }) }

@[simps]
def log (e : Entry) : System := { s with trace := e :: s.trace }

def outcome (c : Claimed) (result : SendResult) (delayMs : Nat) : OutcomeWrite :=
  outcomeWrite cfg c.delivery (s.now + delayMs) result

def txn : Act → Option Txn
  | .ingestCommit c => (s.ingests c).map fun p => .createForTenant p.1 p.2
  | .publishMark p => (s.publishers p).batch.head?.map fun o => .markPublished o.id
  | .publishError p message => (s.publishers p).batch.head?.map fun o => .recordPublishError o.id message
  | .cancel w => (s.workers w).map fun k => .markCancelled k.deliveryId "Endpoint is inactive"
  | .defer w =>
    (s.workers w).bind fun k =>
      match k.point with
      | .deferring nextAttemptAt =>
        some (.markRateLimitedAndSchedule k.deliveryId nextAttemptAt k.expectedAttempt)
      | _ => none
  | .claim w => (s.workers w).map fun k => .claimForProcessing k.deliveryId k.expectedAttempt
  | .settle w delayMs =>
    (s.workers w).bind fun k =>
      match k.point with
      | .settling c result => some ((s.outcome cfg c result delayMs).txn c.delivery.id)
      | _ => none
  | .staleRecover m =>
    (s.staleScans m).rest.head?.map fun p => .recoverStaleDelivery p.1 p.2 (s.staleScans m).cutoff
  | .strandedReopen m =>
    (s.strandedScans m).rest.head?.map fun p =>
      .reopenOutbox p.1 ((s.strandedScans m).found.getD "missing")
  | .cleanupExpiredEndpointSecrets => some .cleanupExpiredEndpointSecrets
  | .cleanupPublishedOutboxRows => some .cleanupPublishedOutboxRows
  | .cleanupOldEvents => some .cleanupOldEvents
  | .replayReset q => (s.replays q).map .resetForReplay
  | .setEndpointActive endpointId isActive => some (.setEndpointActive endpointId isActive)
  | _ => none

/-- The system after the transaction of an action, before the process moves on. A
transaction that throws leaves the store alone. -/
@[simps]
def store (a : Act) : System :=
  { s with db := ((s.txn cfg a).bind fun x => x.apply cfg s.now s.db).getD s.db }

def ok (a : Act) : Bool := (s.txn cfg a).all fun x => (x.apply cfg s.now s.db).isSome

@[simps]
def setPublisher (p : Nat) (v : Publisher) : System :=
  { s with publishers := Function.update s.publishers p v }

@[simps]
def setStaleScan (m : Nat) (v : StaleScan) : System :=
  { s with staleScans := Function.update s.staleScans m v }

@[simps]
def setStrandedScan (m : Nat) (v : StrandedScan) : System :=
  { s with strandedScans := Function.update s.strandedScans m v }

@[simps]
def setIngest (c : Nat) (v : Option (CreateWebhookEventInput × List Nat)) : System :=
  { s with ingests := Function.update s.ingests c v }

@[simps]
def setReplay (q : Nat) (v : Option Nat) : System :=
  { s with replays := Function.update s.replays q v }

@[simps]
def setQueue (q : Queue) : System := { s with queue := q }

@[simps]
def leave (w : Nat) : System := { s with workers := Function.update s.workers w none }

@[simps]
def retire (w : Nat) (job : JobId) (ok : Bool) : System :=
  { s with
    queue := s.queue.setState job (if ok then .completed else .failed)
    workers := Function.update s.workers w none
    finished := job :: s.finished }

def staleCutoff : Time := s.now - cfg.staleDeliveryAge

def claimed (w : Nat) (k : Task) (delivery : DispatchableDelivery) : System :=
  let c : Claimed := ⟨delivery, k.expectedAttempt, generation s.trace delivery.id⟩
  ((s.store cfg (.claim w)).goto w k (.sending c)).log (.claimed (c.claim w))

def settled (w : Nat) (k : Task) (c : Claimed) (result : SendResult) (delayMs : Nat) : System :=
  (s.store cfg (.settle w delayMs)).goto w k
    (if s.ok cfg (.settle w delayMs) then .ended true
      else (s.outcome cfg c result delayMs).onThrow c)

/-- One operation of one process, or nothing when the process is not there. -/
def step (a : Act) : Option System :=
  match a with
  | .tick ms => some { s with now := s.now + ms }
  | .ingestRead c input =>
    match s.ingests c, s.db.subscribedEndpoints input with
    | none, some endpointIds => some (s.setIngest c (some (input, endpointIds)))
    | _, _ => none
  | .ingestCommit c =>
    match s.ingests c with
    | some _ => some ((s.store cfg a).setIngest c none)
    | none => none
  | .publishRead p ids =>
    if (s.publishers p).batch = [] ∧ s.db.PublishBatch s.now ids then
      some (s.setPublisher p ⟨s.db.snapshots ids, false⟩)
    else none
  | .publishAdd p =>
    match s.publishers p with
    | ⟨o :: rest, false⟩ =>
      some ((s.setQueue (s.queue.add (jobId o.id o.attempts) o.deliveryId o.attemptNumber)).setPublisher p
        ⟨o :: rest, true⟩)
    | _ => none
  | .publishMark p =>
    match s.publishers p with
    | ⟨_ :: rest, true⟩ => some ((s.store cfg a).setPublisher p ⟨if s.ok cfg a then rest else [], false⟩)
    | _ => none
  | .publishError p _ =>
    if (s.publishers p).batch = [] then none else some ((s.store cfg a).setPublisher p ⟨[], false⟩)
  | .take w job =>
    match s.workers w, s.queue job with
    | none, some j =>
      if j.unfinished then
        some { s with
          queue := s.queue.setState job .active
          workers := Function.update s.workers w
            (some ⟨job, j.deliveryId, j.expectedAttempt, .started⟩) }
      else none
    | _, _ => none
  | .find w =>
    match s.workers w with
    | some k => if k.point = .started then some (s.goto w k (afterFind (s.db.findById k.deliveryId))) else none
    | none => none
  | .cancel w =>
    match s.workers w with
    | some k => if k.point = .cancelling then some ((s.store cfg a).goto w k (.ended (s.ok cfg a))) else none
    | none => none
  | .limit w delayMs =>
    match s.workers w with
    | some k => if k.point = .limiting then some (s.goto w k (afterLimit s.now delayMs)) else none
    | none => none
  | .defer w =>
    match s.workers w with
    | some k =>
      match k.point with
      | .deferring _ => some ((s.store cfg a).goto w k (.ended (s.ok cfg a)))
      | _ => none
    | none => none
  | .claim w =>
    match s.workers w with
    | some k =>
      if k.point = .claiming then
        match (s.db.claimForProcessing s.now k.deliveryId k.expectedAttempt).2 with
        | some delivery => some (s.claimed cfg w k delivery)
        | none => some ((s.store cfg a).goto w k (.ended true))
      else none
    | none => none
  | .send w =>
    match s.workers w with
    | some k =>
      match k.point with
      | .sending c => some ((s.goto w k (.awaiting c)).log (.requested (c.claim w)))
      | _ => none
    | none => none
  | .answer w result =>
    match s.workers w with
    | some k =>
      match k.point with
      | .awaiting c => some (s.goto w k (.settling c result))
      | _ => none
    | none => none
  | .settle w delayMs =>
    match s.workers w with
    | some k =>
      match k.point with
      | .settling c result => some (s.settled cfg w k c result delayMs)
      | _ => none
    | none => none
  | .finish w =>
    match s.workers w with
    | some k =>
      match k.point with
      | .ended ok => some (s.retire w k.job ok)
      | _ => none
    | none => none
  | .crash w =>
    match s.workers w with
    | some _ => some (s.leave w)
    | none => none
  | .staleSelect m ids =>
    if (s.staleScans m).rest = [] ∧ s.db.StaleBatch (s.staleCutoff cfg) ids then
      some (s.setStaleScan m ⟨s.staleCutoff cfg, s.db.staleSnapshots ids⟩)
    else none
  | .staleRecover m =>
    match (s.staleScans m).rest with
    | _ :: rest => some ((s.store cfg a).setStaleScan m ⟨(s.staleScans m).cutoff, rest⟩)
    | [] => none
  | .strandedSelect m ids =>
    if (s.strandedScans m).rest = [] ∧ s.db.StrandedBatch ids then
      some (s.setStrandedScan m ⟨s.db.strandedSnapshots ids, none⟩)
    else none
  | .strandedInspect m =>
    match s.strandedScans m with
    | ⟨p :: rest, none⟩ =>
      some (s.setStrandedScan m
        (if s.queue.stranded p.1 p.2 then ⟨p :: rest, some (s.queue.stateText p.1 p.2)⟩
          else ⟨rest, none⟩))
    | _ => none
  | .strandedReopen m =>
    match s.strandedScans m with
    | ⟨_ :: rest, some _⟩ =>
      some ((s.store cfg a).setStrandedScan m ⟨if s.ok cfg a then rest else [], none⟩)
    | _ => none
  | .cleanupExpiredEndpointSecrets => some (s.store cfg a)
  | .cleanupPublishedOutboxRows => some (s.store cfg a)
  | .cleanupOldEvents => some (s.store cfg a)
  | .replayRead q deliveryId tenantId =>
    match s.replays q, s.db.findById deliveryId with
    | none, some delivery =>
      if delivery.event.tenantId = tenantId ∧ delivery.row.status ≠ .success then
        some (s.setReplay q (some deliveryId))
      else none
    | _, _ => none
  | .replayReset q =>
    match s.replays q with
    | some d =>
      some (if s.ok cfg a then ((s.store cfg a).setReplay q none).log (.reset d)
        else (s.store cfg a).setReplay q none)
    | none => none
  | .setEndpointActive _ _ => some (s.store cfg a)
  | .duplicate k job =>
    match s.queue job with
    | some j =>
      if .extra k ∈ s.finished then none
      else some (s.setQueue (s.queue.add (.extra k) j.deliveryId j.expectedAttempt))
    | none => none
  | .foreign k d n =>
    if .extra k ∈ s.finished then none else some (s.setQueue (s.queue.add (.extra k) d n))
  | .evict job =>
    match s.queue job with
    | some j => if j.unfinished then none else some (s.setQueue (s.queue.remove job))
    | none => none
  | .lose job =>
    match s.queue job with
    | some j => if j.unfinished then some (s.setQueue (s.queue.remove job)) else none
    | none => none

/-- What one operation can do, case by case. -/
inductive Step : System → Act → System → Prop where
  | tick {s ms} : Step s (.tick ms) { s with now := s.now + ms }
  | ingestRead {s c input endpointIds} (h : s.ingests c = none)
      (h' : s.db.subscribedEndpoints input = some endpointIds) :
      Step s (.ingestRead c input) (s.setIngest c (some (input, endpointIds)))
  | ingestCommit {s c p} (h : s.ingests c = some p) :
      Step s (.ingestCommit c) ((s.store cfg (.ingestCommit c)).setIngest c none)
  | publishRead {s p ids} (h : (s.publishers p).batch = []) (h' : s.db.PublishBatch s.now ids) :
      Step s (.publishRead p ids) (s.setPublisher p ⟨s.db.snapshots ids, false⟩)
  | publishAdd {s p o rest} (h : s.publishers p = ⟨o :: rest, false⟩) :
      Step s (.publishAdd p)
        ((s.setQueue (s.queue.add (jobId o.id o.attempts) o.deliveryId o.attemptNumber)).setPublisher p
          ⟨o :: rest, true⟩)
  | publishMark {s p o rest} (h : s.publishers p = ⟨o :: rest, true⟩) :
      Step s (.publishMark p)
        ((s.store cfg (.publishMark p)).setPublisher p
          ⟨if s.ok cfg (.publishMark p) then rest else [], false⟩)
  | publishError {s p message} (h : (s.publishers p).batch ≠ []) :
      Step s (.publishError p message)
        ((s.store cfg (.publishError p message)).setPublisher p ⟨[], false⟩)
  | take {s w job j} (h : s.workers w = none) (h' : s.queue job = some j)
      (hu : j.unfinished = true) :
      Step s (.take w job)
        { s with
          queue := s.queue.setState job .active
          workers := Function.update s.workers w
            (some ⟨job, j.deliveryId, j.expectedAttempt, .started⟩) }
  | find {s w k} (h : s.workers w = some k) (hp : k.point = .started) :
      Step s (.find w) (s.goto w k (afterFind (s.db.findById k.deliveryId)))
  | cancel {s w k} (h : s.workers w = some k) (hp : k.point = .cancelling) :
      Step s (.cancel w) ((s.store cfg (.cancel w)).goto w k (.ended (s.ok cfg (.cancel w))))
  | limit {s w k delayMs} (h : s.workers w = some k) (hp : k.point = .limiting) :
      Step s (.limit w delayMs) (s.goto w k (afterLimit s.now delayMs))
  | defer {s w k nextAttemptAt} (h : s.workers w = some k) (hp : k.point = .deferring nextAttemptAt) :
      Step s (.defer w) ((s.store cfg (.defer w)).goto w k (.ended (s.ok cfg (.defer w))))
  | claimMiss {s w k} (h : s.workers w = some k) (hp : k.point = .claiming)
      (hc : (s.db.claimForProcessing s.now k.deliveryId k.expectedAttempt).2 = none) :
      Step s (.claim w) ((s.store cfg (.claim w)).goto w k (.ended true))
  | claimHit {s w k delivery} (h : s.workers w = some k) (hp : k.point = .claiming)
      (hc : (s.db.claimForProcessing s.now k.deliveryId k.expectedAttempt).2 = some delivery) :
      Step s (.claim w) (s.claimed cfg w k delivery)
  | send {s w k c} (h : s.workers w = some k) (hp : k.point = .sending c) :
      Step s (.send w) ((s.goto w k (.awaiting c)).log (.requested (c.claim w)))
  | answer {s w k c result} (h : s.workers w = some k) (hp : k.point = .awaiting c) :
      Step s (.answer w result) (s.goto w k (.settling c result))
  | settle {s w k c result delayMs} (h : s.workers w = some k) (hp : k.point = .settling c result) :
      Step s (.settle w delayMs) (s.settled cfg w k c result delayMs)
  | finish {s w k ok} (h : s.workers w = some k) (hp : k.point = .ended ok) :
      Step s (.finish w) (s.retire w k.job ok)
  | crash {s w k} (h : s.workers w = some k) : Step s (.crash w) (s.leave w)
  | staleSelect {s m ids} (h : (s.staleScans m).rest = [])
      (h' : s.db.StaleBatch (s.staleCutoff cfg) ids) :
      Step s (.staleSelect m ids) (s.setStaleScan m ⟨s.staleCutoff cfg, s.db.staleSnapshots ids⟩)
  | staleRecover {s m p rest} (h : (s.staleScans m).rest = p :: rest) :
      Step s (.staleRecover m)
        ((s.store cfg (.staleRecover m)).setStaleScan m ⟨(s.staleScans m).cutoff, rest⟩)
  | strandedSelect {s m ids} (h : (s.strandedScans m).rest = []) (h' : s.db.StrandedBatch ids) :
      Step s (.strandedSelect m ids) (s.setStrandedScan m ⟨s.db.strandedSnapshots ids, none⟩)
  | strandedInspect {s m p rest} (h : s.strandedScans m = ⟨p :: rest, none⟩) :
      Step s (.strandedInspect m)
        (s.setStrandedScan m
          (if s.queue.stranded p.1 p.2 then ⟨p :: rest, some (s.queue.stateText p.1 p.2)⟩
            else ⟨rest, none⟩))
  | strandedReopen {s m p rest state} (h : s.strandedScans m = ⟨p :: rest, some state⟩) :
      Step s (.strandedReopen m)
        ((s.store cfg (.strandedReopen m)).setStrandedScan m
          ⟨if s.ok cfg (.strandedReopen m) then rest else [], none⟩)
  | cleanupExpiredEndpointSecrets {s : System} :
      Step s .cleanupExpiredEndpointSecrets (s.store cfg .cleanupExpiredEndpointSecrets)
  | cleanupPublishedOutboxRows {s : System} :
      Step s .cleanupPublishedOutboxRows (s.store cfg .cleanupPublishedOutboxRows)
  | cleanupOldEvents {s : System} : Step s .cleanupOldEvents (s.store cfg .cleanupOldEvents)
  | replayRead {s q deliveryId tenantId delivery} (h : s.replays q = none)
      (h' : s.db.findById deliveryId = some delivery) (ht : delivery.event.tenantId = tenantId)
      (hs : delivery.row.status ≠ .success) :
      Step s (.replayRead q deliveryId tenantId) (s.setReplay q (some deliveryId))
  | replayReset {s q d} (h : s.replays q = some d) (hok : s.ok cfg (.replayReset q) = true) :
      Step s (.replayReset q) (((s.store cfg (.replayReset q)).setReplay q none).log (.reset d))
  | replayMiss {s q d} (h : s.replays q = some d) (hok : s.ok cfg (.replayReset q) = false) :
      Step s (.replayReset q) ((s.store cfg (.replayReset q)).setReplay q none)
  | setEndpointActive {s e b} : Step s (.setEndpointActive e b) (s.store cfg (.setEndpointActive e b))
  | duplicate {s k job j} (h : s.queue job = some j) (hk : .extra k ∉ s.finished) :
      Step s (.duplicate k job) (s.setQueue (s.queue.add (.extra k) j.deliveryId j.expectedAttempt))
  | foreign {s k d n} (hk : .extra k ∉ s.finished) :
      Step s (.foreign k d n) (s.setQueue (s.queue.add (.extra k) d n))
  | evict {s job j} (h : s.queue job = some j) (hf : j.unfinished = false) :
      Step s (.evict job) (s.setQueue (s.queue.remove job))
  | lose {s job j} (h : s.queue job = some j) (hf : j.unfinished = true) :
      Step s (.lose job) (s.setQueue (s.queue.remove job))

end System

/-- What stands before the first event: any tenants, endpoints and subscriptions. -/
structure Setup where
  tenants : Table Tenant
  endpoints : Table Endpoint
  subscriptions : List EndpointSubscription
  now : Time

def System.boot (u : Setup) : System where
  db := ⟨u.tenants, u.endpoints, u.subscriptions, .empty, .empty, .empty⟩
  queue := fun _ => none
  now := u.now
  workers := fun _ => none
  publishers := fun _ => ⟨[], false⟩
  staleScans := fun _ => ⟨0, []⟩
  strandedScans := fun _ => ⟨[], none⟩
  ingests := fun _ => none
  replays := fun _ => none
  finished := []
  trace := []

/-- One tenant with `n` endpoints that take every event. -/
def Setup.subscribed (n : Nat) : Setup where
  tenants := Table.empty.insert ⟨"tenant", "hash", 100, true⟩
  endpoints := Table.empty.insertAll
    ((List.range n).map fun e =>
      ⟨0, s!"https://example.com/{e}", "whsec", none, none, none, true, 0⟩)
  subscriptions := (List.range n).map fun e => ⟨e, "*"⟩
  now := 0

namespace Script

/-! Pieces of runs. -/

def ingest : List Act := [.ingestRead 0 ⟨0, "key", "order.created", "{}"⟩, .ingestCommit 0]

def publish (i : Nat) : List Act := [.publishRead 0 [i], .publishAdd 0, .publishMark 0]

/-- A worker takes the job and goes up to its claim, unless the limiter has an answer. -/
def claim (w : Nat) (job : JobId) : List Act := [.take w job, .find w, .limit w none, .claim w]

def answer (w status : Nat) : List Act :=
  [.send w, .answer w (if status < 300 then .resolved status "" else .rejected ⟨some status, none, none, none⟩)]

end Script

def System.Reached (cfg : Config) (u : Setup) (as : List Act) (s : System) : Prop :=
  Transition.run (System.step cfg) (.boot u) as = some s

def System.after (cfg : Config) (u : Setup) (as : List Act) : System :=
  Transition.ending (System.step cfg) (.boot u) as

end WebhookEngine
