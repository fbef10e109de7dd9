import WebhookEngine.Operations

/-! The service as it is deployed: processes over one store and one queue, each with the flag and
the maintenance clock of its `DeliveryOutboxPublisherService`. The scheduler and every ingestion
call `publishPending`; a call performs one operation at a time, and any of them may throw. -/

namespace WebhookEngine

/-- The operation a call of `publishPending` awaits next. -/
inductive Stage where
  | cleanupExpiredEndpointSecrets
  | cleanupPublishedOutboxRows
  | cleanupOldEvents
  | selectStale
  | recoverStale
  | selectStranded
  | recoverStranded
  | select
  | publish
  | recordError (message : String)
  deriving DecidableEq, Repr

def Stage.maintains : Stage → Bool
  | .select => false
  | .publish => false
  | .recordError _ => false
  | _ => true

structure PendingCall where
  node : Nat
  stage : Stage
  deriving DecidableEq, Repr

/-- `next` is the number of the next call; the select and the batch of a call go by its number. -/
structure Deployment where
  service : Service
  publishing : Nat → Bool
  lastMaintenanceAt : Nat → Time
  calls : Nat → Option PendingCall
  next : Nat

inductive ProcessAct where
  | operation (a : Operation)
  | publishPending (node : Nat)
  | resume (c : Nat) (ids : List Nat)
  | throws (c : Nat) (message : String)
  | restart (node : Nat)

/-- The operations of `publishPending` and of the maintenance it begins with. -/
def Operation.publishes : Operation → Bool
  | .system (.publishRead ..) => true
  | .system (.publishAdd _) => true
  | .system (.publishMark _) => true
  | .system (.publishError ..) => true
  | .system (.staleSelect ..) => true
  | .system (.staleRecover _) => true
  | .system (.strandedSelect ..) => true
  | .system (.strandedInspect _) => true
  | .system (.strandedReopen _) => true
  | .system .cleanupExpiredEndpointSecrets => true
  | .system .cleanupPublishedOutboxRows => true
  | .system .cleanupOldEvents => true
  | _ => false

namespace Stage

def act (s : System) (c : Nat) (ids : List Nat) : Stage → Act
  | .cleanupExpiredEndpointSecrets => .cleanupExpiredEndpointSecrets
  | .cleanupPublishedOutboxRows => .cleanupPublishedOutboxRows
  | .cleanupOldEvents => .cleanupOldEvents
  | .selectStale => .staleSelect c ids
  | .recoverStale => .staleRecover c
  | .selectStranded => .strandedSelect c ids
  | .recoverStranded =>
    if (s.strandedScans c).found.isNone then .strandedInspect c else .strandedReopen c
  | .select => .publishRead c ids
  | .publish => if (s.publishers c).added then .publishMark c else .publishAdd c
  | .recordError message => .publishError c message

/-- What a call awaits after its operation, or nothing where it ends. An update that finds no row
throws, and so does the one that would record that error. -/
def after (t : System) (c : Nat) (ok : Bool) : Stage → Option Stage
  | .cleanupExpiredEndpointSecrets => some .cleanupPublishedOutboxRows
  | .cleanupPublishedOutboxRows => some .cleanupOldEvents
  | .cleanupOldEvents => some .selectStale
  | .selectStale => some (if (t.staleScans c).rest = [] then .selectStranded else .recoverStale)
  | .recoverStale => some (if (t.staleScans c).rest = [] then .selectStranded else .recoverStale)
  | .selectStranded => some (if (t.strandedScans c).rest = [] then .select else .recoverStranded)
  | .recoverStranded =>
    if ok then some (if (t.strandedScans c).rest = [] then .select else .recoverStranded) else none
  | .select => if (t.publishers c).batch = [] then none else some .publish
  | .publish => if (t.publishers c).batch = [] then none else some .publish
  | .recordError _ => none

end Stage

namespace Deployment

variable (cfg : Config) (hashApiKey : String → String) (s : Deployment)

abbrev system : System := s.service.system

abbrev now : Time := s.service.now

@[simps]
def setService (t : Service) : Deployment := { s with service := t }

@[simps]
def goto (c : Nat) (k : PendingCall) : Deployment :=
  { s with calls := Function.update s.calls c (some k) }

/-- The `finally` of a call. -/
@[simps]
def leave (c node : Nat) : Deployment :=
  { s with
    publishing := Function.update s.publishing node false
    calls := Function.update s.calls c none }

@[simps]
def stamp (node : Nat) : Deployment :=
  { s with lastMaintenanceAt := Function.update s.lastMaintenanceAt node s.now }

/-- The beginning of a call that finds no other under way. -/
@[simps]
def enter (node : Nat) : Deployment :=
  { s with
    publishing := Function.update s.publishing node true
    calls := Function.update s.calls s.next (some
      ⟨node, if s.lastMaintenanceAt node + 60000 ≤ s.now then .cleanupExpiredEndpointSecrets else .select⟩)
    next := s.next + 1 }

/-- A new process has nothing of the old one's memory. -/
@[simps]
def restarted (node : Nat) : Deployment :=
  { s with
    publishing := Function.update s.publishing node false
    lastMaintenanceAt := Function.update s.lastMaintenanceAt node 0
    calls := fun c => (s.calls c).filter fun k => k.node != node }

/-- A call goes on with what its operation has left. -/
def resumed (c : Nat) (k : PendingCall) (stage : Option Stage) : Deployment :=
  match stage with
  | none => s.leave c k.node
  | some .select => (s.stamp k.node).goto c ⟨k.node, .select⟩
  | some stage => s.goto c ⟨k.node, stage⟩

def thrown (c : Nat) (k : PendingCall) (message : String) : Deployment :=
  match k.stage with
  | .publish => s.goto c ⟨k.node, .recordError message⟩
  | _ => s.leave c k.node

def step (a : ProcessAct) : Option Deployment :=
  match a with
  | .operation a =>
    if a.publishes then none
    else (s.service.step cfg hashApiKey a).map s.setService
  | .publishPending node => some (if s.publishing node then s else s.enter node)
  | .resume c ids =>
    match s.calls c with
    | some k =>
      (s.service.step cfg hashApiKey (.system (k.stage.act s.system c ids))).map fun t =>
        (s.setService t).resumed c k
          (k.stage.after t.system c (s.system.ok cfg (k.stage.act s.system c ids)))
    | none => none
  | .throws c message =>
    match s.calls c with
    | some k => some (s.thrown c k message)
    | none => none
  | .restart node => some (s.restarted node)

def boot (u : Setup) : Deployment where
  service := .boot u
  publishing := fun _ => false
  lastMaintenanceAt := fun _ => 0
  calls := fun _ => none
  next := 0

def Reached (u : Setup) (as : List ProcessAct) (s : Deployment) : Prop :=
  Transition.run (step cfg hashApiKey) (boot u) as = some s

def after (u : Setup) (as : List ProcessAct) : Deployment :=
  Transition.ending (step cfg hashApiKey) (boot u) as

variable {cfg hashApiKey s} {t : Deployment} {a : ProcessAct} {u : Setup} {as : List ProcessAct}

/-- What one step can do, case by case. -/
inductive Step (cfg : Config) (hashApiKey : String → String) (s : Deployment) :
    ProcessAct → Deployment → Prop where
  | operation {a r} (ha : a.publishes = false) (h : s.service.step cfg hashApiKey a = some r) :
      Step cfg hashApiKey s (.operation a) (s.setService r)
  | skip {node} (h : s.publishing node = true) : Step cfg hashApiKey s (.publishPending node) s
  | enter {node} (h : s.publishing node = false) :
      Step cfg hashApiKey s (.publishPending node) (s.enter node)
  | resume {c ids k r} (hk : s.calls c = some k)
      (h : s.service.step cfg hashApiKey (.system (k.stage.act s.system c ids)) = some r) :
      Step cfg hashApiKey s (.resume c ids)
        ((s.setService r).resumed c k
          (k.stage.after r.system c (s.system.ok cfg (k.stage.act s.system c ids))))
  | throws {c message k} (hk : s.calls c = some k) :
      Step cfg hashApiKey s (.throws c message) (s.thrown c k message)
  | restart {node} : Step cfg hashApiKey s (.restart node) (s.restarted node)

theorem Step.of_step (h : s.step cfg hashApiKey a = some t) : Step cfg hashApiKey s a t := by
  cases a with
  | operation a =>
    simp only [step] at h
    split at h
    · cases h
    · rename_i ha
      obtain ⟨r, hr, rfl⟩ := Option.map_eq_some_iff.mp h
      exact .operation (Bool.eq_false_iff.mpr ha) hr
  | publishPending node =>
    cases h
    split
    · rename_i hp
      exact .skip hp
    · rename_i hp
      exact .enter (Bool.eq_false_iff.mpr hp)
  | resume c ids =>
    simp only [step] at h
    split at h
    · rename_i k hk
      obtain ⟨r, hr, rfl⟩ := Option.map_eq_some_iff.mp h
      exact .resume hk hr
    · cases h
  | throws c message =>
    simp only [step] at h
    split at h
    · rename_i k hk
      cases h
      exact .throws hk
    · cases h
  | restart node =>
    cases h
    exact .restart

theorem resumed_cases (s : Deployment) (c : Nat) (k : PendingCall) (stage : Option Stage) :
    (stage = none ∧ s.resumed c k stage = s.leave c k.node) ∨
      (stage = some .select ∧ s.resumed c k stage = (s.stamp k.node).goto c ⟨k.node, .select⟩) ∨
      ∃ stage', stage = some stage' ∧ stage' ≠ .select ∧ s.resumed c k stage = s.goto c ⟨k.node, stage'⟩ := by
  cases stage with
  | none => exact .inl ⟨rfl, rfl⟩
  | some stage =>
    by_cases h : stage = .select
    · subst h
      exact .inr (.inl ⟨rfl, rfl⟩)
    · refine .inr (.inr ⟨stage, rfl, h, ?_⟩)
      cases stage <;> first | rfl | exact absurd rfl h

theorem thrown_cases (s : Deployment) (c : Nat) (k : PendingCall) (message : String) :
    (k.stage ≠ .publish ∧ s.thrown c k message = s.leave c k.node) ∨
      (k.stage = .publish ∧ s.thrown c k message = s.goto c ⟨k.node, .recordError message⟩) := by
  cases hk : k.stage with
  | publish => exact .inr ⟨rfl, by simp only [thrown, hk]⟩
  | _ => exact .inl ⟨by simp, by simp only [thrown, hk]⟩

@[simp] theorem resumed_service (s : Deployment) (c : Nat) (k : PendingCall) (stage : Option Stage) :
    (s.resumed c k stage).service = s.service := by
  rcases resumed_cases s c k stage with ⟨_, heq⟩ | ⟨_, heq⟩ | ⟨_, _, _, heq⟩ <;> rw [heq] <;> rfl

@[simp] theorem thrown_service (s : Deployment) (c : Nat) (k : PendingCall) (message : String) :
    (s.thrown c k message).service = s.service := by
  rcases thrown_cases s c k message with ⟨_, heq⟩ | ⟨_, heq⟩ <;> rw [heq] <;> rfl

/-- An event is ingested, and each of the processes reads the row for its delivery. -/
def batchRead (nodes : List Nat) : List ProcessAct :=
  Script.ingest.map (fun b => .operation (.system b)) ++
    (nodes.zipIdx.flatMap fun p => [.publishPending p.1, .resume p.2 [0]])

end Deployment

end WebhookEngine
