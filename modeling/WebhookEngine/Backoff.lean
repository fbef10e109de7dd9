import Mathlib.Tactic.Linarith
import Mathlib.Tactic.NormNum
import Mathlib.Tactic.Positivity
import WebhookEngine.Configuration
import WebhookEngine.Execution

/-! The moment of the next attempt: exponential back-off with jitter, or what a `Retry-After`
header asks for. Both are cut to the configured maximum. -/

namespace WebhookEngine

open Effects

/-- The two readings a `Retry-After` header is put through: finite numbers, and times in
milliseconds. -/
structure Parsers where
  number : String → Option ℚ
  date : String → Option Int

/-- What a failure finds outside the thrown error's status: the headers of its response, the
clock, and a random draw. -/
structure Failure where
  headers : Option (String → Option String)
  now : Time
  random : ℚ
  random_nonneg : 0 ≤ random
  random_lt : random < 1

def Failure.retryAfter (failure : Failure) : Option String :=
  failure.headers.bind fun headers => headers "retry-after"

/-- The last millisecond a `Date` can stand for. -/
def maxDate : Nat := 8640000000000000

/-- `new Date(value)` keeps whole milliseconds; beyond its range it is invalid. -/
def newDate (value : ℚ) : Option Int :=
  if |value| ≤ maxDate then some (if 0 ≤ value then ⌊value⌋ else ⌈value⌉) else none

/-- `Math.min(Math.max(delay, 0), maximum)` -/
def clamp (delay maximum : ℚ) : ℚ := min (max delay 0) maximum

namespace DeliveryExecutorService

variable (parse : Parsers) (config : RetryConfig) (attemptNumber : Nat) (error : SendError) (failure : Failure)

def calculateBackoffDelay (random : ℚ) : ℚ :=
  let delay := config.baseDelay.1 * config.backoffMultiplier.1 ^ ((attemptNumber : Int) - 1)
  let jitter := delay * 0.25 * (random * 2 - 1)
  clamp (delay + jitter) config.maxDelay.1

def retryAfterDelay (now : Time) (value : Option String) (maximum : ℚ) : Option ℚ :=
  match value with
  | none => none
  | some value =>
    if value = "" then none
    else
      match parse.number value with
      | some seconds => some (clamp (seconds * 1000) maximum)
      | none => (parse.date value).map fun time : Int => clamp (time - now) maximum

def nextAttemptDelay : ℚ :=
  if error.statusCode = 429 then
    (retryAfterDelay parse failure.now failure.retryAfter config.maxDelay.1).getD
      (calculateBackoffDelay config attemptNumber failure.random)
  else calculateBackoffDelay config attemptNumber failure.random

/-- Zero stands for an invalid date. -/
def nextAttemptAt : Time :=
  ((newDate (failure.now + nextAttemptDelay parse config attemptNumber error failure)).getD 0).toNat

end DeliveryExecutorService

/-- The ports of an execution that schedules what the executor computes. -/
def ExecutorPorts.scheduling (parse : Parsers) (config : RetryConfig) (failure : Failure) (p : ExecutorPorts) :
    ExecutorPorts :=
  { p with
    nextAttemptAt := fun delivery error =>
      DeliveryExecutorService.nextAttemptAt parse config delivery.row.attempts error failure }

/-- The execution claims the delivery, and what is tried with it throws. -/
structure FailedExecution (cfg : Config) (p : ExecutorPorts) (id expectedAttempt : Nat)
    (delivery : DispatchableDelivery) (error : SendError) : Prop where
  claimed : p.claimForProcessing id expectedAttempt = .ok (some delivery)
  thrown : (DeliveryExecutorService.attempt cfg p delivery).result = .error error

/-- The wait a header asks for: of its seconds, or until its date. -/
inductive Denotes (parse : Parsers) (now : Time) (header : String) : ℚ → Prop where
  | seconds {seconds : ℚ} (number : parse.number header = some seconds) : Denotes parse now header (seconds * 1000)
  | date {time : Int} (number : parse.number header = none) (date : parse.date header = some time) :
    Denotes parse now header (time - now)

/-- The answer is 429, and its header asks for the wait. -/
structure AsksFor (parse : Parsers) (error : SendError) (failure : Failure) (wait : ℚ) : Prop where
  status : error.statusCode = 429
  header : ∃ header, failure.retryAfter = some header ∧ header ≠ "" ∧ Denotes parse failure.now header wait

structure RetryWindow (parse : Parsers) (config : RetryConfig) (attemptNumber : Nat) (error : SendError)
    (failure : Failure) (delay : ℚ) : Prop where
  nonneg : 0 ≤ delay
  le_maxDelay : delay ≤ config.maxDelay.1
  asked : ∀ wait, AsksFor parse error failure wait → delay = clamp wait config.maxDelay.1
  backoff : (¬ ∃ wait, AsksFor parse error failure wait) →
    let base := config.baseDelay.1 * config.backoffMultiplier.1 ^ ((attemptNumber : Int) - 1)
    min (0.75 * base) config.maxDelay.1 ≤ delay ∧ delay ≤ min (1.25 * base) config.maxDelay.1

section Window

variable {parse : Parsers} {config : RetryConfig} {attemptNumber : Nat} {error : SendError} {failure : Failure}
  {delay maximum : ℚ}

theorem clamp_nonneg (hmaximum : 0 ≤ maximum) : 0 ≤ clamp delay maximum :=
  le_min (le_max_right _ _) hmaximum

theorem clamp_le : clamp delay maximum ≤ maximum := min_le_right _ _

theorem clamp_of_nonneg (h : 0 ≤ delay) : clamp delay maximum = min delay maximum := by
  rw [clamp, max_eq_left h]

theorem RetryConfig.base_pos (config : RetryConfig) (n : Int) :
    0 < config.baseDelay.1 * config.backoffMultiplier.1 ^ n := by
  have hbase : 0 < (config.baseDelay.1 : ℚ) := by exact_mod_cast config.baseDelay.2
  exact mul_pos hbase (zpow_pos config.backoffMultiplier.2 n)

theorem RetryConfig.maxDelay_nonneg (config : RetryConfig) : 0 ≤ (config.maxDelay.1 : ℚ) := Nat.cast_nonneg _

namespace DeliveryExecutorService

/-- The jitter moves the delay by a quarter at most, and the cut keeps the order. -/
theorem calculateBackoffDelay_bounds (config : RetryConfig) (attemptNumber : Nat) (failure : Failure) :
    let base := config.baseDelay.1 * config.backoffMultiplier.1 ^ ((attemptNumber : Int) - 1)
    min (0.75 * base) config.maxDelay.1 ≤ calculateBackoffDelay config attemptNumber failure.random ∧
      calculateBackoffDelay config attemptNumber failure.random ≤ min (1.25 * base) config.maxDelay.1 := by
  intro base
  have hbase : 0 < base := config.base_pos _
  have hlow : 0.75 * base ≤ base + base * 0.25 * (failure.random * 2 - 1) := by
    have hjitter := mul_nonneg hbase.le failure.random_nonneg
    linarith
  have hhigh : base + base * 0.25 * (failure.random * 2 - 1) ≤ 1.25 * base := by
    have hjitter := mul_lt_mul_of_pos_left failure.random_lt hbase
    linarith
  have hnonneg : 0 ≤ base + base * 0.25 * (failure.random * 2 - 1) := by
    have hquarter : 0 ≤ 0.75 * base := by positivity
    exact hquarter.trans hlow
  have hdelay : calculateBackoffDelay config attemptNumber failure.random =
      min (base + base * 0.25 * (failure.random * 2 - 1)) config.maxDelay.1 := clamp_of_nonneg hnonneg
  rw [hdelay]
  exact ⟨min_le_min_right _ hlow, min_le_min_right _ hhigh⟩

theorem retryAfterDelay_of_denotes {now : Time} {header : String} {wait : ℚ} (hne : header ≠ "")
    (h : Denotes parse now header wait) :
    retryAfterDelay parse now (some header) maximum = some (clamp wait maximum) := by
  cases h with
  | seconds hnumber => simp only [retryAfterDelay, if_neg hne, hnumber]
  | date hnumber hdate => simp only [retryAfterDelay, if_neg hne, hnumber, hdate, Option.map_some]

theorem denotes_of_retryAfterDelay {now : Time} {value : Option String}
    (h : retryAfterDelay parse now value maximum = some delay) :
    ∃ header wait, value = some header ∧ header ≠ "" ∧ Denotes parse now header wait ∧
      delay = clamp wait maximum := by
  cases value with
  | none => cases h
  | some header =>
    by_cases hne : header = ""
    · simp only [retryAfterDelay, if_pos hne, reduceCtorEq] at h
    · cases hnumber : parse.number header with
      | some seconds =>
        simp only [retryAfterDelay, if_neg hne, hnumber, Option.some.injEq] at h
        exact ⟨header, _, rfl, hne, .seconds hnumber, h.symm⟩
      | none =>
        simp only [retryAfterDelay, if_neg hne, hnumber, Option.map_eq_some_iff] at h
        obtain ⟨time, hdate, hdelay⟩ := h
        exact ⟨header, _, rfl, hne, .date hnumber hdate, hdelay.symm⟩

theorem nextAttemptDelay_of_asks {wait : ℚ} (h : AsksFor parse error failure wait) :
    nextAttemptDelay parse config attemptNumber error failure = clamp wait config.maxDelay.1 := by
  obtain ⟨hstatus, header, hheader, hne, hdenotes⟩ := h
  rw [nextAttemptDelay, if_pos hstatus, hheader, retryAfterDelay_of_denotes hne hdenotes, Option.getD_some]

theorem nextAttemptDelay_of_not_asks (h : ¬ ∃ wait, AsksFor parse error failure wait) :
    nextAttemptDelay parse config attemptNumber error failure =
      calculateBackoffDelay config attemptNumber failure.random := by
  by_cases hstatus : error.statusCode = 429
  · rw [nextAttemptDelay, if_pos hstatus]
    cases hdelay : retryAfterDelay parse failure.now failure.retryAfter config.maxDelay.1 with
    | none => rfl
    | some delay =>
      obtain ⟨header, wait, hheader, hne, hdenotes, _⟩ := denotes_of_retryAfterDelay hdelay
      exact absurd ⟨wait, hstatus, header, hheader, hne, hdenotes⟩ h
  · rw [nextAttemptDelay, if_neg hstatus]

theorem nextAttemptDelay_window (parse : Parsers) (config : RetryConfig) (attemptNumber : Nat) (error : SendError)
    (failure : Failure) : RetryWindow parse config attemptNumber error failure
      (nextAttemptDelay parse config attemptNumber error failure) := by
  have hmaximum := config.maxDelay_nonneg
  by_cases hasks : ∃ wait, AsksFor parse error failure wait
  · obtain ⟨wait, hwait⟩ := hasks
    constructor
    · rw [nextAttemptDelay_of_asks hwait]
      exact clamp_nonneg hmaximum
    · rw [nextAttemptDelay_of_asks hwait]
      exact clamp_le
    · exact fun wait' hwait' => nextAttemptDelay_of_asks hwait'
    · exact fun hnone => absurd ⟨wait, hwait⟩ hnone
  · rw [nextAttemptDelay_of_not_asks hasks]
    constructor
    · exact clamp_nonneg hmaximum
    · exact clamp_le
    · exact fun wait hwait => absurd ⟨wait, hwait⟩ hasks
    · exact fun _ => calculateBackoffDelay_bounds config attemptNumber failure

end DeliveryExecutorService

theorem newDate_of_le {value : ℚ} (hnonneg : 0 ≤ value) (h : value ≤ maxDate) :
    newDate value = some (⌊value⌋₊ : Int) := by
  rw [newDate, abs_of_nonneg hnonneg, if_pos h, if_pos hnonneg, Int.natCast_floor_eq_floor hnonneg]

namespace DeliveryExecutorService

variable {cfg : Config} {p : ExecutorPorts} {id expectedAttempt : Nat} {delivery : DispatchableDelivery}

theorem attempt_writes_success {i : Nat} {w : OutcomeWrite} (h : .write i w ∈ (attempt cfg p delivery).calls) :
    w.isSuccess = true := by
  simp only [attempt, write, Run.mem_calls_bind, Run.calls_compute, Run.calls_call, List.mem_cons, List.not_mem_nil,
    or_false, reduceCtorEq, false_or, ExecutorCall.write.injEq] at h
  obtain ⟨_, _, _, _, _, rfl⟩ := h
  rfl

/-- A failed execution writes what its error comes to, and no other retry. -/
theorem failed_retries (h : FailedExecution cfg p id expectedAttempt delivery error) {i : Nat}
    {input : DeliveryFailureInput} :
    .write i (.retry input) ∈ (execute cfg p id expectedAttempt).calls ↔
      i = delivery.id ∧
        .retry input = outcomeWrite cfg delivery (p.nextAttemptAt delivery error) (.rejected error) := by
  obtain ⟨hclaim, hthrown⟩ := h
  rw [execute_claimed hclaim, Run.tryCatch_of_error _ hthrown]
  have hattempt : .write i (.retry input) ∉ (attempt cfg p delivery).calls := by
    intro hmem
    cases attempt_writes_success hmem
  simp only [List.mem_cons, reduceCtorEq, false_or, List.mem_append, hattempt, failed, write, Run.calls_call,
    ExecutorCall.write.injEq, List.not_mem_nil, or_false]

theorem newDate_nextAttemptAt (hrange : failure.now + config.maxDelay.1 ≤ maxDate) :
    newDate (failure.now + nextAttemptDelay parse config attemptNumber error failure) =
      some (nextAttemptAt parse config attemptNumber error failure : Int) := by
  have hwindow := nextAttemptDelay_window parse config attemptNumber error failure
  have hnonneg : 0 ≤ failure.now + nextAttemptDelay parse config attemptNumber error failure :=
    add_nonneg (Nat.cast_nonneg _) hwindow.nonneg
  have hmax : failure.now + nextAttemptDelay parse config attemptNumber error failure ≤ maxDate := by
    have hrange' : (failure.now : ℚ) + config.maxDelay.1 ≤ maxDate := by exact_mod_cast hrange
    exact (add_le_add_right hwindow.le_maxDelay _).trans hrange'
  rw [nextAttemptAt, newDate_of_le hnonneg hmax]
  rfl

end DeliveryExecutorService

end Window

theorem outcomeWrite_retryable {cfg : Config} {delivery : DispatchableDelivery} {error : SendError} (t : Time)
    (hattempts : delivery.row.attempts < cfg.maxAttempts) (hretryable : isRetryable error.statusCode = true) :
    ∃ input, outcomeWrite cfg delivery t (.rejected error) = .retry input ∧ input.nextAttemptAt = t := by
  have hkept : ¬ (delivery.row.attempts ≥ cfg.maxAttempts || !isRetryable error.statusCode) = true := by
    simp [hattempts, hretryable]
  exact ⟨_, if_neg hkept, rfl⟩

/-- The execution schedules one retry, at the moment a delay of its window gives. -/
def SchedulesInWindow (parse : Parsers) (config : RetryConfig) (failure : Failure) (cfg : Config) (p : ExecutorPorts)
    (id expectedAttempt : Nat) (delivery : DispatchableDelivery) (error : SendError) : Prop :=
  ∃ input delay, (∀ i input', .write i (.retry input') ∈ (DeliveryExecutorService.execute cfg
      (p.scheduling parse config failure) id expectedAttempt).calls ↔ i = delivery.id ∧ input' = input) ∧
    newDate (failure.now + delay) = some (input.nextAttemptAt : Int) ∧
    RetryWindow parse config delivery.row.attempts error failure delay

theorem retries_in_window (parse : Parsers) (webhook : WebhookConfig) (eventRetentionDays : Nat)
    (captureResponseBodies : Bool) (failure : Failure) (p : ExecutorPorts) (id expectedAttempt : Nat)
    (delivery : DispatchableDelivery) (error : SendError)
    (hfailed : FailedExecution (webhook.config eventRetentionDays captureResponseBodies) p id expectedAttempt delivery
      error)
    (hattempts : delivery.row.attempts < webhook.retry.maxAttempts.1)
    (hretryable : isRetryable error.statusCode = true)
    (hrange : failure.now + webhook.retry.maxDelay.1 ≤ maxDate) :
    SchedulesInWindow parse webhook.retry failure (webhook.config eventRetentionDays captureResponseBodies) p id
      expectedAttempt delivery error := by
  have hscheduling : FailedExecution (webhook.config eventRetentionDays captureResponseBodies)
      (p.scheduling parse webhook.retry failure) id expectedAttempt delivery error :=
    ⟨hfailed.claimed, hfailed.thrown⟩
  have hwindow :=
    DeliveryExecutorService.nextAttemptDelay_window parse webhook.retry delivery.row.attempts error failure
  have hattempts' : delivery.row.attempts < (webhook.config eventRetentionDays captureResponseBodies).maxAttempts :=
    hattempts
  obtain ⟨input, hwrite, hmoment⟩ := outcomeWrite_retryable
    ((p.scheduling parse webhook.retry failure).nextAttemptAt delivery error) hattempts' hretryable
  refine ⟨input, _, fun i input' => ?_, ?_, hwindow⟩
  · rw [DeliveryExecutorService.failed_retries hscheduling, hwrite, OutcomeWrite.retry.injEq]
  · rw [hmoment]
    exact DeliveryExecutorService.newDate_nextAttemptAt hrange

def tooManyRequests : SendError where
  responseStatus := some 429
  responseData := some "slow down"
  status := none
  message := some "Request failed with status code 429"

def refusedPorts : ExecutorPorts :=
  { unreachablePorts with send := fun _ _ _ => .error tooManyRequests }

/-- The clock stands at 1000, and the header asks for two minutes. -/
def twoMinutes : Failure where
  headers := some fun name => if name = "retry-after" then some "120" else none
  now := 1000
  random := 1 / 2
  random_nonneg := by norm_num
  random_lt := by norm_num

theorem retries_in_window_refused : ∃ delivery, SchedulesInWindow
    ⟨fun text => if text = "120" then some 120 else none, fun _ => none⟩ WebhookConfig.defaults.retry twoMinutes
    (WebhookConfig.defaults.config 0 false) refusedPorts 0 1 delivery tooManyRequests :=
  ⟨_, retries_in_window ⟨fun text => if text = "120" then some 120 else none, fun _ => none⟩ .defaults 0 false
    twoMinutes refusedPorts 0 1 _ tooManyRequests ⟨rfl, rfl⟩ (by decide) (by decide) (by decide)⟩

end WebhookEngine
