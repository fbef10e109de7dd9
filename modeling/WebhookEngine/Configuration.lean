import Mathlib.Data.Rat.Floor
import WebhookEngine.Effects
import WebhookEngine.Schema

/-! What the constructor of `ConfigService` accepts from an environment. `Number` is given as
the finite numbers it reads. -/

namespace WebhookEngine

/-- The values one of the two positivity checks lets through. -/
abbrev Positive (α : Type) [Zero α] [LT α] := {value : α // 0 < value}

abbrev Environment := String → Option String

structure RetryConfig where
  maxAttempts : Positive Nat
  baseDelay : Positive Nat
  maxDelay : Positive Nat
  backoffMultiplier : Positive ℚ
  baseDelay_le : baseDelay.1 ≤ maxDelay.1

inductive SignatureAlgorithm where
  | sha256
  | sha384
  | sha512
  deriving DecidableEq, Repr

structure SecurityConfig where
  maxTimestampAge : Positive Nat
  signatureAlgorithm : SignatureAlgorithm

structure WebhookConfig where
  retry : RetryConfig
  timeout : Positive Nat
  outboxPollInterval : Positive Nat
  staleDeliveryAge : Positive Nat
  security : SecurityConfig

def WebhookConfig.defaults : WebhookConfig where
  retry :=
    { maxAttempts := ⟨5, by decide⟩
      baseDelay := ⟨1000, by decide⟩
      maxDelay := ⟨300000, by decide⟩
      backoffMultiplier := ⟨2, by norm_num⟩
      baseDelay_le := by norm_num }
  timeout := ⟨10000, by decide⟩
  outboxPollInterval := ⟨1000, by decide⟩
  staleDeliveryAge := ⟨15 * 60 * 1000, by decide⟩
  security := { maxTimestampAge := ⟨300, by decide⟩, signatureAlgorithm := .sha256 }

def SignatureAlgorithm.text : SignatureAlgorithm → String
  | .sha256 => "sha256"
  | .sha384 => "sha384"
  | .sha512 => "sha512"

/-- `Number(process.env[name] ?? fallback)`. -/
def numberFromEnv (number : String → Option ℚ) (env : Environment) (name : String) (fallback : ℚ) : Option ℚ :=
  match env name with
  | some text => number text
  | none => some fallback

theorem natAbs_num_pos {value : ℚ} (h : 0 < value) : 0 < value.num.toNat :=
  Int.pos_iff_toNat_pos.mp (Rat.num_pos.mpr h)

def positiveIntegerFromEnv (number : String → Option ℚ) (env : Environment) (name : String) (fallback : Nat) :
    Except String (Positive Nat) :=
  match numberFromEnv number env name fallback with
  | none => .error s!"{name} must be a positive integer"
  | some value =>
    if h : value.den = 1 ∧ 0 < value then .ok ⟨value.num.toNat, natAbs_num_pos h.2⟩
    else .error s!"{name} must be a positive integer"

namespace ConfigService

open Effects

def positiveNumber (number : String → Option ℚ) (env : Environment) (name : String) (fallback : ℚ) :
    Except String (Positive ℚ) :=
  match numberFromEnv number env name fallback with
  | none => .error s!"{name} must be a positive number"
  | some value =>
    if h : 0 < value then .ok ⟨value, h⟩ else .error s!"{name} must be a positive number"

/-- `process.env.WEBHOOK_SIGNATURE_ALGORITHM || 'sha256'` -/
def signatureAlgorithm (env : Environment) : String :=
  match env "WEBHOOK_SIGNATURE_ALGORITHM" with
  | some text => if text = "" then "sha256" else text
  | none => "sha256"

def parseAlgorithm (text : String) : Option SignatureAlgorithm :=
  [.sha256, .sha384, .sha512].find? fun algorithm => algorithm.text = text

def webhookConfig (number : String → Option ℚ) (env : Environment) : Except String WebhookConfig := do
  let maxAttempts ← positiveIntegerFromEnv number env "WEBHOOK_MAX_ATTEMPTS" 5
  let baseDelay ← positiveIntegerFromEnv number env "WEBHOOK_BASE_DELAY" 1000
  let maxDelay ← positiveIntegerFromEnv number env "WEBHOOK_MAX_DELAY" 300000
  let backoffMultiplier ← positiveNumber number env "WEBHOOK_BACKOFF_MULTIPLIER" 2
  let timeout ← positiveIntegerFromEnv number env "WEBHOOK_TIMEOUT" 10000
  let outboxPollInterval ← positiveIntegerFromEnv number env "OUTBOX_POLL_INTERVAL" 1000
  let staleDeliveryAge ← positiveIntegerFromEnv number env "STALE_DELIVERY_AGE" (15 * 60 * 1000)
  let maxTimestampAge ← positiveIntegerFromEnv number env "WEBHOOK_MAX_TIMESTAMP_AGE" 300
  if h : maxDelay.1 < baseDelay.1 then
    throw "WEBHOOK_MAX_DELAY must be greater than WEBHOOK_BASE_DELAY"
  else
    match parseAlgorithm (signatureAlgorithm env) with
    | none => throw "WEBHOOK_SIGNATURE_ALGORITHM must be sha256, sha384, or sha512"
    | some algorithm =>
      return {
        retry := { maxAttempts, baseDelay, maxDelay, backoffMultiplier, baseDelay_le := not_lt.mp h }
        timeout, outboxPollInterval, staleDeliveryAge
        security := { maxTimestampAge, signatureAlgorithm := algorithm } }

/-- The variables the constructor reads. -/
def envNames : List String :=
  ["WEBHOOK_MAX_ATTEMPTS", "WEBHOOK_BASE_DELAY", "WEBHOOK_MAX_DELAY", "WEBHOOK_BACKOFF_MULTIPLIER", "WEBHOOK_TIMEOUT",
    "OUTBOX_POLL_INTERVAL", "STALE_DELIVERY_AGE", "WEBHOOK_MAX_TIMESTAMP_AGE", "WEBHOOK_SIGNATURE_ALGORITHM"]

section Checks

variable {number : String → Option ℚ} {env : Environment} {name message : String}

theorem positiveIntegerFromEnv_fallback (number : String → Option ℚ) (henv : env name = none) {fallback : Nat}
    (h : 0 < fallback) : positiveIntegerFromEnv number env name fallback = .ok ⟨fallback, h⟩ := by
  have hpos : 0 < (fallback : ℚ) := by exact_mod_cast h
  have hvalue : numberFromEnv number env name fallback = some (fallback : ℚ) := by
    simp only [numberFromEnv, henv]
  simp only [positiveIntegerFromEnv, hvalue]
  rw [dif_pos ⟨Rat.den_natCast _, hpos⟩]
  rfl

theorem positiveNumber_fallback (number : String → Option ℚ) (henv : env name = none)
    {fallback : ℚ} (h : 0 < fallback) : positiveNumber number env name fallback = .ok ⟨fallback, h⟩ := by
  have hvalue : numberFromEnv number env name fallback = some fallback := by
    simp only [numberFromEnv, henv]
  simp only [positiveNumber, hvalue]
  rw [dif_pos h]

theorem positiveIntegerFromEnv_error {fallback : Nat}
    (h : positiveIntegerFromEnv number env name fallback = .error message) :
    message = name ++ " must be a positive integer" := by
  unfold positiveIntegerFromEnv at h
  split at h
  · exact (Except.error.inj h).symm
  · split at h
    · cases h
    · exact (Except.error.inj h).symm

theorem positiveNumber_error {fallback : ℚ} (h : positiveNumber number env name fallback = .error message) :
    message = name ++ " must be a positive number" := by
  unfold positiveNumber at h
  split at h
  · exact (Except.error.inj h).symm
  · split at h
    · cases h
    · exact (Except.error.inj h).symm

/-- Every fallback passes its own check. -/
theorem webhookConfig_defaults (number : String → Option ℚ) :
    webhookConfig number (fun _ => none) = .ok .defaults := by
  have hinteger (name : String) {fallback : Nat} (h : 0 < fallback) :
      positiveIntegerFromEnv number (fun _ => none) name fallback = .ok ⟨fallback, h⟩ :=
    positiveIntegerFromEnv_fallback number rfl h
  have hmultiplier : positiveNumber number (fun _ => none) "WEBHOOK_BACKOFF_MULTIPLIER" 2 =
      .ok WebhookConfig.defaults.retry.backoffMultiplier := positiveNumber_fallback number rfl (by norm_num)
  rw [webhookConfig, hmultiplier]
  simp only [hinteger, Nat.reduceLT, Nat.reduceMul, bind, Except.bind]
  rw [dif_neg (by norm_num)]
  rfl

/-- A step that is refused only for a variable it names. -/
def NamesRefusal {α : Type} (x : Except String α) : Prop :=
  ∀ message, x = .error message → ∃ name ∈ envNames, name.toList <+: message.toList

theorem NamesRefusal.of_eq {α : Type} {x : Except String α} {text : String} (hname : name ∈ envNames)
    (h : ∀ message, x = .error message → message = name ++ text) : NamesRefusal x := by
  intro message hmessage
  refine ⟨name, hname, ?_⟩
  rw [h message hmessage, String.toList_append]
  exact List.prefix_append _ _

theorem NamesRefusal.bind {α β : Type} {x : Except String α} {f : α → Except String β} (hx : NamesRefusal x)
    (hf : ∀ a, NamesRefusal (f a)) : NamesRefusal (x >>= f) := by
  intro message h
  obtain hrefused | ⟨a, _, hrest⟩ := bind_eq_error.mp h
  · exact hx message hrefused
  · exact hf a message hrest

theorem NamesRefusal.throw {α : Type} {message : String} (hname : name ∈ envNames)
    (h : name.toList <+: message.toList) : NamesRefusal (throw message : Except String α) := by
  intro message' hmessage
  obtain rfl := Except.error.inj hmessage
  exact ⟨name, hname, h⟩

/-- A refusal names the variable it is about. -/
theorem webhookConfig_error (h : webhookConfig number env = .error message) :
    ∃ name ∈ envNames, name.toList <+: message.toList := by
  have hinteger {name : String} (hname : name ∈ envNames) (fallback : Nat) :
      NamesRefusal (positiveIntegerFromEnv number env name fallback) :=
    .of_eq hname fun _ => positiveIntegerFromEnv_error
  have hnumber {name : String} (hname : name ∈ envNames) (fallback : ℚ) :
      NamesRefusal (positiveNumber number env name fallback) :=
    .of_eq hname fun _ => positiveNumber_error
  have hrefusal : NamesRefusal (webhookConfig number env) := by
    refine .bind (hinteger (by decide) _) fun maxAttempts => ?_
    refine .bind (hinteger (by decide) _) fun baseDelay => ?_
    refine .bind (hinteger (by decide) _) fun maxDelay => ?_
    refine .bind (hnumber (by decide) _) fun backoffMultiplier => ?_
    refine .bind (hinteger (by decide) _) fun timeout => ?_
    refine .bind (hinteger (by decide) _) fun outboxPollInterval => ?_
    refine .bind (hinteger (by decide) _) fun staleDeliveryAge => ?_
    refine .bind (hinteger (by decide) _) fun maxTimestampAge => ?_
    split
    · exact .throw (show "WEBHOOK_MAX_DELAY" ∈ envNames by decide) (by decide)
    · split
      · exact .throw (show "WEBHOOK_SIGNATURE_ALGORITHM" ∈ envNames by decide) (by decide)
      · intro message hmessage
        cases hmessage
  exact hrefusal message h

end Checks

end ConfigService

/-- The settings the dispatcher and the maintenance read, with those of the getters. -/
def WebhookConfig.config (webhook : WebhookConfig) (eventRetentionDays : Nat) (captureResponseBodies : Bool) :
    Config where
  maxAttempts := webhook.retry.maxAttempts
  staleDeliveryAge := webhook.staleDeliveryAge
  eventRetentionDays := eventRetentionDays
  captureResponseBodies := captureResponseBodies
  maxAttempts_pos := webhook.retry.maxAttempts.2
  staleDeliveryAge_pos := webhook.staleDeliveryAge.2

end WebhookEngine
