import WebhookEngine.Executor

/-! What a delivery is meant to come to, from the answers to its requests alone. -/

namespace WebhookEngine

inductive Verdict where
  | delivered | retryable | permanent
  deriving DecidableEq, Repr

/-- The status an error carries; zero is none. -/
def SendError.code? (e : SendError) : Option Nat :=
  (e.responseStatus.filter (· != 0)).or (e.status.filter (· != 0))

/-- A failure is retryable without a status, from 500 on, and for four codes below. -/
def SendResult.verdict : SendResult → Verdict
  | .resolved .. => .delivered
  | .rejected e =>
    match e.code? with
    | none => .retryable
    | some code => if 500 ≤ code ∨ code ∈ [408, 409, 425, 429] then .retryable else .permanent

/-- The status a delivery gets and the requests it takes, when `n` requests have failed
and `left` more may be made. -/
def fate (answers : Nat → SendResult) : Nat → Nat → DeliveryStatus × Nat
  | 0, n => (.dlq, n)
  | left + 1, n =>
    match (answers (n + 1)).verdict with
    | .delivered => (.success, n + 1)
    | .permanent => (.dlq, n + 1)
    | .retryable => fate answers left (n + 1)

/-- SUCCESS after the first answer that is no retryable failure if it is a delivery, DLQ
after it if it is not, and DLQ after `maxAttempts` retryable failures. -/
structure AsSpecified (maxAttempts : Nat) (answers : Nat → SendResult) (status : DeliveryStatus)
    (requests : Nat) : Prop where
  delivered : ∀ k, 1 ≤ k → k ≤ maxAttempts → (∀ i, 1 ≤ i → i < k → (answers i).verdict = .retryable) →
    (answers k).verdict = .delivered → status = .success ∧ requests = k
  rejected : ∀ k, 1 ≤ k → k ≤ maxAttempts → (∀ i, 1 ≤ i → i < k → (answers i).verdict = .retryable) →
    (answers k).verdict = .permanent → status = .dlq ∧ requests = k
  exhausted : (∀ i, 1 ≤ i → i ≤ maxAttempts → (answers i).verdict = .retryable) →
    status = .dlq ∧ requests = maxAttempts

theorem SendError.statusCode_eq (e : SendError) : e.statusCode = e.code?.getD 500 := by
  simp only [statusCode, code?, orStatus]
  cases e.responseStatus.filter (· != 0) with
  | some code => rfl
  | none => cases e.status.filter (· != 0) <;> rfl

theorem verdict_retryable_iff (e : SendError) :
    (SendResult.rejected e).verdict = .retryable ↔ isRetryable e.statusCode = true := by
  rw [SendError.statusCode_eq]
  simp only [SendResult.verdict]
  cases e.code? with
  | none => exact iff_of_true rfl (by decide)
  | some code =>
    have hiff : isRetryable code = true ↔ 500 ≤ code ∨ code ∈ [408, 409, 425, 429] := by
      simp [isRetryable]
    simp only [Option.getD_some, hiff]
    split
    · rename_i hr
      exact iff_of_true rfl hr
    · rename_i hr
      exact iff_of_false (by simp) hr

theorem verdict_rejected {e : SendError} (h : isRetryable e.statusCode = false) :
    (SendResult.rejected e).verdict = .permanent := by
  have hno : (SendResult.rejected e).verdict ≠ .retryable := by
    rw [Ne, verdict_retryable_iff, h]
    simp
  simp only [SendResult.verdict] at hno ⊢
  split
  · rename_i hc
    simp [hc] at hno
  · rename_i code hc
    simp only [hc] at hno
    split
    · rename_i hr
      exact absurd (if_pos hr) hno
    · rfl

theorem fate_of_retryable (answers : Nat → SendResult) (left n k : Nat) (hk : k ≤ left)
    (h : ∀ i, n < i → i ≤ n + k → (answers i).verdict = .retryable) :
    fate answers left n = fate answers (left - k) (n + k) := by
  induction k generalizing left n with
  | zero => rfl
  | succ k ih =>
    obtain ⟨left, rfl⟩ : ∃ m, left = m + 1 := ⟨left - 1, by omega⟩
    have hfirst : fate answers (left + 1) n = fate answers left (n + 1) := by
      simp only [fate, h (n + 1) (by omega) (by omega)]
    rw [hfirst, ih left (n + 1) (by omega) fun i hi hi' => h i (by omega) (by omega)]
    congr 1 <;> omega

theorem fate_asSpecified (maxAttempts : Nat) (answers : Nat → SendResult) :
    AsSpecified maxAttempts answers (fate answers maxAttempts 0).1 (fate answers maxAttempts 0).2 := by
  have upTo : ∀ k, 1 ≤ k → k ≤ maxAttempts →
      (∀ i, 1 ≤ i → i < k → (answers i).verdict = .retryable) →
      fate answers maxAttempts 0 = fate answers (maxAttempts - k + 1) (k - 1) := by
    intro k hk hle hfail
    have hsteps := fate_of_retryable answers maxAttempts 0 (k - 1) (by omega)
      fun i hi hi' => hfail i (by omega) (by omega)
    rw [hsteps]
    congr 1 <;> omega
  refine ⟨fun k hk hle hfail hv => ?_, fun k hk hle hfail hv => ?_, fun hfail => ?_⟩
  · have hk1 : k - 1 + 1 = k := by omega
    rw [upTo k hk hle hfail]
    simp only [fate, hk1, hv, and_self]
  · have hk1 : k - 1 + 1 = k := by omega
    rw [upTo k hk hle hfail]
    simp only [fate, hk1, hv, and_self]
  · have hsteps := fate_of_retryable answers maxAttempts 0 maxAttempts le_rfl
      fun i hi hi' => hfail i (by omega) (by omega)
    rw [hsteps, Nat.sub_self, Nat.zero_add]
    exact ⟨rfl, rfl⟩

end WebhookEngine
