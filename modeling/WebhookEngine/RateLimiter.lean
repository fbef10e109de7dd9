import Mathlib.Algebra.Order.Floor.Ring
import Mathlib.Data.List.Chain
import Mathlib.Data.Rat.Floor
import WebhookEngine.TokenBucket

/-! The script the rate limiter runs in Redis, and what it grants over sequences of calls. -/

namespace WebhookEngine

/-- The hash the script keeps for one scope. -/
structure RateBucket where
  tokens : ℚ
  updatedAt : ℤ
  deriving DecidableEq, Repr

structure RateLimitResult where
  exceeded : Bool
  delayMs : ℤ
  currentRequests : ℤ
  deriving DecidableEq, Repr

def checkRateLimit (values : Option RateBucket) (limit : ℕ) (now : ℤ) : RateLimitResult × RateBucket :=
  let tokens := (values.map RateBucket.tokens).getD limit
  let updatedAt := (values.map RateBucket.updatedAt).getD now
  let elapsed := max 0 (now - updatedAt)
  let tokens := min (limit : ℚ) (tokens + elapsed * limit / 1000)
  let allowed := decide (1 ≤ tokens)
  let delay := if allowed then 0 else ⌈(1 - tokens) * 1000 / limit⌉
  let tokens := if allowed then tokens - 1 else tokens
  (⟨!allowed, delay, ⌈limit - tokens⌉⟩, ⟨tokens, now⟩)

/-- A call on the scope. `expired` says that the key is gone when it arrives. -/
structure RateCall where
  now : ℤ
  limit : ℕ
  expired : Bool
  deriving DecidableEq, Repr

namespace RateCall

def finds (c : RateCall) (values : Option RateBucket) : Option RateBucket :=
  if c.expired then none else values

def checked (c : RateCall) (values : Option RateBucket) : RateLimitResult × RateBucket :=
  checkRateLimit (c.finds values) c.limit c.now

def kept (c : RateCall) : RateCall := { c with expired := false }

def request (c : RateCall) : TokenBucket.Request ℚ := ⟨c.now, c.limit, c.limit / 1000⟩

end RateCall

def rateLimitChecks : Option RateBucket → List RateCall → List (RateCall × RateLimitResult)
  | _, [] => []
  | values, c :: cs => (c, (c.checked values).1) :: rateLimitChecks (some (c.checked values).2) cs

def rateBucketAfter : Option RateBucket → List RateCall → Option RateBucket
  | values, [] => values
  | values, c :: cs => rateBucketAfter (some (c.checked values).2) cs

def grantedBetween (s t : ℤ) (checks : List (RateCall × RateLimitResult)) : ℕ :=
  checks.countP fun (c, r) => !r.exceeded && decide (s ≤ c.now ∧ c.now ≤ t)

namespace RateBucket

def bucket (b : RateBucket) : TokenBucket.Bucket ℚ := ⟨b.tokens, b.updatedAt⟩

end RateBucket

section Refinement

open TokenBucket (available grants taken granted)

variable {values : Option RateBucket} {c : RateCall} {calls : List RateCall}

theorem checked_available (values : Option RateBucket) (limit : ℕ) (now : ℤ) :
    min (limit : ℚ) ((values.map RateBucket.tokens).getD limit +
      (max 0 (now - (values.map RateBucket.updatedAt).getD now) : ℤ) * limit / 1000) =
    available (values.map RateBucket.bucket) ⟨now, limit, limit / 1000⟩ := by
  cases values with
  | none => simp [available]
  | some b =>
    have hcast : ((max 0 (now - b.updatedAt) : ℤ) : ℚ) = max 0 ((now : ℚ) - b.updatedAt) := by
      push_cast
      rfl
    simp only [available, Option.map_some, Option.getD_some, RateBucket.bucket, hcast, mul_div_assoc]

/-- The script is a token bucket of capacity `limit` that fills up in a second. -/
theorem checkRateLimit_eq (values : Option RateBucket) (limit : ℕ) (now : ℤ) :
    (checkRateLimit values limit now).1.exceeded =
      !grants (values.map RateBucket.bucket) ⟨now, limit, limit / 1000⟩ ∧
    (checkRateLimit values limit now).2.bucket =
      taken (values.map RateBucket.bucket) ⟨now, limit, limit / 1000⟩ := by
  have havailable := checked_available values limit now
  constructor
  · simp only [checkRateLimit, grants, havailable]
  · simp only [checkRateLimit, RateBucket.bucket, grants, taken, havailable]
    rfl

theorem checkRateLimit_congr {values values' : Option RateBucket} {limit : ℕ} {now : ℤ}
    (h : available (values.map RateBucket.bucket) ⟨now, limit, limit / 1000⟩ =
      available (values'.map RateBucket.bucket) ⟨now, limit, limit / 1000⟩) :
    checkRateLimit values limit now = checkRateLimit values' limit now := by
  have hsame := (checked_available values limit now).trans (h.trans (checked_available values' limit now).symm)
  simp only [checkRateLimit, hsame]

theorem checkRateLimit_of_expired {b : RateBucket} {limit : ℕ} {now : ℤ} (hb : 0 ≤ b.tokens)
    (hnow : b.updatedAt + 2000 ≤ now) :
    checkRateLimit (some b) limit now = checkRateLimit none limit now := by
  have hlimit : (0 : ℚ) ≤ limit := Nat.cast_nonneg _
  have helapsed : (2000 : ℚ) ≤ now - b.updatedAt := by
    have : ((b.updatedAt + 2000 : ℤ) : ℚ) ≤ now := Int.cast_le.mpr hnow
    push_cast at this
    linarith
  have hfull : (limit : ℚ) ≤ (now - b.updatedAt) * (limit / 1000) := by
    have hmul := mul_le_mul_of_nonneg_right helapsed (div_nonneg hlimit (by norm_num : (0 : ℚ) ≤ 1000))
    linarith
  exact checkRateLimit_congr (TokenBucket.available_of_full hb hfull (div_nonneg hlimit (by norm_num)))

theorem RateCall.checked_of_not_expired (hc : c.expired = false) :
    c.checked values = checkRateLimit values c.limit c.now := by
  simp [RateCall.checked, RateCall.finds, hc]

theorem countP_rateLimitChecks (values : Option RateBucket) (p : ℤ → Bool)
    (select : TokenBucket.Request ℚ → Bool)
    (hselect : ∀ c : RateCall, select c.request = p c.now) (hkept : ∀ c ∈ calls, c.expired = false) :
    ((rateLimitChecks values calls).countP fun x => !x.2.exceeded && p x.1.now) =
      granted select (values.map RateBucket.bucket) (calls.map RateCall.request) := by
  induction calls generalizing values with
  | nil => rfl
  | cons c calls ih =>
    obtain ⟨hexceeded, hbucket⟩ := checkRateLimit_eq values c.limit c.now
    rw [← RateCall.checked_of_not_expired (hkept c List.mem_cons_self)] at hexceeded hbucket
    have hrest := ih (some (c.checked values).2) fun d hd => hkept d (List.mem_cons_of_mem _ hd)
    rw [Option.map_some, hbucket] at hrest
    have hgrants : (!(c.checked values).1.exceeded && p c.now) =
        (select c.request && grants (values.map RateBucket.bucket) c.request) := by
      rw [hexceeded, hselect, Bool.not_not, Bool.and_comm]
      rfl
    simp only [rateLimitChecks, List.countP_cons, List.map_cons, granted, hgrants, hrest]
    exact Nat.add_comm _ _

end Refinement

section Windows

variable {values : Option RateBucket} {c : RateCall} {calls : List RateCall} {M : ℕ}

/-- Non-decreasing times; a key expires two seconds after the last call at the earliest. -/
def InOrder (calls : List RateCall) : Prop :=
  calls.IsChain fun c d => c.now ≤ d.now ∧ (d.expired = true → c.now + 2000 ≤ d.now)

theorem InOrder.now_le (hcalls : InOrder calls) : calls.Pairwise fun c d => c.now ≤ d.now := by
  have hchain : calls.IsChain fun c d => c.now ≤ d.now := hcalls.imp fun _ _ h => h.1
  exact List.pairwise_map.mp ((List.isChain_map RateCall.now).mpr hchain).pairwise

theorem RateCall.finds_mem {b : RateBucket} (hb : b ∈ c.finds values) : b ∈ values := by
  cases he : c.expired <;> simp_all [RateCall.finds]

theorem RateCall.checked_tokens (hvalues : ∀ b ∈ values, 0 ≤ b.tokens) (hc : c.limit ≤ M) :
    0 ≤ (c.checked values).2.tokens ∧ (c.checked values).2.tokens ≤ M := by
  have hbucket := (checkRateLimit_eq (c.finds values) c.limit c.now).2
  have hlevel : (c.checked values).2.tokens =
      (TokenBucket.taken ((c.finds values).map RateBucket.bucket) c.request).level :=
    congrArg TokenBucket.Bucket.level hbucket
  have hlimit : (0 : ℚ) ≤ c.limit := Nat.cast_nonneg _
  have hM : (c.limit : ℚ) ≤ M := Nat.cast_le.mpr hc
  have hfinds : ∀ d ∈ (c.finds values).map RateBucket.bucket, 0 ≤ d.level := by
    intro d hd
    obtain ⟨b, hb, rfl⟩ := Option.mem_map.mp hd
    exact hvalues b (RateCall.finds_mem hb)
  rw [hlevel]
  exact ⟨TokenBucket.taken_nonneg hfinds hlimit (div_nonneg hlimit (by norm_num)),
    (TokenBucket.taken_le_cap _ c.request).trans hM⟩

theorem rateBucketAfter_nonneg (hvalues : ∀ b ∈ values, 0 ≤ b.tokens) :
    ∀ b ∈ rateBucketAfter values calls, 0 ≤ b.tokens := by
  induction calls generalizing values with
  | nil => exact hvalues
  | cons c calls ih =>
    have htokens := (RateCall.checked_tokens hvalues (le_refl c.limit)).1
    exact ih fun b hb => Option.some.inj hb ▸ htokens

theorem rateBucketAfter_tokens (hvalues : ∀ b ∈ values, 0 ≤ b.tokens ∧ b.tokens ≤ M)
    (hlimit : ∀ c ∈ calls, c.limit ≤ M) :
    ∀ b ∈ rateBucketAfter values calls, 0 ≤ b.tokens ∧ b.tokens ≤ M := by
  induction calls generalizing values with
  | nil => exact hvalues
  | cons c calls ih =>
    have htokens := RateCall.checked_tokens (fun b hb => (hvalues b hb).1) (hlimit c List.mem_cons_self)
    exact ih (fun b hb => Option.some.inj hb ▸ htokens) fun d hd => hlimit d (List.mem_cons_of_mem _ hd)

theorem RateCall.checked_kept
    (h : ∀ b ∈ values, 0 ≤ b.tokens ∧ (c.expired = true → b.updatedAt + 2000 ≤ c.now)) :
    c.checked values = c.kept.checked values := by
  have hkept : c.kept.checked values = checkRateLimit values c.limit c.now := rfl
  by_cases he : c.expired = true
  · have hchecked : c.checked values = checkRateLimit none c.limit c.now := by
      simp [RateCall.checked, RateCall.finds, he]
    rw [hchecked, hkept]
    cases values with
    | none => rfl
    | some b => exact (checkRateLimit_of_expired (h b rfl).1 ((h b rfl).2 he)).symm
  · rw [hkept, RateCall.checked_of_not_expired (Bool.eq_false_iff.mpr he)]

theorem rateLimitChecks_kept (values : Option RateBucket) (hcalls : InOrder calls)
    (h : ∀ b ∈ values, 0 ≤ b.tokens ∧
      ∀ c ∈ calls.head?, c.expired = true → b.updatedAt + 2000 ≤ c.now) :
    (rateLimitChecks values calls).map (fun x => (x.1.now, x.2)) =
      (rateLimitChecks values (calls.map RateCall.kept)).map (fun x => (x.1.now, x.2)) := by
  induction calls generalizing values with
  | nil => rfl
  | cons c calls ih =>
    have hchecked := RateCall.checked_kept fun b hb => ⟨(h b hb).1, (h b hb).2 c rfl⟩
    have htokens := RateCall.checked_tokens (fun b hb => (h b hb).1) (le_refl c.limit)
    have hnext : ∀ b ∈ some (c.checked values).2, 0 ≤ b.tokens ∧
        ∀ d ∈ calls.head?, d.expired = true → b.updatedAt + 2000 ≤ d.now := by
      intro b hb
      obtain rfl := Option.some.inj hb
      exact ⟨htokens.1, fun d hd => ((List.isChain_cons.mp hcalls).1 d hd).2⟩
    have hrest := ih _ (List.isChain_cons.mp hcalls).2 hnext
    simp only [rateLimitChecks, List.map_cons, hrest, ← hchecked]
    rfl

theorem grantedBetween_le (hkept : ∀ c ∈ calls, c.expired = false)
    (htime : (calls.map RateCall.now).Pairwise (· ≤ ·)) (hlimit : ∀ c ∈ calls, c.limit ≤ M)
    {s t : ℤ} (hst : s ≤ t) :
    (grantedBetween s t (rateLimitChecks none calls) : ℚ) ≤ M + M * (t - s) / 1000 := by
  have hcount := countP_rateLimitChecks none (fun now => decide (s ≤ now ∧ now ≤ t))
    (fun r => decide ((s : ℚ) ≤ r.time ∧ r.time ≤ t)) (fun c => by simp [RateCall.request]) hkept
  have hM : (0 : ℚ) ≤ M := Nat.cast_nonneg _
  have hrequests : ∀ r ∈ calls.map RateCall.request,
      0 ≤ r.cap ∧ r.cap ≤ M ∧ 0 ≤ r.rate ∧ r.rate ≤ (M : ℚ) / 1000 := by
    intro r hr
    obtain ⟨c, hc, rfl⟩ := List.mem_map.mp hr
    have hcap : (0 : ℚ) ≤ c.limit := Nat.cast_nonneg _
    have hcapM : (c.limit : ℚ) ≤ M := Nat.cast_le.mpr (hlimit c hc)
    exact ⟨hcap, hcapM, div_nonneg hcap (by norm_num), div_le_div_of_nonneg_right hcapM (by norm_num)⟩
  have htimes : ((calls.map RateCall.request).map TokenBucket.Request.time).Pairwise (· ≤ ·) := by
    rw [List.map_map]
    rw [List.pairwise_map] at htime ⊢
    exact htime.imp fun hle => Int.cast_le.mpr hle
  have hempty : ∀ c ∈ (none : Option RateBucket).map RateBucket.bucket, 0 ≤ c.level := by simp
  have hwindow := TokenBucket.granted_window_le (div_nonneg hM (by norm_num)) hM
    (Int.cast_le.mpr hst) hempty htimes hrequests fun r hr => of_decide_eq_true hr
  rw [grantedBetween, hcount]
  calc (TokenBucket.granted _ _ _ : ℚ) ≤ M + M / 1000 * (t - s) := hwindow
    _ = M + M * (t - s) / 1000 := by ring

/-- Over every window, whatever the limits in between; a key that expires changes no answer. -/
theorem rate_limit_over_windows (hlimit : ∀ c ∈ calls, 1 ≤ c.limit ∧ c.limit ≤ M)
    (hcalls : InOrder calls) :
    (∀ s t : ℤ, s ≤ t →
      (grantedBetween s t (rateLimitChecks none calls) : ℚ) ≤ M + M * (t - s) / 1000) ∧
    (rateLimitChecks none calls).map Prod.snd =
      (rateLimitChecks none (calls.map RateCall.kept)).map Prod.snd ∧
    ∀ k, ∀ b ∈ rateBucketAfter none (calls.take k), 0 ≤ b.tokens ∧ b.tokens ≤ M := by
  have hsame := rateLimitChecks_kept none hcalls (by simp)
  refine ⟨fun s t hst => ?_, ?_, fun k => ?_⟩
  · have hcount : grantedBetween s t (rateLimitChecks none calls) =
        grantedBetween s t (rateLimitChecks none (calls.map RateCall.kept)) := by
      have hmapped := congrArg (List.countP fun x : ℤ × RateLimitResult =>
        !x.2.exceeded && decide (s ≤ x.1 ∧ x.1 ≤ t)) hsame
      rwa [List.countP_map, List.countP_map] at hmapped
    have htime : ((calls.map RateCall.kept).map RateCall.now).Pairwise (· ≤ ·) := by
      rw [List.map_map, List.pairwise_map]
      exact hcalls.now_le
    have hkept : ∀ c ∈ calls.map RateCall.kept, c.limit ≤ M := by
      simpa [RateCall.kept] using fun c hc => (hlimit c hc).2
    rw [hcount]
    exact grantedBetween_le (by simp [RateCall.kept]) htime hkept hst
  · have hmapped := congrArg (List.map Prod.snd) hsame
    rwa [List.map_map, List.map_map] at hmapped
  · exact rateBucketAfter_tokens (by simp) fun c hc => (hlimit c (List.mem_of_mem_take hc)).2

theorem rate_limit_over_windows_edited :
    let calls : List RateCall := [⟨0, 1, false⟩, ⟨500, 2, false⟩, ⟨2600, 2, true⟩]
    (∀ s t : ℤ, s ≤ t →
      (grantedBetween s t (rateLimitChecks none calls) : ℚ) ≤ (2 : ℕ) + (2 : ℕ) * (t - s) / 1000) ∧
    (rateLimitChecks none calls).map Prod.snd =
      (rateLimitChecks none (calls.map RateCall.kept)).map Prod.snd ∧
    ∀ k, ∀ b ∈ rateBucketAfter none (calls.take k), 0 ≤ b.tokens ∧ b.tokens ≤ (2 : ℕ) :=
  rate_limit_over_windows (by simp) (by simp [InOrder])

end Windows

section Skew

variable {values : Option RateBucket} {c : RateCall} {calls : List RateCall} {L : ℕ}

/-- The checks of a scope with one limit, at whatever times the workers send. -/
def steadyChecks (L : ℕ) (times : List ℤ) : List (RateCall × RateLimitResult) :=
  rateLimitChecks none (times.map fun now => ⟨now, L, false⟩)

theorem rateLimitChecks_append (values : Option RateBucket) (calls later : List RateCall) :
    rateLimitChecks values (calls ++ later) =
      rateLimitChecks values calls ++ rateLimitChecks (rateBucketAfter values calls) later := by
  induction calls generalizing values with
  | nil => rfl
  | cons c calls ih => simp only [List.cons_append, rateLimitChecks, rateBucketAfter, ih]

theorem length_rateLimitChecks (values : Option RateBucket) (calls : List RateCall) :
    (rateLimitChecks values calls).length = calls.length := by
  induction calls generalizing values with
  | nil => rfl
  | cons c calls ih => simp [rateLimitChecks, ih]

theorem take_rateLimitChecks (values : Option RateBucket) (calls : List RateCall) (k : ℕ) :
    (rateLimitChecks values calls).take k = rateLimitChecks values (calls.take k) := by
  induction calls generalizing values k with
  | nil => simp [rateLimitChecks]
  | cons c calls ih =>
    cases k with
    | zero => rfl
    | succ k => simp [rateLimitChecks, ih]

theorem rateBucketAfter_append (values : Option RateBucket) (calls later : List RateCall) :
    rateBucketAfter values (calls ++ later) = rateBucketAfter (rateBucketAfter values calls) later := by
  induction calls generalizing values with
  | nil => rfl
  | cons c calls ih => exact ih _

theorem rateBucketAfter_concat (values : Option RateBucket) (calls : List RateCall) (c : RateCall) :
    rateBucketAfter values (calls ++ [c]) = some (c.checked (rateBucketAfter values calls)).2 := by
  rw [rateBucketAfter_append]
  rfl

theorem rateBucketAfter_updatedAt {b : RateBucket} (hb : b ∈ rateBucketAfter none calls) :
    ∃ c ∈ calls.getLast?, b.updatedAt = c.now := by
  cases calls using List.reverseRecOn with
  | nil => simp [rateBucketAfter] at hb
  | append_singleton calls c =>
    rw [rateBucketAfter_concat] at hb
    obtain rfl := Option.some.inj hb
    exact ⟨c, List.getLast?_concat, rfl⟩

theorem checked_after_denied {d : RateCall} (hc : c.expired = false) (hd : d.expired = false)
    (hlimit : d.limit = c.limit) (hvalues : ∀ b ∈ values, b.updatedAt ≤ c.now) (hcd : c.now ≤ d.now)
    (hdenied : (c.checked values).1.exceeded = true) :
    d.checked (some (c.checked values).2) = d.checked values := by
  obtain ⟨hexceeded, hbucket⟩ := checkRateLimit_eq values c.limit c.now
  rw [RateCall.checked_of_not_expired hc] at hdenied ⊢
  rw [RateCall.checked_of_not_expired hd, RateCall.checked_of_not_expired hd, hlimit]
  have hstamps : ∀ u ∈ values.map RateBucket.bucket, u.stamp ≤ c.request.time := by
    intro u hu
    obtain ⟨b, hb, rfl⟩ := Option.mem_map.mp hu
    exact Int.cast_le.mpr (hvalues b hb)
  have hrate : (0 : ℚ) ≤ c.limit / 1000 := div_nonneg (Nat.cast_nonneg _) (by norm_num)
  have hgrants : TokenBucket.grants (values.map RateBucket.bucket) c.request = false := by
    simpa [hdenied, RateCall.request] using hexceeded
  refine checkRateLimit_congr ?_
  rw [Option.map_some, hbucket]
  exact TokenBucket.available_denied hstamps (Int.cast_le.mpr hcd) rfl rfl hrate hgrants

/-- What the calls after `times` are answered. -/
def answersAfter (L : ℕ) (times later : List ℤ) : List RateLimitResult :=
  ((steadyChecks L (times ++ later)).drop times.length).map Prod.snd

def grantedAmong (results : List RateLimitResult) : ℕ := results.countP fun r => !r.exceeded

theorem answersAfter_eq (L : ℕ) (times later : List ℤ) :
    answersAfter L times later =
      (rateLimitChecks (rateBucketAfter none (times.map fun now => ⟨now, L, false⟩))
        (later.map fun now => ⟨now, L, false⟩)).map Prod.snd := by
  have hlength : (rateLimitChecks none (times.map fun now => (⟨now, L, false⟩ : RateCall))).length = times.length := by
    rw [length_rateLimitChecks, List.length_map]
  rw [answersAfter, steadyChecks, List.map_append, rateLimitChecks_append, ← hlength, List.drop_left]

theorem take_answersAfter (L : ℕ) (times later : List ℤ) (k : ℕ) :
    (answersAfter L times later).take k = answersAfter L times (later.take k) := by
  rw [answersAfter_eq, answersAfter_eq, ← List.map_take, take_rateLimitChecks, List.map_take]

theorem grantedAmong_answersAfter (L : ℕ) (times later : List ℤ) :
    grantedAmong (answersAfter L times later) =
      TokenBucket.granted (fun _ => true)
        ((rateBucketAfter none (times.map fun now => ⟨now, L, false⟩)).map RateBucket.bucket)
        ((later.map fun now => (⟨now, L, false⟩ : RateCall)).map RateCall.request) := by
  have hkept : ∀ c ∈ later.map fun now => (⟨now, L, false⟩ : RateCall), c.expired = false := by simp
  have hcount := countP_rateLimitChecks
    (rateBucketAfter none (times.map fun now => ⟨now, L, false⟩)) (fun _ => true) (fun _ => true)
    (fun _ => rfl) hkept
  rw [← hcount, grantedAmong, answersAfter_eq, List.countP_map]
  simp only [Bool.and_true]
  rfl

theorem rateBucketAfter_steady {times : List ℤ} {x : ℤ} (hx : ∀ p ∈ times.getLast?, p ≤ x) :
    ∀ b ∈ rateBucketAfter none (times.map fun now => ⟨now, L, false⟩), b.updatedAt ≤ x := by
  intro b hb
  obtain ⟨c, hc, hupdated⟩ := rateBucketAfter_updatedAt hb
  rw [List.getLast?_map] at hc
  obtain ⟨p, hp, rfl⟩ := Option.mem_map.mp hc
  rw [hupdated]
  exact hx p hp

/-- A call sent between its neighbours in time. Without it at least as many of the calls after
it are granted, at whatever times these are; if it was denied they are answered the same. -/
theorem call_deleted {before after : List ℤ} {x : ℤ}
    (hbefore : ∀ p ∈ before.getLast?, p ≤ x) (hafter : ∀ q ∈ after.head?, x ≤ q) :
    (∀ k, grantedAmong ((answersAfter L (before ++ [x]) after).take k) ≤
      grantedAmong ((answersAfter L before after).take k)) ∧
    (∀ r ∈ answersAfter L before [x], r.exceeded = true →
      answersAfter L (before ++ [x]) after = answersAfter L before after) := by
  have hstamps := rateBucketAfter_steady (L := L) hbefore
  have hbetween := rateBucketAfter_concat none (before.map fun now => ⟨now, L, false⟩) ⟨x, L, false⟩
  have hrate : (0 : ℚ) ≤ L / 1000 := div_nonneg (Nat.cast_nonneg _) (by norm_num)
  constructor
  · intro k
    rw [take_answersAfter, take_answersAfter, grantedAmong_answersAfter, grantedAmong_answersAfter,
      List.map_append, List.map_singleton, hbetween, Option.map_some]
    have hbucket := (checkRateLimit_eq (rateBucketAfter none (before.map fun now => ⟨now, L, false⟩)) L x).2
    have htaken : ∀ values, (RateCall.checked ⟨x, L, false⟩ values).2.bucket = (checkRateLimit values L x).2.bucket :=
      fun values => rfl
    rw [htaken, hbucket]
    refine TokenBucket.granted_le_skipped ?_ hrate ?_
    · intro u hu
      obtain ⟨b, hb, rfl⟩ := Option.mem_map.mp hu
      exact Int.cast_le.mpr (hstamps b hb)
    · intro q hq
      cases after with
      | nil => simp at hq
      | cons y after =>
        cases k with
        | zero => simp at hq
        | succ k =>
          obtain rfl := Option.some.inj hq
          exact ⟨Int.cast_le.mpr (hafter y rfl), rfl, rfl⟩
  · intro r hr hdenied
    rw [answersAfter_eq] at hr
    obtain rfl := List.mem_singleton.mp hr
    rw [answersAfter_eq, answersAfter_eq, List.map_append, List.map_singleton, hbetween]
    cases after with
    | nil => rfl
    | cons y after =>
      have hsame := checked_after_denied (c := ⟨x, L, false⟩) (d := ⟨y, L, false⟩) rfl rfl rfl hstamps
        (hafter y rfl) hdenied
      simp only [List.map_cons, rateLimitChecks, hsame]

theorem call_deleted_denied :
    (∀ k, grantedAmong ((answersAfter 1 ([0] ++ [500]) [1000, 200]).take k) ≤
      grantedAmong ((answersAfter 1 [0] [1000, 200]).take k)) ∧
    (∀ r ∈ answersAfter 1 [0] [500], r.exceeded = true →
      answersAfter 1 ([0] ++ [500]) [1000, 200] = answersAfter 1 [0] [1000, 200]) :=
  call_deleted (by decide) (by decide)

/-- Without the call at 0 the call at 500 is granted, and the one at 1000 no longer is. -/
theorem later_call_denied :
    ¬ ∀ (L : ℕ) (before after : List ℤ) (x : ℤ) (i : ℕ), 1 ≤ L →
      (∃ r ∈ (answersAfter L (before ++ [x]) after)[i]?, r.exceeded = false) →
      ∃ r ∈ (answersAfter L before after)[i]?, r.exceeded = false := by
  intro h
  have hgranted : ∃ r ∈ (answersAfter 1 ([] ++ [0]) [500, 1000])[1]?, r.exceeded = false := by
    decide +kernel
  have hdenied : ¬ ∃ r ∈ (answersAfter 1 [] [500, 1000])[1]?, r.exceeded = false := by
    decide +kernel
  exact hdenied (h 1 [] [500, 1000] 0 1 le_rfl hgranted)

end Skew

section Delay

variable {values : Option RateBucket} {b : RateBucket} {c : RateCall} {calls : List RateCall} {L : ℕ} {now : ℤ}

/-- When the next token is there, if nothing is taken before. -/
def RateBucket.due (b : RateBucket) (limit : ℕ) : ℤ := b.updatedAt + ⌈(1 - b.tokens) * 1000 / limit⌉

theorem checkRateLimit_denied (hdenied : (checkRateLimit values L now).1.exceeded = true) :
    (checkRateLimit values L now).2.tokens < 1 ∧
      now + (checkRateLimit values L now).1.delayMs = (checkRateLimit values L now).2.due L := by
  simp only [checkRateLimit, Bool.not_eq_true', decide_eq_false_iff_not] at hdenied
  simp only [checkRateLimit, hdenied, decide_false, Bool.false_eq_true, if_false, RateBucket.due, and_true]
  exact lt_of_not_ge hdenied

theorem RateBucket.due_sub_updatedAt (hL : 1 ≤ L) (hb : 0 ≤ b.tokens) (hlt : b.tokens < 1) :
    1 ≤ b.due L - b.updatedAt ∧ b.due L - b.updatedAt ≤ 1000 := by
  have hlimit : (1 : ℚ) ≤ L := Nat.one_le_cast.mpr hL
  have hpos : (0 : ℚ) < L := by linarith
  have hmissing : 0 < (1 - b.tokens) * 1000 / L := div_pos (by linarith) hpos
  have hmost : (1 - b.tokens) * 1000 / L ≤ ((1000 : ℤ) : ℚ) := by
    rw [div_le_iff₀ hpos]
    push_cast
    linarith
  have hfirst := Int.ceil_pos.mpr hmissing
  have hlast := Int.ceil_le.mpr hmost
  rw [RateBucket.due, add_sub_cancel_left]
  exact ⟨hfirst, hlast⟩

/-- Until then every call is denied, and puts the next token at the same moment. -/
theorem checkRateLimit_before_due (hL : 1 ≤ L) (hb : b.updatedAt ≤ now) :
    ((checkRateLimit (some b) L now).1.exceeded = true ↔ now < b.due L) ∧
      (now < b.due L → (checkRateLimit (some b) L now).2.due L = b.due L) := by
  have hlimit : (1 : ℚ) ≤ L := Nat.one_le_cast.mpr hL
  have hpos : (0 : ℚ) < L := by linarith
  have helapsed : ((max 0 (now - b.updatedAt) : ℤ) : ℚ) = now - b.updatedAt := by
    rw [max_eq_right (by omega)]
    push_cast
    rfl
  have hfilled : 1 ≤ min (L : ℚ) (b.tokens + (now - b.updatedAt) * L / 1000) ↔
      (1 - b.tokens) * 1000 / L ≤ ((now - b.updatedAt : ℤ) : ℚ) := by
    rw [le_min_iff, and_iff_right hlimit, div_le_iff₀ hpos]
    push_cast
    constructor <;> intro h <;> linarith
  have hexceeded : (checkRateLimit (some b) L now).1.exceeded = true ↔ now < b.due L := by
    simp only [checkRateLimit, Option.map_some, Option.getD_some, helapsed, Bool.not_eq_true',
      decide_eq_false_iff_not, hfilled, ← Int.ceil_le, RateBucket.due]
    omega
  refine ⟨hexceeded, fun hnow => ?_⟩
  have hdenied := hexceeded.mpr hnow
  have hless : b.tokens + (now - b.updatedAt) * L / 1000 < L := by
    simp only [checkRateLimit, Option.map_some, Option.getD_some, helapsed, Bool.not_eq_true',
      decide_eq_false_iff_not, le_min_iff, not_and, not_le] at hdenied
    exact (hdenied hlimit).trans_le hlimit
  have htokens : (checkRateLimit (some b) L now).2 =
      ⟨b.tokens + (now - b.updatedAt) * L / 1000, now⟩ := by
    simp only [checkRateLimit, Option.map_some, Option.getD_some, helapsed, Bool.not_eq_true'] at hdenied ⊢
    rw [min_eq_right hless.le] at hdenied ⊢
    simp only [hdenied, Bool.false_eq_true, if_false]
  have hrest : (1 - (b.tokens + (now - b.updatedAt) * L / 1000)) * 1000 / L =
      (1 - b.tokens) * 1000 / L - ((now - b.updatedAt : ℤ) : ℚ) := by
    field_simp
    push_cast
    ring
  rw [htokens, RateBucket.due, RateBucket.due]
  simp only [hrest, Int.ceil_sub_intCast]
  omega

/-- A scope whose last call was denied. -/
def RateBucket.Waiting (L : ℕ) (t : ℤ) (b : RateBucket) : Prop :=
  0 ≤ b.tokens ∧ b.tokens < 1 ∧ b.due L = t

/-- A call that comes after the bucket was written, or after it has expired. -/
def RateCall.Follows (c : RateCall) (b : RateBucket) : Prop :=
  b.updatedAt ≤ c.now ∧ (c.expired = true → b.updatedAt + 2000 ≤ c.now)

theorem RateCall.checked_denied (hL : 1 ≤ L) (hc : c.limit = L) (hvalues : ∀ b ∈ values, 0 ≤ b.tokens)
    (hdenied : (c.checked values).1.exceeded = true) :
    (c.checked values).2.Waiting L (c.now + (c.checked values).1.delayMs) ∧
      1 ≤ (c.checked values).1.delayMs ∧ (c.checked values).1.delayMs ≤ 1000 := by
  have htokens := (RateCall.checked_tokens hvalues (le_refl c.limit)).1
  have hchecked : c.checked values = checkRateLimit (c.finds values) L c.now := by
    rw [RateCall.checked, hc]
  have hscript := hchecked ▸ hdenied
  obtain ⟨hless, hdue⟩ := checkRateLimit_denied hscript
  rw [← hchecked] at hless hdue
  have hdelay := RateBucket.due_sub_updatedAt hL htokens hless
  have hstamp : (c.checked values).2.updatedAt = c.now := rfl
  exact ⟨⟨htokens, hless, hdue.symm⟩, by omega, by omega⟩

theorem RateCall.checked_waiting {t : ℤ} (hL : 1 ≤ L) (hc : c.limit = L) (hb : b.Waiting L t)
    (hfollows : c.Follows b) :
    ((c.checked (some b)).1.exceeded = true ↔ c.now < t) ∧
      (c.now < t → (c.checked (some b)).2.Waiting L t) := by
  obtain ⟨hnonneg, _, hdue⟩ := hb
  have hkept : c.checked (some b) = checkRateLimit (some b) L c.now := by
    rw [RateCall.checked_kept fun d hd => Option.some.inj hd ▸ ⟨hnonneg, hfollows.2⟩, ← hc]
    rfl
  obtain ⟨hexceeded, hsame⟩ := checkRateLimit_before_due hL hfollows.1
  rw [hdue] at hexceeded hsame
  rw [hkept]
  refine ⟨hexceeded, fun hlt => ?_⟩
  have hvalues : ∀ d ∈ some b, 0 ≤ d.tokens := by
    rintro d ⟨⟩
    exact hnonneg
  have htokens := (RateCall.checked_tokens hvalues (le_refl c.limit)).1
  rw [hkept] at htokens
  exact ⟨htokens, (checkRateLimit_denied (hexceeded.mpr hlt)).1, hsame hlt⟩

/-- However many calls are denied in between, the scope waits for the same moment. -/
theorem checked_after_waiting {t : ℤ} {mid : List RateCall} {q : RateCall} (hL : 1 ≤ L)
    (hlimit : ∀ m ∈ mid ++ [q], m.limit = L) (hb : b.Waiting L t)
    (hhead : ∀ m ∈ (mid ++ [q]).head?, m.Follows b) (hcalls : InOrder (mid ++ [q]))
    (hmid : ∀ m ∈ mid, m.now < t) :
    (q.checked (rateBucketAfter (some b) mid)).1.exceeded = true ↔ q.now < t := by
  induction mid generalizing b with
  | nil =>
    have hq : q.limit = L := hlimit q (by simp)
    exact (RateCall.checked_waiting hL hq hb (hhead q rfl)).1
  | cons m mid ih =>
    have hm : m.limit = L := hlimit m (by simp)
    have hstep := (RateCall.checked_waiting hL hm hb (hhead m rfl)).2 (hmid m List.mem_cons_self)
    have hchain := List.isChain_cons.mp (hcalls : (m :: (mid ++ [q])).IsChain _)
    have hnext : ∀ r ∈ (mid ++ [q]).head?, r.Follows (m.checked (some b)).2 := hchain.1
    exact ih (fun r hr => hlimit r (List.mem_cons_of_mem m hr)) hstep hnext hchain.2
      fun r hr => hmid r (List.mem_cons_of_mem m hr)

/-- The delay of a denied call is exact, whatever calls led to it. -/
theorem rate_limit_delay_exact {before after : List RateCall} (hL : 1 ≤ L)
    (hlimit : ∀ q ∈ c :: after, q.limit = L) (hcalls : InOrder (before ++ c :: after))
    (hdenied : (c.checked (rateBucketAfter none before)).1.exceeded = true) :
    let d := (c.checked (rateBucketAfter none before)).1.delayMs
    1 ≤ d ∧ d ≤ 1000 ∧ ∀ mid q rest, after = mid ++ q :: rest →
      (q.now < c.now + d → (q.checked (rateBucketAfter none (before ++ c :: mid))).1.exceeded = true) ∧
      ((∀ m ∈ mid, m.now < c.now + d) → c.now + d ≤ q.now →
        (q.checked (rateBucketAfter none (before ++ c :: mid))).1.exceeded = false) := by
  intro d
  have hreached : ∀ b ∈ rateBucketAfter none before, 0 ≤ b.tokens := rateBucketAfter_nonneg (by simp)
  obtain ⟨hwaiting, hpos, hle⟩ := RateCall.checked_denied hL (hlimit c List.mem_cons_self) hreached hdenied
  refine ⟨hpos, hle, fun mid q rest hafter => ?_⟩
  subst hafter
  have hlater : InOrder ((c :: (mid ++ [q])) ++ rest) := by
    simpa [InOrder] using (List.isChain_append.mp hcalls).2.1
  have hchain := List.isChain_cons.mp hlater.left_of_append
  have hlimits : ∀ m ∈ mid ++ [q], m.limit = L := fun m hm =>
    hlimit m (by simpa using .inr ((List.mem_append.mp hm).imp_right fun h => .inl (List.mem_singleton.mp h)))
  have hwait : (∀ m ∈ mid, m.now < c.now + d) →
      ((q.checked (rateBucketAfter none (before ++ c :: mid))).1.exceeded = true ↔ q.now < c.now + d) := by
    intro hmid
    rw [rateBucketAfter_append]
    exact checked_after_waiting hL hlimits hwaiting hchain.1 hchain.2 hmid
  constructor
  · intro hq
    refine (hwait fun m hm => ?_).mpr hq
    have hsorted : (mid ++ [q]).Pairwise fun m r => m.now ≤ r.now := InOrder.now_le hchain.2
    have hmq : m.now ≤ q.now := (List.pairwise_append.mp hsorted).2.2 m hm q (List.mem_singleton_self q)
    exact hmq.trans_lt hq
  · intro hmid hq
    have hgranted := mt (hwait hmid).mp (not_lt.mpr hq)
    exact Bool.eq_false_iff.mpr hgranted

/-- Two denied calls fall in between, and the key has expired when the last one comes. -/
theorem rate_limit_delay_exact_expired :
    let c : RateCall := ⟨100, 2, false⟩
    let before : List RateCall := [⟨0, 2, false⟩, ⟨0, 2, false⟩]
    let after : List RateCall := [⟨300, 2, false⟩, ⟨450, 2, false⟩, ⟨2500, 2, true⟩]
    let d := (c.checked (rateBucketAfter none before)).1.delayMs
    1 ≤ d ∧ d ≤ 1000 ∧ ∀ mid q rest, after = mid ++ q :: rest →
      (q.now < c.now + d → (q.checked (rateBucketAfter none (before ++ c :: mid))).1.exceeded = true) ∧
      ((∀ m ∈ mid, m.now < c.now + d) → c.now + d ≤ q.now →
        (q.checked (rateBucketAfter none (before ++ c :: mid))).1.exceeded = false) :=
  rate_limit_delay_exact (L := 2) (by decide) (by decide) (by simp [InOrder]) (by decide +kernel)

end Delay

end WebhookEngine
