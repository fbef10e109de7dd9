import Mathlib.Algebra.Order.Field.Basic
import Mathlib.Algebra.Order.Ring.Int
import Mathlib.Data.Int.Cast.Lemmas
import Mathlib.Tactic.Linarith
import Mathlib.Tactic.Ring

/-! Token buckets over an ordered field. A request takes one token if there is one; between
requests the bucket fills at a rate, up to its capacity. Time that runs backwards fills
nothing. Capacity and rate come with each request. -/

namespace TokenBucket

variable {K : Type*} [Field K] [LinearOrder K]

structure Bucket (K : Type*) where
  level : K
  stamp : K

structure Request (K : Type*) where
  time : K
  cap : K
  rate : K

/-- The tokens a request finds; a bucket nobody has used is full. -/
def available (b : Option (Bucket K)) (r : Request K) : K :=
  match b with
  | none => r.cap
  | some c => min r.cap (c.level + max 0 (r.time - c.stamp) * r.rate)

def grants (b : Option (Bucket K)) (r : Request K) : Bool := decide (1 ≤ available b r)

def taken (b : Option (Bucket K)) (r : Request K) : Bucket K where
  level := if grants b r then available b r - 1 else available b r
  stamp := r.time

def granted (select : Request K → Bool) : Option (Bucket K) → List (Request K) → ℕ
  | _, [] => 0
  | b, r :: rs => (if select r && grants b r then 1 else 0) + granted select (some (taken b r)) rs

theorem available_le_cap (b : Option (Bucket K)) (r : Request K) : available b r ≤ r.cap := by
  cases b with
  | none => exact le_rfl
  | some c => exact min_le_left _ _

theorem taken_level (b : Option (Bucket K)) (r : Request K) :
    (if grants b r then (1 : K) else 0) + (taken b r).level = available b r := by
  simp only [taken]
  split
  · exact add_sub_cancel _ _
  · exact zero_add _

theorem granted_eq_zero {select : Request K → Bool} {rs : List (Request K)} (b : Option (Bucket K))
    (h : ∀ r ∈ rs, select r = false) : granted select b rs = 0 := by
  induction rs generalizing b with
  | nil => rfl
  | cons r rs ih =>
    have hrest := ih (some (taken b r)) fun q hq => h q (List.mem_cons_of_mem _ hq)
    simp [granted, h r List.mem_cons_self, hrest]

variable [IsStrictOrderedRing K]

section Level

variable {b : Option (Bucket K)} {c : Bucket K} {r : Request K} {R : K}

theorem available_nonneg (hb : ∀ c ∈ b, 0 ≤ c.level) (hcap : 0 ≤ r.cap) (hrate : 0 ≤ r.rate) :
    0 ≤ available b r := by
  cases b with
  | none => exact hcap
  | some c =>
    have hfill : 0 ≤ max 0 (r.time - c.stamp) * r.rate := mul_nonneg (le_max_left _ _) hrate
    exact le_min hcap (add_nonneg (hb c rfl) hfill)

theorem taken_nonneg (hb : ∀ c ∈ b, 0 ≤ c.level) (hcap : 0 ≤ r.cap) (hrate : 0 ≤ r.rate) :
    0 ≤ (taken b r).level := by
  simp only [taken]
  split
  · rename_i hg
    exact sub_nonneg.mpr (of_decide_eq_true hg)
  · exact available_nonneg hb hcap hrate

theorem taken_le_cap (b : Option (Bucket K)) (r : Request K) : (taken b r).level ≤ r.cap := by
  have hle := available_le_cap b r
  simp only [taken]
  split
  · linarith
  · exact hle

theorem available_of_full (hc : 0 ≤ c.level) (hfull : r.cap ≤ (r.time - c.stamp) * r.rate)
    (hrate : 0 ≤ r.rate) : available (some c) r = available none r := by
  have hmono : (r.time - c.stamp) * r.rate ≤ max 0 (r.time - c.stamp) * r.rate :=
    mul_le_mul_of_nonneg_right (le_max_right _ _) hrate
  exact min_eq_left (by linarith)

/-- In time order, a request finds no more than was left and what the best rate has filled in. -/
theorem available_le_fill (htime : c.stamp ≤ r.time) (hrate : r.rate ≤ R) :
    available (some c) r ≤ c.level + R * (r.time - c.stamp) := by
  have helapsed : 0 ≤ r.time - c.stamp := sub_nonneg.mpr htime
  have hfill : (r.time - c.stamp) * r.rate ≤ R * (r.time - c.stamp) := by
    rw [mul_comm R]
    exact mul_le_mul_of_nonneg_left hrate helapsed
  refine (min_le_right _ _).trans ?_
  rw [max_eq_right helapsed]
  linarith

end Level

section Window

variable {rs : List (Request K)} {select : Request K → Bool} {M R s t : K}

theorem granted_cons_le (select : Request K → Bool) (b : Option (Bucket K)) (r : Request K) (rs : List (Request K)) :
    (granted select b (r :: rs) : K) ≤
      available b r - (taken b r).level + granted select (some (taken b r)) rs := by
  have htaken := taken_level b r
  have hone : ((if select r && grants b r then 1 else 0 : ℕ) : K) ≤ if grants b r then (1 : K) else 0 := by
    cases select r <;> cases grants b r <;> simp
  simp only [granted, Nat.cast_add]
  linarith

theorem granted_le_level {c : Bucket K} (hrate : 0 ≤ R) (hc : 0 ≤ c.level) (ht : c.stamp ≤ t)
    (htime : (c.stamp :: rs.map Request.time).Pairwise (· ≤ ·))
    (hr : ∀ r ∈ rs, 0 ≤ r.cap ∧ 0 ≤ r.rate ∧ r.rate ≤ R) (hselect : ∀ r, select r = true → r.time ≤ t) :
    (granted select (some c) rs : K) ≤ c.level + R * (t - c.stamp) := by
  induction rs generalizing c with
  | nil =>
    have hfill : 0 ≤ R * (t - c.stamp) := mul_nonneg hrate (sub_nonneg.mpr ht)
    simp only [granted, Nat.cast_zero]
    linarith
  | cons r rs ih =>
    obtain ⟨hcap, hrate₀, hrateR⟩ := hr r List.mem_cons_self
    have hle : c.stamp ≤ r.time := (List.pairwise_cons.mp htime).1 r.time List.mem_cons_self
    have hrest : (r.time :: rs.map Request.time).Pairwise (· ≤ ·) := (List.pairwise_cons.mp htime).2
    by_cases hrt : r.time ≤ t
    · have hnonneg : 0 ≤ (taken (some c) r).level :=
        taken_nonneg (fun d hd => Option.some.inj hd ▸ hc) hcap hrate₀
      have hih := ih hnonneg hrt hrest fun q hq => hr q (List.mem_cons_of_mem _ hq)
      have hfill := available_le_fill hle hrateR
      have hfirst := granted_cons_le select (some c) r rs
      calc (granted select (some c) (r :: rs) : K)
          ≤ available (some c) r + R * (t - r.time) := by
            simp only [taken] at hih hfirst ⊢
            linarith
        _ ≤ c.level + R * (r.time - c.stamp) + R * (t - r.time) := by linarith
        _ = c.level + R * (t - c.stamp) := by ring
    · have hnone : granted select (some c) (r :: rs) = 0 := by
        refine granted_eq_zero _ fun q hq => Bool.eq_false_iff.mpr fun hs => ?_
        have hq_le : r.time ≤ q.time := by
          rcases List.mem_cons.mp hq with rfl | hq
          · exact le_rfl
          · exact (List.pairwise_cons.mp hrest).1 _ (List.mem_map_of_mem hq)
        exact hrt (hq_le.trans (hselect q hs))
      have hfill : 0 ≤ R * (t - c.stamp) := mul_nonneg hrate (sub_nonneg.mpr ht)
      rw [hnone, Nat.cast_zero]
      linarith

/-- In time order, at most one full bucket and what fills in are granted in a window. -/
theorem granted_window_le {b : Option (Bucket K)} (hrate : 0 ≤ R) (hM : 0 ≤ M) (hst : s ≤ t)
    (hb : ∀ c ∈ b, 0 ≤ c.level) (htime : (rs.map Request.time).Pairwise (· ≤ ·))
    (hr : ∀ r ∈ rs, 0 ≤ r.cap ∧ r.cap ≤ M ∧ 0 ≤ r.rate ∧ r.rate ≤ R)
    (hselect : ∀ r, select r = true → s ≤ r.time ∧ r.time ≤ t) :
    (granted select b rs : K) ≤ M + R * (t - s) := by
  induction rs generalizing b with
  | nil =>
    have hfill : 0 ≤ R * (t - s) := mul_nonneg hrate (sub_nonneg.mpr hst)
    simp only [granted, Nat.cast_zero]
    linarith
  | cons r rs ih =>
    obtain ⟨hcap, hcapM, hrate₀, hrateR⟩ := hr r List.mem_cons_self
    have hnonneg : 0 ≤ (taken b r).level := taken_nonneg hb hcap hrate₀
    have hrest := fun q hq => hr q (List.mem_cons_of_mem r hq)
    by_cases hin : select r = true
    · -- the first call of the window finds at most a full bucket
      obtain ⟨hsr, hrt⟩ := hselect r hin
      have hlater := granted_le_level hrate hnonneg hrt htime
        (fun q hq => ⟨(hrest q hq).1, (hrest q hq).2.2⟩) fun q hq => (hselect q hq).2
      have hfirst := granted_cons_le select b r rs
      have hle := available_le_cap b r
      have hfill : R * (t - r.time) ≤ R * (t - s) := mul_le_mul_of_nonneg_left (by linarith) hrate
      simp only [taken] at hlater hfirst
      linarith
    · have hih := ih (b := some (taken b r)) (fun c hc => Option.some.inj hc ▸ hnonneg)
        (List.pairwise_cons.mp htime).2 hrest
      simpa [granted, hin] using hih

end Window

section Content

variable {b : Option (Bucket K)} {c : Bucket K} {r : Request K} {M R s t : K}

/-- What a bucket has at a time if it fills at the rate `R`, up to `M`. -/
def content (M R : K) (b : Option (Bucket K)) (t : K) : K :=
  match b with
  | none => M
  | some c => min M (c.level + R * max 0 (t - c.stamp))

/-- From when on what fills a bucket comes after `s`. -/
def since (s : K) (b : Option (Bucket K)) : K := b.elim s fun c => max s c.stamp

/-- What a bucket may give from `s` to `t`: what it has at `s`, and what fills in later. -/
def credit (M R s : K) (b : Option (Bucket K)) (t : K) : K := content M R b s + R * (t - since s b)

omit [IsStrictOrderedRing K] in
theorem content_le (M R : K) (b : Option (Bucket K)) (t : K) : content M R b t ≤ M := by
  cases b with
  | none => exact le_rfl
  | some c => exact min_le_left _ _

theorem content_nonneg (hb : ∀ c ∈ b, 0 ≤ c.level) (hM : 0 ≤ M) (hR : 0 ≤ R) : 0 ≤ content M R b t := by
  cases b with
  | none => exact hM
  | some c => exact le_min hM (add_nonneg (hb c rfl) (mul_nonneg hR (le_max_left _ _)))

omit [Field K] [IsStrictOrderedRing K] in
theorem since_le (hb : ∀ c ∈ b, c.stamp ≤ t) (hst : s ≤ t) : since s b ≤ t := by
  cases b with
  | none => exact hst
  | some c => exact max_le hst (hb c rfl)

theorem credit_start_le (M : K) (b : Option (Bucket K)) (hR : 0 ≤ R) : credit M R s b s ≤ M := by
  have hsince : s ≤ since s b := by
    cases b with
    | none => exact le_rfl
    | some c => exact le_max_left _ _
  have hfill : R * (s - since s b) ≤ 0 := mul_nonpos_of_nonneg_of_nonpos hR (sub_nonpos.mpr hsince)
  have hcontent := content_le M R b s
  rw [credit]
  linarith

theorem credit_nonneg (hb : ∀ c ∈ b, 0 ≤ c.level ∧ c.stamp ≤ t) (hst : s ≤ t) (hM : 0 ≤ M) (hR : 0 ≤ R) :
    0 ≤ credit M R s b t :=
  add_nonneg (content_nonneg (fun c hc => (hb c hc).1) hM hR)
    (mul_nonneg hR (sub_nonneg.mpr (since_le (fun c hc => (hb c hc).2) hst)))

theorem max_sub_add (s x : K) : max 0 (s - x) + x = max s x := by
  rw [max_add, zero_add, sub_add_cancel, max_comm]

/-- After a request a bucket may give no more than the request has left and what fills in later. -/
theorem credit_taken_le (b : Option (Bucket K)) (r : Request K) (M s t : K) :
    (if grants b r then (1 : K) else 0) + credit M R s (some (taken b r)) t ≤ available b r + R * (t - r.time) := by
  have htaken := taken_level b r
  have hcontent : content M R (some (taken b r)) s ≤ (taken b r).level + R * max 0 (s - r.time) := min_le_right _ _
  have hsince : since s (some (taken b r)) = max 0 (s - r.time) + r.time := (max_sub_add s r.time).symm
  rw [credit, hsince]
  linarith

/-- A request that comes before what it finds has filled in gets that over again. -/
theorem credit_taken (hcap : r.cap ≤ M) (hrate : r.rate ≤ R) (hR : 0 ≤ R) :
    (if grants b r then (1 : K) else 0) + credit M R s (some (taken b r)) t ≤
      credit M R s b t + R * max 0 (since s b - r.time) := by
  have hleft := credit_taken_le b r M s t (R := R)
  have hfill : 0 ≤ R * max 0 (r.time - since s b) := mul_nonneg hR (le_max_left _ _)
  have hfound : available b r ≤ content M R b s + R * max 0 (r.time - since s b) := by
    cases b with
    | none => exact hcap.trans (le_add_of_nonneg_right hfill)
    | some c =>
      have hspan : max 0 (r.time - c.stamp) ≤ max 0 (s - c.stamp) + max 0 (r.time - max s c.stamp) := by
        have hstart := max_sub_add s c.stamp
        have hrest := le_max_right (0 : K) (r.time - max s c.stamp)
        refine max_le (add_nonneg (le_max_left _ _) (le_max_left _ _)) ?_
        linarith
      have hmul := mul_le_mul_of_nonneg_left hspan hR
      have hslow : max 0 (r.time - c.stamp) * r.rate ≤ R * max 0 (r.time - c.stamp) := by
        rw [mul_comm]
        exact mul_le_mul_of_nonneg_right hrate (le_max_left _ _)
      rw [content, since, Option.elim_some] at *
      rw [← min_add_add_right]
      refine le_min ((available_le_cap _ r).trans (hcap.trans (le_add_of_nonneg_right hfill))) ?_
      exact (min_le_right _ _).trans (by linarith)
  have hturn : max 0 (since s b - r.time) = max 0 (r.time - since s b) + (since s b - r.time) := by
    have hbehind := max_sub_add (since s b) r.time
    have hahead := max_sub_add r.time (since s b)
    rw [max_comm r.time] at hahead
    linarith
  have hcredit : credit M R s b t = content M R b s + R * (t - since s b) := rfl
  rw [hturn, hcredit]
  linarith

/-- A request that finds a bucket gone gets no more than from one that has filled for `d`, if that
is time enough to fill up. -/
theorem credit_renewed {d : K} (hcap : r.cap ≤ M) (hlevel : 0 ≤ c.level) (hR : 0 ≤ R) (hd : 0 ≤ d)
    (hfull : M ≤ R * d) :
    (if grants none r then (1 : K) else 0) + credit M R s (some (taken none r)) t ≤
      credit M R s (some c) t + R * max 0 (max s (c.stamp + d) - r.time) := by
  have hleft := credit_taken_le none r M s t (R := R)
  have hfound : available none r ≤ M := hcap
  have hlate : max s (c.stamp + d) - r.time ≤ max 0 (max s (c.stamp + d) - r.time) := le_max_right _ _
  have hcredit : credit M R s (some c) t =
      min M (c.level + R * max 0 (s - c.stamp)) + R * (t - max s c.stamp) := rfl
  rw [hcredit]
  rcases min_cases M (c.level + R * max 0 (s - c.stamp)) with ⟨hmin, _⟩ | ⟨hmin, _⟩
  · have hlast : max s c.stamp ≤ max s (c.stamp + d) := max_le_max_left s (le_add_of_nonneg_right hd)
    have hmul := mul_le_mul_of_nonneg_left ((sub_le_sub_right hlast r.time).trans hlate) hR
    rw [hmin]
    linarith
  · have hdue := le_max_right s (c.stamp + d)
    have hmul := mul_le_mul_of_nonneg_left ((sub_le_sub_right hdue r.time).trans hlate) hR
    have hstart : R * (max 0 (s - c.stamp) + c.stamp) = R * max s c.stamp := by
      rw [max_sub_add]
    rw [hmin]
    linarith

end Content

section Comparison

variable {x y : K} {g : ℤ} {rs : List (Request K)}

/-- A run is ahead of another by `y - x` tokens and `g` grants: it may be a token behind if
it has been granted more. -/
def Ahead (x y : K) (g : ℤ) : Prop := x ≤ y ∧ 0 ≤ g ∨ x ≤ y + 1 ∧ 1 ≤ g

theorem Ahead.fill {cap e : K} (h : Ahead x y g) : Ahead (min cap (x + e)) (min cap (y + e)) g := by
  rcases h with ⟨hle, hg⟩ | ⟨hle, hg⟩
  · exact .inl ⟨min_le_min_left _ (by linarith), hg⟩
  · refine .inr ⟨?_, hg⟩
    rcases min_cases cap (y + e) with ⟨he, _⟩ | ⟨he, _⟩
    · have := min_le_left cap (x + e)
      rw [he]
      linarith
    · have := min_le_right cap (x + e)
      rw [he]
      linarith

theorem Ahead.take (h : Ahead x y g) :
    Ahead (if 1 ≤ x then x - 1 else x) (if 1 ≤ y then y - 1 else y)
      (g + (if 1 ≤ y then 1 else 0) - if 1 ≤ x then 1 else 0) := by
  by_cases hx : 1 ≤ x
  · by_cases hy : 1 ≤ y
    · simp only [hx, hy, if_true]
      rcases h with ⟨hle, hg⟩ | ⟨hle, hg⟩
      · exact .inl ⟨by linarith, by omega⟩
      · exact .inr ⟨by linarith, by omega⟩
    · simp only [hx, hy, if_true, if_false]
      rcases h with ⟨hle, _⟩ | ⟨hle, hg⟩
      · exact absurd (hx.trans hle) hy
      · exact .inl ⟨by linarith, by omega⟩
  · by_cases hy : 1 ≤ y
    · simp only [hx, hy, if_true, if_false]
      rcases h with ⟨hle, hg⟩ | ⟨hle, hg⟩
      · exact .inr ⟨by linarith, by omega⟩
      · exact .inr ⟨by linarith, by omega⟩
    · simp only [hx, hy, if_false]
      rcases h with ⟨hle, hg⟩ | ⟨hle, hg⟩
      · exact .inl ⟨hle, by omega⟩
      · exact .inr ⟨hle, by omega⟩

omit [IsStrictOrderedRing K] in
theorem Ahead.nonneg (h : Ahead x y g) : 0 ≤ g := by
  rcases h with ⟨_, hg⟩ | ⟨_, hg⟩ <;> omega

/-- Two runs of the same requests, at whatever times. -/
theorem granted_le_of_ahead {b b' : Option (Bucket K)} {q : Request K}
    (h : Ahead (available b q) (available b' q) g) :
    (granted (fun _ => true) b (q :: rs) : ℤ) ≤ g + granted (fun _ => true) b' (q :: rs) := by
  induction rs generalizing b b' q g with
  | nil =>
    have hg := h.take.nonneg
    simp only [granted, Bool.true_and, grants, decide_eq_true_eq]
    push_cast
    omega
  | cons r rs ih =>
    have htaken : Ahead (taken b q).level (taken b' q).level
        (g + (if 1 ≤ available b' q then 1 else 0) - if 1 ≤ available b q then 1 else 0) := by
      simpa only [taken, grants, decide_eq_true_eq] using h.take
    have hfilled : Ahead (available (some (taken b q)) r) (available (some (taken b' q)) r)
        (g + (if 1 ≤ available b' q then 1 else 0) - if 1 ≤ available b q then 1 else 0) := htaken.fill
    have hih := ih hfilled
    rw [granted, granted.eq_2 _ b']
    simp only [Bool.true_and, grants, decide_eq_true_eq]
    push_cast
    omega

end Comparison

section Skipped

variable {b : Option (Bucket K)} {q r : Request K} {rs : List (Request K)} {x y u : K}

theorem available_mono (h : x ≤ y) : available (some ⟨x, u⟩) r ≤ available (some ⟨y, u⟩) r :=
  min_le_min_left _ (add_le_add_left h _)

theorem taken_le_available (b : Option (Bucket K)) (r : Request K) :
    (taken b r).level ≤ available b r := by
  have htaken := taken_level b r
  have hone : (0 : K) ≤ if grants b r then (1 : K) else 0 := by
    split
    · exact zero_le_one
    · exact le_rfl
  linarith

theorem available_refill (hb : ∀ c ∈ b, c.stamp ≤ r.time) (hrq : r.time ≤ q.time)
    (hcap : q.cap = r.cap) (hrate : q.rate = r.rate) (hpos : 0 ≤ r.rate) :
    available (some ⟨available b r, r.time⟩) q = available b q := by
  have hlast : 0 ≤ max 0 (q.time - r.time) * q.rate :=
    mul_nonneg (le_max_left _ _) (hrate ▸ hpos)
  cases b with
  | none =>
    refine min_eq_left ?_
    simp only [available, hcap] at hlast ⊢
    linarith
  | some c =>
    have hcr := hb c rfl
    have hsum : c.level + max 0 (r.time - c.stamp) * r.rate + max 0 (q.time - r.time) * q.rate =
        c.level + max 0 (q.time - c.stamp) * q.rate := by
      rw [max_eq_right (sub_nonneg.mpr hcr), max_eq_right (sub_nonneg.mpr hrq),
        max_eq_right (sub_nonneg.mpr (hcr.trans hrq)), hrate]
      ring
    have hcaple : r.cap ≤ r.cap + max 0 (q.time - r.time) * q.rate := le_add_of_nonneg_right hlast
    simp only [available]
    rw [min_add, hsum, hcap, ← min_assoc, min_eq_left hcaple]

/-- A denied request between its neighbours in time leaves the next one what it would have found. -/
theorem available_denied (hb : ∀ c ∈ b, c.stamp ≤ r.time) (hrq : r.time ≤ q.time)
    (hcap : q.cap = r.cap) (hrate : q.rate = r.rate) (hpos : 0 ≤ r.rate) (hdenied : grants b r = false) :
    available (some (taken b r)) q = available b q := by
  have htaken : taken b r = ⟨available b r, r.time⟩ := by
    simp [taken, hdenied]
  rw [htaken, available_refill hb hrq hcap hrate hpos]

/-- Leaving out a request between its neighbours in time costs the later ones nothing. -/
theorem granted_le_skipped (hb : ∀ c ∈ b, c.stamp ≤ r.time) (hpos : 0 ≤ r.rate)
    (hnext : ∀ q ∈ rs.head?, r.time ≤ q.time ∧ q.cap = r.cap ∧ q.rate = r.rate) :
    granted (fun _ => true) (some (taken b r)) rs ≤ granted (fun _ => true) b rs := by
  cases rs with
  | nil => exact le_rfl
  | cons q rs =>
    obtain ⟨hrq, hcap, hrate⟩ := hnext q rfl
    have hle : available (some (taken b r)) q ≤ available b q := by
      rw [← available_refill hb hrq hcap hrate hpos]
      exact available_mono (taken_le_available b r)
    have hahead : Ahead (available (some (taken b r)) q) (available b q) 0 := .inl ⟨hle, le_rfl⟩
    have hgranted : (granted (fun _ => true) (some (taken b r)) (q :: rs) : ℤ) ≤
        0 + granted (fun _ => true) b (q :: rs) := granted_le_of_ahead hahead
    omega

end Skipped

end TokenBucket
