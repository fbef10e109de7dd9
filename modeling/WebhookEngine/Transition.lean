import Mathlib.Data.List.Induction
import Mathlib.Data.Option.Basic
import Mathlib.Logic.Function.Basic
import Mathlib.Order.WellFounded
import Mathlib.Tactic.Linarith

/-! Runs of a labelled transition function: what holds of every state a run
visits, what holds of every step it takes, and how one gives the other. -/

namespace Transition

variable {σ α : Type*} (step : σ → α → Option σ)

def run : σ → List α → Option σ
  | s, [] => some s
  | s, a :: as => (step s a).bind fun t => run t as

/-- Where a run ends, for runs that are known to go through. -/
def ending (s : σ) (as : List α) : σ := (run step s as).getD s

def Along (P : σ → α → σ → Prop) : σ → List α → Prop
  | _, [] => True
  | s, a :: as => ∀ t, step s a = some t → P s a t ∧ Along P t as

def Visits (I : σ → Prop) : σ → List α → Prop
  | s, [] => I s
  | s, a :: as => I s ∧ ∀ t, step s a = some t → Visits I t as

instance Along.decidable {step : σ → α → Option σ} {P : σ → α → σ → Prop}
    [∀ s a t, Decidable (P s a t)] : ∀ (s : σ) (as : List α), Decidable (Along step P s as)
  | _, [] => isTrue trivial
  | s, a :: as =>
    have : ∀ t, Decidable (Along step P t as) := fun t => Along.decidable t as
    inferInstanceAs (Decidable (∀ t ∈ step s a, P s a t ∧ Along step P t as))

variable {step} {I J : σ → Prop} {P Q : σ → α → σ → Prop} {s t : σ} {a : α} {as bs : List α}

theorem run_cons_eq_some :
    run step s (a :: as) = some t ↔ ∃ u, step s a = some u ∧ run step u as = some t := by
  simp [run, Option.bind_eq_some_iff]

theorem run_append : run step s (as ++ bs) = (run step s as).bind fun u => run step u bs := by
  induction as generalizing s with
  | nil => rfl
  | cons a as ih =>
    simp only [List.cons_append, run, ih]
    cases step s a <;> rfl

theorem run_ending (h : (run step s as).isSome = true) : run step s as = some (ending step s as) := by
  obtain ⟨t, ht⟩ := Option.isSome_iff_exists.mp h
  rw [ending, ht, Option.getD_some]

theorem run_append_of {u : σ} (h : run step s as = some u) (h' : run step u bs = some t) :
    run step s (as ++ bs) = some t := by
  rw [run_append, h]
  exact h'

theorem run_concat_eq_some :
    run step s (as ++ [a]) = some t ↔ ∃ u, run step s as = some u ∧ step u a = some t := by
  rw [run_append, Option.bind_eq_some_iff]
  simp [run]

theorem run_invariant (hstep : ∀ s a t, I s → step s a = some t → I t)
    (hs : I s) (h : run step s as = some t) : I t := by
  induction as generalizing s with
  | nil =>
    cases h
    exact hs
  | cons a as ih =>
    obtain ⟨u, hu, ht⟩ := run_cons_eq_some.mp h
    exact ih (hstep s a u hs hu) ht

theorem Along.visits (hstep : ∀ s a t, I s → step s a = some t → P s a t → I t)
    (hs : I s) (h : Along step P s as) : Visits step I s as := by
  induction as generalizing s with
  | nil => exact hs
  | cons a as ih =>
    refine ⟨hs, fun t ht => ?_⟩
    obtain ⟨hp, hrest⟩ := h t ht
    exact ih (hstep s a t hs ht hp) hrest

theorem visits_of_invariant (hstep : ∀ s a t, I s → step s a = some t → I t) (hs : I s) : Visits step I s as := by
  induction as generalizing s with
  | nil => exact hs
  | cons a as ih => exact ⟨hs, fun t ht => ih (hstep s a t hs ht)⟩

theorem Visits.head (h : Visits step I s as) : I s := by
  cases as with
  | nil => exact h
  | cons a as => exact h.1

theorem Visits.last (h : Visits step I s as) (hr : run step s as = some t) : I t := by
  induction as generalizing s with
  | nil =>
    cases hr
    exact h
  | cons a as ih =>
    obtain ⟨u, hu, ht⟩ := run_cons_eq_some.mp hr
    exact ih (h.2 u hu) ht

theorem Visits.along (h : Visits step I s as) : Along step (fun s _ t => I s ∧ I t) s as := by
  induction as generalizing s with
  | nil => trivial
  | cons a as ih =>
    intro t ht
    exact ⟨⟨h.1, (h.2 t ht).head⟩, ih (h.2 t ht)⟩

theorem Visits.mono (h : Visits step I s as) (hij : ∀ s, I s → J s) : Visits step J s as := by
  induction as generalizing s with
  | nil => exact hij s h
  | cons a as ih => exact ⟨hij s h.1, fun t ht => ih (h.2 t ht)⟩

theorem Along.and (hp : Along step P s as) (hq : Along step Q s as) :
    Along step (fun s a t => P s a t ∧ Q s a t) s as := by
  induction as generalizing s with
  | nil => trivial
  | cons a as ih =>
    intro t ht
    exact ⟨⟨(hp t ht).1, (hq t ht).1⟩, ih (hp t ht).2 (hq t ht).2⟩

theorem Along.mono (h : Along step P s as) (hpq : ∀ s a t, step s a = some t → P s a t → Q s a t) :
    Along step Q s as := by
  induction as generalizing s with
  | nil => trivial
  | cons a as ih =>
    intro t ht
    exact ⟨hpq s a t ht (h t ht).1, ih (h t ht).2⟩

theorem along_of_invariant (hstep : ∀ s a t, I s → step s a = some t → I t) (hs : I s)
    (hp : ∀ s a t, I s → step s a = some t → P s a t) : Along step P s as := by
  induction as generalizing s with
  | nil => trivial
  | cons a as ih =>
    intro t ht
    exact ⟨hp s a t hs ht, ih (hstep s a t hs ht)⟩

theorem along_of_mem (h : ∀ a ∈ as, ∀ s t, P s a t) : Along step P s as := by
  induction as generalizing s with
  | nil => trivial
  | cons a as ih =>
    intro t _
    exact ⟨h a List.mem_cons_self s t, ih fun b hb => h b (List.mem_cons_of_mem _ hb)⟩

theorem Along.of_append {u : σ} (h : Along step P s (as ++ bs)) (hr : run step s as = some u) :
    Along step P u bs := by
  induction as generalizing s with
  | nil =>
    cases hr
    exact h
  | cons a as ih =>
    obtain ⟨v, hv, hu⟩ := run_cons_eq_some.mp hr
    exact ih (h v hv).2 hu

theorem Along.left (h : Along step P s (as ++ bs)) : Along step P s as := by
  induction as generalizing s with
  | nil => trivial
  | cons a as ih =>
    intro t ht
    exact ⟨(h t ht).1, ih (h t ht).2⟩

theorem Along.append {u : σ} (h : Along step P s as) (hr : run step s as = some u)
    (hb : Along step P u bs) : Along step P s (as ++ bs) := by
  induction as generalizing s with
  | nil =>
    cases hr
    exact hb
  | cons a as ih =>
    obtain ⟨v, hv, hu⟩ := run_cons_eq_some.mp hr
    intro t ht
    rw [hv, Option.some.injEq] at ht
    subst ht
    exact ⟨(h v hv).1, ih (h v hv).2 hu⟩

theorem along_concat {u : σ} (hr : run step s as = some u) (hu : step u a = some t) :
    Along step P s (as ++ [a]) ↔ Along step P s as ∧ P u a t := by
  constructor
  · intro h
    refine ⟨?_, (h.of_append hr t hu).1⟩
    clear hu
    induction as generalizing s with
    | nil => trivial
    | cons b as ih =>
      obtain ⟨v, hv, hrest⟩ := run_cons_eq_some.mp hr
      intro w hw
      rw [hv, Option.some.injEq] at hw
      subst hw
      exact ⟨(h v hv).1, ih hrest (h v hv).2⟩
  · rintro ⟨h, hp⟩
    refine h.append hr fun v hv => ?_
    rw [hu, Option.some.injEq] at hv
    subst hv
    exact ⟨hp, trivial⟩

theorem Visits.concat {u : σ} (h : Visits step I s as) (hr : run step s as = some u)
    (hu : step u a = some t) (ht : I t) : Visits step I s (as ++ [a]) := by
  induction as generalizing s with
  | nil =>
    cases hr
    refine ⟨h, fun v hv => ?_⟩
    rw [hu, Option.some.injEq] at hv
    exact hv ▸ ht
  | cons b as ih =>
    obtain ⟨w, hw, hrest⟩ := run_cons_eq_some.mp hr
    refine ⟨h.1, fun v hv => ?_⟩
    rw [hw, Option.some.injEq] at hv
    subst hv
    exact ih (h.2 w hw) hrest

/-- Induction over a run by its last step, for what holds of a state together with its past. -/
theorem run_history {H : List α → σ → Prop} (hs : H [] s)
    (hstep : ∀ as a u v, run step s as = some u → H as u → step u a = some v → H (as ++ [a]) v)
    (h : run step s as = some t) : H as t := by
  induction as using List.reverseRecOn generalizing t with
  | nil =>
    cases h
    exact hs
  | append_singleton as a ih =>
    obtain ⟨u, hu, ha⟩ := run_concat_eq_some.mp h
    exact hstep as a u t hu (ih hu) ha

/-- A relation that matched steps keep relates the ends of matched runs. -/
theorem run_simulated {τ β : Type*} {step' : τ → β → Option τ} {R : σ → τ → Prop} {A : α → β → Prop}
    (hstep : ∀ s a t s' b, R s s' → A a b → step s a = some t → ∃ t', step' s' b = some t' ∧ R t t')
    {s' : τ} {bs : List β} (hs : R s s') (hab : List.Forall₂ A as bs) (h : run step s as = some t) :
    ∃ t', run step' s' bs = some t' ∧ R t t' := by
  induction hab generalizing s s' with
  | nil =>
    cases h
    exact ⟨s', rfl, hs⟩
  | cons ha _ ih =>
    obtain ⟨v, hv, hrest⟩ := run_cons_eq_some.mp h
    obtain ⟨v', hv', hvv⟩ := hstep _ _ _ _ _ hs ha hv
    obtain ⟨t', ht', htt⟩ := ih hvv hrest
    exact ⟨t', run_cons_eq_some.mpr ⟨v', hv', ht'⟩, htt⟩

/-- Steps that meet `P` and are matched by runs of another system make runs of it. -/
theorem run_matched {τ β : Type*} {step' : τ → β → Option τ} {R : σ → τ → Prop}
    (hstep : ∀ s a t s', R s s' → step s a = some t → P s a t →
      ∃ bs t', run step' s' bs = some t' ∧ R t t')
    {s' : τ} (hs : R s s') (hp : Along step P s as) (h : run step s as = some t) :
    ∃ bs t', run step' s' bs = some t' ∧ R t t' := by
  induction as generalizing s s' with
  | nil =>
    cases h
    exact ⟨[], s', rfl, hs⟩
  | cons a as ih =>
    obtain ⟨v, hv, hrest⟩ := run_cons_eq_some.mp h
    obtain ⟨hpv, hpas⟩ := hp v hv
    obtain ⟨bs, v', hbs, hvv⟩ := hstep s a v s' hs hv hpv
    obtain ⟨cs, t', hcs, htt⟩ := ih hvv hpas hrest
    exact ⟨bs ++ cs, t', run_append_of hbs hcs, htt⟩

/-- From where progress by a rank can be made until a goal is met, the goal can be met. -/
theorem exists_goal {ρ : Type*} [Preorder ρ] [WellFoundedLT ρ] {R : σ → σ → Prop} {G : σ → Prop} (rank : σ → ρ)
    (hrefl : ∀ s, R s s) (htrans : ∀ s t u, R s t → R t u → R s u)
    (hprogress : ∀ s, I s → ¬ G s → ∃ t, R s t ∧ I t ∧ rank t < rank s) (hs : I s) : ∃ t, R s t ∧ I t ∧ G t := by
  induction hr : rank s using WellFoundedLT.induction generalizing s with
  | ind r ih =>
    subst hr
    by_cases hg : G s
    · exact ⟨s, hrefl s, hs, hg⟩
    · obtain ⟨t, hst, ht, hlt⟩ := hprogress s hs hg
      obtain ⟨u, htu, hu, hgu⟩ := ih (rank t) hlt ht rfl
      exact ⟨u, htrans s t u hst htu, hu, hgu⟩

/-- What holds at the end of a run and not at its start came to hold at some step, for good. -/
theorem run_origin (h : run step s as = some t) (hs : ¬ I s) (ht : I t) :
    ∃ before a after u v, as = before ++ a :: after ∧ run step s before = some u ∧
      step u a = some v ∧ run step v after = some t ∧ ¬ I u ∧ I v ∧ Visits step I v after := by
  induction as using List.reverseRecOn generalizing t with
  | nil =>
    cases h
    exact absurd ht hs
  | append_singleton as a ih =>
    obtain ⟨u, hu, ha⟩ := run_concat_eq_some.mp h
    by_cases hi : I u
    · obtain ⟨before, b, after, w, v, rfl, hw, hb, hrun, hno, hv, hvisits⟩ := ih hu hi
      exact ⟨before, b, after ++ [a], w, v, by simp, hw, hb, run_concat_eq_some.mpr ⟨u, hrun, ha⟩, hno, hv,
        hvisits.concat hrun ha ht⟩
    · exact ⟨as, a, [], u, t, rfl, hu, ha, rfl, hi, ht, ht⟩

theorem along_congr (hj : ∀ s a t, J s → step s a = some t → J t)
    (hpq : ∀ s a t, J s → step s a = some t → (P s a t ↔ Q s a t)) (hs : J s) :
    Along step P s as ↔ Along step Q s as := by
  induction as generalizing s with
  | nil => rfl
  | cons a as ih =>
    refine forall_congr' fun t => imp_congr_right fun ht => ?_
    exact and_congr (hpq s a t hs ht) (ih (hj s a t hs ht))

/-- As long as its steps meet `P` a run keeps `K`, which gives `I`. Where a step from `K` meets
`P` if it ends in `I`, the run visits only `I` exactly when all of its steps meet `P`. -/
theorem visits_iff_along_of {K : σ → Prop} (hj : ∀ s a t, J s → step s a = some t → J t)
    (hk : ∀ s a t, J s → K s → step s a = some t → P s a t → K t)
    (hp : ∀ s a t, J s → K s → step s a = some t → I t → P s a t) (hki : ∀ s, J s → K s → I s)
    (hs : J s) (hks : K s) : Visits step I s as ↔ Along step P s as := by
  induction as generalizing s with
  | nil => exact ⟨fun _ => trivial, fun _ => hki s hs hks⟩
  | cons a as ih =>
    constructor
    · rintro ⟨_, h⟩ t ht
      have hpt := hp s a t hs hks ht (h t ht).head
      exact ⟨hpt, (ih (hj s a t hs ht) (hk s a t hs hks ht hpt)).mp (h t ht)⟩
    · intro h
      refine ⟨hki s hs hks, fun t ht => ?_⟩
      have hkt := hk s a t hs hks ht (h t ht).1
      exact (ih (hj s a t hs ht) hkt).mpr (h t ht).2

/-- Where a step from `I` ends in `I` exactly when it meets `P`, a run visits only
`I` exactly when all of its steps meet `P`. -/
theorem visits_iff_along (hj : ∀ s a t, J s → step s a = some t → J t)
    (hip : ∀ s a t, J s → I s → step s a = some t → (I t ↔ P s a t)) (hs : J s) (hi : I s) :
    Visits step I s as ↔ Along step P s as :=
  visits_iff_along_of (K := I) hj (fun s a t hjs his ht => (hip s a t hjs his ht).mpr)
    (fun s a t hjs his ht => (hip s a t hjs his ht).mp) (fun _ _ his => his) hs hi

theorem update_cases {κ β : Type*} [DecidableEq κ] {f : κ → β} {k k' : κ} {v : β} (Q : β → Prop)
    (h : Q (Function.update f k' v k)) : k = k' ∧ Q v ∨ Q (f k) := by
  by_cases hk : k = k'
  · subst hk
    rw [Function.update_self] at h
    exact .inl ⟨rfl, h⟩
  · rw [Function.update_of_ne hk] at h
    exact .inr h

section Collect

/-! What the steps of a run bring, and books kept of it: what is taken is spent, lost or held. -/

variable {β : Type*} {κ : Type*}

def collect (step : σ → α → Option σ) (f : σ → α → σ → List β) : σ → List α → List β
  | _, [] => []
  | s, a :: as =>
    match step s a with
    | none => []
    | some t => f s a t ++ collect step f t as

theorem collect_cons {f : σ → α → σ → List β} (h : step s a = some t) :
    collect step f s (a :: as) = f s a t ++ collect step f t as := by
  simp only [collect, h]

theorem collect_concat {f : σ → α → σ → List β} {u : σ} (hr : run step s as = some u) (hu : step u a = some t) :
    collect step f s (as ++ [a]) = collect step f s as ++ f u a t := by
  induction as generalizing s with
  | nil =>
    cases hr
    simp [collect, hu]
  | cons b as ih =>
    obtain ⟨v, hv, hrest⟩ := run_cons_eq_some.mp hr
    rw [List.cons_append, collect_cons hv, collect_cons hv, ih hrest, List.append_assoc]

theorem forall_mem_collect {f : σ → α → σ → List β} {p : β → Prop} (hi : ∀ s a t, I s → step s a = some t → I t)
    (hf : ∀ s a t, I s → step s a = some t → ∀ b ∈ f s a t, p b) (hs : I s) : ∀ b ∈ collect step f s as, p b := by
  induction as generalizing s with
  | nil =>
    intro b hb
    cases hb
  | cons a as ih =>
    intro b hb
    cases h : step s a with
    | none =>
      simp only [collect, h] at hb
      cases hb
    | some t =>
      rw [collect_cons h, List.mem_append] at hb
      rcases hb with hb | hb
      · exact hf s a t hs h b hb
      · exact ih (hi s a t hs h) b hb

/-- Steps that are runs of another system, seen through a map, make a run of it together. -/
theorem run_collect {τ : Type*} {step' : τ → β → Option τ} {F : σ → τ} {f : σ → α → σ → List β}
    (hstep : ∀ s a t, step s a = some t → run step' (F s) (f s a t) = some (F t)) (h : run step s as = some t) :
    run step' (F s) (collect step f s as) = some (F t) := by
  induction as generalizing s with
  | nil =>
    cases h
    rfl
  | cons a as ih =>
    obtain ⟨u, hu, ht⟩ := run_cons_eq_some.mp h
    rw [collect_cons hu]
    exact run_append_of (hstep s a u hu) (ih ht)

/-- Steps that each bring something counted are no more than what is counted. -/
theorem countP_le_countP_collect {f : σ → α → σ → List β} {own : α → Bool} {p : β → Bool}
    (hi : ∀ s a t, I s → step s a = some t → I t)
    (hf : ∀ s a t, I s → step s a = some t → own a = true → 0 < (f s a t).countP p)
    (hs : I s) (h : run step s as = some t) : as.countP own ≤ (collect step f s as).countP p := by
  induction as generalizing s with
  | nil => exact Nat.zero_le _
  | cons a as ih =>
    obtain ⟨u, hu, ht⟩ := run_cons_eq_some.mp h
    have hrest := ih (hi s a u hs hu) ht
    rw [collect_cons hu, List.countP_append, List.countP_cons]
    split
    · rename_i hown
      have hpos := hf s a u hs hu hown
      omega
    · omega

theorem collect_eq_nil_iff {f : σ → α → σ → List β} :
    collect step f s as = [] ↔ Along step (fun s a t => f s a t = []) s as := by
  induction as generalizing s with
  | nil => exact ⟨fun _ => trivial, fun _ => rfl⟩
  | cons a as ih =>
    cases h : step s a with
    | none =>
      constructor
      · intro _ t ht
        rw [h] at ht
        cases ht
      · intro _
        simp only [collect, h]
    | some t =>
      rw [collect_cons h, List.append_eq_nil_iff, ih]
      constructor
      · intro hboth t' ht'
        rw [h, Option.some.injEq] at ht'
        exact ht' ▸ hboth
      · intro halong
        exact halong t h

/-- Steps that are paid for from a potential, at a rate from a clock, and from what they add to it
themselves bring no more than these allow. -/
theorem countP_collect_add_le {K : Type*} [CommRing K] [LinearOrder K] [IsStrictOrderedRing K]
    {f : σ → α → σ → List β} {p : β → Bool} {extra : σ → α → σ → List K} (Φ clock : σ → K) (R : K)
    (hi : ∀ s a t, I s → step s a = some t → P s a t → I t)
    (hΦ : ∀ s a t, I s → step s a = some t → P s a t →
      ((f s a t).countP p : K) + Φ t ≤ Φ s + R * (clock t - clock s + (extra s a t).sum))
    (hs : I s) (hp : Along step P s as) (h : run step s as = some t) :
    ((collect step f s as).countP p : K) + Φ t ≤
      Φ s + R * (clock t - clock s + (collect step extra s as).sum) := by
  induction as generalizing s with
  | nil =>
    cases h
    simp [collect]
  | cons a as ih =>
    obtain ⟨u, hu, hrun⟩ := run_cons_eq_some.mp h
    obtain ⟨hpu, hpas⟩ := hp u hu
    have hstep := hΦ s a u hs hu hpu
    have hrest := ih (hi s a u hs hu hpu) hpas hrun
    rw [collect_cons hu, collect_cons hu, List.countP_append, Nat.cast_add, List.sum_append]
    linarith

variable [BEq β] {taken spent lost : σ → α → σ → List β} {held : σ → β → ℕ}

theorem collect_balance (hi : ∀ s a t, I s → step s a = some t → I t)
    (hb : ∀ s a t b, I s → step s a = some t → P s a t →
      (taken s a t).count b + held s b = (spent s a t).count b + (lost s a t).count b + held t b)
    (hs : I s) (hp : Along step P s as) (h : run step s as = some t) (b : β) :
    (collect step taken s as).count b + held s b =
      (collect step spent s as).count b + (collect step lost s as).count b + held t b := by
  induction as generalizing s with
  | nil =>
    cases h
    simp [collect]
  | cons a as ih =>
    obtain ⟨u, hu, hrun⟩ := run_cons_eq_some.mp h
    obtain ⟨hpu, hpas⟩ := hp u hu
    have hstep := hb s a u b hs hu hpu
    have hrest := ih (hi s a u hs hu) hpas hrun
    rw [collect_cons hu, collect_cons hu, collect_cons hu, List.count_append, List.count_append, List.count_append]
    omega

/-- Of a run that starts and ends with nothing held, everything taken is spent just when no step
loses any. -/
theorem spends_all_iff [LawfulBEq β] [DecidableEq κ] (key : β → κ) (hi : ∀ s a t, I s → step s a = some t → I t)
    (hb : ∀ s a t b, I s → step s a = some t → P s a t →
      (taken s a t).count b + held s b = (spent s a t).count b + (lost s a t).count b + held t b)
    (hs : I s) (hp : Along step P s as) (h : run step s as = some t) (hstart : ∀ b, held s b = 0)
    (hend : ∀ b, held t b = 0) :
    (∀ k, (collect step taken s as).countP (key · = k) = (collect step spent s as).countP (key · = k)) ↔
      Along step (fun s a t => lost s a t = []) s as := by
  have hperm : (collect step taken s as).Perm (collect step spent s as ++ collect step lost s as) := by
    refine List.perm_iff_count.mpr fun b => ?_
    have hcount := collect_balance hi hb hs hp h b
    rw [hstart, hend] at hcount
    rw [List.count_append]
    omega
  have hcountP : ∀ k, (collect step taken s as).countP (key · = k) =
      (collect step spent s as).countP (key · = k) + (collect step lost s as).countP (key · = k) := by
    intro k
    rw [hperm.countP_eq, List.countP_append]
  rw [← collect_eq_nil_iff]
  constructor
  · intro hsame
    apply List.eq_nil_iff_forall_not_mem.mpr
    intro b hmem
    have hpos : 0 < (collect step lost s as).countP (key · = key b) :=
      List.countP_pos_iff.mpr ⟨b, hmem, by simp⟩
    have htotal := hcountP (key b)
    have hequal := hsame (key b)
    omega
  · intro hnone k
    have htotal := hcountP k
    rw [hnone, List.countP_nil] at htotal
    omega

end Collect

end Transition
