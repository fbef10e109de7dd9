import WebhookEngine.Deployment
import WebhookEngine.Rotation

/-! The calls of `publishPending` on one process: the flag keeps them apart, the maintenance clock
keeps its passes apart, and what a call has in hand fits where it stands. -/

namespace WebhookEngine.Deployment

variable {cfg : Config} {hashApiKey : String → String} {s t : Deployment} {a : ProcessAct} {u : Setup}
  {as : List ProcessAct}

/-- A call is under way on at most one number for each process, and the flag tells that there is one. -/
structure Single (s : Deployment) : Prop where
  fresh : ∀ c, s.next ≤ c → s.calls c = none
  flag : ∀ n, s.publishing n = true ↔ ∃ c k, s.calls c = some k ∧ k.node = n
  one : ∀ c c' k k', s.calls c = some k → s.calls c' = some k' → k.node = k'.node → c = c'

namespace Single

theorem boot (u : Setup) : Single (boot u) where
  fresh _ _ := rfl
  flag n := by simp [Deployment.boot]
  one _ _ _ _ h := by cases h

theorem lt_next (h : Single s) {c : Nat} {k : PendingCall} (hk : s.calls c = some k) : c < s.next := by
  by_contra hge
  rw [h.fresh c (by omega)] at hk
  cases hk

theorem goto (h : Single s) {c : Nat} {k : PendingCall} (hk : s.calls c = some k) (stage : Stage) :
    Single (s.goto c ⟨k.node, stage⟩) := by
  have horigin : ∀ c' k', (s.goto c ⟨k.node, stage⟩).calls c' = some k' →
      ∃ k₀, s.calls c' = some k₀ ∧ k₀.node = k'.node := by
    intro c' k' hk'
    simp only [goto_calls, Function.update_apply] at hk'
    split at hk'
    · rename_i heq
      cases hk'
      exact ⟨k, heq ▸ hk, rfl⟩
    · exact ⟨k', hk', rfl⟩
  constructor
  · intro c' hc'
    have hne : c' ≠ c := by
      have := h.lt_next hk
      simp only [goto_next] at hc'
      omega
    simpa only [goto_calls, Function.update_of_ne hne] using h.fresh c' hc'
  · intro n
    rw [goto_publishing, h.flag]
    constructor
    · rintro ⟨c', k', hk', hn⟩
      by_cases hcc : c' = c
      · subst hcc
        cases hk.symm.trans hk'
        exact ⟨c', _, Function.update_self .., hn⟩
      · exact ⟨c', k', by simpa [Function.update_of_ne hcc] using hk', hn⟩
    · rintro ⟨c', k', hk', hn⟩
      obtain ⟨k₀, hk₀, hnode⟩ := horigin c' k' hk'
      exact ⟨c', k₀, hk₀, hnode.trans hn⟩
  · intro c₁ c₂ k₁ k₂ h₁ h₂ hn
    obtain ⟨k₁', hk₁, hn₁⟩ := horigin c₁ k₁ h₁
    obtain ⟨k₂', hk₂, hn₂⟩ := horigin c₂ k₂ h₂
    exact h.one c₁ c₂ k₁' k₂' hk₁ hk₂ (by rw [hn₁, hn₂, hn])

theorem leave (h : Single s) {c : Nat} {k : PendingCall} (hk : s.calls c = some k) :
    Single (s.leave c k.node) := by
  have horigin : ∀ c' k', (s.leave c k.node).calls c' = some k' → c' ≠ c ∧ s.calls c' = some k' := by
    intro c' k' hk'
    simp only [leave_calls, Function.update_apply] at hk'
    split at hk'
    · cases hk'
    · rename_i hne
      exact ⟨hne, hk'⟩
  constructor
  · intro c' hc'
    simp only [leave_calls, Function.update_apply]
    split
    · rfl
    · exact h.fresh c' hc'
  · intro n
    simp only [leave_publishing, Function.update_apply]
    split
    · rename_i hn
      subst hn
      simp only [Bool.false_eq_true, false_iff]
      rintro ⟨c', k', hk', hn'⟩
      obtain ⟨hne, hold⟩ := horigin c' k' hk'
      exact hne (h.one c' c k' k hold hk hn')
    · rename_i hn
      rw [h.flag]
      constructor
      · rintro ⟨c', k', hk', hn'⟩
        have hne : c' ≠ c := by
          rintro rfl
          cases hk.symm.trans hk'
          exact hn hn'.symm
        exact ⟨c', k', by simpa [Function.update_of_ne hne] using hk', hn'⟩
      · rintro ⟨c', k', hk', hn'⟩
        exact ⟨c', k', (horigin c' k' hk').2, hn'⟩
  · intro c₁ c₂ k₁ k₂ h₁ h₂ hn
    exact h.one c₁ c₂ k₁ k₂ (horigin c₁ k₁ h₁).2 (horigin c₂ k₂ h₂).2 hn

theorem enter (h : Single s) {node : Nat} (hflag : s.publishing node = false) : Single (s.enter node) := by
  have horigin : ∀ c' k', (s.enter node).calls c' = some k' →
      (c' = s.next ∧ k'.node = node) ∨ (c' ≠ s.next ∧ s.calls c' = some k') := by
    intro c' k' hk'
    simp only [enter_calls, Function.update_apply] at hk'
    split at hk'
    · rename_i heq
      cases hk'
      exact .inl ⟨heq, rfl⟩
    · rename_i hne
      exact .inr ⟨hne, hk'⟩
  have hfree : ∀ c k, s.calls c = some k → k.node ≠ node := by
    intro c k hk hn
    rw [(h.flag node).mpr ⟨c, k, hk, hn⟩] at hflag
    cases hflag
  constructor
  · intro c' hc'
    simp only [enter_next] at hc'
    have hne : c' ≠ s.next := by omega
    simpa only [enter_calls, Function.update_of_ne hne] using h.fresh c' (by omega)
  · intro n
    simp only [enter_publishing, Function.update_apply]
    split
    · rename_i hn
      simp only [true_iff]
      exact ⟨s.next, _, Function.update_self .., hn.symm⟩
    · rename_i hn
      rw [h.flag]
      constructor
      · rintro ⟨c', k', hk', hn'⟩
        have hne : c' ≠ s.next := (h.lt_next hk').ne
        exact ⟨c', k', by simpa [Function.update_of_ne hne] using hk', hn'⟩
      · rintro ⟨c', k', hk', hn'⟩
        rcases horigin c' k' hk' with ⟨_, hnode⟩ | ⟨_, hold⟩
        · exact absurd (hn'.symm.trans hnode) hn
        · exact ⟨c', k', hold, hn'⟩
  · intro c₁ c₂ k₁ k₂ h₁ h₂ hn
    rcases horigin c₁ k₁ h₁ with ⟨rfl, hn₁⟩ | ⟨_, h₁⟩ <;> rcases horigin c₂ k₂ h₂ with ⟨rfl, hn₂⟩ | ⟨_, h₂⟩
    · rfl
    · exact absurd (hn.symm.trans hn₁) (hfree c₂ k₂ h₂)
    · exact absurd (hn.trans hn₂) (hfree c₁ k₁ h₁)
    · exact h.one c₁ c₂ k₁ k₂ h₁ h₂ hn

theorem restarted (h : Single s) (node : Nat) : Single (s.restarted node) := by
  have hcalls : ∀ c k, (s.restarted node).calls c = some k ↔ s.calls c = some k ∧ k.node ≠ node := by
    intro c k
    simp [Option.filter_eq_some_iff]
  constructor
  · intro c hc
    simp [h.fresh c hc]
  · intro n
    simp only [hcalls, restarted_publishing, Function.update_apply]
    split
    · rename_i hn
      simp only [Bool.false_eq_true, false_iff]
      rintro ⟨c, k, ⟨_, hne⟩, hk⟩
      exact hne (hk.trans hn)
    · rename_i hn
      rw [h.flag]
      constructor
      · rintro ⟨c, k, hk, rfl⟩
        exact ⟨c, k, ⟨hk, hn⟩, rfl⟩
      · rintro ⟨c, k, ⟨hk, _⟩, hn'⟩
        exact ⟨c, k, hk, hn'⟩
  · intro c₁ c₂ k₁ k₂ h₁ h₂ hn
    exact h.one c₁ c₂ k₁ k₂ ((hcalls _ _).mp h₁).1 ((hcalls _ _).mp h₂).1 hn

theorem setService (h : Single s) (r : Service) : Single (s.setService r) := ⟨h.fresh, h.flag, h.one⟩

theorem stamp (h : Single s) (node : Nat) : Single (s.stamp node) := ⟨h.fresh, h.flag, h.one⟩

theorem step (h : Single s) (hstep : s.step cfg hashApiKey a = some t) : Single t := by
  cases Step.of_step hstep with
  | operation => exact h.setService _
  | skip => exact h
  | enter hflag => exact h.enter hflag
  | @resume c _ k r hk =>
    have hr := h.setService r
    rcases resumed_cases (s.setService r) c k _ with ⟨_, heq⟩ | ⟨_, heq⟩ | ⟨_, _, _, heq⟩ <;> rw [heq]
    · exact hr.leave hk
    · exact (hr.stamp k.node).goto hk _
    · exact hr.goto hk _
  | @throws c message k hk =>
    rcases thrown_cases s c k message with ⟨_, heq⟩ | ⟨_, heq⟩ <;> rw [heq]
    · exact h.leave hk
    · exact h.goto hk _
  | restart => exact h.restarted _

end Single

theorem Reached.single (h : Reached cfg hashApiKey u as s) : Single s :=
  Transition.run_invariant (fun _ _ _ hi hs => hi.step hs) (.boot u) h

/-- One call of `publishPending` is under way on a process at a time, and its flag is set exactly
while there is one, whatever the calls throw and whenever processes are restarted. -/
theorem one_call_per_process (h : Reached cfg hashApiKey u as s) :
    (∀ n, s.publishing n = true ↔ ∃ c k, s.calls c = some k ∧ k.node = n) ∧
      ∀ c c' k k', s.calls c = some k → s.calls c' = some k' → k.node = k'.node → c = c' :=
  ⟨h.single.flag, h.single.one⟩

theorem one_call_per_process_read : ∃ c k,
    (after .defaults id (.subscribed 1) (batchRead [0, 1] ++ [.publishPending 0])).calls c = some k ∧ k.node = 1 := by
  have hreached : Reached .defaults id (.subscribed 1) (batchRead [0, 1] ++ [.publishPending 0])
    (after .defaults id (.subscribed 1) (batchRead [0, 1] ++ [.publishPending 0])) := Transition.run_ending (by decide +kernel)
  exact ((one_call_per_process hreached).1 1).mp (by decide +kernel)

/-! ### The maintenance clock -/

theorem maintains_of_select {r : System} {c : Nat} {ok : Bool} {stage : Stage}
    (h : stage.after r c ok = some .select) : stage.maintains = true := by
  cases stage with
  | select | publish | recordError => simp [Stage.after] at h
  | _ => rfl

theorem maintains_of_after {r : System} {c : Nat} {ok : Bool} {stage stage' : Stage}
    (h : stage.after r c ok = some stage') (hm : stage'.maintains = true) : stage.maintains = true := by
  cases stage with
  | select | publish =>
    simp only [Stage.after] at h
    split at h <;> cases h
    cases hm
  | recordError => cases h
  | _ => rfl

/-- The last pass of a process at its maintenance is a minute old. -/
def Due (s : Deployment) : Prop :=
  ∀ c k, s.calls c = some k → k.stage.maintains = true → s.lastMaintenanceAt k.node + 60000 ≤ s.now

/-- A pass ends a minute after the last one at the earliest, and a call of a process looks for
rows to publish when its last pass is not a minute old. -/
structure Paced (s : Deployment) (a : ProcessAct) (t : Deployment) : Prop where
  passes : ∀ n, t.lastMaintenanceAt n ≠ s.lastMaintenanceAt n → a ≠ .restart n →
    t.lastMaintenanceAt n = t.now ∧ s.lastMaintenanceAt n + 60000 ≤ t.now
  selects : ∀ c n, t.calls c = some ⟨n, .select⟩ → s.calls c ≠ some ⟨n, .select⟩ →
    t.now < t.lastMaintenanceAt n + 60000

namespace Due

theorem boot (u : Setup) : Due (boot u) := fun _ _ h => by cases h

theorem setService (h : Due s) {b : Operation} {r : Service} (hr : s.service.step cfg hashApiKey b = some r) :
    Due (s.setService r) :=
  fun c k hk hm => (h c k hk hm).trans (Service.step_now_le hr)

theorem leave (h : Due s) (c n : Nat) : Due (s.leave c n) := by
  intro c' k' hk' hm
  simp only [leave_calls, Function.update_apply] at hk'
  split at hk'
  · cases hk'
  · exact h c' k' hk' hm

theorem goto (h : Due s) {c : Nat} {k : PendingCall} (hk : s.calls c = some k) {stage : Stage}
    (hstage : stage.maintains = true → k.stage.maintains = true) : Due (s.goto c ⟨k.node, stage⟩) := by
  intro c' k' hk' hm
  simp only [goto_calls, Function.update_apply] at hk'
  split at hk'
  · cases hk'
    exact h c k hk (hstage hm)
  · exact h c' k' hk' hm

theorem stamp (h : Due s) (hs : Single s) {c : Nat} {k : PendingCall} (hk : s.calls c = some k) :
    Due ((s.stamp k.node).goto c ⟨k.node, .select⟩) := by
  intro c' k' hk' hm
  simp only [goto_calls, stamp_calls, Function.update_apply] at hk'
  split at hk'
  · cases hk'
    cases hm
  · rename_i hne
    have hnode : k'.node ≠ k.node := fun heq => hne (hs.one c' c k' k hk' hk heq)
    have hlast : ((s.stamp k.node).goto c ⟨k.node, .select⟩).lastMaintenanceAt k'.node = s.lastMaintenanceAt k'.node :=
      Function.update_of_ne hnode ..
    rw [hlast]
    exact h c' k' hk' hm

theorem enter (h : Due s) (node : Nat) : Due (s.enter node) := by
  intro c' k' hk' hm
  simp only [enter_calls, Function.update_apply] at hk'
  split at hk'
  · cases hk'
    by_cases hdue : s.lastMaintenanceAt node + 60000 ≤ s.now
    · exact hdue
    · simp [if_neg hdue, Stage.maintains] at hm
  · exact h c' k' hk' hm

theorem restarted (h : Due s) (node : Nat) : Due (s.restarted node) := by
  intro c k hk hm
  simp only [restarted_calls, Option.filter_eq_some_iff, bne_iff_ne] at hk
  have hlast : (s.restarted node).lastMaintenanceAt k.node = s.lastMaintenanceAt k.node :=
    Function.update_of_ne hk.2 ..
  rw [hlast]
  exact h c k hk.1 hm

theorem step (h : Due s) (hs : Single s) (hstep : s.step cfg hashApiKey a = some t) : Due t := by
  cases Step.of_step hstep with
  | operation _ hr => exact h.setService hr
  | skip => exact h
  | enter => exact h.enter _
  | @resume c _ k r hk hr =>
    have hdue := h.setService hr
    rcases resumed_cases (s.setService r) c k _ with ⟨_, heq⟩ | ⟨_, heq⟩ | ⟨stage, hafter, _, heq⟩ <;> rw [heq]
    · exact hdue.leave _ _
    · exact hdue.stamp (hs.setService r) hk
    · exact hdue.goto hk fun hm => maintains_of_after hafter hm
  | @throws c message k hk =>
    rcases thrown_cases s c k message with ⟨_, heq⟩ | ⟨_, heq⟩ <;> rw [heq]
    · exact h.leave _ _
    · exact h.goto hk fun hm => by cases hm
  | restart => exact h.restarted _

end Due

theorem paced_step (h : Due s) (hstep : s.step cfg hashApiKey a = some t) : Paced s a t := by
  have still : ∀ {t : Deployment}, t.lastMaintenanceAt = s.lastMaintenanceAt →
      (∀ c n, t.calls c = some ⟨n, .select⟩ → s.calls c = some ⟨n, .select⟩) → Paced s a t := by
    intro t hlast hcalls
    exact ⟨fun n hn _ => absurd (congrFun hlast n) hn, fun c n hk hno => absurd (hcalls c n hk) hno⟩
  have left : ∀ {c c' : Nat} {k : PendingCall}, Function.update s.calls c none c' = some k →
      s.calls c' = some k := by
    intro c c' k hk
    simp only [Function.update_apply] at hk
    split at hk
    · cases hk
    · exact hk
  have moved : ∀ {c c' n : Nat} {k : PendingCall}, k.stage ≠ .select →
      Function.update s.calls c (some k) c' = some ⟨n, .select⟩ → s.calls c' = some ⟨n, .select⟩ := by
    intro c c' n k hk hupdate
    simp only [Function.update_apply] at hupdate
    split at hupdate
    · cases hupdate
      cases hk rfl
    · exact hupdate
  cases Step.of_step hstep with
  | operation | skip => exact still rfl fun _ _ hk => hk
  | @enter node hflag =>
    refine ⟨fun n hn _ => absurd rfl hn, fun c n hk hno => ?_⟩
    simp only [enter_calls, Function.update_apply] at hk
    split at hk
    · simp only [Option.some.injEq, PendingCall.mk.injEq] at hk
      obtain ⟨rfl, hstage⟩ := hk
      split at hstage
      · cases hstage
      · rename_i hrecent
        exact Nat.lt_of_not_le hrecent
    · exact absurd hk hno
  | @resume c _ k r hk hr =>
    rcases resumed_cases (s.setService r) c k _ with ⟨_, heq⟩ | ⟨hafter, heq⟩ | ⟨stage, _, hne, heq⟩ <;> rw [heq]
    · exact still rfl fun _ _ hk' => left hk'
    · have hdue := h.setService hr c k hk (maintains_of_select hafter)
      constructor
      · intro n hn _
        by_cases hnode : n = k.node
        · subst hnode
          exact ⟨Function.update_self .., hdue⟩
        · exact absurd (Function.update_of_ne hnode ..) hn
      · intro c' n hk' hno
        simp only [goto_calls, stamp_calls, Function.update_apply] at hk'
        split at hk'
        · cases hk'
          have hlast : (((s.setService r).stamp k.node).goto c ⟨k.node, .select⟩).lastMaintenanceAt k.node = r.now :=
            Function.update_self ..
          rw [hlast]
          exact Nat.lt_add_of_pos_right (by omega)
        · exact absurd hk' hno
    · exact still rfl fun _ _ hk' => moved (k := ⟨k.node, stage⟩) hne hk'
  | @throws c message k hk =>
    rcases thrown_cases s c k message with ⟨_, heq⟩ | ⟨_, heq⟩ <;> rw [heq]
    · exact still rfl fun _ _ hk' => left hk'
    · exact still rfl fun _ _ hk' => moved (k := ⟨k.node, .recordError message⟩) (by simp) hk'
  | @restart node =>
    constructor
    · intro n hn hne
      have hnode : n ≠ node := fun heq => hne (heq ▸ rfl)
      exact absurd (Function.update_of_ne hnode ..) hn
    · intro c n hk hno
      simp only [restarted_calls, Option.filter_eq_some_iff] at hk
      exact absurd hk.1 hno

theorem Reached.due (h : Reached cfg hashApiKey u as s) : Due s :=
  (Transition.run_invariant (I := fun s => Due s ∧ Single s)
    (fun _ _ _ hi hs => ⟨hi.1.step hi.2 hs, hi.2.step hs⟩) ⟨.boot u, .boot u⟩ h).1

/-! ### What a call has in hand -/

/-- The call of `publishPending` an operation of the system belongs to. -/
def call? : Act → Option Nat
  | .publishRead c _ => some c
  | .publishAdd c => some c
  | .publishMark c => some c
  | .publishError c _ => some c
  | .staleSelect c _ => some c
  | .staleRecover c => some c
  | .strandedSelect c _ => some c
  | .strandedInspect c => some c
  | .strandedReopen c => some c
  | _ => none

/-- The same batch, stale rows and stranded rows of a call. -/
def SameScans (c : Nat) (r r' : System) : Prop :=
  r'.publishers c = r.publishers c ∧ r'.staleScans c = r.staleScans c ∧ r'.strandedScans c = r.strandedScans c

theorem sameScans_of_ne {r r' : System} {b : Act} (h : r.Step cfg b r') {c : Nat} (hc : call? b ≠ some c) :
    SameScans c r r' := by
  have hne : ∀ {c₀}, call? b = some c₀ → c ≠ c₀ := fun hb heq => hc (heq ▸ hb)
  cases h with
  | publishRead | publishAdd | publishMark | publishError =>
    exact ⟨Function.update_of_ne (hne rfl) .., rfl, rfl⟩
  | staleSelect | staleRecover => exact ⟨rfl, Function.update_of_ne (hne rfl) .., rfl⟩
  | strandedSelect | strandedInspect | strandedReopen => exact ⟨rfl, rfl, Function.update_of_ne (hne rfl) ..⟩
  | _ => exact ⟨rfl, rfl, rfl⟩

theorem call?_act (stage : Stage) (r : System) {c c' : Nat} (ids : List Nat) (hc : c' ≠ c) :
    call? (stage.act r c ids) ≠ some c' := by
  have hne : some c ≠ some c' := fun h => hc (Option.some.inj h).symm
  cases stage with
  | recoverStranded | publish =>
    simp only [Stage.act]
    split <;> exact hne
  | cleanupExpiredEndpointSecrets | cleanupPublishedOutboxRows | cleanupOldEvents => simp [Stage.act, call?]
  | _ => exact hne

theorem sameScans_of_operation {r r' : Service} {b : Operation} (hb : b.publishes = false)
    (h : r.step cfg hashApiKey b = some r') (c : Nat) : SameScans c r.system r'.system := by
  rcases Service.step_system_or h with ⟨b, rfl, hstep⟩ | ⟨_, db, hdb, _⟩
  · refine sameScans_of_ne hstep ?_
    cases b <;> first | (cases hb; done) | simp [call?]
  · rw [hdb]
    exact ⟨rfl, rfl, rfl⟩

/-- Nothing is left of a select or a batch of the call. -/
structure Clear (r : System) (c : Nat) : Prop where
  batch : r.publishers c = ⟨[], false⟩
  stale : (r.staleScans c).rest = []
  stranded : r.strandedScans c = ⟨[], none⟩

/-- What a call has left to do where it stands. -/
def Fits (r : System) (c : Nat) : Stage → Prop
  | .recoverStale =>
    r.publishers c = ⟨[], false⟩ ∧ r.strandedScans c = ⟨[], none⟩ ∧ (r.staleScans c).rest ≠ [] ∧
      (r.staleScans c).rest.length ≤ 100
  | .recoverStranded =>
    r.publishers c = ⟨[], false⟩ ∧ (r.staleScans c).rest = [] ∧ (r.strandedScans c).rest ≠ [] ∧
      (r.strandedScans c).rest.length ≤ 100
  | .publish => (r.publishers c).batch ≠ [] ∧ (r.publishers c).batch.length ≤ 100
  | .recordError _ => (r.publishers c).batch ≠ [] ∧ (r.publishers c).batch.length ≤ 100
  | _ => Clear r c

theorem SameScans.clear {r r' : System} {c : Nat} (h : SameScans c r r') (hc : Clear r c) : Clear r' c :=
  ⟨h.1.trans hc.batch, h.2.1 ▸ hc.stale, h.2.2.trans hc.stranded⟩

theorem SameScans.fits {r r' : System} {c : Nat} (h : SameScans c r r') {stage : Stage} (hf : Fits r c stage) :
    Fits r' c stage := by
  obtain ⟨hp, ht, hd⟩ := h
  cases stage with
  | recoverStale | recoverStranded | publish | recordError => simpa only [Fits, hp, ht, hd] using hf
  | _ => exact SameScans.clear ⟨hp, ht, hd⟩ hf

theorem answers_length {ρ β : Type} {t : Relational.Table ρ} {p : Nat → ρ → Bool} {ids : List Nat}
    (h : t.Answers p 100 ids) (f : Nat → Option β) : (ids.filterMap f).length ≤ 100 := by
  have hlen : ids.length ≤ 100 := h.2.2 ▸ Nat.min_le_left ..
  exact (List.length_filterMap_le f ids).trans hlen

section

variable {r r' : System} {c : Nat} {ids : List Nat} {stage' : Stage}

theorem fits_stale (r' : System) (hbatch : r'.publishers c = ⟨[], false⟩) (hstranded : r'.strandedScans c = ⟨[], none⟩)
    (hlen : (r'.staleScans c).rest.length ≤ 100)
    (hafter : (if (r'.staleScans c).rest = [] then Stage.selectStranded else .recoverStale) = stage') :
    Fits r' c stage' := by
  split at hafter <;> subst hafter
  · rename_i hrest
    exact ⟨hbatch, hrest, hstranded⟩
  · rename_i hrest
    exact ⟨hbatch, hstranded, hrest, hlen⟩

theorem fits_stranded (r' : System) (hbatch : r'.publishers c = ⟨[], false⟩) (hstale : (r'.staleScans c).rest = [])
    (hlen : (r'.strandedScans c).rest.length ≤ 100)
    (hfound : (r'.strandedScans c).rest = [] → (r'.strandedScans c).found = none)
    (hafter : (if (r'.strandedScans c).rest = [] then Stage.select else .recoverStranded) = stage') :
    Fits r' c stage' := by
  split at hafter <;> subst hafter
  · rename_i hrest
    refine ⟨hbatch, hstale, ?_⟩
    calc r'.strandedScans c = ⟨(r'.strandedScans c).rest, (r'.strandedScans c).found⟩ := rfl
      _ = ⟨[], none⟩ := by rw [hrest, hfound hrest]
  · rename_i hrest
    exact ⟨hbatch, hstale, hrest, hlen⟩

theorem fits_publish (r' : System) (hlen : (r'.publishers c).batch.length ≤ 100)
    (hafter : (if (r'.publishers c).batch = [] then none else some Stage.publish) = some stage') :
    Fits r' c stage' := by
  split at hafter <;> cases hafter
  rename_i hbatch
  exact ⟨hbatch, hlen⟩

theorem fits_recoverStale (hf : Fits r c .recoverStale) (h : r.Step cfg (.staleRecover c) r')
    (hafter : (if (r'.staleScans c).rest = [] then Stage.selectStranded else .recoverStale) = stage') :
    Fits r' c stage' := by
  obtain ⟨hbatch, hstranded, _, hlen⟩ := hf
  cases h with
  | @staleRecover _ p rest hscan =>
    let r' := (r.store cfg (.staleRecover c)).setStaleScan c ⟨(r.staleScans c).cutoff, rest⟩
    have hv : r'.staleScans c = ⟨(r.staleScans c).cutoff, rest⟩ := Function.update_self ..
    have hrest : (r'.staleScans c).rest = rest := congrArg StaleScan.rest hv
    rw [hscan, List.length_cons] at hlen
    exact fits_stale r' hbatch hstranded (by rw [hrest]; omega) hafter

theorem fits_recoverStranded (hf : Fits r c .recoverStranded)
    (h : r.Step cfg (Stage.recoverStranded.act r c ids) r')
    (hafter : Stage.recoverStranded.after r' c (r.ok cfg (Stage.recoverStranded.act r c ids)) = some stage') :
    Fits r' c stage' := by
  obtain ⟨hbatch, hstale, _, hlen⟩ := hf
  have hok : r.ok cfg (Stage.recoverStranded.act r c ids) = true ∧
      (if (r'.strandedScans c).rest = [] then Stage.select else .recoverStranded) = stage' := by
    simp only [Stage.after] at hafter
    split at hafter
    · rename_i hok
      exact ⟨hok, Option.some.inj hafter⟩
    · cases hafter
  obtain ⟨hok, hafter⟩ := hok
  simp only [Stage.act] at h hok
  split at h
  · cases h with
    | @strandedInspect _ p rest hscan =>
      let v : StrandedScan :=
        if r.queue.stranded p.1 p.2 then ⟨p :: rest, some (r.queue.stateText p.1 p.2)⟩ else ⟨rest, none⟩
      have hv : (r.setStrandedScan c v).strandedScans c = v := Function.update_self ..
      rw [hscan, List.length_cons] at hlen
      have hcases : v.rest.length ≤ rest.length + 1 ∧ (v.rest = [] → v.found = none) := by
        simp only [v]
        split <;> simp
      exact fits_stranded (r.setStrandedScan c v) hbatch hstale (by rw [hv]; exact hcases.1.trans hlen)
        (by rw [hv]; exact hcases.2) hafter
  · rename_i hfound
    rw [if_neg hfound] at hok
    cases h with
    | @strandedReopen _ p rest state hscan =>
      let r' := (r.store cfg (.strandedReopen c)).setStrandedScan c
        ⟨if r.ok cfg (.strandedReopen c) then rest else [], none⟩
      have hv : r'.strandedScans c = ⟨rest, none⟩ := by
        simp only [r', System.setStrandedScan_strandedScans, Function.update_self, hok, if_true]
      rw [hscan, List.length_cons] at hlen
      exact fits_stranded r' hbatch hstale (by rw [hv]; exact (Nat.le_succ _).trans hlen)
        (by rw [hv]; exact fun _ => rfl) hafter

theorem fits_published (hf : Fits r c .publish) (h : r.Step cfg (Stage.publish.act r c ids) r')
    (hafter : (if (r'.publishers c).batch = [] then none else some Stage.publish) = some stage') :
    Fits r' c stage' := by
  obtain ⟨_, hlen⟩ := hf
  simp only [Stage.act] at h
  split at h
  · cases h with
    | @publishMark _ o rest hbatch =>
      let r' := (r.store cfg (.publishMark c)).setPublisher c
        ⟨if r.ok cfg (.publishMark c) then rest else [], false⟩
      have hv : r'.publishers c = ⟨if r.ok cfg (.publishMark c) then rest else [], false⟩ := Function.update_self ..
      have hle : (if r.ok cfg (.publishMark c) then rest else []).length ≤ rest.length := by
        split
        · exact le_refl _
        · exact Nat.zero_le _
      rw [hbatch, List.length_cons] at hlen
      exact fits_publish r' (by rw [hv]; exact hle.trans ((Nat.le_succ _).trans hlen)) hafter
  · cases h with
    | @publishAdd _ o rest hbatch =>
      let r' := (r.setQueue (r.queue.add (jobId o.id o.attempts) o.deliveryId o.attemptNumber)).setPublisher c
        ⟨o :: rest, true⟩
      have hv : r'.publishers c = ⟨o :: rest, true⟩ := Function.update_self ..
      rw [hbatch] at hlen
      exact fits_publish r' (by rw [hv]; exact hlen) hafter

end

/-- One operation of a call takes it to where it fits again. -/
theorem fits_after {r r' : System} {c : Nat} {ids : List Nat} {stage stage' : Stage} (hf : Fits r c stage)
    (h : r.Step cfg (stage.act r c ids) r')
    (hafter : stage.after r' c (r.ok cfg (stage.act r c ids)) = some stage') : Fits r' c stage' := by
  cases stage with
  | cleanupExpiredEndpointSecrets | cleanupPublishedOutboxRows | cleanupOldEvents =>
    cases h
    cases hafter
    exact ⟨hf.batch, hf.stale, hf.stranded⟩
  | selectStale =>
    cases h with
    | staleSelect _ hids =>
      let r' := r.setStaleScan c ⟨r.staleCutoff cfg, r.db.staleSnapshots ids⟩
      have hv : r'.staleScans c = ⟨r.staleCutoff cfg, r.db.staleSnapshots ids⟩ := Function.update_self ..
      have hrest : (r'.staleScans c).rest = r.db.staleSnapshots ids := congrArg StaleScan.rest hv
      exact fits_stale r' hf.batch hf.stranded (by rw [hrest]; exact answers_length hids _) (Option.some.inj hafter)
  | recoverStale => exact fits_recoverStale hf h (Option.some.inj hafter)
  | selectStranded =>
    cases h with
    | strandedSelect _ hids =>
      let r' := r.setStrandedScan c ⟨r.db.strandedSnapshots ids, none⟩
      have hscan : r'.strandedScans c = ⟨r.db.strandedSnapshots ids, none⟩ := Function.update_self ..
      exact fits_stranded r' hf.batch hf.stale (by rw [hscan]; exact answers_length hids _)
        (by rw [hscan]; exact fun _ => rfl) (Option.some.inj hafter)
  | recoverStranded => exact fits_recoverStranded hf h hafter
  | select =>
    cases h with
    | publishRead _ hids =>
      let r' := r.setPublisher c ⟨r.db.snapshots ids, false⟩
      have hv : r'.publishers c = ⟨r.db.snapshots ids, false⟩ := Function.update_self ..
      exact fits_publish r' (by rw [hv]; exact answers_length hids.1 _) hafter
  | publish => exact fits_published hf h hafter
  | recordError => cases hafter

theorem exists_resume (cfg : Config) {r : System} {c : Nat} {stage : Stage} (hf : Fits r c stage) :
    ∃ ids r', r.step cfg (stage.act r c ids) = some r' := by
  cases stage with
  | cleanupExpiredEndpointSecrets | cleanupPublishedOutboxRows | cleanupOldEvents => exact ⟨[], _, rfl⟩
  | selectStale =>
    obtain ⟨ids, hids⟩ := r.db.deliveries.exists_answers (fun _ r' => r'.staleBefore (r.staleCutoff cfg)) 100
    exact ⟨ids, _, if_pos ⟨hf.stale, hids⟩⟩
  | recoverStale =>
    obtain ⟨p, rest, hrest⟩ := List.exists_cons_of_ne_nil hf.2.2.1
    exact ⟨[], _, by simp only [Stage.act, System.step, hrest]; rfl⟩
  | selectStranded =>
    obtain ⟨ids, hids⟩ := r.db.deliveryOutbox.exists_answers (fun _ o => r.db.strandedCandidate o) 100
    exact ⟨ids, _, if_pos ⟨by rw [hf.stranded], hids⟩⟩
  | recoverStranded =>
    obtain ⟨p, rest, hrest⟩ := List.exists_cons_of_ne_nil hf.2.2.1
    have hscan : r.strandedScans c = ⟨p :: rest, (r.strandedScans c).found⟩ := by rw [← hrest]
    cases hfound : (r.strandedScans c).found with
    | none =>
      rw [hfound] at hscan
      exact ⟨[], _, by simp only [Stage.act, hscan, Option.isNone_none, if_true, System.step]; rfl⟩
    | some state =>
      rw [hfound] at hscan
      exact ⟨[], _, by simp only [Stage.act, hscan, Option.isNone_some, Bool.false_eq_true, if_false, System.step]; rfl⟩
  | select =>
    obtain ⟨ids, hids⟩ := r.db.deliveryOutbox.exists_first_answers (fun _ o => Database.publishable r.now o) 100
      DeliveryOutbox.createdAt
    exact ⟨ids, _, if_pos ⟨by rw [hf.batch], hids⟩⟩
  | publish =>
    obtain ⟨o, rest, hrest⟩ := List.exists_cons_of_ne_nil hf.1
    have hbatch : r.publishers c = ⟨o :: rest, (r.publishers c).added⟩ := by rw [← hrest]
    cases hadded : (r.publishers c).added with
    | true =>
      rw [hadded] at hbatch
      exact ⟨[], _, by simp only [Stage.act, hbatch, if_true, System.step]; rfl⟩
    | false =>
      rw [hadded] at hbatch
      exact ⟨[], _, by simp only [Stage.act, hbatch, Bool.false_eq_true, if_false, System.step]; rfl⟩
  | recordError message => exact ⟨[], _, if_neg hf.1⟩

/-- Every call fits where it stands, and a new one finds nothing of an old one. -/
structure InHand (s : Deployment) : Prop where
  single : Single s
  calls : ∀ c k, s.calls c = some k → Fits s.system c k.stage
  fresh : ∀ c, s.next ≤ c → Clear s.system c

namespace InHand

theorem boot (u : Setup) : InHand (boot u) where
  single := .boot u
  calls _ _ h := by cases h
  fresh _ _ := ⟨rfl, rfl, rfl⟩

theorem moved (h : InHand s) {c : Nat} {k : PendingCall} (hk : s.calls c = some k) (ht : Single t)
    (hnext : t.next = s.next) (hothers : ∀ c', c' ≠ c → t.calls c' = s.calls c')
    (hscans : ∀ c', c' ≠ c → SameScans c' s.system t.system)
    (hcall : ∀ k', t.calls c = some k' → Fits t.system c k'.stage) : InHand t := by
  refine ⟨ht, fun c' k' hk' => ?_, fun c' hc' => ?_⟩
  · by_cases hc : c' = c
    · subst hc
      exact hcall k' hk'
    · exact (hscans c' hc).fits (h.calls c' k' (hothers c' hc ▸ hk'))
  · have hc : c' ≠ c := by
      have := h.single.lt_next hk
      omega
    exact (hscans c' hc).clear (h.fresh c' (hnext ▸ hc'))

theorem operation (h : InHand s) {b : Operation} {r : Service} (hb : b.publishes = false)
    (hr : s.service.step cfg hashApiKey b = some r) : InHand (s.setService r) := by
  have hscans := sameScans_of_operation hb hr
  exact ⟨h.single.setService r, fun c k hk => (hscans c).fits (h.calls c k hk),
    fun c hc => (hscans c).clear (h.fresh c hc)⟩

theorem enter (h : InHand s) {node : Nat} (hflag : s.publishing node = false) : InHand (s.enter node) := by
  have hclear := h.fresh s.next (le_refl _)
  refine ⟨h.single.enter hflag, fun c k hk => ?_, fun c hc => h.fresh c (Nat.le_of_succ_le hc)⟩
  simp only [enter_calls, Function.update_apply] at hk
  split at hk
  · rename_i hc
    cases hk
    subst hc
    split <;> exact hclear
  · exact h.calls c k hk

theorem restarted (h : InHand s) (node : Nat) : InHand (s.restarted node) := by
  refine ⟨h.single.restarted node, fun c k hk => ?_, h.fresh⟩
  simp only [restarted_calls, Option.filter_eq_some_iff] at hk
  exact h.calls c k hk.1

theorem resumed (h : InHand s) {c : Nat} {ids : List Nat} {k : PendingCall} {r : Service} (hk : s.calls c = some k)
    (hr : s.service.step cfg hashApiKey (.system (k.stage.act s.system c ids)) = some r) :
    InHand ((s.setService r).resumed c k
      (k.stage.after r.system c (s.system.ok cfg (k.stage.act s.system c ids)))) := by
  have hstep : s.system.Step cfg (k.stage.act s.system c ids) r.system := .of_step (Service.step_system hr).1
  have hothers : ∀ c', c' ≠ c → SameScans c' s.system r.system := fun c' hc' =>
    sameScans_of_ne hstep (call?_act k.stage s.system ids hc')
  have hsingle := h.single.setService r
  have hfits : ∀ {stage'}, k.stage.after r.system c (s.system.ok cfg (k.stage.act s.system c ids)) = some stage' →
      Fits r.system c stage' := fun hafter => fits_after (h.calls c k hk) hstep hafter
  have hmoved : ∀ {v : PendingCall}, Function.update s.calls c (some v) c = some v := Function.update_self ..
  have hne : ∀ (v : Option PendingCall) c', c' ≠ c → Function.update s.calls c v c' = s.calls c' :=
    fun v c' hc' => Function.update_of_ne hc' ..
  rcases resumed_cases (s.setService r) c k (k.stage.after r.system c (s.system.ok cfg (k.stage.act s.system c ids)))
    with ⟨_, heq⟩ | ⟨hafter, heq⟩ | ⟨stage', hafter, _, heq⟩ <;> rw [heq]
  · refine h.moved hk (hsingle.leave hk) rfl (hne _) hothers fun k' hk' => ?_
    simp at hk'
  · refine h.moved hk ((hsingle.stamp k.node).goto hk _) rfl (hne _) hothers fun k' hk' => ?_
    cases hmoved.symm.trans hk'
    exact hfits hafter
  · refine h.moved hk (hsingle.goto hk _) rfl (hne _) hothers fun k' hk' => ?_
    cases hmoved.symm.trans hk'
    exact hfits hafter

theorem thrown (h : InHand s) {c : Nat} {k : PendingCall} (hk : s.calls c = some k) (message : String) :
    InHand (s.thrown c k message) := by
  have hne : ∀ (v : Option PendingCall) c', c' ≠ c → Function.update s.calls c v c' = s.calls c' :=
    fun v c' hc' => Function.update_of_ne hc' ..
  rcases thrown_cases s c k message with ⟨_, heq⟩ | ⟨hpublish, heq⟩ <;> rw [heq]
  · refine h.moved hk (h.single.leave hk) rfl (hne _) (fun _ _ => ⟨rfl, rfl, rfl⟩) fun k' hk' => ?_
    simp at hk'
  · refine h.moved hk (h.single.goto hk _) rfl (hne _) (fun _ _ => ⟨rfl, rfl, rfl⟩) fun k' hk' => ?_
    have hmoved : Function.update s.calls c (some ⟨k.node, .recordError message⟩) c =
        some (⟨k.node, .recordError message⟩ : PendingCall) := Function.update_self ..
    cases hmoved.symm.trans hk'
    have hfits := h.calls c k hk
    rw [hpublish] at hfits
    exact hfits

theorem step (h : InHand s) (hstep : s.step cfg hashApiKey a = some t) : InHand t := by
  cases Step.of_step hstep with
  | operation hb hr => exact h.operation hb hr
  | skip => exact h
  | enter hflag => exact h.enter hflag
  | resume hk hr => exact h.resumed hk hr
  | throws hk => exact h.thrown hk _
  | restart => exact h.restarted _

end InHand

theorem Reached.inHand (h : Reached cfg hashApiKey u as s) : InHand s :=
  Transition.run_invariant (fun _ _ _ hi hs => hi.step hs) (.boot u) h

end WebhookEngine.Deployment
