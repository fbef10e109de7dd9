import WebhookEngine.Isolation

/-! The calls that replace the subscriptions of one endpoint, statement by statement, under READ
COMMITTED. A DELETE goes through the rows that were committed when it started and waits at one
that another call has deleted; an INSERT waits for a row of its key that is not settled. Waits
that no row of the subscriptions causes are left out. -/

namespace WebhookEngine

/-- A row with the call that wrote it; the rows of before the calls have none. -/
structure Subscribed where
  eventType : String
  writer : Option Nat
  deriving DecidableEq, Repr

/-- How far a call is, with the rows its DELETE has seen. -/
inductive Replacing where
  | idle
  | deleting (seen rest : List Subscribed)
  | inserting (seen : List Subscribed) (rest : List String)
  | touched (seen : List Subscribed)
  | committed
  | failed
  deriving DecidableEq, Repr

def Replacing.seen : Replacing → List Subscribed
  | .deleting seen _ => seen
  | .inserting seen _ => seen
  | .touched seen => seen
  | _ => []

/-- The rows the DELETE has still to come to. -/
def Replacing.rest : Replacing → List Subscribed
  | .deleting _ rest => rest
  | _ => []

/-- The statements of a call. The DELETE and the INSERT go row by row. -/
inductive ReplaceStmt where
  | delete (i : Nat)
  | deleteRow (i : Nat) (r : Subscribed)
  | insert (i : Nat)
  | insertRow (i : Nat)
  | touch (i : Nat)
  | commit (i : Nat)
  | fail (i : Nat)
  deriving DecidableEq, Repr

def ReplaceStmt.call : ReplaceStmt → Nat
  | .delete i => i
  | .deleteRow i _ => i
  | .insert i => i
  | .insertRow i => i
  | .touch i => i
  | .commit i => i
  | .fail i => i

/-- `rows` is what is committed. `deleter` and `inserter` are the calls whose deletes and inserts
are not, and `holder` is the one that has updated the endpoint. -/
structure Subscriptions where
  rows : List Subscribed
  progress : Nat → Replacing
  deleter : Subscribed → Option Nat
  inserter : String → Option Nat
  holder : Option Nat

/-- The claims of a call on a row, a key or the endpoint are given up. -/
def dropped (i : Nat) (owner : Option Nat) : Option Nat := if owner = some i then none else owner

namespace Subscriptions

def start (existing : List String) : Subscriptions where
  rows := existing.map fun eventType => ⟨eventType, none⟩
  progress _ := .idle
  deleter _ := none
  inserter _ := none
  holder := none

def goto (s : Subscriptions) (i : Nat) (p : Replacing) : Subscriptions :=
  { s with progress := Function.update s.progress i p }

def release (s : Subscriptions) (i : Nat) : Subscriptions :=
  { s with
    deleter := fun r => dropped i (s.deleter r)
    inserter := fun t => dropped i (s.inserter t)
    holder := dropped i s.holder }

variable (eventTypes : Nat → List String)

def step (s : Subscriptions) : ReplaceStmt → Option Subscriptions
  | .delete i =>
    match s.progress i with
    | .idle => some (s.goto i (.deleting s.rows s.rows))
    | _ => none
  | .deleteRow i r =>
    match s.progress i with
    | .deleting seen rest =>
      if r ∉ rest then none
      else if r ∉ s.rows then some (s.goto i (.deleting seen (rest.erase r)))
      else if s.deleter r = none then
        some { s.goto i (.deleting seen (rest.erase r)) with deleter := Function.update s.deleter r (some i) }
      else none
    | _ => none
  | .insert i =>
    match s.progress i with
    | .deleting seen [] => some (s.goto i (.inserting seen (eventTypes i).dedup))
    | _ => none
  | .insertRow i =>
    match s.progress i with
    | .inserting seen (t :: rest) =>
      -- a committed row of the key breaks the unique index, unless the call has deleted it
      if s.inserter t = none ∧ ∀ r ∈ s.rows, r.eventType = t → s.deleter r = some i then
        some { s.goto i (.inserting seen rest) with inserter := Function.update s.inserter t (some i) }
      else none
    | _ => none
  | .touch i =>
    match s.progress i, s.holder with
    | .inserting seen [], none => some { s.goto i (.touched seen) with holder := some i }
    | _, _ => none
  | .commit i =>
    match s.progress i with
    | .touched _ =>
      some { (s.goto i .committed).release i with
        rows := (s.rows.filter fun r => s.deleter r ≠ some i) ++
          (eventTypes i).dedup.map fun eventType => ⟨eventType, some i⟩ }
    | _ => none
  | .fail i =>
    match s.progress i with
    | .committed | .failed => none
    | _ => some ((s.goto i .failed).release i)

inductive Runs (s : Subscriptions) : ReplaceStmt → Subscriptions → Prop where
  | delete {i} (hp : s.progress i = .idle) : Runs s (.delete i) (s.goto i (.deleting s.rows s.rows))
  | skipRow {i r seen rest} (hp : s.progress i = .deleting seen rest) (hrest : r ∈ rest) (hgone : r ∉ s.rows) :
      Runs s (.deleteRow i r) (s.goto i (.deleting seen (rest.erase r)))
  | deleteRow {i r seen rest} (hp : s.progress i = .deleting seen rest) (hrest : r ∈ rest) (hrow : r ∈ s.rows)
      (hfree : s.deleter r = none) :
      Runs s (.deleteRow i r)
        { s.goto i (.deleting seen (rest.erase r)) with deleter := Function.update s.deleter r (some i) }
  | insert {i seen} (hp : s.progress i = .deleting seen []) :
      Runs s (.insert i) (s.goto i (.inserting seen (eventTypes i).dedup))
  | insertRow {i seen t rest} (hp : s.progress i = .inserting seen (t :: rest)) (hfree : s.inserter t = none)
      (hunique : ∀ r ∈ s.rows, r.eventType = t → s.deleter r = some i) :
      Runs s (.insertRow i)
        { s.goto i (.inserting seen rest) with inserter := Function.update s.inserter t (some i) }
  | touch {i seen} (hp : s.progress i = .inserting seen []) (hh : s.holder = none) :
      Runs s (.touch i) { s.goto i (.touched seen) with holder := some i }
  | commit {i seen} (hp : s.progress i = .touched seen) :
      Runs s (.commit i)
        { (s.goto i .committed).release i with
          rows := (s.rows.filter fun r => s.deleter r ≠ some i) ++
            (eventTypes i).dedup.map fun eventType => ⟨eventType, some i⟩ }
  | fail {i} (hc : s.progress i ≠ .committed) (hf : s.progress i ≠ .failed) :
      Runs s (.fail i) ((s.goto i .failed).release i)

variable {eventTypes} {s t : Subscriptions} {a : ReplaceStmt} {i : Nat}

theorem Runs.of_step (h : s.step eventTypes a = some t) : Runs eventTypes s a t := by
  cases a with
  | delete i =>
    simp only [step] at h
    split at h
    · rename_i hp
      cases h
      exact .delete hp
    · cases h
  | deleteRow i r =>
    simp only [step] at h
    split at h
    · rename_i seen rest hp
      split at h
      · cases h
      · rename_i hrest
        split at h
        · rename_i hgone
          cases h
          exact .skipRow hp (not_not.mp hrest) hgone
        · rename_i hrow
          split at h
          · rename_i hfree
            cases h
            exact .deleteRow hp (not_not.mp hrest) (not_not.mp hrow) hfree
          · cases h
    · cases h
  | insert i =>
    simp only [step] at h
    split at h
    · rename_i seen hp
      cases h
      exact .insert hp
    · cases h
  | insertRow i =>
    simp only [step] at h
    split at h
    · rename_i seen t rest hp
      split at h
      · rename_i hfree
        cases h
        exact .insertRow hp hfree.1 hfree.2
      · cases h
    · cases h
  | touch i =>
    simp only [step] at h
    split at h
    · rename_i seen hp hh
      cases h
      exact .touch hp hh
    · cases h
  | commit i =>
    simp only [step] at h
    split at h
    · rename_i seen hp
      cases h
      exact .commit hp
    · cases h
  | fail i =>
    simp only [step] at h
    split at h
    · cases h
    · cases h
    · rename_i hc hf
      cases h
      exact .fail hc hf

theorem Runs.step_eq (h : Runs eventTypes s a t) : s.step eventTypes a = some t := by
  cases h with
  | delete hp => simp only [step, hp]
  | skipRow hp hrest hgone =>
    simp only [step, hp, hrest, hgone, not_true_eq_false, not_false_eq_true, if_false, if_true]
  | deleteRow hp hrest hrow hfree =>
    simp only [step, hp, hrest, hrow, hfree, not_true_eq_false, if_false, if_true]
  | insert hp => simp only [step, hp]
  | insertRow hp hfree hunique =>
    simp only [step, hp]
    rw [if_pos ⟨hfree, hunique⟩]
  | touch hp hh => simp only [step, hp, hh]
  | commit hp => simp only [step, hp]
  | fail hc hf => simp only [step]

theorem dropped_eq_some {j : Nat} {owner : Option Nat} : dropped i owner = some j ↔ owner = some j ∧ j ≠ i := by
  unfold dropped
  split
  · rename_i h
    subst h
    simp only [reduceCtorEq, Option.some.injEq, false_iff, not_and, not_not]
    exact fun h => h.symm
  · rename_i h
    refine ⟨fun hj => ⟨hj, ?_⟩, fun hj => hj.1⟩
    rintro rfl
    exact h hj

/-! ### What a DELETE has seen -/

/-- A row that a call has seen and that is still there is one it has yet to come to, or one it
has deleted. -/
structure Tracked (s : Subscriptions) : Prop where
  written : ∀ r ∈ s.rows, ∀ j, r.writer = some j → s.progress j = .committed
  seen_written : ∀ i, ∀ r ∈ (s.progress i).seen, ∀ j, r.writer = some j → s.progress j = .committed
  accounted : ∀ i, ∀ r ∈ (s.progress i).seen, r ∈ s.rows → r ∈ (s.progress i).rest ∨ s.deleter r = some i

theorem Runs.other (h : Runs eventTypes s a t) {j : Nat} (hj : j ≠ a.call) : t.progress j = s.progress j := by
  cases h <;> exact Function.update_of_ne hj _ _

theorem Runs.unfinished (h : Runs eventTypes s a t) : s.progress a.call ≠ .committed := by
  cases h with
  | delete hp => simp [ReplaceStmt.call, hp]
  | skipRow hp => simp [ReplaceStmt.call, hp]
  | deleteRow hp => simp [ReplaceStmt.call, hp]
  | insert hp => simp [ReplaceStmt.call, hp]
  | insertRow hp => simp [ReplaceStmt.call, hp]
  | touch hp => simp [ReplaceStmt.call, hp]
  | commit hp => simp [ReplaceStmt.call, hp]
  | fail hc => exact hc

theorem Runs.committed_stays (h : Runs eventTypes s a t) {j : Nat} (hj : s.progress j = .committed) :
    t.progress j = .committed := by
  have hne : j ≠ a.call := by
    rintro rfl
    exact h.unfinished hj
  rw [h.other hne, hj]

theorem Tracked.start (existing : List String) : Tracked (start existing) where
  written r hr j hj := by
    obtain ⟨eventType, _, rfl⟩ := List.mem_map.mp hr
    cases hj
  seen_written i r hr := by cases hr
  accounted i r hr := by cases hr

/-- A call's own progress changes, and nothing that the others have seen or deleted. -/
theorem Tracked.of_progress (h : Tracked s) {p : Replacing} (hrows : t.rows = s.rows)
    (hprogress : t.progress = Function.update s.progress i p) (hi : s.progress i ≠ .committed)
    (hdeleter : ∀ r j, s.deleter r = some j → j ≠ i → t.deleter r = some j)
    (hwritten : ∀ r ∈ p.seen, ∀ j, r.writer = some j → s.progress j = .committed)
    (haccounted : ∀ r ∈ p.seen, r ∈ s.rows → r ∈ p.rest ∨ t.deleter r = some i) : Tracked t := by
  have hstays {j : Nat} (hj : s.progress j = .committed) : t.progress j = .committed := by
    have hne : j ≠ i := by
      rintro rfl
      exact hi hj
    rw [hprogress, Function.update_of_ne hne, hj]
  constructor
  · intro r hr j hj
    exact hstays (h.written r (hrows ▸ hr) j hj)
  · intro k r hr j hj
    by_cases hk : k = i
    · subst hk
      rw [hprogress, Function.update_self] at hr
      exact hstays (hwritten r hr j hj)
    · rw [hprogress, Function.update_of_ne hk] at hr
      exact hstays (h.seen_written k r hr j hj)
  · intro k r hr hrow
    rw [hrows] at hrow
    by_cases hk : k = i
    · subst hk
      rw [hprogress, Function.update_self] at hr ⊢
      exact haccounted r hr hrow
    · rw [hprogress, Function.update_of_ne hk] at hr ⊢
      exact (h.accounted k r hr hrow).imp_right fun hd => hdeleter r k hd hk

theorem Tracked.moved (h : Tracked s) {p : Replacing} (hrows : t.rows = s.rows)
    (hprogress : t.progress = Function.update s.progress i p) (hi : s.progress i ≠ .committed)
    (hdeleter : t.deleter = s.deleter) (hseen : p.seen = (s.progress i).seen)
    (hrest : (s.progress i).rest ⊆ p.rest) : Tracked t := by
  refine h.of_progress hrows hprogress hi (fun r j hj _ => hdeleter ▸ hj) (fun r hr => ?_) fun r hr hrow => ?_
  · rw [hseen] at hr
    exact h.seen_written i r hr
  · rw [hseen] at hr
    rw [hdeleter]
    exact (h.accounted i r hr hrow).imp_left fun hmem => hrest hmem

theorem Tracked.committed (h : Tracked s) {seen : List Subscribed} (hp : s.progress i = .touched seen)
    (ht : Runs eventTypes s (.commit i) t) : Tracked t := by
  have hstays {j : Nat} (hj : s.progress j = .committed) : t.progress j = .committed := ht.committed_stays hj
  cases ht with
  | commit _ =>
    constructor
    · intro r hr j hj
      rcases List.mem_append.mp hr with hold | hnew
      · exact hstays (h.written r (List.mem_filter.mp hold).1 j hj)
      · obtain ⟨eventType, _, rfl⟩ := List.mem_map.mp hnew
        cases hj
        exact Function.update_self _ _ _
    · intro k r hr j hj
      by_cases hk : k = i
      · subst hk
        simp [release, goto, Replacing.seen] at hr
      · simp only [release, goto, Function.update_of_ne hk] at hr
        exact hstays (h.seen_written k r hr j hj)
    · intro k r hr hrow
      by_cases hk : k = i
      · subst hk
        simp [release, goto, Replacing.seen] at hr
      · simp only [release, goto, Function.update_of_ne hk] at hr ⊢
        rcases List.mem_append.mp hrow with hold | hnew
        · refine (h.accounted k r hr (List.mem_filter.mp hold).1).imp_right fun hd => ?_
          exact dropped_eq_some.mpr ⟨hd, hk⟩
        · obtain ⟨eventType, _, rfl⟩ := List.mem_map.mp hnew
          have hcommitted := h.seen_written k _ hr i rfl
          rw [hp] at hcommitted
          cases hcommitted

theorem Tracked.step (h : Tracked s) (ht : Runs eventTypes s a t) : Tracked t := by
  have hunfinished := ht.unfinished
  cases ht with
  | @delete i hp =>
    refine h.of_progress (p := .deleting s.rows s.rows) rfl rfl hunfinished (fun r j hj _ => hj) ?_ ?_
    · exact fun r hr j hj => h.written r hr j hj
    · exact fun r hr _ => .inl hr
  | @skipRow i r₀ seen rest hp hrest hgone =>
    have hseen : (s.progress i).seen = seen := by rw [hp]; rfl
    have hleft : (s.progress i).rest = rest := by rw [hp]; rfl
    refine h.of_progress (p := .deleting seen (rest.erase r₀)) rfl rfl hunfinished (fun r j hj _ => hj) ?_ ?_
    · exact fun r hr j hj => h.seen_written i r (hseen ▸ hr) j hj
    · intro r hr hrow
      have hne : r ≠ r₀ := by
        rintro rfl
        exact hgone hrow
      refine (h.accounted i r (hseen ▸ hr) hrow).imp_left fun hmem => ?_
      rw [hleft] at hmem
      exact (List.mem_erase_of_ne hne).mpr hmem
  | @deleteRow i r₀ seen rest hp hrest hrow₀ hfree =>
    have hseen : (s.progress i).seen = seen := by rw [hp]; rfl
    have hleft : (s.progress i).rest = rest := by rw [hp]; rfl
    refine h.of_progress (p := .deleting seen (rest.erase r₀)) rfl rfl hunfinished (fun r j hj _ => ?_) ?_ ?_
    · have hne : r ≠ r₀ := by
        rintro rfl
        rw [hfree] at hj
        cases hj
      exact (Function.update_of_ne hne _ _).trans hj
    · exact fun r hr j hj => h.seen_written i r (hseen ▸ hr) j hj
    · intro r hr hrow
      by_cases hne : r = r₀
      · subst hne
        exact .inr (Function.update_self _ _ _)
      · rcases h.accounted i r (hseen ▸ hr) hrow with hmem | hdeleted
        · rw [hleft] at hmem
          exact .inl ((List.mem_erase_of_ne hne).mpr hmem)
        · exact .inr ((Function.update_of_ne hne _ _).trans hdeleted)
  | @insert i seen hp =>
    exact h.moved (p := .inserting seen (eventTypes i).dedup) rfl rfl hunfinished rfl (by rw [hp]; rfl)
      (by rw [hp]; exact List.nil_subset _)
  | @insertRow i seen t₀ rest hp hfree hunique =>
    exact h.moved (p := .inserting seen rest) rfl rfl hunfinished rfl (by rw [hp]; rfl)
      (by rw [hp]; exact List.nil_subset _)
  | @touch i seen hp hh =>
    exact h.moved (p := .touched seen) rfl rfl hunfinished rfl (by rw [hp]; rfl)
      (by rw [hp]; exact List.nil_subset _)
  | @commit i seen hp => exact h.committed hp (.commit hp)
  | @fail i hc hf =>
    refine h.of_progress (p := .failed) rfl rfl hunfinished (fun r j hj hne => ?_) ?_ ?_
    · exact dropped_eq_some.mpr ⟨hj, hne⟩
    · exact fun r hr => by cases hr
    · exact fun r hr => by cases hr

/-! ### The set of one call -/

/-- The rows are the ones of before the calls as long as none has committed, and then those of a
call that has. -/
def Unmixed (eventTypes : Nat → List String) (existing : List String) (s : Subscriptions) : Prop :=
  (s.rows = (start existing).rows ∧ ∀ i, s.progress i ≠ .committed) ∨
    ∃ i, s.progress i = .committed ∧ ∀ eventType, (∃ r ∈ s.rows, r.eventType = eventType) ↔ eventType ∈ eventTypes i

/-- A call commits while its DELETE has seen every row there is. -/
def CommitsCurrent (s : Subscriptions) : ReplaceStmt → Prop
  | .commit i => ∀ r ∈ s.rows, r ∈ (s.progress i).seen
  | _ => True

instance (s : Subscriptions) : ∀ a, Decidable (s.CommitsCurrent a)
  | .commit i => inferInstanceAs (Decidable (∀ r ∈ s.rows, r ∈ (s.progress i).seen))
  | .delete _ | .deleteRow _ _ | .insert _ | .insertRow _ | .touch _ | .fail _ => isTrue trivial

theorem Runs.rows_stay (h : Runs eventTypes s a t) (ha : ∀ i, a ≠ .commit i) : t.rows = s.rows := by
  cases h with
  | commit => exact absurd rfl (ha _)
  | _ => rfl

theorem Runs.uncommitted_stays (h : Runs eventTypes s a t) (ha : ∀ i, a ≠ .commit i) {j : Nat}
    (hj : s.progress j ≠ .committed) : t.progress j ≠ .committed := by
  by_cases hne : j = a.call
  · subst hne
    cases h with
    | commit => exact absurd rfl (ha _)
    | _ => simp [release, goto, ReplaceStmt.call]
  · rw [h.other hne]
    exact hj

/-- A call that has seen every row there is has deleted them all when it commits. -/
theorem Tracked.commit_rows (h : Tracked s) {seen : List Subscribed} (hp : s.progress i = .touched seen)
    (hcurrent : s.CommitsCurrent (.commit i)) : (s.rows.filter fun r => s.deleter r ≠ some i) = [] := by
  rw [List.filter_eq_nil_iff]
  intro r hr
  have haccounted := h.accounted i r (hcurrent r hr) hr
  rw [hp] at haccounted
  have hdeleted : s.deleter r = some i := haccounted.resolve_left List.not_mem_nil
  simp [hdeleted]

theorem Unmixed.step {existing : List String} (h : Unmixed eventTypes existing s) (hs : Tracked s)
    (ht : Runs eventTypes s a t) (hcurrent : s.CommitsCurrent a) : Unmixed eventTypes existing t := by
  by_cases ha : ∃ i, a = .commit i
  · obtain ⟨i, rfl⟩ := ha
    cases ht with
    | commit hp =>
      refine .inr ⟨i, Function.update_self _ _ _, fun eventType => ?_⟩
      rw [hs.commit_rows hp hcurrent, List.nil_append]
      simp
  · have ha : ∀ i, a ≠ .commit i := fun i hi => ha ⟨i, hi⟩
    rcases h with ⟨hrows, hnone⟩ | ⟨i, hi, htypes⟩
    · exact .inl ⟨(ht.rows_stay ha).trans hrows, fun j => ht.uncommitted_stays ha (hnone j)⟩
    · refine .inr ⟨i, ht.committed_stays hi, ?_⟩
      rw [ht.rows_stay ha]
      exact htypes

/-! ### A run without one of its calls -/

/-- The state as if the call had not begun. -/
def without (s : Subscriptions) (i : Nat) : Subscriptions := (s.goto i .idle).release i

theorem start_without (existing : List String) (i : Nat) : (start existing).without i = start existing := by
  simp [without, goto, release, start, dropped]

theorem dropped_none (i : Nat) : dropped i none = none := rfl

theorem dropped_self (i : Nat) : dropped i (some i) = none := if_pos rfl

theorem dropped_of_ne {j : Nat} (h : j ≠ i) : dropped i (some j) = some j := dropped_eq_some.mpr ⟨rfl, h⟩

theorem dropped_dropped (i : Nat) (owner : Option Nat) : dropped i (dropped i owner) = dropped i owner := by
  by_cases h : owner = some i
  · rw [h, dropped_self, dropped_none]
  · simp [dropped, h]

theorem dropped_comm (i j : Nat) (owner : Option Nat) :
    dropped i (dropped j owner) = dropped j (dropped i owner) := by
  unfold dropped
  split <;> split <;> simp_all

theorem dropped_update_self {κ : Type} [DecidableEq κ] {owner : κ → Option Nat} {k : κ} (h : owner k = none) :
    (fun k' => dropped i (Function.update owner k (some i) k')) = fun k' => dropped i (owner k') := by
  funext k'
  by_cases hk : k' = k
  · subst hk
    rw [Function.update_self, dropped_self, h, dropped_none]
  · rw [Function.update_of_ne hk]

theorem dropped_update_of_ne {κ : Type} [DecidableEq κ] {owner : κ → Option Nat} {k : κ} {j : Nat} (h : j ≠ i) :
    (fun k' => dropped i (Function.update owner k (some j) k')) =
      Function.update (fun k' => dropped i (owner k')) k (some j) := by
  funext k'
  by_cases hk : k' = k
  · subst hk
    rw [Function.update_self, Function.update_self, dropped_of_ne h]
  · rw [Function.update_of_ne hk, Function.update_of_ne hk]

theorem Runs.without_self (h : Runs eventTypes s a t) (ha : a.call = i) (hcommit : a ≠ .commit i) :
    t.without i = s.without i := by
  subst ha
  cases h with
  | commit => exact absurd rfl hcommit
  | deleteRow hp hrest hrow hfree =>
    simp [without, goto, release, ReplaceStmt.call, dropped_update_self hfree]
  | insertRow hp hfree => simp [without, goto, release, ReplaceStmt.call, dropped_update_self hfree]
  | touch hp hh => simp [without, goto, release, ReplaceStmt.call, hh, dropped_self, dropped_none]
  | fail => simp [without, goto, release, ReplaceStmt.call, dropped_dropped]
  | _ => simp [without, goto, ReplaceStmt.call]

theorem without_progress {j : Nat} (h : j ≠ i) : (s.without i).progress j = s.progress j :=
  Function.update_of_ne h _ _

theorem goto_without {j : Nat} (h : j ≠ i) (p : Replacing) : (s.goto j p).without i = (s.without i).goto j p := by
  simp only [without, goto, release, Function.update_comm h]

theorem dropped_eq_none {owner : Option Nat} (h : owner = none) : dropped i owner = none := by
  rw [h, dropped_none]

theorem Runs.without_other (h : Runs eventTypes s a t) (ha : a.call ≠ i) :
    Runs eventTypes (s.without i) a (t.without i) := by
  cases h with
  | @delete j hp =>
    have hne : j ≠ i := ha
    rw [goto_without hne]
    exact .delete ((without_progress hne).trans hp)
  | @skipRow j r seen rest hp hrest hgone =>
    have hne : j ≠ i := ha
    rw [goto_without hne]
    exact .skipRow ((without_progress hne).trans hp) hrest hgone
  | @deleteRow j r seen rest hp hrest hrow hfree =>
    have hne : j ≠ i := ha
    have hdeleted : ({ s.goto j (.deleting seen (rest.erase r)) with
        deleter := Function.update s.deleter r (some j) } : Subscriptions).without i =
        { (s.without i).goto j (.deleting seen (rest.erase r)) with
          deleter := Function.update (s.without i).deleter r (some j) } := by
      simp only [without, goto, release, Function.update_comm hne, dropped_update_of_ne hne]
    rw [hdeleted]
    exact .deleteRow ((without_progress hne).trans hp) hrest hrow (dropped_eq_none hfree)
  | @insert j seen hp =>
    have hne : j ≠ i := ha
    rw [goto_without hne]
    exact .insert ((without_progress hne).trans hp)
  | @insertRow j seen eventType rest hp hfree hunique =>
    have hne : j ≠ i := ha
    have hinserted : ({ s.goto j (.inserting seen rest) with
        inserter := Function.update s.inserter eventType (some j) } : Subscriptions).without i =
        { (s.without i).goto j (.inserting seen rest) with
          inserter := Function.update (s.without i).inserter eventType (some j) } := by
      simp only [without, goto, release, Function.update_comm hne, dropped_update_of_ne hne]
    rw [hinserted]
    refine .insertRow ((without_progress hne).trans hp) (dropped_eq_none hfree) fun r hr hkey => ?_
    exact dropped_eq_some.mpr ⟨hunique r hr hkey, hne⟩
  | @touch j seen hp hh =>
    have hne : j ≠ i := ha
    have htouched : ({ s.goto j (.touched seen) with holder := some j } : Subscriptions).without i =
        { (s.without i).goto j (.touched seen) with holder := some j } := by
      simp only [without, goto, release, Function.update_comm hne, dropped_of_ne hne]
    rw [htouched]
    exact .touch ((without_progress hne).trans hp) (dropped_eq_none hh)
  | @commit j seen hp =>
    have hne : j ≠ i := ha
    have hdeleter (r : Subscribed) : dropped i (s.deleter r) ≠ some j ↔ s.deleter r ≠ some j := by
      rw [Ne, dropped_eq_some, and_iff_left hne]
    have hcommitted : ({ (s.goto j .committed).release j with
        rows := (s.rows.filter fun r => s.deleter r ≠ some j) ++
          (eventTypes j).dedup.map fun eventType => ⟨eventType, some j⟩ } : Subscriptions).without i =
        { ((s.without i).goto j .committed).release j with
          rows := ((s.without i).rows.filter fun r => (s.without i).deleter r ≠ some j) ++
            (eventTypes j).dedup.map fun eventType => ⟨eventType, some j⟩ } := by
      simp only [without, goto, release, Function.update_comm hne, dropped_comm i j, hdeleter]
    rw [hcommitted]
    exact .commit ((without_progress hne).trans hp)
  | @fail j hc hf =>
    have hne : j ≠ i := ha
    have hfailed : ((s.goto j .failed).release j).without i = ((s.without i).goto j .failed).release j := by
      simp only [without, goto, release, Function.update_comm hne, dropped_comm i j]
    rw [hfailed]
    exact .fail (by rwa [without_progress hne]) (by rwa [without_progress hne])

/-- A run in which a call does not commit is one without it. -/
theorem run_without {as : List ReplaceStmt} (h : Transition.run (step eventTypes) s as = some t)
    (hcommit : .commit i ∉ as) :
    Transition.run (step eventTypes) (s.without i) (as.filter fun a => a.call ≠ i) = some (t.without i) := by
  induction as generalizing s with
  | nil =>
    cases h
    rfl
  | cons a as ih =>
    obtain ⟨u, hu, hrest⟩ := Transition.run_cons_eq_some.mp h
    have hruns := Runs.of_step hu
    have htail := ih hrest fun hm => hcommit (List.mem_cons_of_mem _ hm)
    by_cases ha : a.call = i
    · have hsame : u.without i = s.without i :=
        hruns.without_self ha fun he => hcommit (he ▸ List.mem_cons_self)
      rw [List.filter_cons_of_neg (by simpa using ha), ← hsame]
      exact htail
    · rw [List.filter_cons_of_pos (by simpa using ha)]
      exact Transition.run_cons_eq_some.mpr ⟨_, (hruns.without_other ha).step_eq, htail⟩

theorem run_other {as : List ReplaceStmt} (h : Transition.run (step eventTypes) s as = some t)
    (has : ∀ a ∈ as, a.call ≠ i) : t.progress i = s.progress i := by
  induction as generalizing s with
  | nil =>
    cases h
    rfl
  | cons a as ih =>
    obtain ⟨u, hu, hrest⟩ := Transition.run_cons_eq_some.mp h
    rw [ih hrest fun b hb => has b (List.mem_cons_of_mem _ hb),
      (Runs.of_step hu).other (has a List.mem_cons_self).symm]

/-! ### A call on its own -/

/-- The statements of a call with nothing in between. -/
def alone (i : Nat) (existing types : List String) : List ReplaceStmt :=
  (.delete i :: (existing.map fun eventType => .deleteRow i ⟨eventType, none⟩)) ++
    (.insert i :: List.replicate types.dedup.length (.insertRow i)) ++ [.touch i, .commit i]

theorem exists_deletes (eventTypes : Nat → List String) {seen rest : List Subscribed}
    (hp : s.progress i = .deleting seen rest) (hrest : ∀ r ∈ rest, r ∈ s.rows ∧ s.deleter r = none) (hnodup : rest.Nodup) :
    ∃ t, Transition.run (step eventTypes) s (rest.map (.deleteRow i)) = some t ∧
      t.progress i = .deleting seen [] ∧ t.rows = s.rows ∧ t.inserter = s.inserter ∧ t.holder = s.holder ∧
      ∀ r, t.deleter r = if r ∈ rest then some i else s.deleter r := by
  induction rest generalizing s with
  | nil => exact ⟨s, rfl, hp, rfl, rfl, rfl, fun r => by simp⟩
  | cons r₀ rest ih =>
    obtain ⟨hrow, hfree⟩ := hrest r₀ List.mem_cons_self
    obtain ⟨hnew, hnodup⟩ := List.nodup_cons.mp hnodup
    have hruns : Runs eventTypes s (.deleteRow i r₀)
        { s.goto i (.deleting seen ((r₀ :: rest).erase r₀)) with
          deleter := Function.update s.deleter r₀ (some i) } :=
      .deleteRow hp List.mem_cons_self hrow hfree
    rw [List.erase_cons_head] at hruns
    have hleft : ∀ r ∈ rest, r ∈ s.rows ∧ Function.update s.deleter r₀ (some i) r = none := by
      intro r hr
      have hne : r ≠ r₀ := fun he => hnew (he ▸ hr)
      rw [Function.update_of_ne hne]
      exact hrest r (List.mem_cons_of_mem _ hr)
    obtain ⟨t, hrun, hprogress, hrows, hinserter, hholder, hdeleter⟩ :=
      ih (s := { s.goto i (.deleting seen rest) with deleter := Function.update s.deleter r₀ (some i) })
        (Function.update_self _ _ _) hleft hnodup
    refine ⟨t, Transition.run_cons_eq_some.mpr ⟨_, hruns.step_eq, hrun⟩, hprogress, hrows, hinserter, hholder,
      fun r => ?_⟩
    rw [hdeleter]
    by_cases hr : r = r₀
    · subst hr
      simp [hnew]
    · simp [hr]

theorem exists_inserts (eventTypes : Nat → List String) {seen : List Subscribed} {rest : List String}
    (hp : s.progress i = .inserting seen rest)
    (hrest : ∀ eventType ∈ rest, s.inserter eventType = none) (hrows : ∀ r ∈ s.rows, s.deleter r = some i)
    (hnodup : rest.Nodup) :
    ∃ t, Transition.run (step eventTypes) s (List.replicate rest.length (.insertRow i)) = some t ∧
      t.progress i = .inserting seen [] ∧ t.rows = s.rows ∧ t.deleter = s.deleter ∧ t.holder = s.holder := by
  induction rest generalizing s with
  | nil => exact ⟨s, rfl, hp, rfl, rfl, rfl⟩
  | cons eventType rest ih =>
    obtain ⟨hnew, hnodup⟩ := List.nodup_cons.mp hnodup
    have hruns : Runs eventTypes s (.insertRow i) { s.goto i (.inserting seen rest) with
        inserter := Function.update s.inserter eventType (some i) } :=
      .insertRow hp (hrest eventType List.mem_cons_self) fun r hr _ => hrows r hr
    have hleft : ∀ key ∈ rest, Function.update s.inserter eventType (some i) key = none := by
      intro key hkey
      have hne : key ≠ eventType := fun he => hnew (he ▸ hkey)
      rw [Function.update_of_ne hne]
      exact hrest key (List.mem_cons_of_mem _ hkey)
    obtain ⟨t, hrun, hprogress, hkept⟩ :=
      ih (s := { s.goto i (.inserting seen rest) with inserter := Function.update s.inserter eventType (some i) })
        (Function.update_self _ _ _) hleft hrows hnodup
    exact ⟨t, Transition.run_cons_eq_some.mpr ⟨_, hruns.step_eq, hrun⟩, hprogress, hkept⟩

theorem exists_touch (eventTypes : Nat → List String) {seen : List Subscribed}
    (hp : s.progress i = .inserting seen []) (hh : s.holder = none) :
    ∃ t, s.step eventTypes (.touch i) = some t ∧ t.progress i = .touched seen ∧ t.rows = s.rows ∧
      t.deleter = s.deleter :=
  ⟨_, (Runs.touch hp hh).step_eq, Function.update_self _ _ _, rfl, rfl⟩

theorem exists_commit (eventTypes : Nat → List String) {seen : List Subscribed}
    (hp : s.progress i = .touched seen) :
    ∃ t, s.step eventTypes (.commit i) = some t ∧ t.rows = (s.rows.filter fun r => s.deleter r ≠ some i) ++
      (eventTypes i).dedup.map fun eventType => ⟨eventType, some i⟩ :=
  ⟨_, (Runs.commit hp).step_eq, rfl⟩

theorem exists_alone (eventTypes : Nat → List String) (i : Nat) {existing : List String} (hnodup : existing.Nodup) :
    ∃ t, Transition.run (step eventTypes) (start existing) (alone i existing (eventTypes i)) = some t ∧
      t.rows = (eventTypes i).dedup.map fun eventType => ⟨eventType, some i⟩ := by
  have hinjective : Function.Injective fun eventType => Subscribed.mk eventType none := fun _ _ h => by
    simpa using h
  have hstart : Runs eventTypes (start existing) (.delete i)
      ((start existing).goto i (.deleting (start existing).rows (start existing).rows)) := .delete rfl
  obtain ⟨u, hdeletes, hu, hurows, huinserter, huholder, hudeleter⟩ :=
    exists_deletes eventTypes (s := (start existing).goto i (.deleting (start existing).rows (start existing).rows))
      (Function.update_self _ _ _) (fun r hr => ⟨hr, rfl⟩) (hnodup.map hinjective)
  have hdeleted : ∀ r ∈ u.rows, u.deleter r = some i := by
    intro r hr
    rw [hurows] at hr
    rw [hudeleter]
    exact if_pos hr
  have hinsert : Runs eventTypes u (.insert i) (u.goto i (.inserting (start existing).rows (eventTypes i).dedup)) :=
    .insert hu
  obtain ⟨v, hinserts, hv, hvrows, hvdeleter, hvholder⟩ :=
    exists_inserts eventTypes (s := u.goto i (.inserting (start existing).rows (eventTypes i).dedup))
      (Function.update_self _ _ _) (fun key _ => congrFun huinserter key) hdeleted (List.nodup_dedup _)
  obtain ⟨w, htouch, hw, hwrows, hwdeleter⟩ := exists_touch eventTypes hv (hvholder.trans huholder)
  obtain ⟨t, hcommit, hrows⟩ := exists_commit eventTypes hw
  refine ⟨t, ?_, ?_⟩
  · have hfirst := Transition.run_cons_eq_some.mpr ⟨_, hstart.step_eq, hdeletes⟩
    have hsecond := Transition.run_cons_eq_some.mpr ⟨_, hinsert.step_eq, hinserts⟩
    have hend : Transition.run (step eventTypes) t [] = some t := rfl
    have hthird := Transition.run_cons_eq_some.mpr
      ⟨_, htouch, Transition.run_cons_eq_some.mpr ⟨_, hcommit, hend⟩⟩
    have hrun := Transition.run_append_of (Transition.run_append_of hfirst hsecond) hthird
    simpa only [alone, start, List.map_map, Function.comp_def] using hrun
  · have hgone : (w.rows.filter fun r => w.deleter r ≠ some i) = [] := by
      rw [List.filter_eq_nil_iff]
      intro r hr
      rw [hwrows, hvrows] at hr
      rw [hwdeleter, hvdeleter, goto, hdeleted r hr]
      simp
    rw [hrows, hgone, List.nil_append]

/-- On its own a call does what the repository's transaction does. -/
theorem alone_eq_replaceSubscriptions {db db' : Database} {id : Nat} {existing types : List String}
    (hnodup : existing.Nodup)
    (h : PrismaEndpointsRepository.replaceSubscriptions db id (some types) = .ok db') (i : Nat) :
    ∃ t, Transition.run (step fun _ => types) (start existing) (alone i existing types) = some t ∧
      ((t.rows.map Subscribed.eventType : List String) : Multiset String) = db'.eventTypes id := by
  obtain ⟨t, hrun, hrows⟩ := exists_alone (fun _ => types) i hnodup
  refine ⟨t, hrun, ?_⟩
  have hreplaced : db' = PrismaEndpointsRepository.resubscribed db id (some types) := by
    simp only [PrismaEndpointsRepository.replaceSubscriptions] at h
    split at h
    · cases h
    · exact (Except.ok.inj h).symm
  rw [hreplaced, eventTypes_resubscribed, if_pos rfl, hrows]
  simp [Function.comp_def]

end Subscriptions

open Subscriptions in
/-- In a run whose calls each commit while their DELETE has seen every row there is no state has a
mixed set; and a call that does not commit leaves the rows as a run without it does. -/
theorem updates_unmixed (eventTypes : Nat → List String) (existing : List String) (as : List ReplaceStmt) :
    (Transition.Along (step eventTypes) (fun s a _ => s.CommitsCurrent a) (start existing) as →
      Transition.Visits (step eventTypes) (Unmixed eventTypes existing) (start existing) as) ∧
    ∀ i t, .commit i ∉ as → Transition.run (step eventTypes) (start existing) as = some t →
      ∃ t', Transition.run (step eventTypes) (start existing) (as.filter fun a => a.call ≠ i) = some t' ∧
        t'.rows = t.rows := by
  constructor
  · intro h
    have hvisits := Transition.Along.visits
      (I := fun s => Tracked s ∧ Unmixed eventTypes existing s) (fun s a t hs ht hcurrent => ?_)
      ⟨Tracked.start existing, .inl ⟨rfl, fun i => by simp [start]⟩⟩ h
    · exact hvisits.mono fun s hs => hs.2
    · have hruns := Runs.of_step ht
      exact ⟨hs.1.step hruns, hs.2.step hs.1 hruns hcurrent⟩
  · intro i t hcommit hrun
    have hwithout := run_without hrun hcommit
    rw [start_without] at hwithout
    exact ⟨_, hwithout, rfl⟩

/-- One call for `b`, and another for `c`. -/
def rivalTypes (i : Nat) : List String := if i = 0 then ["b"] else ["c"]

open Subscriptions in
theorem updates_unmixed_in_turn :
    Transition.Visits (step rivalTypes) (Unmixed rivalTypes ["a"]) (start ["a"])
      (alone 0 ["a"] ["b"] ++ [.delete 1, .deleteRow 1 ⟨"b", some 0⟩, .insert 1, .insertRow 1, .touch 1, .commit 1]) :=
  (updates_unmixed rivalTypes ["a"] _).1 (by decide +kernel)

/-- The second call's DELETE starts before the first has committed, and waits for it at the one row. -/
def rivals : List ReplaceStmt :=
  [.delete 0, .delete 1, .deleteRow 0 ⟨"a", none⟩, .insert 0, .insertRow 0, .touch 0, .commit 0,
    .deleteRow 1 ⟨"a", none⟩, .insert 1, .insertRow 1, .touch 1, .commit 1]

open Subscriptions in
theorem updates_mixed : ¬ ∀ (eventTypes : Nat → List String) (existing : List String) (as : List ReplaceStmt) t,
    Transition.run (step eventTypes) (start existing) as = some t →
    (∀ i, t.progress i = .idle ∨ t.progress i = .committed ∨ t.progress i = .failed) →
    Unmixed eventTypes existing t := by
  intro h
  have hfinal : (Transition.run (step rivalTypes) (start ["a"]) rivals).map
      (fun t => (t.rows, t.progress 0, t.progress 1)) =
        some ([⟨"b", some 0⟩, ⟨"c", some 1⟩], .committed, .committed) := by decide +kernel
  obtain ⟨t, hrun, ht⟩ := Option.map_eq_some_iff.mp hfinal
  simp only [Prod.mk.injEq] at ht
  obtain ⟨hrows, hfirst, hsecond⟩ := ht
  have hfinished (i : Nat) : t.progress i = .idle ∨ t.progress i = .committed ∨ t.progress i = .failed := by
    by_cases h0 : i = 0
    · exact .inr (.inl (h0 ▸ hfirst))
    by_cases h1 : i = 1
    · exact .inr (.inl (h1 ▸ hsecond))
    · refine .inl (run_other hrun fun a ha => ?_)
      simp only [rivals, List.mem_cons, List.not_mem_nil, or_false] at ha
      rcases ha with rfl | rfl | rfl | rfl | rfl | rfl | rfl | rfl | rfl | rfl | rfl | rfl <;>
        simp only [ReplaceStmt.call] <;> omega
  rcases h rivalTypes ["a"] rivals t hrun hfinished with ⟨hstart, _⟩ | ⟨i, _, htypes⟩
  · simp [hrows, start] at hstart
  · rw [hrows] at htypes
    have hb : "b" ∈ rivalTypes i := (htypes "b").mp ⟨_, List.mem_cons_self, rfl⟩
    have hc : "c" ∈ rivalTypes i := (htypes "c").mp ⟨_, List.mem_cons_of_mem _ List.mem_cons_self, rfl⟩
    unfold rivalTypes at hb hc
    split at hb <;> simp_all

end WebhookEngine
