import WebhookEngine.Provenance

/-! Whether a finished delivery stays finished. The checks are made on rows read
earlier; the writes that follow them go by identifier alone. -/

namespace WebhookEngine

open Relational

/-- No step moves a delivery out of SUCCESS, and only a replay moves one out of DLQ or CANCELLED. -/
def TerminalFinal (s : System) (a : Act) (t : System) : Prop :=
  ∀ d r r', s.db.deliveries.row d = some r → t.db.deliveries.row d = some r' →
    (r.status = .success → r'.status = .success) ∧
      (r.status = .dlq ∨ r.status = .cancelled →
        r'.status = r.status ∨ ∃ q, a = .replayReset q ∧ s.replays q = some d)

namespace Txn

variable {cfg : Config} {now : Time} {db db' : Database} {x : Txn} {d : Nat} {r : Delivery}

theorem rewrite_overwrites {st : DeliveryStatus} (h : x.overwrites = some (d, st)) :
    (x.rewrite now d r).status = st := by
  cases x <;> simp only [overwrites, Option.some.injEq, Prod.mk.injEq, reduceCtorEq] at h
  all_goals
    obtain ⟨rfl, rfl⟩ := h
    simp [rewrite, Delivery.succeed, Delivery.deadLetter, Delivery.cancel, Delivery.fail, Delivery.rateLimit]

theorem rewrite_resets (h : x.resets = some d) : x.rewrite now d r = r.reset now := by
  cases x <;> simp only [resets, Option.some.injEq, reduceCtorEq] at h
  subst h
  simp [rewrite]

/-- A claim and a stale recovery leave a terminal row alone, so only a write by identifier
or a replay can change it. -/
theorem rewrite_terminal (hr : r.status.terminal = true) (ho : ∀ st, x.overwrites ≠ some (d, st))
    (hx : x.resets ≠ some d) : x.rewrite now d r = r := by
  generalize hq : x.rewrite now d r = q
  cases hq ▸ x.rewrites now d r with
  | same => rfl
  | claim hc =>
    simp only [Delivery.claimableAs, Bool.and_eq_true] at hc
    rw [DeliveryStatus.claimable_of_terminal hr] at hc
    cases hc.2
  | overwrite h => exact absurd h (ho _)
  | recover hs =>
    simp only [Delivery.staleBefore, Bool.and_eq_true, beq_iff_eq] at hs
    rw [hs.1] at hr
    cases hr
  | reset => exact absurd rfl hx

theorem apply_of_overwrites {st : DeliveryStatus} (hl : db.Linked) (h : x.overwrites = some (d, st))
    (hr : db.deliveries.row d = some r) : (x.apply cfg now db).isSome = true := by
  have hev := hl.event d r hr
  have hsettle : ∀ f : Delivery → Delivery, (f r).eventId = r.eventId →
      (db.settle now d f).isSome = true := by
    intro f hf
    exact Option.isSome_iff_exists.mpr ⟨_, Database.settle_eq_some.mpr ⟨r, hr, by rw [hf]; exact hev, rfl⟩⟩
  have hschedule : ∀ (f : Delivery → Delivery) (at' n : Nat), (db.schedule now d f at' n).isSome = true :=
    fun f at' n => Option.isSome_iff_exists.mpr ⟨_, Database.schedule_eq_some.mpr ⟨r, hr, rfl⟩⟩
  cases x <;> simp only [overwrites, Option.some.injEq, Prod.mk.injEq, reduceCtorEq] at h
  all_goals obtain ⟨rfl, rfl⟩ := h
  · exact hsettle _ rfl
  · exact hsettle _ rfl
  · exact hsettle _ rfl
  · exact hschedule _ _ _
  · exact hschedule _ _ _

theorem apply_of_resets (hl : db.Linked) (h : x.resets = some d) (hr : db.deliveries.row d = some r) :
    (x.apply cfg now db).isSome = true := by
  cases x <;> simp only [resets, Option.some.injEq, reduceCtorEq] at h
  subst h
  exact Option.isSome_iff_exists.mpr
    ⟨_, Database.resetForReplay_eq_some.mpr ⟨r, hr, hl.event _ r hr, rfl⟩⟩

end Txn

namespace System

variable {cfg : Config} {s t : System} {a : Act} {x : Txn} {d : Nat} {r : Delivery}

theorem Step.rewritten (h : Step cfg s a t) (hx : s.txn cfg a = some x)
    (hok : (x.apply cfg s.now s.db).isSome = true) (hr : s.db.deliveries.row d = some r)
    (hk : x ≠ .cleanupOldEvents) : t.db.deliveries.row d = some (x.rewrite s.now d r) := by
  obtain ⟨db, hdb⟩ := Option.isSome_iff_exists.mp hok
  have ht : t.db = db := by
    rw [h.db]
    simp [hx, hdb]
  rw [ht]
  refine (Txn.deliveries_becomes hdb).kept hr ?_
  cases x with
  | cleanupOldEvents => exact absurd rfl hk
  | _ => rfl

end System

/-- A write by identifier finds its row unfinished, or in the status it writes; a replay
finds it not successful. -/
def LandsOnLive (cfg : Config) (s : System) (a : Act) (_ : System) : Prop :=
  ∀ x ∈ s.txn cfg a,
    (∀ p ∈ x.overwrites, ∀ r ∈ s.db.deliveries.row p.1, r.status.terminal = true → r.status = p.2) ∧
      ∀ d ∈ x.resets, ∀ r ∈ s.db.deliveries.row d, r.status ≠ .success

theorem terminalFinal_iff_landsOnLive {cfg : Config} {s t : System} {a : Act} (hl : s.db.Linked)
    (h : s.Step cfg a t) : TerminalFinal s a t ↔ LandsOnLive cfg s a t := by
  constructor
  · intro hfinal x hx
    constructor
    · rintro ⟨d, st⟩ ho r hr hterm
      have hne : x ≠ .cleanupOldEvents := by
        rintro rfl
        cases ho
      have hrow := h.rewritten hx (Txn.apply_of_overwrites hl ho hr) hr hne
      have hst : (x.rewrite s.now d r).status = st := Txn.rewrite_overwrites ho
      obtain ⟨hsuccess, hother⟩ := hfinal d r _ hr hrow
      rw [hst] at hsuccess hother
      rcases DeliveryStatus.terminal_iff.mp hterm with hs | hs
      · exact hs.trans (hsuccess hs).symm
      · rcases hother hs with he | ⟨q, rfl, hq⟩
        · exact he.symm
        · have hreset : s.txn cfg (.replayReset q) = some (.resetForReplay d) := by simp [System.txn, hq]
          rw [hreset] at hx
          cases hx
          cases ho
    · intro d hd r hr hs
      have hne : x ≠ .cleanupOldEvents := by
        rintro rfl
        cases hd
      have hrow := h.rewritten hx (Txn.apply_of_resets hl hd hr) hr hne
      have hpending := (hfinal d r _ hr hrow).1 hs
      rw [Txn.rewrite_resets hd] at hpending
      cases hpending
  · intro hlands d r r' hr hr'
    have hterm : r.status.terminal = true → r'.status = r.status ∨
        r.status ≠ .success ∧ ∃ q, a = .replayReset q ∧ s.replays q = some d := by
      intro hterm
      rcases h.row_origin hr' with ⟨r₀, hr₀, he⟩ | ⟨hge, _⟩
      · rw [hr] at hr₀
        cases hr₀
        rcases he with rfl | ⟨x, hx, _, rfl⟩
        · exact .inl rfl
        · obtain ⟨ho, hreset⟩ := hlands x hx
          by_cases hd : x.resets = some d
          · refine .inr ⟨hreset d hd r hr, ?_⟩
            cases x <;> simp only [Txn.resets, Option.some.injEq, reduceCtorEq] at hd
            subst hd
            cases System.attempts_of_txn hx with
            | replayReset hq => exact ⟨_, rfl, hq⟩
          · by_cases hw : ∃ st, x.overwrites = some (d, st)
            · obtain ⟨st, hw⟩ := hw
              rw [Txn.rewrite_overwrites hw]
              exact .inl (ho (d, st) hw r hr hterm).symm
            · rw [Txn.rewrite_terminal hterm (fun st he => hw ⟨st, he⟩) hd]
              exact .inl rfl
      · have hlt := Table.lt_next hr
        omega
    constructor
    · intro hs
      rcases hterm (by rw [hs]; rfl) with he | ⟨hno, _⟩
      · rw [he, hs]
      · exact absurd hs hno
    · intro hs
      rcases hterm (DeliveryStatus.terminal_iff.mpr (.inr hs)) with he | ⟨_, hq⟩
      · exact .inl he
      · exact .inr hq

/-- A run keeps terminal statuses exactly when its writes by identifier and its replays
all land on deliveries they do not move out of one. -/
theorem terminal_statuses_final_iff (cfg : Config) (u : Setup) (as : List Act) :
    Transition.Along (System.step cfg) TerminalFinal (.boot u) as ↔
      Transition.Along (System.step cfg) (LandsOnLive cfg) (.boot u) as := by
  refine Transition.along_congr (J := fun s => s.db.Linked) (fun s a t hl ht => ?_)
    (fun s a t hl ht => ?_) (System.boot_linked u)
  · exact (System.Step.of_step ht).linked hl
  · exact terminalFinal_iff_landsOnLive hl (.of_step ht)

/-- Two workers hold the job. The second is told to wait while the first delivers. -/
def lateDeferral : List Act :=
  Script.ingest ++ Script.publish 0 ++ [.take 1 (jobId 0 0), .find 1] ++ Script.claim 0 (jobId 0 0) ++
    [.limit 1 (some 1000)] ++ Script.answer 0 200 ++ [.settle 0 0, .finish 0]

theorem terminal_statuses_overwritten : ¬ ∀ (cfg : Config) (u : Setup) (as : List Act),
    Transition.Along (System.step cfg) TerminalFinal (.boot u) as := by
  intro h
  have hrun : System.Reached .defaults (.subscribed 1) lateDeferral
      (.after .defaults (.subscribed 1) lateDeferral) := Transition.run_ending (by decide +kernel)
  have hlast := (h .defaults (.subscribed 1) (lateDeferral ++ [.defer 1])).of_append hrun
  obtain ⟨t, ht⟩ := Option.isSome_iff_exists.mp (show
    ((System.after .defaults (.subscribed 1) lateDeferral).step .defaults (.defer 1)).isSome = true by
      decide +kernel)
  have hbefore : ((System.after .defaults (.subscribed 1) lateDeferral).db.deliveries.row 0).map
      Delivery.status = some .success := by decide +kernel
  have hafter : (((System.after .defaults (.subscribed 1) lateDeferral).step .defaults (.defer 1)).bind
      fun t => (t.db.deliveries.row 0).map Delivery.status) = some .pending := by decide +kernel
  rw [ht, Option.bind_some] at hafter
  obtain ⟨r, hr, hs⟩ := Option.map_eq_some_iff.mp hbefore
  obtain ⟨r', hr', hs'⟩ := Option.map_eq_some_iff.mp hafter
  have hkept := ((hlast t ht).1 0 r r' hr hr').1 hs
  rw [hs'] at hkept
  cases hkept

end WebhookEngine
