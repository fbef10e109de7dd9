import WebhookEngine.Offers

/-! Whether two jobs can wait for the same delivery and attempt. -/

namespace WebhookEngine

open Relational

/-- A job of the row has failed, or was lost before anybody took it. -/
def Spoiled (cfg : Config) (u : Setup) (as : List Act) (i : Nat) : Prop :=
  ∃ before after s m job, as = before ++ after ∧ System.Reached cfg u before s ∧
    s.queue (jobId i m) = some job ∧
    (job.state = .failed ∨ job.state = .waiting ∧ ∃ rest, after = .lose (jobId i m) :: rest)

/-- No two jobs wait for one delivery and attempt, unless one of their rows is spoiled. -/
def NoDuplicateJobs (spoiled : Nat → Prop) (s : System) : Prop :=
  ∀ j j' job job', s.queue j = some job → s.queue j' = some job' → job.state = .waiting →
    job'.state = .waiting → job.deliveryId = job'.deliveryId →
    job.expectedAttempt = job'.expectedAttempt → j ≠ j' →
    ∃ i m, (j = jobId i m ∨ j' = jobId i m) ∧ spoiled i

/-- The row is spoiled, or all that is offered beside it is. -/
def Unrivalled (spoiled : Nat → Prop) (i : Nat) (offer : Nat → Nat → Prop) : Prop :=
  spoiled i ∨ ∀ i' m', offer i' m' → spoiled i'

def anyTime : Time → Bool := fun _ => true

/-- What a step offers anew, it offers alone: a row bumped by the error path or reopened, a
row scheduled by a deferral, a retry or a recovery, and a row or batch entry whose started
job the queue forgets. -/
structure SoleOffer (spoiled : Nat → Prop) (cfg : Config) (s : System) (a : Act) : Prop where
  bumped : ∀ i o, s.Bumps a i o → Unrivalled spoiled i
    (Offer anyTime s.queue (Function.update s.db.deliveryOutbox.row i none) (s.remaining a)
      o.deliveryId o.attemptNumber)
  scheduled : ∀ x, s.txn cfg a = some x → s.ok cfg a = true → ∀ o ∈ x.scheduled s.now s.db,
    ∀ i m, s.Offers anyTime o.deliveryId o.attemptNumber i m → spoiled i
  forgotten : ∀ i m job d n, a = .evict (jobId i m) ∨ a = .lose (jobId i m) →
    s.queue (jobId i m) = some job → job.state ≠ .waiting →
    Offer anyTime (s.queue.remove (jobId i m)) s.db.deliveryOutbox.row s.publishers d n i m →
    Unrivalled spoiled i fun i' m' => (i', m') ≠ (i, m) ∧ s.Offers anyTime d n i' m'

/-- Every step of the run offers alone what it offers anew. -/
def SoleOffers (cfg : Config) (u : Setup) (as : List Act) : Prop :=
  ∀ before a after s, as = before ++ a :: after → System.Reached cfg u before s →
    SoleOffer (Spoiled cfg u before) cfg s a

def Sole (spoiled : Nat → Prop) (s : System) : Prop :=
  ∀ d n i m i' m', s.Offers anyTime d n i m → s.Offers anyTime d n i' m' → (i, m) ≠ (i', m') →
    spoiled i ∨ spoiled i'

theorem Spoiled.snoc {cfg : Config} {u : Setup} {as : List Act} {i : Nat} (h : Spoiled cfg u as i)
    (a : Act) : Spoiled cfg u (as ++ [a]) i := by
  obtain ⟨before, after, s, m, job, rfl, hs, hj, hst⟩ := h
  refine ⟨before, after ++ [a], s, m, job, by simp, hs, hj, ?_⟩
  rcases hst with hf | ⟨hw, rest, rfl⟩
  · exact .inl hf
  · exact .inr ⟨hw, rest ++ [a], rfl⟩

theorem Txn.scheduled_inj {now : Time} {db : Database} {x : Txn} {k k' : Nat} {o o' : DeliveryOutbox}
    (hk : (x.scheduled now db)[k]? = some o) (hk' : (x.scheduled now db)[k']? = some o')
    (hd : o.deliveryId = o'.deliveryId) : k = k' := by
  have single : ∀ l : List DeliveryOutbox, l.length ≤ 1 → l[k]? = some o → l[k']? = some o' → k = k' := by
    intro l hl h h'
    have hlt := (List.getElem?_eq_some_iff.mp h).1
    have hlt' := (List.getElem?_eq_some_iff.mp h').1
    omega
  cases x with
  | createForTenant input endpointIds =>
    simp only [scheduled, List.getElem?_map, Option.map_eq_some_iff, List.getElem?_eq_some_iff,
      List.length_range', List.getElem_range'] at hk hk'
    obtain ⟨e, ⟨_, rfl⟩, rfl⟩ := hk
    obtain ⟨e', ⟨_, rfl⟩, rfl⟩ := hk'
    simp only [DeliveryOutbox.created] at hd
    omega
  | recoverStaleDelivery id m cutoff =>
    refine single _ ?_ hk hk'
    simp only [scheduled]
    split <;> simp
  | _ => exact single _ (by simp [scheduled]) hk hk'

namespace Sole

variable {cfg : Config} {s t : System} {a : Act} {spoiled spoiled' : Nat → Prop}

theorem step_new (hs : SoleOffer spoiled cfg s a) (h : s.Step cfg a t) (ha : a.native = true)
    (hmono : ∀ i, spoiled i → spoiled' i)
    (hlose : ∀ i m job, a = .lose (jobId i m) → s.queue (jobId i m) = some job →
      job.state = .waiting → spoiled' i) {d n i m i' m' : Nat}
    (ho : t.Offers anyTime d n i m) (ho' : t.Offers anyTime d n i' m') (hne : (i, m) ≠ (i', m'))
    (hnew : ¬ s.Offers anyTime d n i m) : spoiled' i ∨ spoiled' i' := by
  have unrivalled : ∀ (offer : Nat → Nat → Prop), Unrivalled spoiled i offer → offer i' m' →
      spoiled' i ∨ spoiled' i' := by
    intro offer hu hoffer
    rcases hu with hi | hall
    · exact .inl (hmono i hi)
    · exact .inr (hmono i' (hall i' m' hoffer))
  -- the queue forgets a started job, and what it leaves behind is offered alone
  have forgotten : ∀ job, a = .evict (jobId i m) ∨ a = .lose (jobId i m) →
      s.queue (jobId i m) = some job → job.state ≠ .waiting →
      t = s.setQueue (s.queue.remove (jobId i m)) → spoiled' i ∨ spoiled' i' := by
    intro job hact hj hst hts
    have hoffer := hts ▸ ho
    refine unrivalled _ (hs.forgotten i m job d n hact hj hst hoffer) ⟨hne.symm, ?_⟩
    rcases h.offer_origin ha (fun _ _ => rfl) ho' with hold | rfl | rfl | ⟨o, hb, _⟩ | ⟨x, o, hx, _⟩
    · exact hold
    · rcases hact with he | he
      · cases he
        exact absurd rfl hne
      · cases he
    · rcases hact with he | he
      · cases he
      · cases he
        exact absurd rfl hne
    · rcases hact with rfl | rfl <;> cases hb
    · rcases hact with rfl | rfl <;> cases hx
  rcases h.offer_origin ha (fun _ _ => rfl) ho with hold | rfl | rfl | ⟨o, hb, _, rfl, rfl, rfl⟩ |
    ⟨x, o, hx, hok, hge, hrow, _, rfl, rfl, rfl⟩
  · exact absurd hold hnew
  · cases h with
    | @evict _ job hj hf =>
      refine forgotten job (.inl rfl) hj (fun hw => ?_) rfl
      simp [Job.unfinished, hw] at hf
  · cases h with
    | @lose _ job hj hu =>
      by_cases hw : job.state = .waiting
      · exact .inl (hlose i m job rfl hj hw)
      · exact forgotten job (.inr rfl) hj hw rfl
  · exact unrivalled _ (hs.bumped i o hb) (h.offer_besides ha hb ho' hne.symm)
  · rcases h.offer_origin ha (fun _ _ => rfl) ho' with hold | rfl | rfl | ⟨o', hb, _⟩ |
      ⟨x', o', hx', _, hge', hrow', _, rfl, hd, _⟩
    · exact .inr (hmono i' (hs.scheduled x hx hok o (List.mem_of_getElem? hrow) i' m' hold))
    · cases hx
    · cases hx
    · rw [hb.schedules_none hx] at hrow
      cases hrow
    · rw [hx, Option.some.injEq] at hx'
      subst hx'
      have hk := Txn.scheduled_inj hrow hrow' hd.symm
      rw [hk, hrow', Option.some.injEq] at hrow
      have hi : i = i' := by omega
      exact absurd (by rw [hi, hrow]) hne

theorem step (hsole : Sole spoiled s) (hs : SoleOffer spoiled cfg s a) (h : s.Step cfg a t)
    (ha : a.native = true) (hmono : ∀ i, spoiled i → spoiled' i)
    (hlose : ∀ i m job, a = .lose (jobId i m) → s.queue (jobId i m) = some job →
      job.state = .waiting → spoiled' i) : Sole spoiled' t := by
  intro d n i m i' m' ho ho' hne
  by_cases hold : s.Offers anyTime d n i m
  · by_cases hold' : s.Offers anyTime d n i' m'
    · exact (hsole d n i m i' m' hold hold' hne).imp (hmono i) (hmono i')
    · exact (step_new hs h ha hmono hlose ho' ho hne.symm hold').symm
  · exact step_new hs h ha hmono hlose ho ho' hne hold

theorem boot (u : Setup) (spoiled : Nat → Prop) : Sole spoiled (.boot u) := by
  intro d n i m i' m' ho
  cases ho with
  | job hj => cases hj
  | row ho => cases ho
  | entry ho => cases ho

theorem noDuplicateJobs (hsole : Sole spoiled s)
    (hjobs : ∀ j job, s.queue j = some job → ∃ i m, j = jobId i m) : NoDuplicateJobs spoiled s := by
  intro j j' job job' hj hj' hw hw' hd hn hne
  obtain ⟨i, m, rfl⟩ := hjobs j job hj
  obtain ⟨i', m', rfl⟩ := hjobs j' job' hj'
  have hpair : (i, m) ≠ (i', m') := by
    intro he
    cases he
    exact hne rfl
  rcases hsole _ _ i m i' m' (.job hj hw hd hn) (.job hj' hw' rfl rfl) hpair with hi | hi
  · exact ⟨i, m, .inl rfl, hi⟩
  · exact ⟨i', m', .inr rfl, hi⟩

theorem of_reached {u : Setup} {as : List Act} (h : System.Reached cfg u as s)
    (ha : ∀ a ∈ as, a.native = true) (hs : SoleOffers cfg u as) :
    Sole (Spoiled cfg u as) s ∧ ∀ j job, s.queue j = some job → ∃ i m, j = jobId i m := by
  induction as using List.reverseRecOn generalizing s with
  | nil =>
    cases h
    exact ⟨boot u _, fun j job hj => by cases hj⟩
  | append_singleton as a ih =>
    obtain ⟨r, hr, hstep⟩ := Transition.run_concat_eq_some.mp h
    have hnative : a.native = true := ha a (List.mem_append_right _ List.mem_cons_self)
    have hprev := ih hr (fun b hb => ha b (List.mem_append_left _ hb))
      fun before b after r hbefore => hs before b (after ++ [a]) r (by simp [hbefore])
    refine ⟨hprev.1.step (hs as a [] r (by simp) hr) (.of_step hstep) hnative
      (fun i hi => hi.snoc a) fun i m job he hj hw => ?_, fun j job hj => ?_⟩
    · exact ⟨as, [a], r, m, job, rfl, hr, hj, .inr ⟨hw, [], by rw [he]⟩⟩
    · exact (System.Step.of_step hstep).native_jobs hnative hprev.2 hj

end Sole

/-- In every run of the pipeline's own actions each of which offers alone what it offers
anew, no two jobs ever wait for one delivery and attempt, spoiled rows left aside. -/
theorem no_duplicate_jobs {cfg : Config} {u : Setup} {as : List Act} {s : System}
    (h : System.Reached cfg u as s) (ha : ∀ a ∈ as, a.native = true) (hs : SoleOffers cfg u as) :
    NoDuplicateJobs (Spoiled cfg u as) s := by
  obtain ⟨hsole, hjobs⟩ := Sole.of_reached h ha hs
  exact hsole.noDuplicateJobs hjobs

def Act.quiet : Act → Bool
  | .publishError .. => false
  | .strandedReopen _ => false
  | .evict _ => false
  | .lose _ => false
  | .ingestCommit _ => false
  | .defer _ => false
  | .settle .. => false
  | .staleRecover _ => false
  | .replayReset _ => false
  | _ => true

section Runs

variable {cfg : Config} {u : Setup} {as bs : List Act} {s : System} {a : Act}

theorem soleOffer_of_quiet (spoiled : Nat → Prop) (ha : a.quiet = true) : SoleOffer spoiled cfg s a where
  bumped i o hb := by cases hb <;> cases ha
  scheduled x hx _ o ho := by
    have hnone : x.scheduled s.now s.db = [] := by
      cases System.attempts_of_txn hx with
      | ingestCommit => cases ha
      | publishError => cases ha
      | defer => cases ha
      | success => cases ha
      | deadLetter => cases ha
      | retry => cases ha
      | staleRecover => cases ha
      | strandedReopen => cases ha
      | replayReset => cases ha
      | _ => rfl
    rw [hnone] at ho
    cases ho
  forgotten i m job d n hact := by rcases hact with rfl | rfl <;> cases ha

theorem SoleOffers.snoc (h : SoleOffers cfg u as)
    (ha : ∀ s, System.Reached cfg u as s → SoleOffer (Spoiled cfg u as) cfg s a) :
    SoleOffers cfg u (as ++ [a]) := by
  intro before b after s he hs
  rcases List.eq_nil_or_concat after with rfl | ⟨init, c, rfl⟩
  · obtain ⟨rfl, hb⟩ := List.append_inj' he rfl
    cases hb
    exact ha s hs
  · have hsplit : as ++ [a] = (before ++ b :: init) ++ [c] := by simpa using he
    exact h before b init s (List.append_inj' hsplit rfl).1 hs

theorem SoleOffers.append (h : SoleOffers cfg u as) (hb : ∀ b ∈ bs, b.quiet = true) :
    SoleOffers cfg u (as ++ bs) := by
  induction bs generalizing as with
  | nil => simpa using h
  | cons b bs ih =>
    have hstep : SoleOffers cfg u (as ++ [b]) :=
      h.snoc fun _ _ => soleOffer_of_quiet _ (hb b List.mem_cons_self)
    simpa using ih hstep fun c hc => hb c (List.mem_cons_of_mem _ hc)

/-- No job waits, no row is unpublished and no batch is under way. -/
structure Idle (s : System) : Prop where
  jobs : ∀ j job, s.queue j = some job → job.state ≠ .waiting
  rows : ∀ i o, s.db.deliveryOutbox.row i = some o → o.publishedAt ≠ none
  batches : ∀ p, (s.publishers p).batch = []

theorem Idle.no_offers (hi : Idle s) {keep : Time → Bool} {d n i m : Nat} : ¬ s.Offers keep d n i m := by
  intro ho
  cases ho with
  | job hj hw => exact hi.jobs _ _ hj hw
  | row ho hun => exact hi.rows _ _ ho hun
  | @entry p o ho =>
    have hempty : (s.publishers p).pending = [] := by simp [Publisher.pending, hi.batches p]
    rw [hempty] at ho
    cases ho

theorem Idle.soleOffer (hi : Idle s) (spoiled : Nat → Prop) {x : Txn} (hx : s.txn cfg a = some x)
    (hs : ∀ m, a ≠ .strandedReopen m) : SoleOffer spoiled cfg s a where
  bumped i o hb := by
    cases hb with
    | error hb ho hun => exact absurd hun (hi.rows _ _ ho)
    | reopened hr ho => exact absurd rfl (hs _)
  scheduled x _ _ o _ i m ho := absurd ho hi.no_offers
  forgotten i m job d n hact := by
    rcases hact with rfl | rfl <;> cases hx

theorem unfailed (h : System.Reached cfg u as s) (ha : ∀ w, .finish w ∉ as) {j : JobId} {job : Job}
    (hj : s.queue j = some job) : job.state ≠ .failed := by
  induction as using List.reverseRecOn generalizing s j job with
  | nil =>
    cases h
    cases hj
  | append_singleton as a ih =>
    obtain ⟨r, hr, hstep⟩ := Transition.run_concat_eq_some.mp h
    have hfinish : ∀ w, a ≠ .finish w := fun w he => ha w (by simp [he])
    have hold : ∀ i old, r.queue i = some old → old.state ≠ .failed :=
      fun i old hi => ih hr (fun w hw => ha w (List.mem_append_left _ hw)) hi
    have added : ∀ (i : JobId) (d n : Nat), r.queue.add i d n j = some job → job.state ≠ .failed := by
      intro i d n hadd
      rcases Queue.add_eq_some hadd with hq | ⟨_, _, rfl⟩
      · exact hold j job hq
      · simp
    cases System.Step.of_step hstep with
    | publishAdd hp => exact added _ _ _ hj
    | duplicate hq hk => exact added _ _ _ hj
    | foreign hk => exact added _ _ _ hj
    | @take w i old hw hq hu =>
      obtain ⟨before, hb, _, _, hne, hst⟩ := System.setState_origin hj
      by_cases he : j = i
      · rw [hst he]
        simp
      · rw [hne he]
        exact hold j before hb
    | finish hw hp => exact absurd rfl (hfinish _)
    | evict hq hf => exact hold j job (Queue.remove_eq_some.mp hj).2
    | lose hq hf => exact hold j job (Queue.remove_eq_some.mp hj).2
    | _ => exact hold j job hj

theorem not_spoiled (hf : ∀ w, .finish w ∉ as) (hl : ∀ j, .lose j ∉ as) (i : Nat) :
    ¬ Spoiled cfg u as i := by
  rintro ⟨before, after, s, m, job, rfl, hs, hj, hfailed | ⟨_, rest, rfl⟩⟩
  · exact unfailed hs (fun w hw => hf w (List.mem_append_left _ hw)) hj hfailed
  · exact hl (jobId i m) (List.mem_append_right _ List.mem_cons_self)

end Runs

def limitedRun : List Act :=
  Script.ingest ++ (Script.publish 0 ++ [.take 0 (jobId 0 0), .find 0, .limit 0 (some 1000)])

theorem limitedRun_idle : Idle (.after .defaults (.subscribed 1) limitedRun) where
  jobs j job hj := by
    have hqueue : (System.after .defaults (.subscribed 1) limitedRun).queue =
        (Queue.add (fun _ => none) (jobId 0 0) 0 1).setState (jobId 0 0) .active := rfl
    rw [hqueue, Queue.setState_apply, Option.map_eq_some_iff] at hj
    obtain ⟨old, hold, rfl⟩ := hj
    rcases Queue.add_eq_some hold with hnone | ⟨_, rfl, _⟩
    · cases hnone
    · simp
  rows i o ho := by
    have hnext : (System.after .defaults (.subscribed 1) limitedRun).db.deliveryOutbox.next = 1 := by
      decide +kernel
    have hrows : ∀ i < 1, ∀ o ∈ (System.after .defaults (.subscribed 1) limitedRun).db.deliveryOutbox.row i,
        o.publishedAt ≠ none := by decide +kernel
    exact hrows i (hnext ▸ Table.lt_next ho) o ho
  batches p := by
    have hpublishers : ∃ v₀ v₁, (System.after .defaults (.subscribed 1) limitedRun).publishers =
        Function.update (Function.update (Function.update (fun _ => ⟨[], false⟩) 0 v₀) 0 v₁) 0
          ⟨[], false⟩ := ⟨_, _, rfl⟩
    obtain ⟨v₀, v₁, he⟩ := hpublishers
    rw [he]
    by_cases hp : p = 0 <;> simp [hp]

/-- The deferral, the end of its job and the publication of the row it has scheduled. -/
def rateLimitedRun : List Act := limitedRun ++ [.defer 0] ++ ([.finish 0, .tick 1000] ++ Script.publish 1)

theorem rateLimitedRun_soleOffers : SoleOffers .defaults (.subscribed 1) rateLimitedRun := by
  have hempty : SoleOffers .defaults (.subscribed 1) [] := by
    intro before a after s he
    simp at he
  have hread : SoleOffers .defaults (.subscribed 1) [.ingestRead 0 ⟨0, "key", "order.created", "{}"⟩] :=
    hempty.append (by simp [Act.quiet])
  have hcommit := hread.snoc (a := .ingestCommit 0) fun s hs => by
    cases hs
    have hidle : Idle ((System.boot (.subscribed 1)).setIngest 0
        (some (⟨0, "key", "order.created", "{}"⟩, [0]))) :=
      ⟨fun j job hj => (by cases hj), fun i o ho => (by cases ho), fun p => rfl⟩
    exact hidle.soleOffer _ rfl (by simp)
  have hlimit : SoleOffers .defaults (.subscribed 1) limitedRun :=
    hcommit.append (by simp [Script.publish, Act.quiet])
  have hdefer := hlimit.snoc (a := .defer 0) fun s hs => by
    have hlast : s = System.after .defaults (.subscribed 1) limitedRun :=
      Option.some.inj (hs.symm.trans (Transition.run_ending (by decide +kernel)))
    rw [hlast]
    exact limitedRun_idle.soleOffer _ (x := .markRateLimitedAndSchedule 0 1000 1) rfl (by simp)
  exact hdefer.append (by simp [Script.publish, Act.quiet])

theorem no_duplicate_jobs_deferred :
    let s := System.after .defaults (.subscribed 1) rateLimitedRun
    s.queue (jobId 1 0) = some ⟨0, 1, .waiting⟩ ∧
      NoDuplicateJobs (Spoiled .defaults (.subscribed 1) rateLimitedRun) s :=
  ⟨by decide +kernel, no_duplicate_jobs (Transition.run_ending (by decide +kernel)) (by decide) rateLimitedRun_soleOffers⟩

/-- The add succeeds and the mark does not: the error path gives the row another identifier. -/
def unmarkedRun : List Act :=
  Script.ingest ++ [.publishRead 0 [0], .publishAdd 0, .publishError 0 "Connection terminated",
    .publishRead 0 [0], .publishAdd 0]

theorem duplicate_jobs : ¬ ∀ (cfg : Config) (u : Setup) (as : List Act) (s : System),
    System.Reached cfg u as s → (∀ a ∈ as, a.native = true) → (∀ q, .replayReset q ∉ as) →
    NoDuplicateJobs (Spoiled cfg u as) s := by
  intro h
  have hs : System.Reached .defaults (.subscribed 1) unmarkedRun
      (.after .defaults (.subscribed 1) unmarkedRun) := Transition.run_ending (by decide +kernel)
  have hfirst : (System.after .defaults (.subscribed 1) unmarkedRun).queue (jobId 0 0) =
      some ⟨0, 1, .waiting⟩ := by decide +kernel
  have hsecond : (System.after .defaults (.subscribed 1) unmarkedRun).queue (jobId 0 1) =
      some ⟨0, 1, .waiting⟩ := by decide +kernel
  obtain ⟨i, m, _, hspoiled⟩ := h _ _ _ _ hs (by decide) (by simp [unmarkedRun, Script.ingest]) _ _ _ _
    hfirst hsecond rfl rfl rfl rfl (by decide)
  exact not_spoiled (by simp [unmarkedRun, Script.ingest]) (by simp [unmarkedRun, Script.ingest]) i hspoiled

end WebhookEngine
