import WebhookEngine.Operations

/-! Endpoints switched off while a worker is on its way. The worker looks at the flag before it
asks the rate limiter and takes the URL from the row its claim reads; nothing looks at the flag
of that row. -/

namespace WebhookEngine.Service

/-- A request goes out under a claim that has read an active endpoint, and a claim that reads
an inactive one sends the worker to cancel the delivery. -/
structure Silent (s : Service) (a : Operation) (t : Service) : Prop where
  sends : ∀ w k c, a = .system (.send w) → s.system.workers w = some k → k.point = .sending c →
    c.delivery.endpoint.isActive = true
  claims : ∀ w k, a = .system (.claim w) → s.system.workers w = some k → k.point = .claiming →
    ∀ delivery ∈ (s.db.claimForProcessing s.now k.deliveryId k.expectedAttempt).2,
      delivery.endpoint.isActive = false → t.system.workers w = some { k with point := .cancelling }

def ClaimsActive (s : Service) (a : Operation) (_ : Service) : Prop :=
  ∀ w k, a = .system (.claim w) → s.system.workers w = some k → k.point = .claiming →
    ∀ delivery ∈ (s.db.claimForProcessing s.now k.deliveryId k.expectedAttempt).2,
      ∀ e ∈ s.db.endpoints.row delivery.row.endpointId, e.isActive = true

def ActiveClaims (s : Service) : Prop :=
  ∀ w k c, s.system.workers w = some k → k.point.claimed? = some c → c.delivery.endpoint.isActive = true

variable {cfg : Config} {hashApiKey : String → String} {s t : Service} {a : Operation}

theorem ActiveClaims.step (hs : ActiveClaims s) (h : s.step cfg hashApiKey a = some t)
    (ha : ClaimsActive s a t) : ActiveClaims t := by
  intro w k' c hw hc
  rcases step_system_or h with ⟨b, rfl, hb⟩ | ⟨_, db, hdb, _⟩
  · rcases hb.claimed_origin hw hc with ⟨k, hold, hck, _⟩ | ⟨k, delivery, rfl, hold, hp, hhit, _, _, rfl⟩
    · exact hs w k c hold hck
    · have hendpoint := (Database.claimForProcessing_answer hhit).1
      exact ha w k rfl hold hp delivery hhit delivery.endpoint hendpoint
  · rw [hdb] at hw
    exact hs w k' c hw hc

theorem silent_of_claimsActive (hs : ActiveClaims s) (ha : ClaimsActive s a t) : Silent s a t where
  sends w k c _ hw hp := hs w k c hw (by rw [hp]; rfl)
  claims w k hclaim hw hp delivery hhit hinactive := by
    have hendpoint := (Database.claimForProcessing_answer hhit).1
    have hactive := ha w k hclaim hw hp delivery hhit delivery.endpoint hendpoint
    rw [hactive] at hinactive
    cases hinactive

/-- A claim that goes through takes its worker to the request, whatever it has read. -/
theorem claimsActive_of_silent (h : s.step cfg hashApiKey a = some t) (hs : Silent s a t) :
    ClaimsActive s a t := by
  intro w k hclaim hw hp delivery hhit e he
  subst hclaim
  have hendpoint := (Database.claimForProcessing_answer hhit).1
  have hsame : e = delivery.endpoint := Option.some.inj (he.symm.trans hendpoint)
  rw [hsame]
  by_contra hinactive
  have hcancelling := hs.claims w k rfl hw hp delivery hhit (Bool.eq_false_iff.mpr hinactive)
  have hstep := System.Step.of_step (step_system h).1
  rw [hstep.claimed_eq hw hhit] at hcancelling
  simp [System.claimed] at hcancelling

/-- An inactive endpoint hears nothing all along a run just when every claim that goes through
finds its endpoint active. -/
theorem silent_iff_claimsActive (cfg : Config) (hashApiKey : String → String) (u : Setup)
    (as : List Operation) :
    Transition.Along (step cfg hashApiKey) Silent (boot u) as ↔
      Transition.Along (step cfg hashApiKey) ClaimsActive (boot u) as := by
  constructor
  · intro h
    exact h.mono fun s a t ht hs => claimsActive_of_silent ht hs
  · intro h
    have hempty : ActiveClaims (boot u) := by
      intro w k c hw
      cases hw
    have hvisits := h.visits (I := ActiveClaims) (fun s a t hs ht ha => hs.step ht ha) hempty
    exact (hvisits.along.and h).mono fun s a t _ hboth => silent_of_claimsActive hboth.1.1 hboth.2

/-- The endpoint is deleted between the answer of the rate limiter and the claim. -/
def deactivatedRun : List Operation :=
  (Script.ingest ++ Script.publish 0 ++ [Act.take 0 (jobId 0 0), .find 0, .limit 0 none]).map .system ++
    [.requireOwned 0 0 0 .softDelete, .softDelete 0, .system (.claim 0)]

theorem inactive_endpoint_requested : ¬ ∀ (cfg : Config) (hashApiKey : String → String) (u : Setup)
    (as : List Operation), Transition.Along (step cfg hashApiKey) Silent (boot u) as := by
  intro h
  have hrun : Reached .defaults id (.subscribed 1) deactivatedRun
      (after .defaults id (.subscribed 1) deactivatedRun) := Transition.run_ending (by decide +kernel)
  have hsend : ((after .defaults id (.subscribed 1) deactivatedRun).step .defaults id
      (.system (.send 0))).isSome = true := by decide +kernel
  have hinactive : ((after .defaults id (.subscribed 1) deactivatedRun).system.workers 0).any
      (fun k => k.point.claimed?.any fun c =>
        k.point = .sending c ∧ c.delivery.endpoint.isActive = false) = true := by decide +kernel
  obtain ⟨t, ht⟩ := Option.isSome_iff_exists.mp hsend
  obtain ⟨k, hk, hpoint⟩ := (Option.any_eq_true _ _).mp hinactive
  have hsilent := ((h .defaults id (.subscribed 1) (deactivatedRun ++ [.system (.send 0)])).of_append hrun t ht).1
  obtain ⟨c, _, hc⟩ := (Option.any_eq_true _ _).mp hpoint
  obtain ⟨hsending, hfalse⟩ := of_decide_eq_true hc
  rw [hsilent.sends 0 k c rfl hk hsending] at hfalse
  cases hfalse

end WebhookEngine.Service
