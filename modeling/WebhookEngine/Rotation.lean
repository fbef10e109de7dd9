import WebhookEngine.Operations
import WebhookEngine.Provenance
import WebhookEngine.Signing

/-! Rotations of an endpoint's secret against the requests that are signed meanwhile. A
rotation reads the secret and writes the row in two operations; a worker signs with the row
its claim has answered. -/

namespace WebhookEngine.Service

variable {cfg : Config} {hashApiKey : String → String} {u : Setup} {s t : Service} {a : Operation}
  {as : List Operation} {g : Signer}

/-- The rotation an operation writes, and the secret it has read for it. -/
def rotation (s : Service) : Operation → Option (Rotation × String)
  | .rotateSecret n =>
    match s.sessions n with
    | some (.rotating r current) => if (s.db.endpoints.row r.id).isSome then some (r, current) else none
    | _ => none
  | _ => none

/-- The operation writes no rotation of the endpoint. -/
def Spares (i : Nat) (s : Service) (a : Operation) (_ : Service) : Prop :=
  ∀ r current, s.rotation a = some (r, current) → r.id ≠ i

instance (i : Nat) (s : Service) (a : Operation) (t : Service) : Decidable (Spares i s a t) :=
  match h : s.rotation a with
  | none => isTrue fun r current hr => by simp [h] at hr
  | some (r, _) =>
    decidable_of_iff (r.id ≠ i) ⟨fun hne r' current hr => by
      rw [h] at hr
      cases hr
      exact hne, fun hs => hs r _ h⟩

/-- What the worker that is about to send has claimed. -/
def sending (s : Service) (w : Nat) : Option Claimed :=
  (s.system.workers w).bind fun k =>
    match k.point with
    | .sending c => some c
    | _ => none

theorem sending_eq_some {w : Nat} {c : Claimed} :
    s.sending w = some c ↔ ∃ k, s.system.workers w = some k ∧ k.point = .sending c := by
  simp only [sending, Option.bind_eq_some_iff]
  constructor
  · rintro ⟨k, hw, hk⟩
    split at hk
    · rename_i hp
      cases hk
      exact ⟨k, hw, hp⟩
    · cases hk
  · rintro ⟨k, hw, hp⟩
    exact ⟨k, hw, by rw [hp]⟩

theorem step_now_le (h : s.step cfg hashApiKey a = some t) : s.now ≤ t.now := by
  rcases step_system_or h with ⟨_, _, hstep⟩ | ⟨_, db, hdb, _⟩
  · exact hstep.now_le
  · simp [Service.now, hdb]

theorem run_now_le (h : Transition.run (step cfg hashApiKey) s as = some t) : s.now ≤ t.now :=
  Transition.run_invariant (I := fun v : Service => s.now ≤ v.now)
    (fun _ _ _ hle hstep => le_trans hle (step_now_le hstep)) (le_refl _) h

/-- The row has the secret, and the one before it until that has expired. -/
structure Kept (secretKey previous : String) (expiresAt now : Time) (e : Endpoint) : Prop where
  secretKey : e.secretKey = secretKey
  previous : expiresAt < now ∨ e.previousSecretKey = some previous ∧ e.previousSecretExpiresAt = some expiresAt

variable {i : Nat} {e e' : Endpoint} {secretKey previous : String} {expiresAt : Time}

theorem Kept.later (h : Kept secretKey previous expiresAt s.now e) (hle : s.now ≤ t.now) :
    Kept secretKey previous expiresAt t.now e :=
  ⟨h.secretKey, h.previous.imp_left fun hlt => lt_of_lt_of_le hlt hle⟩

theorem Kept.previous_dropped (h : Kept secretKey previous expiresAt s.now e) :
    expiresAt < s.now ∨ (e.dropExpiredSecret s.now).previousSecretKey = some previous ∧
      (e.dropExpiredSecret s.now).previousSecretExpiresAt = some expiresAt := by
  simp only [Endpoint.dropExpiredSecret]
  split
  · rename_i hexpired
    left
    rcases h.previous with hlt | ⟨_, hend⟩
    · exact hlt
    · simpa [hend] using hexpired
  · exact h.previous

theorem EndpointChange.secretKey_eq (h : EndpointChange s i e a e') (he : s.db.endpoints.row i = some e)
    (hs : Spares i s a t) : e'.secretKey = e.secretKey := by
  cases h with
  | same => rfl
  | switched => rfl
  | dropped =>
    simp only [Endpoint.dropExpiredSecret]
    split <;> rfl
  | updated _ => rfl
  | @rotated n r current hc hi =>
    subst hi
    exact absurd rfl (hs r current (by simp [rotation, hc, he]))

theorem EndpointChange.kept (h : EndpointChange s i e a e') (he : s.db.endpoints.row i = some e)
    (hs : Spares i s a t) (hk : Kept secretKey previous expiresAt s.now e) :
    Kept secretKey previous expiresAt s.now e' := by
  refine ⟨(h.secretKey_eq he hs).trans hk.secretKey, ?_⟩
  cases h with
  | same => exact hk.previous
  | switched => exact hk.previous
  | dropped => exact hk.previous_dropped
  | updated _ => exact hk.previous
  | @rotated n r current hc hi =>
    subst hi
    exact absurd rfl (hs r current (by simp [rotation, hc, he]))

theorem endpoint_run {P : Service → Endpoint → Prop}
    (hP : ∀ s a t e e', s.step cfg hashApiKey a = some t → s.db.endpoints.row i = some e →
      EndpointChange s i e a e' → Spares i s a t → P s e → P t e')
    (h : Transition.run (step cfg hashApiKey) s as = some t)
    (hs : Transition.Along (step cfg hashApiKey) (Spares i) s as) (he : s.db.endpoints.row i = some e)
    (hp : P s e) : ∃ e', t.db.endpoints.row i = some e' ∧ P t e' := by
  induction as generalizing s e with
  | nil =>
    cases h
    exact ⟨e, he, hp⟩
  | cons a as ih =>
    obtain ⟨v, hv, hrest⟩ := Transition.run_cons_eq_some.mp h
    obtain ⟨hspare, hsrest⟩ := hs v hv
    obtain ⟨e₁, he₁, hchange⟩ := endpoint_kept hv he
    exact ih hrest hsrest he₁ (hP s a v e e₁ hv he hchange hspare hp)

theorem kept_run (h : Transition.run (step cfg hashApiKey) s as = some t)
    (hs : Transition.Along (step cfg hashApiKey) (Spares i) s as) (he : s.db.endpoints.row i = some e)
    (hk : Kept secretKey previous expiresAt s.now e) :
    ∃ e', t.db.endpoints.row i = some e' ∧ Kept secretKey previous expiresAt t.now e' := by
  refine endpoint_run (P := fun s e => Kept secretKey previous expiresAt s.now e) ?_ h hs he hk
  intro s a t e e' hstep he hchange hspare hk
  exact (hchange.kept he hspare hk).later (step_now_le hstep)

theorem secretKey_run (h : Transition.run (step cfg hashApiKey) s as = some t)
    (hs : Transition.Along (step cfg hashApiKey) (Spares i) s as) (he : s.db.endpoints.row i = some e) :
    ∃ e', t.db.endpoints.row i = some e' ∧ e'.secretKey = e.secretKey := by
  refine endpoint_run (P := fun _ e' => e'.secretKey = e.secretKey) ?_ h hs he rfl
  intro s a t e₁ e₂ _ he₁ hchange hspare hkey
  exact (hchange.secretKey_eq he₁ hspare).trans hkey

theorem rotation_eq_some {r : Rotation} {current : String} :
    s.rotation a = some (r, current) ↔ ∃ n, a = .rotateSecret n ∧
      s.sessions n = some (.rotating r current) ∧ (s.db.endpoints.row r.id).isSome = true := by
  constructor
  · intro h
    cases a with
    | rotateSecret n =>
      simp only [rotation] at h
      split at h
      · rename_i hn
        split at h
        · rename_i hrow
          cases h
          exact ⟨n, rfl, hn, hrow⟩
        · cases h
      · cases h
    | _ => cases h
  · rintro ⟨n, rfl, hn, hrow⟩
    simp [rotation, hn, hrow]

theorem rotated_row {r : Rotation} {current : String} (h : s.step cfg hashApiKey a = some t)
    (hr : s.rotation a = some (r, current)) : ∃ e, t.db.endpoints.row r.id = some e ∧
      Kept r.secretKey current r.previousSecretExpiresAt t.now e := by
  obtain ⟨n, rfl, hn, hrow⟩ := rotation_eq_some.mp hr
  obtain ⟨e, he⟩ := Option.isSome_iff_exists.mp hrow
  have hwrite : PrismaEndpointsRepository.writeSecret s.db r.id r.secretKey current r.previousSecretExpiresAt =
      .ok { s.db with
        endpoints := s.db.endpoints.modify r.id (.rotate r.secretKey current r.previousSecretExpiresAt) } :=
    PrismaEndpointsRepository.updateEndpoint_eq_ok.mpr ⟨hrow, rfl⟩
  simp only [step, hn, Option.some.injEq] at h
  subst h
  refine ⟨e.rotate r.secretKey current r.previousSecretExpiresAt, ?_, rfl, .inr ⟨rfl, rfl⟩⟩
  simp [Service.db, hwrite, Except.toOption, he]

/-- A rotation read the secret earlier in the run, and it is the one replaced unless another
rotation of the endpoint was written in between. -/
def Replaces (cfg : Config) (hashApiKey : String → String) (u : Setup) (as : List Operation) (s : Service)
    (i : Nat) (current : String) : Prop :=
  ∃ n reads between p q, as = reads ++ .findSecret n :: between ∧ Reached cfg hashApiKey u reads p ∧
    p.step cfg hashApiKey (.findSecret n) = some q ∧
    (p.db.endpoints.row i).map Endpoint.secretKey = some current ∧
    (Transition.Along (step cfg hashApiKey) (Spares i) q between →
      (s.db.endpoints.row i).map Endpoint.secretKey = some current)

theorem findSecret_eq_ok {db : Database} {current : String} :
    PrismaEndpointsRepository.findSecret db i = .ok current ↔
      (db.endpoints.row i).map Endpoint.secretKey = some current := by
  simp only [PrismaEndpointsRepository.findSecret]
  cases db.endpoints.row i <;> simp

theorem Reached.replaces {r : Rotation} {current : String} (h : Reached cfg hashApiKey u as s)
    (hr : s.rotation a = some (r, current)) : Replaces cfg hashApiKey u as s r.id current := by
  obtain ⟨n, rfl, hn, hrow⟩ := rotation_eq_some.mp hr
  obtain ⟨reads, b, between, p, q, rfl, hp, hq, hrest, hno, hyes, _⟩ :=
    Transition.run_origin (I := fun s : Service => s.sessions n = some (.rotating r current)) h
      (fun hboot => by cases hboot) hn
  rcases session_origin hq hyes with hold | hopens
  · exact absurd hold hno
  · cases hopens with
    | rotating hc hread =>
      have hcurrent := findSecret_eq_ok.mp hread
      refine ⟨n, reads, between, p, q, rfl, hp, hq, hcurrent, fun hspares => ?_⟩
      obtain ⟨e, he, rfl⟩ := Option.map_eq_some_iff.mp hcurrent
      obtain ⟨e₁, he₁, hchange⟩ := endpoint_kept hq he
      have hspared : Spares r.id p (.findSecret n) q := fun _ _ hr => by cases hr
      obtain ⟨e₂, he₂, hkey⟩ := secretKey_run hrest hspares he₁
      rw [he₂, Option.map_some, hkey, hchange.secretKey_eq he hspared]

theorem Reached.sending_origin (h : Reached cfg hashApiKey u as s) {w : Nat} {c : Claimed}
    (hc : s.sending w = some c) :
    ∃ before after v v', as = before ++ .system (.claim w) :: after ∧
      Reached cfg hashApiKey u before v ∧ v.step cfg hashApiKey (.system (.claim w)) = some v' ∧
      Transition.run (step cfg hashApiKey) v' after = some s ∧
      Transition.Visits (step cfg hashApiKey) (fun z => z.sending w = some c) v' after ∧
      v.db.endpoints.row c.delivery.row.endpointId = some c.delivery.endpoint := by
  obtain ⟨before, a, after, v, v', rfl, hv, hv', hrest, hno, hyes, hstays⟩ :=
    Transition.run_origin (I := fun s : Service => s.sending w = some c) h (fun hboot => by cases hboot) hc
  obtain ⟨k', hw', hp'⟩ := sending_eq_some.mp hyes
  have hclaimed : k'.point.claimed? = some c := by rw [hp']; rfl
  rcases step_system_or hv' with ⟨b, rfl, hstep⟩ | ⟨_, db, hdb, _⟩
  · rcases hstep.claimed_origin hw' hclaimed with ⟨k, hw, _, _, hp⟩ | ⟨k, delivery, rfl, _, _, hanswer, _, _, rfl⟩
    · exact absurd (sending_eq_some.mpr ⟨k, hw, hp hp'⟩) hno
    · exact ⟨before, after, v, v', rfl, hv, hv', hrest, hstays,
        (Database.claimForProcessing_answer hanswer).1⟩
  · rw [hdb] at hw'
    exact absurd (sending_eq_some.mpr ⟨k', hw', hp'⟩) hno

/-- What every rotation announces: until the end it has returned, a request verifies under the
secret it replaced, and until it is replaced, under the secret it made. -/
def SecretsKept (g : Signer) (cfg : Config) (hashApiKey : String → String) (u : Setup)
    (as : List Operation) : Prop :=
  ∀ first a mid x y r current old s w c, as = first ++ a :: mid → Reached cfg hashApiKey u first x →
    x.rotation a = some (r, current) → x.db.endpoints.row r.id = some old →
    x.step cfg hashApiKey a = some y → Reached cfg hashApiKey u as s → s.sending w = some c →
    c.delivery.row.endpointId = r.id →
      (s.now < r.previousSecretExpiresAt → c.delivery.Verifies g s.now s.now old.secretKey) ∧
      (Transition.Along (step cfg hashApiKey) (Spares r.id) y mid → c.delivery.Verifies g s.now s.now r.secretKey)

/-- A request is signed with the row its claim has read. It verifies under that row's secret, which
is the one the last rotation written before has made, and, up to the end this rotation has
announced, under the secret it had read. -/
theorem rotated_secrets_verify (h : Reached cfg hashApiKey u as s) {w : Nat} {c : Claimed}
    (hc : s.sending w = some c) (signedAt : Time) {comparedAt : Time} (hsent : comparedAt ≤ s.now) :
    ∃ before after v v', as = before ++ .system (.claim w) :: after ∧
      Reached cfg hashApiKey u before v ∧ v.step cfg hashApiKey (.system (.claim w)) = some v' ∧
      Transition.Visits (step cfg hashApiKey) (fun z => z.sending w = some c) v' after ∧
      v.db.endpoints.row c.delivery.row.endpointId = some c.delivery.endpoint ∧
      c.delivery.Verifies g signedAt comparedAt c.delivery.endpoint.secretKey ∧
      ∀ first a mid x y r current, before = first ++ a :: mid → Reached cfg hashApiKey u first x →
        x.rotation a = some (r, current) → r.id = c.delivery.row.endpointId →
        x.step cfg hashApiKey a = some y → Transition.Along (step cfg hashApiKey) (Spares r.id) y mid →
          Replaces cfg hashApiKey u first x r.id current ∧
          c.delivery.Verifies g signedAt comparedAt r.secretKey ∧
          (s.now < r.previousSecretExpiresAt → current ≠ "" →
            c.delivery.Verifies g signedAt comparedAt current) := by
  obtain ⟨before, after, v, v', rfl, hv, hv', hrest, hstays, hrow⟩ := h.sending_origin hc
  refine ⟨before, after, v, v', rfl, hv, hv', hstays, hrow,
    c.delivery.verifies_secretKey g signedAt comparedAt, ?_⟩
  rintro first a mid x y r current rfl hx hr hi hy hspares
  obtain ⟨e, he, hkept⟩ := rotated_row hy hr
  have hmid : Transition.run (step cfg hashApiKey) y mid = some v := by
    rw [Reached, Transition.run_append, hx, Option.bind_some, Transition.run_cons_eq_some] at hv
    obtain ⟨y', hy', hmid⟩ := hv
    rw [hy, Option.some.injEq] at hy'
    exact hy' ▸ hmid
  obtain ⟨e', he', hkept'⟩ := kept_run hmid hspares he hkept
  rw [hi, hrow, Option.some.injEq] at he'
  subst he'
  have hkey : c.delivery.endpoint.secretKey = r.secretKey := hkept'.secretKey
  refine ⟨hx.replaces hr, hkey ▸ c.delivery.verifies_secretKey g signedAt comparedAt, fun hlt hne => ?_⟩
  have hle : v.now ≤ s.now := (step_now_le hv').trans (run_now_le hrest)
  rcases hkept'.previous with hexpired | ⟨hprevious, hend⟩
  · exact absurd (hexpired.trans_le hle) (not_lt_of_gt hlt)
  · exact c.delivery.verifies_previous g signedAt comparedAt hprevious hend hne (hsent.trans_lt hlt)

/-! Runs of one endpoint: an event is published, secrets are rotated, a worker claims. -/

def published : List Operation := (Script.ingest ++ Script.publish 0).map .system

def claiming : List Operation := (Script.claim 0 (jobId 0 0)).map .system

def rotating (n : Nat) (secretKey : String) : List Operation :=
  [.requireOwned n 0 0 .rotateSecret, .generateSecret n secretKey, .findSecret n]

def plainSigner : Signer where
  hmac := fun secretKey text => secretKey ++ text
  stringify := fun e => e.type

def rotatedRun : List Operation := published ++ rotating 0 "whsec_1" ++ [.rotateSecret 0] ++ claiming

theorem rotated_secrets_verify_rotated :
    ∃ c, (after .defaults id (.subscribed 1) rotatedRun).sending 0 = some c ∧
      c.delivery.Verifies plainSigner 0 0 "whsec_1" ∧ c.delivery.Verifies plainSigner 0 0 "whsec" := by
  let first := published ++ rotating 0 "whsec_1"
  let mid : List Operation := [.system (.take 0 (jobId 0 0)), .system (.find 0), .system (.limit 0 none)]
  obtain ⟨c, hc⟩ := Option.isSome_iff_exists.mp (show
    ((after .defaults id (.subscribed 1) rotatedRun).sending 0).isSome = true by decide +kernel)
  have hreached : Reached .defaults id (.subscribed 1) rotatedRun (after .defaults id (.subscribed 1) rotatedRun) :=
    Transition.run_ending (by decide +kernel)
  have hid : ((after .defaults id (.subscribed 1) rotatedRun).sending 0).all
      (fun c => c.delivery.row.endpointId == 0) = true := by decide +kernel
  have hendpoint : c.delivery.row.endpointId = 0 := by simpa [hc] using hid
  have hfirst : Reached .defaults id (.subscribed 1) first (after .defaults id (.subscribed 1) first) :=
    Transition.run_ending (by decide +kernel)
  have hwrite : (after .defaults id (.subscribed 1) first).rotation (.rotateSecret 0) =
      some (⟨0, 0, "whsec_1", 86400000⟩, "whsec") := by decide +kernel
  obtain ⟨y, hy⟩ := Option.isSome_iff_exists.mp (show
    ((after .defaults id (.subscribed 1) first).step .defaults id (.rotateSecret 0)).isSome = true by decide +kernel)
  obtain ⟨before, rest, v, v', hsplit, _, _, _, _, _, hrotations⟩ :=
    rotated_secrets_verify (g := plainSigner) hreached hc 0 (Nat.zero_le _)
  have hbefore : before = first ++ .rotateSecret 0 :: mid := by
    simp [rotatedRun, published, rotating, claiming, Script.ingest, Script.publish, Script.claim,
      List.cons_eq_append_iff, first, mid] at hsplit ⊢
    exact hsplit.1
  have hspares : Transition.Along (step .defaults id) (Spares 0) y mid :=
    Transition.along_of_mem fun a ha s t r current hr => by
      obtain ⟨n, rfl, _⟩ := rotation_eq_some.mp hr
      simp [mid] at ha
  obtain ⟨_, hnew, hold⟩ := hrotations first _ mid _ y _ _ hbefore hfirst hwrite hendpoint.symm hy hspares
  exact ⟨c, hc, hnew, hold (by decide +kernel) (by decide)⟩

def refuses (g : Signer) (s : Service) (w i : Nat) (secretKey : String) : Bool :=
  (s.sending w).any fun c =>
    c.delivery.row.endpointId == i &&
      !(c.delivery.securityHeaders g s.now s.now).accepted g s.now secretKey (.object c.delivery.envelope) 300

theorem not_verifies_of_refuses {w : Nat} (h : s.refuses g w i secretKey = true) :
    ∃ c, s.sending w = some c ∧ c.delivery.row.endpointId = i ∧ ¬ c.delivery.Verifies g s.now s.now secretKey := by
  simp only [refuses, Option.any_eq_true, Bool.and_eq_true, beq_iff_eq, Bool.not_eq_true'] at h
  obtain ⟨c, hc, hi, hrefused⟩ := h
  refine ⟨c, hc, hi, fun hv => ?_⟩
  rw [hv s.now 300 (by omega)] at hrefused
  cases hrefused

theorem not_secretsKept_of_replaced {first mid : List Operation} (w : Nat) (r : Rotation)
    (current secretKey : String)
    (hfirst : (Transition.run (step cfg hashApiKey) (boot u) first).isSome = true)
    (hrun : (Transition.run (step cfg hashApiKey) (boot u) (first ++ a :: mid)).isSome = true)
    (hr : (after cfg hashApiKey u first).rotation a = some (r, current))
    (hold : ((after cfg hashApiKey u first).db.endpoints.row r.id).map Endpoint.secretKey = some secretKey)
    (hlt : (after cfg hashApiKey u (first ++ a :: mid)).now < r.previousSecretExpiresAt)
    (hrefuses : (after cfg hashApiKey u (first ++ a :: mid)).refuses g w r.id secretKey = true) :
    ¬ SecretsKept g cfg hashApiKey u (first ++ a :: mid) := by
  intro hkept
  obtain ⟨c, hc, hi, hno⟩ := not_verifies_of_refuses hrefuses
  obtain ⟨old, hrow, rfl⟩ := Option.map_eq_some_iff.mp hold
  have hall := Transition.run_ending hrun
  have hx := Transition.run_ending hfirst
  rw [Transition.run_append, hx, Option.bind_some, Transition.run_cons_eq_some] at hall
  obtain ⟨y, hy, _⟩ := hall
  exact hno ((hkept first a mid _ y r current old _ w c rfl hx hr hrow hy (Transition.run_ending hrun) hc hi).1 hlt)

theorem not_secretsKept_of_new {first : List Operation} (w : Nat) (r : Rotation) (current : String)
    (hfirst : (Transition.run (step cfg hashApiKey) (boot u) first).isSome = true)
    (hrun : (Transition.run (step cfg hashApiKey) (boot u) (first ++ [a])).isSome = true)
    (hr : (after cfg hashApiKey u first).rotation a = some (r, current))
    (hrefuses : (after cfg hashApiKey u (first ++ [a])).refuses g w r.id r.secretKey = true) :
    ¬ SecretsKept g cfg hashApiKey u (first ++ [a]) := by
  intro hkept
  obtain ⟨c, hc, hi, hno⟩ := not_verifies_of_refuses hrefuses
  obtain ⟨_, _, _, hrow⟩ := rotation_eq_some.mp hr
  obtain ⟨old, hold⟩ := Option.isSome_iff_exists.mp hrow
  have hx := Transition.run_ending hfirst
  obtain ⟨x, hx', hy⟩ := Transition.run_concat_eq_some.mp (Transition.run_ending hrun)
  rw [hx, Option.some.injEq] at hx'
  subst hx'
  exact hno ((hkept first a [] _ _ r current old _ w c rfl hx hr hold hy (Transition.run_ending hrun) hc hi).2 trivial)

/-- The announced secret is lost to a second rotation within the day, to a claim that has read the
row before the write, and to a rotation that had read the secret before another one was written. -/
theorem rotated_secrets_lost :
    ¬ SecretsKept plainSigner .defaults id (.subscribed 1)
        (published ++ rotating 0 "whsec_1" ++ .rotateSecret 0 ::
          (rotating 0 "whsec_2" ++ [.rotateSecret 0] ++ claiming)) ∧
      ¬ SecretsKept plainSigner .defaults id (.subscribed 1)
        (published ++ claiming ++ rotating 0 "whsec_1" ++ [.rotateSecret 0]) ∧
      ¬ SecretsKept plainSigner .defaults id (.subscribed 1)
        (published ++ rotating 0 "whsec_1" ++ rotating 1 "whsec_2" ++ [.rotateSecret 1] ++
          .rotateSecret 0 :: claiming) := by
  refine ⟨?_, ?_, ?_⟩
  · exact not_secretsKept_of_replaced 0 ⟨0, 0, "whsec_1", 86400000⟩ "whsec" "whsec" (by decide +kernel)
      (by decide +kernel) (by decide +kernel) (by decide +kernel)
      (by decide +kernel) (by decide +kernel)
  · exact not_secretsKept_of_new 0 ⟨0, 0, "whsec_1", 86400000⟩ "whsec"
      (by decide +kernel) (by decide +kernel) (by decide +kernel) (by decide +kernel)
  · exact not_secretsKept_of_replaced 0 ⟨0, 0, "whsec_1", 86400000⟩ "whsec" "whsec_2" (by decide +kernel)
      (by decide +kernel) (by decide +kernel) (by decide +kernel)
      (by decide +kernel) (by decide +kernel)

end WebhookEngine.Service
