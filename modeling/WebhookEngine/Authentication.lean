import WebhookEngine.Migration
import WebhookEngine.Operations

/-! Who a request is let in as: over any run from a migrated store, the tenant whose latest key
the header carries, and no other. -/

namespace WebhookEngine

open Relational

/-- The header is the key after `Bearer `, in letters of any case. -/
def IsBearer (authorization key : String) : Prop :=
  ∃ scheme : List Char, scheme.map Char.toLower = "bearer ".toList ∧
    authorization.toList = scheme ++ key.toList

/-- A hexadecimal digest of 256 bits. -/
def IsDigest (text : String) : Prop := text.toList.length = 64 ∧ text.toList.all isLowerHex = true

theorem toLower_of_isLowerHex {c : Char} (h : isLowerHex c = true) : c.toLower = c := by
  simp only [isLowerHex, Bool.or_eq_true, Bool.and_eq_true, decide_eq_true_eq, Char.le_def,
    UInt32.le_iff_toNat_le] at h
  -- no lower case digit is a capital letter, so the second branch is the one taken
  refine dif_neg fun hupper => ?_
  simp only [ge_iff_le, UInt32.le_iff_toNat_le] at hupper
  have h0 : ('0' : Char).val.toNat = 48 := rfl
  have h9 : ('9' : Char).val.toNat = 57 := rfl
  have ha : ('a' : Char).val.toNat = 97 := rfl
  have hf : ('f' : Char).val.toNat = 102 := rfl
  have hA : ('A' : Char).val.toNat = 65 := rfl
  have hZ : ('Z' : Char).val.toNat = 90 := rfl
  omega

theorem isBearer_of_credential {authorization key : String}
    (h : bearerCredential authorization = some key) : IsBearer authorization key := by
  simp only [bearerCredential] at h
  split at h
  · rename_i hpattern
    simp only [Bool.and_eq_true, beq_iff_eq] at hpattern
    cases h
    exact ⟨authorization.toList.take 7, hpattern.1.1.1, by simp⟩
  · cases h

theorem credential_of_isBearer {authorization key : String} (h : IsBearer authorization key)
    (hkey : isApiKey key = true) : bearerCredential authorization = some key := by
  obtain ⟨scheme, hscheme, hlist⟩ := h
  have hlen : scheme.length = 7 := by simpa using congrArg List.length hscheme
  simp only [isApiKey, Bool.and_eq_true, beq_iff_eq] at hkey
  obtain ⟨⟨hstem, hcount⟩, hhex⟩ := hkey
  have htake : authorization.toList.take 7 = scheme := by rw [hlist, ← hlen, List.take_left]
  have hdrop : authorization.toList.drop 7 = key.toList := by rw [hlist, ← hlen, List.drop_left]
  have hlower : ((key.toList.drop 4).all fun c => isLowerHex c.toLower) = true := by
    rw [List.all_eq_true] at hhex ⊢
    intro c hc
    rw [toLower_of_isLowerHex (hhex c hc)]
    exact hhex c hc
  simp only [bearerCredential, htake, hdrop, hscheme, hstem, hcount, hlower]
  simp

namespace Service

def authOf (s : Service) (i : Nat) : Option (String × Bool) :=
  (s.db.tenants.row i).map fun T => (T.apiKeyHash, T.isActive)

def latestKey (s : Service) (t : Nat) : Option String :=
  (s.keys.find? fun p => p.1 == t).map Prod.snd

def deletes (s : Service) : Operation → Option Nat
  | .deleteTenant c =>
    match s.sessions c with
    | some (.found id .delete) => if isOk (PrismaTenantsRepository.delete s.db id) then some id else none
    | _ => none
  | _ => none

variable {cfg : Config} {hashApiKey : String → String} {s t : Service} {a : Operation} {as : List Operation}

/-- What one operation can do to tenants and keys. -/
inductive KeyStep (hashApiKey : String → String) (s : Service) : Operation → Service → Prop where
  | kept {a : Operation} {t} (hauth : ∀ i, t.authOf i = s.authOf i) (hkeys : t.keys = s.keys)
      (hissued : ∀ key ∈ s.issued, key ∈ t.issued)
      (hkeyed : ∀ c id key, t.sessions c = some (.keyed id key) → s.sessions c = some (.keyed id key))
      (hdeletes : s.deletes a = none) : KeyStep hashApiKey s a t
  | deleted {c id t} (hrow : (s.authOf id).isSome = true)
      (hauth : ∀ i, t.authOf i = (s.authOf i).map fun p => if i = id then (p.1, false) else p)
      (hkeys : t.keys = s.keys) (hissued : t.issued = s.issued)
      (hkeyed : ∀ c id key, t.sessions c = some (.keyed id key) → s.sessions c = some (.keyed id key))
      (hdeletes : s.deletes (.deleteTenant c) = some id) : KeyStep hashApiKey s (.deleteTenant c) t
  | generated {c id key t} (hkey : isApiKey key = true) (hnew : key ∉ s.issued)
      (hauth : ∀ i, t.authOf i = s.authOf i) (hkeys : t.keys = s.keys) (hissued : t.issued = key :: s.issued)
      (hsessions : t.sessions = Function.update s.sessions c (some (.keyed id key))) :
      KeyStep hashApiKey s (.generateApiKey c key) t
  | created {name rateLimit endpoints key t} (hkey : isApiKey key = true) (hnew : key ∉ s.issued)
      (hfree : ∀ i b, s.authOf i ≠ some (hashApiKey key, b)) (hnone : s.authOf s.db.tenants.next = none)
      (hauth : ∀ i, t.authOf i = if i = s.db.tenants.next then some (hashApiKey key, true) else s.authOf i)
      (hkeys : t.keys = (s.db.tenants.next, key) :: s.keys) (hissued : t.issued = key :: s.issued)
      (hsessions : t.sessions = s.sessions) :
      KeyStep hashApiKey s (.createTenant name rateLimit endpoints key) t
  | rotated {c id key t} (hc : s.sessions c = some (.keyed id key)) (hrow : (s.authOf id).isSome = true)
      (hfree : ∀ i b, i ≠ id → s.authOf i ≠ some (hashApiKey key, b))
      (hauth : ∀ i, t.authOf i = (s.authOf i).map fun p => if i = id then (hashApiKey key, p.2) else p)
      (hkeys : t.keys = (id, key) :: s.keys) (hissued : t.issued = s.issued)
      (hsessions : t.sessions = Function.update s.sessions c none) :
      KeyStep hashApiKey s (.updateApiKeyHash c) t

theorem authOf_congr (h : t.db.tenants = s.db.tenants) (i : Nat) : t.authOf i = s.authOf i := by
  simp only [authOf, h]

theorem free_of_hashTaken {id : Nat} {hash : String} (h : s.db.hashTaken id hash = false) {i : Nat} (b : Bool)
    (hi : i ≠ id) : s.authOf i ≠ some (hash, b) := by
  intro hauth
  obtain ⟨T, hT, heq⟩ := Option.map_eq_some_iff.mp hauth
  have hhash : T.apiKeyHash = hash := congrArg Prod.fst heq
  have hmem : (i, T) ∈ s.db.tenants.select fun i t => i != id && t.apiKeyHash == hash :=
    Table.mem_select.mpr ⟨hT, by simp [hi, hhash]⟩
  simp only [Database.hashTaken, Bool.not_eq_false', List.isEmpty_iff] at h
  rw [h] at hmem
  cases hmem

theorem keys_kept (h : s.step cfg hashApiKey a = some t)
    (hcreate : ∀ name rateLimit endpoints key, a ≠ .createTenant name rateLimit endpoints key)
    (hgenerate : ∀ c key, a ≠ .generateApiKey c key) (hwrite : ∀ c, a ≠ .updateApiKeyHash c) :
    t.keys = s.keys ∧ t.issued = s.issued ∧
      ∀ c id key, t.sessions c = some (.keyed id key) → s.sessions c = some (.keyed id key) := by
  have hsame : t.keys = s.keys ∧ t.issued = s.issued := by
    cases Step.of_step h with
    | createTenant _ _ _ => exact absurd rfl (hcreate _ _ _ _)
    | generateApiKey _ _ _ => exact absurd rfl (hgenerate _ _)
    | updateApiKeyHash _ _ => exact absurd rfl (hwrite _)
    | _ => exact ⟨rfl, rfl⟩
  refine ⟨hsame.1, hsame.2, fun c id key hkeyed => ?_⟩
  rcases session_origin h hkeyed with hold | hopens
  · exact hold
  · cases hopens
    exact absurd rfl (hgenerate _ _)

theorem tenants_eq (h : s.step cfg hashApiKey a = some t)
    (hcreate : ∀ name rateLimit endpoints key, a ≠ .createTenant name rateLimit endpoints key)
    (hupdate : ∀ c, a ≠ .updateTenant c) (hdelete : ∀ c, a ≠ .deleteTenant c)
    (hwrite : ∀ c, a ≠ .updateApiKeyHash c) : t.db.tenants = s.db.tenants := by
  by_cases hsystem : ∃ b, a = .system b
  · obtain ⟨b, rfl⟩ := hsystem
    exact (system_setup h).1
  · obtain ⟨db, hdb, hw⟩ := step_writes h fun b hb => hsystem ⟨b, hb⟩
    rw [Service.db, hdb]
    cases hw with
    | none => rfl
    | createEndpoint h =>
      obtain ⟨_, _, rfl, _⟩ := PrismaEndpointsRepository.create_eq_ok.mp h
      rfl
    | @updateEndpoint c tenantId id input db answer hc h =>
      obtain ⟨_, _, _, _, rfl, _⟩ := PrismaEndpointsRepository.update_eq_ok.mp h
      cases input.eventTypes <;> rfl
    | softDelete _ h =>
      obtain ⟨_, rfl⟩ := PrismaEndpointsRepository.updateEndpoint_eq_ok.mp h
      rfl
    | rotateSecret _ h =>
      obtain ⟨_, rfl⟩ := PrismaEndpointsRepository.updateEndpoint_eq_ok.mp h
      rfl
    | createTenant _ => exact absurd rfl (hcreate _ _ _ _)
    | updateTenant _ _ => exact absurd rfl (hupdate _)
    | deleteTenant _ _ => exact absurd rfl (hdelete _)
    | updateApiKeyHash _ _ => exact absurd rfl (hwrite _)

theorem authOf_modify {db : Database} {id : Nat} (data : Tenant → Tenant) (f : String × Bool → String × Bool)
    (hdb : db.tenants = s.db.tenants.modify id data)
    (hf : ∀ T, ((data T).apiKeyHash, (data T).isActive) = f (T.apiKeyHash, T.isActive)) (i : Nat) :
    ((db.tenants.row i).map fun T => (T.apiKeyHash, T.isActive)) =
      (s.authOf i).map fun p => if i = id then f p else p := by
  rw [hdb, Table.modify_row_eq_map, authOf, Option.map_map, Option.map_map]
  refine Option.map_congr fun T _ => ?_
  by_cases hi : i = id
  · simp only [Function.comp_apply, if_pos hi]
    exact hf T
  · simp only [Function.comp_apply, if_neg hi]

theorem keyStep (h : s.step cfg hashApiKey a = some t) : KeyStep hashApiKey s a t := by
  cases Step.of_step h with
  | @createTenant name rateLimit endpoints key result hkey hnew hresult =>
    cases result with
    | ok db =>
      obtain ⟨⟨hfree, _, _⟩, rfl⟩ := PrismaTenantsRepository.create_eq_ok.mp hresult.symm
      have hnone : s.authOf s.db.tenants.next = none := by
        simp [authOf, s.db.tenants.fresh _ (le_refl _)]
      refine .created hkey hnew (fun i b hauth => ?_) hnone (fun i => ?_) rfl rfl rfl
      · by_cases hi : i = s.db.tenants.next
        · rw [hi, hnone] at hauth
          cases hauth
        · exact free_of_hashTaken hfree b hi hauth
      · show ((s.db.tenants.insert (PrismaTenantsRepository.tenant
          ⟨name, hashApiKey key, rateLimit, endpoints⟩)).row i).map (fun T => (T.apiKeyHash, T.isActive)) = _
        rw [Table.insert_row]
        split <;> rfl
    | error e =>
      exact .kept (fun _ => rfl) rfl (fun _ hmem => List.mem_cons_of_mem _ hmem) (fun _ _ _ hc => hc) rfl
  | generateApiKey _ hkey hnew => exact .generated hkey hnew (fun _ => rfl) rfl rfl rfl
  | updateTenant _ =>
    obtain ⟨hkeys, hissued, hkeyed⟩ := keys_kept h (by simp) (by simp) (by simp)
    refine .kept (fun i => ?_) hkeys (fun _ hmem => hissued ▸ hmem) hkeyed rfl
    obtain ⟨db, hdb, hw⟩ := step_writes h (by simp)
    rw [authOf, Service.db, hdb]
    cases hw with
    | none => rfl
    | updateTenant _ h =>
      obtain ⟨_, _, _, rfl⟩ := PrismaTenantsRepository.updateTenant_eq_ok.mp h
      exact (authOf_modify (s := s) (UpdateTenantInput.data _) (fun p => p) rfl (fun _ => rfl) i).trans (by simp)
  | @deleteTenant c id hc =>
    obtain ⟨hkeys, hissued, hkeyed⟩ := keys_kept h (by simp) (by simp) (by simp)
    cases hresult : PrismaTenantsRepository.delete s.db id with
    | ok db =>
      obtain ⟨T, hT, _, rfl⟩ := PrismaTenantsRepository.updateTenant_eq_ok.mp hresult
      have hdeletes : s.deletes (.deleteTenant c) = some id := by
        simp [deletes, hc, hresult, isOk, Except.toOption]
      rw [hresult] at hkeys hissued hkeyed
      refine .deleted (by simp [authOf, hT]) (fun i => ?_) hkeys hissued hkeyed hdeletes
      exact authOf_modify (fun T => { T with isActive := false }) (fun p => (p.1, false)) rfl (fun _ => rfl) i
    | error e =>
      rw [hresult] at hkeys hissued hkeyed
      exact .kept (fun _ => rfl) hkeys (fun _ hmem => hissued ▸ hmem) hkeyed
        (by simp [deletes, hc, hresult, isOk, Except.toOption])
  | @updateApiKeyHash c id key result hc hresult =>
    cases result with
    | ok db =>
      obtain ⟨T, hT, hfree, rfl⟩ := PrismaTenantsRepository.updateTenant_eq_ok.mp hresult.symm
      refine .rotated hc (by simp [authOf, hT]) (fun i b hi => free_of_hashTaken hfree b hi) (fun i => ?_)
        rfl rfl rfl
      exact authOf_modify (fun T => { T with apiKeyHash := hashApiKey key }) (fun p => (hashApiKey key, p.2)) rfl
        (fun _ => rfl) i
    | error e =>
      refine .kept (fun _ => rfl) rfl (fun _ hmem => hmem) (fun c' id' key' hc' => ?_) rfl
      rcases set_origin hc' with hold | ⟨_, hnew⟩
      · exact hold
      · cases hnew
  | _ =>
    obtain ⟨hkeys, hissued, hkeyed⟩ := keys_kept h (by simp) (by simp) (by simp)
    exact .kept (authOf_congr (tenants_eq h (by simp) (by simp) (by simp) (by simp))) hkeys
      (fun _ hmem => hissued ▸ hmem) hkeyed rfl

/-- Every tenant stands under the hash of its latest key, or under the one it was migrated with. -/
structure KeysStand (hashApiKey : String → String) (s : Service) : Prop where
  hash : ∀ i hash b, s.authOf i = some (hash, b) → (∃ key, s.latestKey i = some key ∧ hash = hashApiKey key) ∨
    s.latestKey i = none ∧ ∃ text, hash = "legacy_" ++ text
  unique : ∀ i j hash b b', s.authOf i = some (hash, b) → s.authOf j = some (hash, b') → i = j
  written : ∀ i key, (i, key) ∈ s.keys → (s.authOf i).isSome = true ∧ key ∈ s.issued ∧ isApiKey key = true
  nodup : (s.keys.map Prod.snd).Nodup
  keyed : ∀ c id key, s.sessions c = some (.keyed id key) → key ∈ s.issued ∧ isApiKey key = true ∧
    key ∉ s.keys.map Prod.snd
  single : ∀ c c' id id' key, s.sessions c = some (.keyed id key) → s.sessions c' = some (.keyed id' key) →
    c = c'

theorem latestKey_of_keys_eq (h : t.keys = s.keys) (i : Nat) : t.latestKey i = s.latestKey i := by
  simp only [latestKey, h]

theorem latestKey_cons {id : Nat} {key : String} (h : t.keys = (id, key) :: s.keys) (i : Nat) :
    t.latestKey i = if i = id then some key else s.latestKey i := by
  simp only [latestKey, h, List.find?_cons]
  by_cases hi : id = i
  · simp [hi]
  · have hbeq : (id == i) = false := beq_false_of_ne hi
    simp [hbeq, Ne.symm hi]

theorem mem_keys_of_latest {i : Nat} {key : String} (h : s.latestKey i = some key) : (i, key) ∈ s.keys := by
  obtain ⟨⟨j, key'⟩, hfind, rfl⟩ := Option.map_eq_some_iff.mp h
  have hmem := List.mem_of_find?_eq_some hfind
  have hj : j = i := by simpa using List.find?_some hfind
  exact hj ▸ hmem

namespace KeysStand

theorem of_same (hk : KeysStand hashApiKey s)
    (hauth : ∀ i, (t.authOf i).map Prod.fst = (s.authOf i).map Prod.fst) (hkeys : t.keys = s.keys)
    (hissued : ∀ key ∈ s.issued, key ∈ t.issued)
    (hkeyed : ∀ c id key, t.sessions c = some (.keyed id key) → key ∈ t.issued ∧ isApiKey key = true ∧
      key ∉ s.keys.map Prod.snd)
    (hsingle : ∀ c c' id id' key, t.sessions c = some (.keyed id key) →
      t.sessions c' = some (.keyed id' key) → c = c') : KeysStand hashApiKey t := by
  have hback : ∀ i hash b, t.authOf i = some (hash, b) → ∃ b', s.authOf i = some (hash, b') := by
    intro i hash b h
    have hfst := hauth i
    rw [h, Option.map_some, eq_comm, Option.map_eq_some_iff] at hfst
    obtain ⟨⟨hash', b'⟩, hs, rfl⟩ := hfst
    exact ⟨b', hs⟩
  refine ⟨fun i hash b h => ?_, fun i j hash b b' h h' => ?_, fun i key h => ?_, hkeys ▸ hk.nodup,
    fun c id key hc => hkeys ▸ hkeyed c id key hc, hsingle⟩
  · obtain ⟨b', hs⟩ := hback i hash b h
    rw [latestKey_of_keys_eq hkeys]
    exact hk.hash i hash b' hs
  · obtain ⟨_, hi⟩ := hback i hash b h
    obtain ⟨_, hj⟩ := hback j hash b' h'
    exact hk.unique i j hash _ _ hi hj
  · obtain ⟨hrow, hmem, hkey⟩ := hk.written i key (hkeys ▸ h)
    have hsome := congrArg Option.isSome (hauth i)
    rw [Option.isSome_map, Option.isSome_map, hrow] at hsome
    exact ⟨hsome, hissued key hmem, hkey⟩

theorem of_written {id : Nat} {key : String} (hk : KeysStand hashApiKey s)
    (hown : ∃ b, t.authOf id = some (hashApiKey key, b))
    (hothers : ∀ i, i ≠ id → t.authOf i = s.authOf i)
    (hfree : ∀ i b, i ≠ id → s.authOf i ≠ some (hashApiKey key, b))
    (hkeys : t.keys = (id, key) :: s.keys) (hkey : isApiKey key = true) (hmem : key ∈ t.issued)
    (hnew : key ∉ s.keys.map Prod.snd) (hissued : ∀ k ∈ s.issued, k ∈ t.issued)
    (hkeyed : ∀ c id' k, t.sessions c = some (.keyed id' k) → s.sessions c = some (.keyed id' k) ∧ k ≠ key) :
    KeysStand hashApiKey t where
  hash i hash b h := by
    rw [latestKey_cons hkeys]
    by_cases hi : i = id
    · subst hi
      obtain ⟨b', hown⟩ := hown
      rw [hown, Option.some.injEq, Prod.mk.injEq] at h
      exact .inl ⟨key, if_pos rfl, h.1.symm⟩
    · rw [if_neg hi]
      exact hk.hash i hash b (hothers i hi ▸ h)
  unique i j hash b b' h h' := by
    obtain ⟨b₀, hown⟩ := hown
    by_cases hi : i = id
    · by_cases hj : j = id
      · rw [hi, hj]
      · rw [hi, hown, Option.some.injEq, Prod.mk.injEq] at h
        rw [hothers j hj, ← h.1] at h'
        exact absurd h' (hfree j b' hj)
    · by_cases hj : j = id
      · rw [hj, hown, Option.some.injEq, Prod.mk.injEq] at h'
        rw [hothers i hi, ← h'.1] at h
        exact absurd h (hfree i b hi)
      · exact hk.unique i j hash b b' (hothers i hi ▸ h) (hothers j hj ▸ h')
  written i k h := by
    rw [hkeys, List.mem_cons] at h
    rcases h with heq | hold
    · obtain ⟨rfl, rfl⟩ := Prod.mk.injEq .. ▸ heq
      obtain ⟨b, hown⟩ := hown
      exact ⟨by simp [hown], hmem, hkey⟩
    · obtain ⟨hrow, hk', hkey'⟩ := hk.written i k hold
      refine ⟨?_, hissued k hk', hkey'⟩
      by_cases hi : i = id
      · obtain ⟨b, hown⟩ := hown
        simp [hi, hown]
      · rw [hothers i hi]
        exact hrow
  nodup := by
    rw [hkeys, List.map_cons, List.nodup_cons]
    exact ⟨hnew, hk.nodup⟩
  keyed c id' k hc := by
    obtain ⟨hold, hne⟩ := hkeyed c id' k hc
    obtain ⟨hk', hkey', hno⟩ := hk.keyed c id' k hold
    refine ⟨hissued k hk', hkey', ?_⟩
    rw [hkeys, List.map_cons, List.mem_cons]
    exact fun h => h.elim hne hno
  single c c' id₁ id₂ k hc hc' := hk.single c c' id₁ id₂ k (hkeyed c id₁ k hc).1 (hkeyed c' id₂ k hc').1

theorem unwritten {key : String} (hk : KeysStand hashApiKey s) (hnew : key ∉ s.issued) :
    key ∉ s.keys.map Prod.snd := by
  intro hmem
  obtain ⟨⟨i, k⟩, hwritten, rfl⟩ := List.mem_map.mp hmem
  exact hnew (hk.written i k hwritten).2.1

theorem step (hk : KeysStand hashApiKey s) (h : s.step cfg hashApiKey a = some t) : KeysStand hashApiKey t := by
  have hsingle : ∀ {c c' : Nat} {id id' : Nat} {key : String},
      (∀ c id key, t.sessions c = some (.keyed id key) → s.sessions c = some (.keyed id key)) →
        t.sessions c = some (.keyed id key) → t.sessions c' = some (.keyed id' key) → c = c' :=
    fun hkeyed hc hc' => hk.single _ _ _ _ _ (hkeyed _ _ _ hc) (hkeyed _ _ _ hc')
  cases keyStep h with
  | kept hauth hkeys hissued hkeyed _ =>
    refine hk.of_same (fun i => by rw [hauth]) hkeys hissued (fun c id key hc => ?_)
      fun _ _ _ _ _ => hsingle hkeyed
    obtain ⟨hmem, hkey, hno⟩ := hk.keyed c id key (hkeyed c id key hc)
    exact ⟨hissued key hmem, hkey, hno⟩
  | @deleted _ id _ hrow hauth hkeys hissued hkeyed _ =>
    refine hk.of_same (fun i => ?_) hkeys (fun _ hmem => hissued ▸ hmem) (fun c id key hc => ?_)
      fun _ _ _ _ _ => hsingle hkeyed
    · rw [hauth, Option.map_map]
      refine Option.map_congr fun p _ => ?_
      by_cases hi : i = id
      · simp [hi]
      · simp [hi]
    · rw [hissued]
      exact hk.keyed c id key (hkeyed c id key hc)
  | @generated c id key _ hkey hnew hauth hkeys hissued hsessions =>
    have hfresh : ∀ k ∈ s.issued, k ≠ key := fun k hmem he => hnew (he ▸ hmem)
    have horigin : ∀ c' id' k, t.sessions c' = some (.keyed id' k) →
        s.sessions c' = some (.keyed id' k) ∨ c' = c ∧ k = key := by
      intro c' id' k hc'
      rw [hsessions] at hc'
      rcases set_origin hc' with hold | ⟨rfl, hnew⟩
      · exact .inl hold
      · cases hnew
        exact .inr ⟨rfl, rfl⟩
    refine hk.of_same (fun i => by rw [hauth]) hkeys (fun k hmem => hissued ▸ List.mem_cons_of_mem _ hmem)
      (fun c' id' k hc' => ?_) fun c₁ c₂ id₁ id₂ k h₁ h₂ => ?_
    · rw [hissued]
      rcases horigin c' id' k hc' with hold | ⟨_, rfl⟩
      · obtain ⟨hmem, hkey', hno⟩ := hk.keyed c' id' k hold
        exact ⟨List.mem_cons_of_mem _ hmem, hkey', hno⟩
      · exact ⟨List.mem_cons_self, hkey, hk.unwritten hnew⟩
    · rcases horigin c₁ id₁ k h₁ with hold₁ | ⟨rfl, rfl⟩
      · rcases horigin c₂ id₂ k h₂ with hold₂ | ⟨_, rfl⟩
        · exact hk.single c₁ c₂ id₁ id₂ k hold₁ hold₂
        · exact absurd rfl (hfresh _ (hk.keyed c₁ id₁ k hold₁).1)
      · rcases horigin c₂ id₂ k h₂ with hold₂ | ⟨rfl, _⟩
        · exact absurd rfl (hfresh _ (hk.keyed c₂ id₂ k hold₂).1)
        · rfl
  | @created name rateLimit endpoints key _ hkey hnew hfree hnone hauth hkeys hissued hsessions =>
    refine hk.of_written ⟨true, by rw [hauth, if_pos rfl]⟩ (fun i hi => by rw [hauth, if_neg hi])
      (fun i b _ => hfree i b) hkeys hkey (hissued ▸ List.mem_cons_self) (hk.unwritten hnew)
      (fun k hmem => hissued ▸ List.mem_cons_of_mem _ hmem) fun c id' k hc => ?_
    rw [hsessions] at hc
    exact ⟨hc, fun he => hnew (he ▸ (hk.keyed c id' k hc).1)⟩
  | @rotated c id key _ hc hrow hfree hauth hkeys hissued hsessions =>
    obtain ⟨hmem, hkey, hno⟩ := hk.keyed c id key hc
    obtain ⟨p, hp⟩ := Option.isSome_iff_exists.mp hrow
    refine hk.of_written ⟨p.2, by simp [hauth, hp]⟩ (fun i hi => ?_) hfree hkeys hkey (hissued ▸ hmem) hno
      (fun k hmem => hissued ▸ hmem) fun c' id' k hc' => ?_
    · simp [hauth, hi]
    · rw [hsessions] at hc'
      rcases set_origin hc' with hold | ⟨_, hnone⟩
      · refine ⟨hold, ?_⟩
        rintro rfl
        rw [hk.single c c' id id' _ hc hold, Function.update_self] at hc'
        cases hc'
      · cases hnone

end KeysStand

/-- The service over a store that is already there. -/
def start (db : Database) (now : Time) : Service :=
  let s := boot ⟨db.tenants, db.endpoints, db.subscriptions, now⟩
  { s with system := { s.system with db := db } }

/-- The operation deletes another tenant, or none. -/
def Undeletes (i : Nat) (s : Service) (a : Operation) (_ : Service) : Prop := s.deletes a ≠ some i

section Migrated

variable {idText : Nat → String} {migratedAt now : Time} {old : InitDatabase} {db : Database}

theorem start_authOf (h : Migrated idText migratedAt old db) (i : Nat) :
    (start db now).authOf i = (old.tenants.row i).map fun _ => ("legacy_" ++ idText i, true) := by
  show ((db.tenants.row i).map fun T => (T.apiKeyHash, T.isActive)) = _
  rw [h.tenants, Table.mapRows_row, Option.map_map]
  rfl

theorem start_keysStand (h : Migrated idText migratedAt old db) : KeysStand hashApiKey (start db now) where
  hash i hash b hi := by
    rw [start_authOf h] at hi
    obtain ⟨_, _, heq⟩ := Option.map_eq_some_iff.mp hi
    exact .inr ⟨rfl, idText i, (congrArg Prod.fst heq).symm⟩
  unique i j hash b b' hi hj := by
    obtain ⟨T, hT, heq⟩ := Option.map_eq_some_iff.mp hi
    obtain ⟨Q, hQ, heq'⟩ := Option.map_eq_some_iff.mp hj
    exact Table.allDistinct_iff.mp h.hashes i j T Q hT hQ
      ((congrArg Prod.fst heq).trans (congrArg Prod.fst heq').symm)
  written i key hmem := by cases hmem
  nodup := List.nodup_nil
  keyed c id key hc := by cases hc
  single c c' id id' key hc := by cases hc

theorem keysStand (hm : Migrated idText migratedAt old db)
    (h : Transition.run (step cfg hashApiKey) (start db now) as = some s) : KeysStand hashApiKey s :=
  Transition.run_invariant (fun _ _ _ hk hstep => hk.step hstep) (start_keysStand hm) h

theorem active_iff (hm : Migrated idText migratedAt old db) (i : Nat)
    (h : Transition.run (step cfg hashApiKey) (start db now) as = some s) :
    ((s.authOf i).all fun p => p.2) = true ↔
      Transition.Along (step cfg hashApiKey) (Undeletes i) (start db now) as := by
  induction as using List.reverseRecOn generalizing s with
  | nil =>
    cases h
    rw [start_authOf hm]
    cases old.tenants.row i <;> exact ⟨fun _ => trivial, fun _ => rfl⟩
  | append_singleton as a ih =>
    obtain ⟨u, hu, ha⟩ := Transition.run_concat_eq_some.mp h
    rw [Transition.along_concat hu ha, ← ih hu]
    cases keyStep ha with
    | kept hauth _ _ _ hdeletes =>
      rw [hauth]
      simp [Undeletes, hdeletes]
    | @deleted _ id _ hrow hauth _ _ _ hdeletes =>
      obtain ⟨p, hp⟩ := Option.isSome_iff_exists.mp hrow
      by_cases hi : i = id
      · simp [Undeletes, hdeletes, hauth, hi, hp]
      · simp [Undeletes, hdeletes, hauth, hi, Ne.symm hi]
    | generated _ _ hauth _ _ _ =>
      rw [hauth]
      simp [Undeletes, deletes]
    | created _ _ _ hnone hauth _ _ _ =>
      rw [hauth]
      by_cases hi : i = u.db.tenants.next
      · simp [Undeletes, deletes, hi, hnone]
      · simp [Undeletes, deletes, hi]
    | @rotated _ id _ _ _ _ _ hauth _ _ _ =>
      rw [hauth]
      cases u.authOf i with
      | none => simp [Undeletes, deletes]
      | some p => by_cases hi : i = id <;> simp [Undeletes, deletes, hi]

theorem canActivate_eq_ok (hk : KeysStand hashApiKey s) {authorization : Option String} {i : Nat} :
    canActivate hashApiKey s.db authorization = .ok i ↔ ∃ text key, authorization = some text ∧
      bearerCredential text = some key ∧ s.authOf i = some (hashApiKey key, true) := by
  cases hcredential : authorization.bind bearerCredential with
  | none =>
    simp only [canActivate, hcredential, reduceCtorEq, false_iff, not_exists, not_and]
    rintro text key rfl hkey
    rw [Option.bind_some, hkey] at hcredential
    cases hcredential
  | some key =>
    obtain ⟨text, rfl, htext⟩ := Option.bind_eq_some_iff.mp hcredential
    have hmatch : ∀ j, s.authOf j = some (hashApiKey key, true) ↔
        ∃ T, (j, T) ∈ s.db.tenants.select fun _ t => t.apiKeyHash == hashApiKey key && t.isActive := by
      intro j
      simp only [authOf, Option.map_eq_some_iff, Table.mem_select, Bool.and_eq_true, beq_iff_eq, Prod.mk.injEq]
    have hanswer : canActivate hashApiKey s.db (some text) = .ok i ↔ s.authOf i = some (hashApiKey key, true) := by
      simp only [canActivate, Option.bind_some, htext]
      cases hrows : (s.db.tenants.select fun _ t => t.apiKeyHash == hashApiKey key && t.isActive) with
      | nil => simp [hmatch, hrows]
      | cons p rest =>
        have hp : s.authOf p.1 = some (hashApiKey key, true) := (hmatch p.1).mpr ⟨p.2, by simp [hrows]⟩
        simp only [List.head?_cons, Except.ok.injEq]
        constructor
        · rintro rfl
          exact hp
        · exact fun hi => hk.unique p.1 i _ _ _ hp hi
    rw [hanswer]
    constructor
    · exact fun hi => ⟨text, key, rfl, htext, hi⟩
    · rintro ⟨text', key', htext', hkey', hi⟩
      cases htext'
      rw [htext, Option.some.injEq] at hkey'
      exact hkey' ▸ hi

theorem legacy_ne_digest {hash text : String} (h : IsDigest hash) : hash ≠ "legacy_" ++ text := by
  rintro rfl
  obtain ⟨_, hall⟩ := h
  rw [String.toList_append, List.all_append, Bool.and_eq_true] at hall
  exact absurd hall.1 (by decide)

/-- The guard lets a request in as the tenant whose latest key stands in the header, while that
tenant has not been deleted; no key is the latest of two tenants, and a replaced one opens nothing. -/
theorem latest_key_authenticates (hold : migrate idText migratedAt old = some db)
    (hrun : Transition.run (step cfg hashApiKey) (start db now) as = some s)
    (hdigest : ∀ key, IsDigest (hashApiKey key)) {authorization : Option String}
    (hcollide : ∀ text key issued, authorization = some text → bearerCredential text = some key →
      issued ∈ s.issued → hashApiKey key = hashApiKey issued → key = issued) :
    (∀ i, canActivate hashApiKey s.db authorization = .ok i ↔
      Transition.Along (step cfg hashApiKey) (Undeletes i) (start db now) as ∧
        ∃ key text, s.latestKey i = some key ∧ authorization = some text ∧ IsBearer text key) ∧
    (∀ i j key, s.latestKey i = some key → s.latestKey j = some key → i = j) ∧
    ∀ i key text, (i, key) ∈ s.keys → s.latestKey i ≠ some key → authorization = some text →
      IsBearer text key → ∀ j, canActivate hashApiKey s.db authorization ≠ .ok j := by
  obtain ⟨hm, _⟩ := migrate_migrated hold
  have hk : KeysStand hashApiKey s := keysStand hm hrun
  have hown : ∀ i j key, (i, key) ∈ s.keys → (j, key) ∈ s.keys → i = j := by
    intro i j key hi hj
    exact congrArg Prod.fst (List.inj_on_of_nodup_map hk.nodup hi hj rfl)
  have haccepts : ∀ i, canActivate hashApiKey s.db authorization = .ok i ↔
      Transition.Along (step cfg hashApiKey) (Undeletes i) (start db now) as ∧
        ∃ key text, s.latestKey i = some key ∧ authorization = some text ∧ IsBearer text key := by
    intro i
    rw [canActivate_eq_ok hk, ← active_iff hm i hrun]
    constructor
    · rintro ⟨text, key, htext, hkey, hauth⟩
      refine ⟨by simp [hauth], ?_⟩
      rcases hk.hash i _ _ hauth with ⟨latest, hlatest, hhash⟩ | ⟨_, legacy, hlegacy⟩
      · have hissued := (hk.written i latest (mem_keys_of_latest hlatest)).2.1
        obtain rfl := hcollide text key latest htext hkey hissued hhash
        exact ⟨key, text, hlatest, htext, isBearer_of_credential hkey⟩
      · exact absurd hlegacy (legacy_ne_digest (hdigest key))
    · rintro ⟨hactive, key, text, hlatest, htext, hbearer⟩
      obtain ⟨hrow, _, hkey⟩ := hk.written i key (mem_keys_of_latest hlatest)
      obtain ⟨⟨hash, b⟩, hauth⟩ := Option.isSome_iff_exists.mp hrow
      rw [hauth, Option.all_some] at hactive
      subst hactive
      refine ⟨text, key, htext, credential_of_isBearer hbearer hkey, ?_⟩
      rcases hk.hash i hash true hauth with ⟨latest, hlatest', hhash⟩ | ⟨hnone, _⟩
      · rw [hlatest, Option.some.injEq] at hlatest'
        rw [hauth, hhash, hlatest']
      · rw [hlatest] at hnone
        cases hnone
  refine ⟨haccepts, fun i j key hi hj => hown i j key (mem_keys_of_latest hi) (mem_keys_of_latest hj), ?_⟩
  intro i key text hwritten hreplaced htext hbearer j haccept
  obtain ⟨_, latest, text', hlatest, htext', hbearer'⟩ := (haccepts j).mp haccept
  have hsame : text = text' := Option.some.inj (htext.symm.trans htext')
  have hkey : latest = key := by
    have h := credential_of_isBearer hbearer (hk.written i key hwritten).2.2
    have h' := credential_of_isBearer hbearer' (hk.written j latest (mem_keys_of_latest hlatest)).2.2
    rw [← hsame, h, Option.some.injEq] at h'
    exact h'.symm
  subst hkey
  obtain rfl := hown i j latest hwritten (mem_keys_of_latest hlatest)
  exact hreplaced hlatest

end Migrated

/-- A header accepted as exactly `Bearer ` and the latest key of a tenant not deleted. -/
def AcceptsExactly (cfg : Config) (hashApiKey : String → String) (db : Database) (now : Time)
    (as : List Operation) (s : Service) : Prop :=
  ∀ authorization i, canActivate hashApiKey s.db authorization = .ok i ↔
    Transition.Along (step cfg hashApiKey) (Undeletes i) (start db now) as ∧
      ∃ key, s.latestKey i = some key ∧ authorization = some ("Bearer " ++ key)

def plainDigest (key : String) : String :=
  String.ofList ((key.toList.filter isLowerHex ++ List.replicate 64 '0').take 64)

theorem plainDigest_isDigest (key : String) : IsDigest (plainDigest key) := by
  constructor
  · simp [plainDigest]
  · rw [plainDigest, String.toList_ofList, List.all_eq_true]
    intro c hc
    rcases List.mem_append.mp (List.mem_of_mem_take hc) with hhex | hzero
    · exact (List.mem_filter.mp hhex).2
    · rw [List.eq_of_mem_replicate hzero]
      decide

def rotatedKey : String := "whk_" ++ String.ofList (List.replicate 64 'a')

def rekeyedRun : List Operation := [.findTenant 0 0 .rotateApiKey, .generateApiKey 0 rotatedKey, .updateApiKeyHash 0]

def migratedStore : Database :=
  (migrate toString 5000 (.failed 2 (by decide))).get (by decide +kernel)

def rekeyed : Service :=
  (Transition.run (step .defaults plainDigest) (start migratedStore 5000) rekeyedRun).get (by decide +kernel)

theorem migrate_migratedStore : migrate toString 5000 (.failed 2 (by decide)) = some migratedStore :=
  Option.some_get _ |>.symm

theorem run_rekeyed :
    Transition.run (step .defaults plainDigest) (start migratedStore 5000) rekeyedRun = some rekeyed :=
  Option.some_get _ |>.symm

theorem latest_key_authenticates_rekeyed :
    canActivate plainDigest rekeyed.db (some ("bearer " ++ rotatedKey)) = .ok 0 := by
  refine ((latest_key_authenticates migrate_migratedStore run_rekeyed plainDigest_isDigest ?_).1 0).mpr
    ⟨?_, rotatedKey, _, by decide +kernel, rfl, "bearer ".toList, by decide, String.toList_append⟩
  · rintro text key issued htext hkey hissued _
    cases htext
    have hsent : bearerCredential ("bearer " ++ rotatedKey) = some rotatedKey := by decide +kernel
    have hlist : rekeyed.issued = [rotatedKey] := by decide +kernel
    rw [hsent, Option.some.injEq] at hkey
    rw [hlist, List.mem_singleton] at hissued
    rw [← hkey, hissued]
  · refine Transition.along_of_mem fun a ha s t => ?_
    rcases (by simpa [rekeyedRun] using ha : _ ∨ _ ∨ _) with rfl | rfl | rfl <;> simp [Undeletes, deletes]

theorem bearer_in_any_case : ¬ AcceptsExactly .defaults plainDigest migratedStore 5000 rekeyedRun rekeyed := by
  intro h
  have haccepted : canActivate plainDigest rekeyed.db (some ("bearer " ++ rotatedKey)) = .ok 0 := by decide +kernel
  obtain ⟨_, key, _, htext⟩ := (h _ 0).mp haccepted
  have hhead := congrArg (fun text : Option String => text.bind fun t => t.toList.head?) htext
  have hlower : ("bearer " ++ rotatedKey).toList.head? = some 'b' := by simp
  have hupper : ("Bearer " ++ key).toList.head? = some 'B' := by simp
  simp only [Option.bind_some, hlower, hupper] at hhead
  exact absurd hhead (by decide)

end Service

end WebhookEngine
