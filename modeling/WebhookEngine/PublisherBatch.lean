import WebhookEngine.PublisherCalls

/-! What the flag is for: with one process that enters, the rows of a batch stand in the table as they were
read until their turn comes. With two, another batch may have published them. -/

namespace WebhookEngine.Deployment

open Relational

variable {cfg : Config} {hashApiKey : String → String} {s t : Deployment} {a : ProcessAct} {u : Setup}
  {as : List ProcessAct} {node : Nat}

/-- The row of a snapshot is in the table, unpublished and with the columns that were read. -/
def AsRead (db : Database) (o : OutboxSnapshot) : Prop :=
  ∃ row, db.deliveryOutbox.row o.id = some row ∧ row.publishedAt = none ∧
    row.deliveryId = o.deliveryId ∧ row.attemptNumber = o.attemptNumber ∧ row.attempts = o.attempts

structure BatchAsRead (r : System) (c : Nat) : Prop where
  distinct : ((r.publishers c).batch.map OutboxSnapshot.id).Nodup
  rows : ∀ o ∈ (r.publishers c).batch, AsRead r.db o

def holdsBatch : Stage → Bool
  | .publish => true
  | .recordError _ => true
  | _ => false

/-- Every call is one of the process `node`, and its batch stands as it was read. -/
structure Current (node : Nat) (s : Deployment) : Prop where
  inHand : InHand s
  alone : ∀ c k, s.calls c = some k → k.node = node
  batch : ∀ c k, s.calls c = some k → holdsBatch k.stage = true → BatchAsRead s.system c

/-- What does not belong to a call of `publishPending` leaves the outbox rows alone. -/
theorem outbox_kept {r r' : Service} {b : Operation} (hb : b.publishes = false)
    (h : r.step cfg hashApiKey b = some r') {i : Nat} {o : DeliveryOutbox}
    (ho : r.db.deliveryOutbox.row i = some o) : r'.db.deliveryOutbox.row i = some o := by
  rcases Service.step_system_or h with ⟨b, rfl, hstep⟩ | ⟨_, db, hdb, hwrites⟩
  · rw [Service.db, hstep.db]
    rcases r.system.store_cases cfg b with he | ⟨x, hx, _, happ⟩
    · rw [he]
      exact ho
    · have hplain : x.keepsOutbox cfg r.system.now r.system.db o = true ∧
          x.rewriteOutbox r.system.now i o = o := by
        cases System.attempts_of_txn hx with
        | publishMark | publishError | strandedReopen | cleanupPublishedOutboxRows | cleanupOldEvents => cases hb
        | _ => exact ⟨rfl, rfl⟩
      have hkept := (Txn.outbox_becomes happ).kept ho hplain.1
      rwa [hplain.2] at hkept
  · rw [Service.db, hdb, show db.deliveryOutbox = _ from hwrites.pipeline.2.2]
    exact ho

theorem AsRead.of_kept {db db' : Database} {o : OutboxSnapshot} (h : AsRead db o)
    (hkept : ∀ row, db.deliveryOutbox.row o.id = some row → db'.deliveryOutbox.row o.id = some row) :
    AsRead db' o := by
  obtain ⟨row, hrow, hrest⟩ := h
  exact ⟨row, hkept row hrow, hrest⟩

theorem asRead_of_select {db : Database} {now : Time} {ids : List Nat} (h : db.PublishBatch now ids) :
    ((db.snapshots ids).map OutboxSnapshot.id).Nodup ∧ ∀ o ∈ db.snapshots ids, AsRead db o := by
  have hrows : ∀ i ∈ ids, ∃ row, db.deliveryOutbox.row i = some row ∧ row.publishedAt = none := by
    intro i hi
    obtain ⟨⟨_, row⟩, hmem, rfl⟩ := List.mem_map.mp (h.1.2.1 hi)
    obtain ⟨hrow, hdue⟩ := Table.mem_select.mp hmem
    simp only [Database.publishable, Bool.and_eq_true, Option.isNone_iff_eq_none] at hdue
    exact ⟨row, hrow, hdue.1⟩
  constructor
  · have hids : (db.snapshots ids).map OutboxSnapshot.id = ids := by
      rw [Database.snapshots, List.map_filterMap]
      calc ids.filterMap _ = ids.filterMap some := by
            refine List.filterMap_congr fun i hi => ?_
            obtain ⟨row, hrow, _⟩ := hrows i hi
            simp [hrow]
        _ = ids := List.filterMap_some
    rw [hids]
    exact h.1.1
  · intro o ho
    obtain ⟨i, hi, hsnapshot⟩ := List.mem_filterMap.mp ho
    obtain ⟨row, hrow, hnone⟩ := hrows i hi
    rw [hrow, Option.map_some, Option.some.injEq] at hsnapshot
    subst hsnapshot
    exact ⟨row, hrow, hnone, rfl, rfl, rfl⟩

theorem batchAsRead_publish {r r' : System} {c : Nat} {ids : List Nat} (hc : BatchAsRead r c)
    (h : r.Step cfg (Stage.publish.act r c ids) r') : BatchAsRead r' c := by
  simp only [Stage.act] at h
  split at h
  · cases h with
    | @publishMark _ o rest hbatch =>
      let batch := if r.ok cfg (.publishMark c) then rest else []
      have hv : ((r.store cfg (.publishMark c)).setPublisher c ⟨batch, false⟩).publishers c = ⟨batch, false⟩ :=
        Function.update_self ..
      have hsub : batch.Sublist rest := by
        simp only [batch]
        split
        · exact List.Sublist.refl _
        · exact List.nil_sublist _
      obtain ⟨hdistinct, hrows⟩ := hc
      rw [hbatch] at hdistinct hrows
      obtain ⟨hnew, hrest⟩ := List.nodup_cons.mp hdistinct
      refine ⟨by rw [hv]; exact hrest.sublist (hsub.map _), fun o' ho' => ?_⟩
      rw [hv] at ho'
      have hmem : o' ∈ rest := hsub.subset ho'
      have hne : o'.id ≠ o.id := fun heq => hnew (heq ▸ List.mem_map_of_mem hmem)
      refine (hrows o' (List.mem_cons_of_mem _ hmem)).of_kept fun row hrow => ?_
      rcases r.store_cases cfg (.publishMark c) with he | ⟨x, hx, _, happ⟩
      · rw [System.setPublisher_db, he]
        exact hrow
      · simp only [System.txn, hbatch, List.head?_cons, Option.map_some, Option.some.injEq] at hx
        subst hx
        have hkept := (Txn.outbox_becomes happ).kept hrow rfl
        rw [Txn.rewriteOutbox, if_neg hne] at hkept
        exact hkept
  · cases h with
    | @publishAdd _ o rest hbatch =>
      have hv : ((r.setQueue (r.queue.add (jobId o.id o.attempts) o.deliveryId o.attemptNumber)).setPublisher c
        ⟨o :: rest, true⟩).publishers c = ⟨o :: rest, true⟩ := Function.update_self ..
      have hsame : (r.publishers c).batch = o :: rest := by rw [hbatch]
      exact ⟨by rw [hv, ← hsame]; exact hc.distinct, by rw [hv, ← hsame]; exact hc.rows⟩

theorem batchAsRead_after {r r' : System} {c : Nat} {ids : List Nat} {ok : Bool} {stage stage' : Stage}
    (hc : holdsBatch stage = true → BatchAsRead r c) (h : r.Step cfg (stage.act r c ids) r')
    (hafter : stage.after r' c ok = some stage') (hholds : holdsBatch stage' = true) : BatchAsRead r' c := by
  cases stage with
  | select =>
    cases h with
    | publishRead _ hids =>
      have hv : (r.setPublisher c ⟨r.db.snapshots ids, false⟩).publishers c = ⟨r.db.snapshots ids, false⟩ :=
        Function.update_self ..
      obtain ⟨hdistinct, hrows⟩ := asRead_of_select hids
      exact ⟨by rw [hv]; exact hdistinct, by rw [hv]; exact hrows⟩
  | publish => exact batchAsRead_publish (hc rfl) h
  | recordError => cases hafter
  | recoverStranded =>
    simp only [Stage.after] at hafter
    split at hafter
    · cases hafter
      split at hholds <;> cases hholds
    · cases hafter
  | selectStale | recoverStale | selectStranded =>
    cases hafter
    split at hholds <;> cases hholds
  | _ =>
    cases hafter
    cases hholds

theorem BatchAsRead.operation {r r' : Service} {b : Operation} {c : Nat} (h : BatchAsRead r.system c)
    (hb : b.publishes = false) (hr : r.step cfg hashApiKey b = some r') : BatchAsRead r'.system c := by
  have hbatch := (sameScans_of_operation hb hr c).1
  refine ⟨by rw [hbatch]; exact h.distinct, fun o ho => ?_⟩
  rw [hbatch] at ho
  exact (h.rows o ho).of_kept fun _ hrow => outbox_kept hb hr hrow

namespace Current

theorem boot (u : Setup) : Current node (boot u) where
  inHand := .boot u
  alone _ _ h := by cases h
  batch _ _ h := by cases h

theorem moved (h : Current node s) {c : Nat} {k : PendingCall} (hk : s.calls c = some k) (ht : InHand t)
    (hothers : ∀ c', c' ≠ c → t.calls c' = s.calls c')
    (hcall : ∀ k', t.calls c = some k' → k'.node = k.node ∧
      (holdsBatch k'.stage = true → BatchAsRead t.system c)) : Current node t := by
  have hone : ∀ c' k', t.calls c' = some k' → c' = c := by
    intro c' k' hk'
    by_contra hne
    have hold := hothers c' hne ▸ hk'
    exact hne (h.inHand.single.one c' c k' k hold hk (by rw [h.alone c' k' hold, h.alone c k hk]))
  refine ⟨ht, fun c' k' hk' => ?_, fun c' k' hk' => ?_⟩ <;> obtain rfl := hone c' k' hk'
  · exact (hcall k' hk').1.trans (h.alone _ k hk)
  · exact (hcall k' hk').2

theorem resumed (h : Current node s) {c : Nat} {ids : List Nat} {k : PendingCall} {r : Service} (hk : s.calls c = some k)
    (hr : s.service.step cfg hashApiKey (.system (k.stage.act s.system c ids)) = some r) :
    Current node ((s.setService r).resumed c k
      (k.stage.after r.system c (s.system.ok cfg (k.stage.act s.system c ids)))) := by
  have hstep : s.system.Step cfg (k.stage.act s.system c ids) r.system := .of_step (Service.step_system hr).1
  have hinHand := h.inHand.resumed hk hr
  have hbatch : ∀ {stage'}, k.stage.after r.system c (s.system.ok cfg (k.stage.act s.system c ids)) = some stage' →
      holdsBatch stage' = true → BatchAsRead r.system c :=
    fun hafter hholds => batchAsRead_after (h.batch c k hk) hstep hafter hholds
  have hne : ∀ (v : Option PendingCall) c', c' ≠ c → Function.update s.calls c v c' = s.calls c' :=
    fun v c' hc' => Function.update_of_ne hc' ..
  have hmoved : ∀ {v : PendingCall}, Function.update s.calls c (some v) c = some v := Function.update_self ..
  rcases resumed_cases (s.setService r) c k (k.stage.after r.system c (s.system.ok cfg (k.stage.act s.system c ids)))
    with ⟨_, heq⟩ | ⟨hafter, heq⟩ | ⟨stage', hafter, _, heq⟩ <;> rw [heq] at hinHand ⊢
  · refine h.moved hk hinHand (hne _) fun k' hk' => ?_
    simp at hk'
  · refine h.moved hk hinHand (hne _) fun k' hk' => ?_
    cases hmoved.symm.trans hk'
    exact ⟨rfl, hbatch hafter⟩
  · refine h.moved hk hinHand (hne _) fun k' hk' => ?_
    cases hmoved.symm.trans hk'
    exact ⟨rfl, hbatch hafter⟩

theorem thrown (h : Current node s) {c : Nat} {k : PendingCall} (hk : s.calls c = some k) (message : String) :
    Current node (s.thrown c k message) := by
  have hinHand := h.inHand.thrown hk message
  have hne : ∀ (v : Option PendingCall) c', c' ≠ c → Function.update s.calls c v c' = s.calls c' :=
    fun v c' hc' => Function.update_of_ne hc' ..
  rcases thrown_cases s c k message with ⟨_, heq⟩ | ⟨hpublish, heq⟩ <;> rw [heq] at hinHand ⊢
  · refine h.moved hk hinHand (hne _) fun k' hk' => ?_
    simp at hk'
  · refine h.moved hk hinHand (hne _) fun k' hk' => ?_
    have hmoved : Function.update s.calls c (some ⟨k.node, .recordError message⟩) c =
        some (⟨k.node, .recordError message⟩ : PendingCall) := Function.update_self ..
    cases hmoved.symm.trans hk'
    have hbatch := h.batch c k hk (by rw [hpublish]; rfl)
    exact ⟨rfl, fun _ => ⟨hbatch.distinct, hbatch.rows⟩⟩

theorem enter (h : Current node s) (hflag : s.publishing node = false) : Current node (s.enter node) := by
  have hcall : ∀ c k, (s.enter node).calls c = some k →
      (k.node = node ∧ holdsBatch k.stage = false) ∨ s.calls c = some k := by
    intro c k hk
    simp only [enter_calls, Function.update_apply] at hk
    split at hk
    · cases hk
      left
      split <;> exact ⟨rfl, rfl⟩
    · exact .inr hk
  refine ⟨h.inHand.enter hflag, fun c k hk => ?_, fun c k hk hholds => ?_⟩
  · rcases hcall c k hk with ⟨hnode, _⟩ | hold
    · exact hnode
    · exact h.alone c k hold
  · rcases hcall c k hk with ⟨_, hno⟩ | hold
    · rw [hno] at hholds
      cases hholds
    · have hbatch := h.batch c k hold hholds
      exact ⟨hbatch.distinct, hbatch.rows⟩

theorem step (h : Current node s) (hstep : s.step cfg hashApiKey a = some t) (hone : ∀ n, a = .publishPending n → n = node) :
    Current node t := by
  cases Deployment.Step.of_step hstep with
  | operation hb hr =>
    exact ⟨h.inHand.operation hb hr, h.alone, fun c k hk hholds => (h.batch c k hk hholds).operation hb hr⟩
  | skip => exact h
  | enter hflag =>
    cases hone _ rfl
    exact h.enter hflag
  | resume hk hr => exact h.resumed hk hr
  | throws hk => exact h.thrown hk _
  | restart =>
    refine ⟨h.inHand.restarted _, fun c k hk => ?_, fun c k hk hholds => ?_⟩
    · simp only [restarted_calls, Option.filter_eq_some_iff] at hk
      exact h.alone c k hk.1
    · simp only [restarted_calls, Option.filter_eq_some_iff] at hk
      have hbatch := h.batch c k hk.1 hholds
      exact ⟨hbatch.distinct, hbatch.rows⟩

end Current

theorem Reached.current (h : Reached cfg hashApiKey u as s) (hone : ∀ n, .publishPending n ∈ as → n = node) :
    Current node s :=
  (Transition.Along.visits (P := fun _ a _ => ∀ n, a = .publishPending n → n = node)
    (fun _ _ _ hi hs hp => Current.step hi hs hp) (.boot u)
    (Transition.along_of_mem fun a ha _ _ n hn => hone n (by rw [← hn]; exact ha))).last h

/-- With one process that enters, whichever it is, every row a call has still to publish, or failed to,
is in the table, unpublished, and with the columns it was read with. A call of the stores or of the
queue that throws is taken to have had no effect. -/
theorem batch_stands_as_read (h : Reached cfg hashApiKey u as s) (hone : ∀ n, .publishPending n ∈ as → n = node)
    {c : Nat} {k : PendingCall} (hk : s.calls c = some k) (hholds : holdsBatch k.stage = true) :
    BatchAsRead s.system c :=
  (h.current hone).batch c k hk hholds

theorem batch_stands_as_read_alone :
    BatchAsRead (after .defaults id (.subscribed 1) (batchRead [3])).system 0 :=
  batch_stands_as_read (c := 0) (k := ⟨3, .publish⟩) (Transition.run_ending (by decide +kernel))
    (show ∀ n, .publishPending n ∈ batchRead [3] → n = 3 by simp [batchRead, Script.ingest]) (by decide +kernel) rfl

/-- A second process publishes the row under the first one's hands. -/
example : let s := after .defaults id (.subscribed 1) (batchRead [0, 1] ++ [.resume 1 [], .resume 1 []])
    s.calls 0 = some ⟨0, .publish⟩ ∧ (s.system.publishers 0).batch.map (·.id) = [0] ∧
      (s.system.db.deliveryOutbox.row 0).bind (·.publishedAt) = some 0 := by
  decide +kernel

end WebhookEngine.Deployment
