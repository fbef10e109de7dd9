import WebhookEngine.Redaction
import WebhookEngine.ResponseText

/-! What the store keeps of answers: no snippet shows what stands behind a protected key. -/

namespace WebhookEngine

open Relational Masking

/-! ### Texts -/

/-- Wherever a protected key stands with its separator, the mark follows, or its beginning where
the text ends. -/
def Redacted (text : String) : Prop := Covered redacted text.toList

def isSeparator (c : Char) : Bool := c == ':' || c == '='

theorem separator_not_space {c : Char} (h : isSeparator c = true) : isJsSpace c = false := by
  simp only [isSeparator, Bool.or_eq_true, beq_iff_eq] at h
  rcases h with rfl | rfl <;> decide

def SeparatorFree (text : List Char) : Prop := ∀ c ∈ text, isSeparator c = false

instance (text : List Char) : Decidable (SeparatorFree text) :=
  decidable_of_iff (text.all fun c => !isSeparator c) (by simp [SeparatorFree])

theorem separator_not_key : ∀ k ∈ secretKeys, SeparatorFree k := by decide +kernel

theorem separator_toLower {c : Char} (h : isSeparator c = true) : isSeparator c.toLower = true := by
  simp only [isSeparator, Bool.or_eq_true, beq_iff_eq] at h
  rcases h with rfl | rfl <;> decide

/-- A kept text has one separator, with nothing but spaces behind it. -/
theorem KeptText.split {kept : List Char} (h : KeptText kept) : ∃ front sep spaces, kept = front ++ sep :: spaces ∧
    SeparatorFree front ∧ isSeparator sep = true ∧ ∀ c ∈ spaces, isJsSpace c = true := by
  obtain ⟨hquote, hkey, hquote', hspace, hsep, hspace'⟩ := h
  rename_i quote key quote' space space' sep
  have hnotQuote {quote : List Char} (hq : IsQuote quote) : SeparatorFree quote := by
    rcases hq with rfl | rfl <;> decide
  refine ⟨quote ++ (key ++ (quote' ++ space)), sep, space', by simp, fun c hc => ?_, ?_, hspace'⟩
  · simp only [List.mem_append] at hc
    rcases hc with hc | hc | hc | hc
    · exact hnotQuote hquote c hc
    · rw [← Bool.not_eq_true]
      intro hc'
      have hlower := separator_not_key _ hkey _ (List.mem_map_of_mem hc)
      rw [separator_toLower hc'] at hlower
      cases hlower
    · exact hnotQuote hquote' c hc
    · rw [← Bool.not_eq_true]
      intro hc'
      have hnot := separator_not_space hc'
      rw [hspace c hc] at hnot
      cases hnot
  · rcases hsep with rfl | rfl <;> decide

theorem KeptText.separator {kept : List Char} (h : KeptText kept) : ∃ c ∈ kept, isSeparator c = true := by
  obtain ⟨front, sep, spaces, rfl, _, hsep, _⟩ := h.split
  exact ⟨sep, by simp, hsep⟩

theorem KeptText.not_inside {kept kept' pre t : List Char} {h : Char} (hk : KeptText kept) (hk' : KeptText kept')
    (hh : isHidden h = true) : kept' ≠ pre ++ (kept ++ h :: t) := by
  obtain ⟨front, sep, spaces, rfl, _, hsep, _⟩ := hk.split
  obtain ⟨front', sep', spaces', rfl, hfront', _, hspaces'⟩ := hk'.split
  have hnotSpace : ∀ c ∈ spaces', isSeparator c = false ∧ isHidden c = false := fun c hc => by
    have hspace := hspaces' c hc
    refine ⟨?_, by simp [isHidden, hspace]⟩
    rw [← Bool.not_eq_true]
    intro hc'
    rw [separator_not_space hc'] at hspace
    cases hspace
  intro he
  have hsplit : front' ++ sep' :: spaces' = (pre ++ front) ++ sep :: (spaces ++ h :: t) := by
    rw [he]
    simp only [List.append_assoc, List.cons_append]
  have hbehind {d : List Char} (hd : sep' :: spaces' = d ++ sep :: (spaces ++ h :: t)) : False := by
    cases d with
    | nil =>
      have hmem : h ∈ spaces' := by
        rw [(List.cons.inj hd).2]
        simp
      rw [(hnotSpace h hmem).2] at hh
      cases hh
    | cons x d =>
      have hmem : sep ∈ spaces' := by
        rw [(List.cons.inj hd).2]
        simp
      rw [(hnotSpace sep hmem).1] at hsep
      cases hsep
  rcases List.append_eq_append_iff.mp hsplit with ⟨d, _, hd⟩ | ⟨d, hd, hrest⟩
  · exact hbehind hd
  · cases d with
    | nil => exact hbehind (d := []) hrest.symm
    | cons x d =>
      have hx : sep = x := (List.cons.inj hrest).1
      rw [hfront' sep (by rw [hd, hx]; simp)] at hsep
      cases hsep

theorem redacted_apart : Apart redacted where
  kept := KeptText.not_inside
  inside {kept} hk hin := by
    obtain ⟨c, hc, hsep⟩ := KeptText.separator hk
    have hmark : SeparatorFree redacted.text := by decide +kernel
    rw [hmark c (hin.subset hc)] at hsep
    cases hsep
  last z hz := by
    have hlast : redacted.text.getLast? = some ']' := by decide +kernel
    obtain rfl : ']' = z := Option.some.inj (hlast.symm.trans hz)
    exact fun kept hk => notMem_kept (by decide) (by decide +kernel) (by decide) (by decide) hk
  hidden := List.all_eq_true.mp (by decide +kernel)

theorem redacted_redact (text : String) : Redacted (redact text) := by
  have hmask := redact_eq_mask text.toList
  rw [String.ofList_toList] at hmask
  rw [Redacted, hmask, String.toList_ofList]
  exact covered_mask redacted_apart _

/-- No symbol beyond the last blank ends a value. -/
theorem hidden_of_high {c : Char} (h : 0xFEFF < c.toNat) : isHidden c = true := by
  have hne {d : Char} (hd : d.toNat ≤ 0xFEFF) : (c != d) = true := by
    rw [bne_iff_ne]
    rintro rfl
    omega
  have hspace : isJsSpace c = false := by
    rw [← Bool.not_eq_true]
    intro hspace
    simp only [isJsSpace, Bool.or_eq_true, Bool.and_eq_true, decide_eq_true_eq, List.contains_iff_mem] at hspace
    simp only [List.mem_cons, List.not_mem_nil, or_false] at hspace
    omega
  rw [isHidden, hne (by decide), hne (by decide), hspace]
  rfl

theorem Redacted.truncate {text : String} (h : Redacted text) : Redacted (truncate text) := by
  rw [Redacted, WebhookEngine.truncate, utf16Prefix, String.toList_ofList]
  rcases utf16Take_cases 255 text.toList with ⟨k, hk⟩ | ⟨front, c, back, hsplit, hpair, hcut⟩
  · rw [hk]
    exact Covered.take h k
  · rw [hcut]
    rw [Redacted, hsplit] at h
    have hhalf : isHidden '\uFFFD' = true := hidden_of_high (by simp)
    refine h.replace_last (hidden_of_high (by omega)) hhalf fun hmark => ?_
    have hshort : redacted.text.all (fun c => decide (c.toNat < 0x10000)) = true := by decide +kernel
    exact absurd (of_decide_eq_true (List.all_eq_true.mp hshort c hmark)) (not_lt.mpr hpair)

theorem redacted_of_separatorFree {text : String} (h : SeparatorFree text.toList) : Redacted text := by
  intro pre kept value post he hk
  obtain ⟨c, hc, hsep⟩ := KeptText.separator hk
  rw [h c (by rw [he]; simp [hc])] at hsep
  cases hsep

theorem redacted_status (status : Nat) : Redacted s!"HTTP {status}" := by
  refine redacted_of_separatorFree fun c hc => ?_
  have htext : (s!"HTTP {status}").toList = "HTTP ".toList ++ Nat.toDigits 10 status := by
    simp [toString, Nat.repr]
  rw [htext, List.mem_append] at hc
  rcases hc with hc | hc
  · exact (show SeparatorFree "HTTP ".toList by decide +kernel) c hc
  · have hdigit : c.isDigit = true := Nat.isDigit_of_mem_toDigits (by decide) (by decide) hc
    rw [← Bool.not_eq_true]
    intro hsep
    simp only [isSeparator, Bool.or_eq_true, beq_iff_eq] at hsep
    rcases hsep with rfl | rfl <;> cases hdigit

theorem redacted_successSnippet (cfg : Config) (status : Nat) (data : String) :
    Redacted (successSnippet cfg status data) := by
  simp only [successSnippet, orText]
  split
  · split
    · exact redacted_of_separatorFree (by decide +kernel)
    · exact (redacted_redact data).truncate
  · exact redacted_status status

theorem redacted_failureSnippet (cfg : Config) (e : SendError) : Redacted (failureSnippet cfg e) := by
  simp only [failureSnippet]
  split
  · exact (redacted_redact e.responseText).truncate
  · exact redacted_status e.statusCode

/-! ### Rows -/

def Database.SnippetsRedacted (db : Database) : Prop :=
  ∀ d r, db.deliveries.row d = some r → ∀ snippet ∈ r.responseSnippet, Redacted snippet

/-- The snippet a transaction writes. -/
def Txn.snippet? : Txn → Option String
  | .markSuccess _ _ responseSnippet => some responseSnippet
  | .markDeadLetter _ _ responseSnippet => some responseSnippet
  | .markCancelled _ reason => some reason
  | .markFailedAndSchedule input => some input.responseSnippet
  | _ => none

theorem Txn.rewrite_snippet {now : Time} {d : Nat} {r : Delivery} {text : String} (x : Txn)
    (h : text ∈ (x.rewrite now d r).responseSnippet) : text ∈ r.responseSnippet ∨ x.snippet? = some text := by
  cases x with
  | markSuccess id code snippet | markDeadLetter id code snippet | markCancelled id snippet
  | markFailedAndSchedule input =>
    simp only [rewrite] at h
    split at h
    · exact .inr h
    · exact .inl h
  | resetForReplay id =>
    simp only [rewrite] at h
    split at h
    · cases h
    · exact .inl h
  | claimForProcessing | markRateLimitedAndSchedule | recoverStaleDelivery =>
    simp only [rewrite] at h
    split at h <;> exact .inl h
  | _ => exact .inl h

theorem redacted_outcome (cfg : Config) (delivery : DispatchableDelivery) (nextAttemptAt : Time) (result : SendResult) :
    ∀ text ∈ ((outcomeWrite cfg delivery nextAttemptAt result).txn delivery.id).snippet?, Redacted text := by
  cases result with
  | resolved status data =>
    rintro _ ⟨⟩
    exact redacted_successSnippet cfg status data
  | rejected e =>
    simp only [outcomeWrite]
    split <;> rintro _ ⟨⟩ <;> exact redacted_failureSnippet cfg e

theorem System.redacted_txn {cfg : Config} {s : System} {a : Act} {x : Txn} (hx : s.txn cfg a = some x) {text : String}
    (htext : x.snippet? = some text) : Redacted text := by
  have houtcome {c : Claimed} {result : SendResult} {delayMs : Nat} {w : OutcomeWrite}
      (ho : s.outcome cfg c result delayMs = w) (hw : (w.txn c.delivery.id).snippet? = some text) : Redacted text := by
    rw [← ho] at hw
    exact redacted_outcome cfg c.delivery (s.now + delayMs) result text hw
  cases attempts_of_txn hx with
  | cancel =>
    cases htext
    exact redacted_of_separatorFree (by decide +kernel)
  | success _ _ ho | deadLetter _ _ ho | retry _ _ ho => exact houtcome ho htext
  | _ => cases htext

theorem Database.SnippetsRedacted.step {cfg : Config} {hashApiKey : String → String} {s t : Service} {a : Operation}
    (hs : s.db.SnippetsRedacted) (h : s.step cfg hashApiKey a = some t) : t.db.SnippetsRedacted := by
  intro d r' hr' text htext
  rcases Service.step_system_or h with ⟨b, rfl, hb⟩ | ⟨_, db, hdb, hw⟩
  · rcases hb.row_origin hr' with ⟨r, hr, rfl | ⟨x, hx, _, rfl⟩⟩ | ⟨_, e, ep, rfl⟩
    · exact hs d r' hr text htext
    · rcases x.rewrite_snippet htext with hold | hnew
      · exact hs d r hr text hold
      · exact System.redacted_txn hx hnew
    · cases htext
  · rw [Service.db, hdb, hw.pipeline.2.1] at hr'
    exact hs d r' hr' text htext

/-- The default configuration, but that it captures what endpoints answer. -/
def Config.capturing : Config := { Config.defaults with captureResponseBodies := true }

namespace Service

end Service

end WebhookEngine
