import WebhookEngine.Signing
import WebhookEngine.Tenants

/-! What the check of a signature accepts, and on which signatures it throws. -/

namespace WebhookEngine

def IsHexDigest (n : Nat) (text : String) : Prop :=
  text.toList.length = n ∧ text.toList.all isLowerHex = true

def isAscii (c : Char) : Bool := decide (c.toNat < 128)

section Texts

variable {text : String} {n : Nat}

theorem utf16Length_ofList (cs : List Char) :
    utf16Length (String.ofList cs) = (cs.map utf16Units).sum := by
  rw [utf16Length, String.toList_ofList]

theorem utf8ByteSize_ofList (cs : List Char) :
    (String.ofList cs).utf8ByteSize = (cs.map Char.utf8Size).sum := by
  induction cs with
  | nil => rfl
  | cons c cs ih =>
    have hcons : String.ofList (c :: cs) = String.singleton c ++ String.ofList cs := by
      rw [← String.toList_inj]
      simp
    rw [hcons, String.utf8ByteSize_append, String.utf8ByteSize_singleton, ih]
    rfl

theorem Char.utf16_le_utf8Size (c : Char) :
    utf16Units c ≤ c.utf8Size ∧
      (c.utf8Size = utf16Units c ↔ isAscii c = true) := by
  have hval : c.val.toNat = c.toNat := rfl
  have h1 := @Char.utf8Size_eq_one_iff c
  have h4 := @Char.utf8Size_eq_four_iff c
  have hpos := Char.utf8Size_pos c
  rw [UInt32.le_iff_toNat_le, hval] at h1
  rw [UInt32.lt_iff_toNat_lt, hval] at h4
  have h127 : (127 : UInt32).toNat = 127 := rfl
  have hffff : (0xffff : UInt32).toNat = 0xffff := rfl
  rw [h127] at h1
  rw [hffff] at h4
  simp only [isAscii, decide_eq_true_eq, utf16Units]
  split <;> omega

/-- A text has as many bytes as code units just when it is ASCII. -/
theorem utf16Length_eq_utf8ByteSize_iff (cs : List Char) :
    utf16Length (String.ofList cs) ≤ (String.ofList cs).utf8ByteSize ∧
      ((String.ofList cs).utf8ByteSize = utf16Length (String.ofList cs) ↔ cs.all isAscii = true) := by
  rw [utf16Length_ofList, utf8ByteSize_ofList]
  induction cs with
  | nil => simp
  | cons c cs ih =>
    obtain ⟨hle, hiff⟩ := ih
    obtain ⟨hfirst, hascii⟩ := Char.utf16_le_utf8Size c
    simp only [List.map_cons, List.sum_cons, List.all_cons, Bool.and_eq_true, ← hiff, ← hascii]
    omega

theorem isAscii_of_isLowerHex {c : Char} (h : isLowerHex c = true) : isAscii c = true := by
  simp only [isLowerHex, Bool.or_eq_true, Bool.and_eq_true, decide_eq_true_eq, Char.le_def,
    UInt32.le_iff_toNat_le] at h
  have hval : c.val.toNat = c.toNat := rfl
  have h9 : ('9' : Char).val.toNat = 57 := rfl
  have hf : ('f' : Char).val.toNat = 102 := rfl
  simp only [isAscii, decide_eq_true_eq]
  omega

theorem IsHexDigest.lengths (h : IsHexDigest n text) : utf16Length text = n ∧ text.utf8ByteSize = n := by
  have hascii : text.toList.all isAscii = true := by
    rw [List.all_eq_true]
    exact fun c hc => isAscii_of_isLowerHex (List.all_eq_true.mp h.2 c hc)
  have hbytes := (utf16Length_eq_utf8ByteSize_iff text.toList).2.mpr hascii
  rw [String.ofList_toList] at hbytes
  have hunits : utf16Length text = n := by
    have hone : ∀ c ∈ text.toList, utf16Units c = 1 := by
      intro c hc
      have := List.all_eq_true.mp hascii c hc
      simp only [isAscii, decide_eq_true_eq] at this
      rw [utf16Units, if_pos (by omega)]
    rw [utf16Length, List.map_congr_left hone, List.map_const', List.sum_replicate_nat, h.1, Nat.mul_one]
  exact ⟨hunits, hbytes.trans hunits⟩

end Texts

section Throws

variable {J : Type} {g : Signer J} {now : Time} {secretKey timestamp signature : String}
  {payload : Payload J} {maxAgeSeconds n : Nat}

def IsFresh (now : Time) (maxAgeSeconds : Nat) (timestamp : String) : Prop :=
  ∃ moment ∈ parseInt timestamp, ((now : Int) - moment).natAbs ≤ maxAgeSeconds * 1000

def VerificationExact (g : Signer J) (now : Time) (secretKey timestamp signature : String)
    (payload : Payload J) (maxAgeSeconds : Nat) : Prop :=
  ∃ answer, WebhookSigningService.verifyWebhookSignature g now secretKey timestamp signature payload
      maxAgeSeconds = some answer ∧
    (answer = true ↔ IsFresh now maxAgeSeconds timestamp ∧
      stripVersion signature = WebhookSigningService.generateSignature g secretKey timestamp payload)

theorem WebhookSigningService.verify_of_fresh (h : IsFresh now maxAgeSeconds timestamp) :
    verifyWebhookSignature g now secretKey timestamp signature payload maxAgeSeconds =
      constantTimeEqual (stripVersion signature) (generateSignature g secretKey timestamp payload) := by
  obtain ⟨moment, hmoment, hage⟩ := h
  simp only [verifyWebhookSignature, Option.mem_def.mp hmoment]
  rw [if_neg (by omega)]

theorem WebhookSigningService.verify_of_not_fresh (h : ¬ IsFresh now maxAgeSeconds timestamp) :
    verifyWebhookSignature g now secretKey timestamp signature payload maxAgeSeconds = some false := by
  rw [verifyWebhookSignature]
  split
  · rfl
  · rename_i moment hmoment
    have hage : ¬ ((now : Int) - moment).natAbs ≤ maxAgeSeconds * 1000 := fun hle => h ⟨moment, hmoment, hle⟩
    rw [if_pos (by omega)]

theorem constantTimeEqual_true {a b : String} (h : constantTimeEqual a b = some true) : a = b := by
  simp only [constantTimeEqual] at h
  split at h
  · cases h
  · split at h
    · cases h
    · simpa using h

theorem constantTimeEqual_eq {a b : String} (hb : IsHexDigest n b) :
    (∃ answer, constantTimeEqual a b = some answer ∧ (answer = true ↔ a = b)) ↔
      (utf16Length a = n → a.toList.all isAscii = true) := by
  obtain ⟨hunits, hbytes⟩ := hb.lengths
  have hiff := (utf16Length_eq_utf8ByteSize_iff a.toList).2
  rw [String.ofList_toList] at hiff
  rw [constantTimeEqual, hunits, hbytes]
  by_cases hlen : utf16Length a = n
  · rw [if_neg (not_not.mpr hlen)]
    by_cases hsize : a.utf8ByteSize = n
    · rw [if_neg (not_not.mpr hsize)]
      have hascii : a.toList.all isAscii = true := hiff.mp (by omega)
      simp [hascii]
    · rw [if_pos hsize]
      have hascii : ¬ a.toList.all isAscii = true := fun h => hsize ((hiff.mpr h).trans hlen)
      simp [hlen, hascii]
  · rw [if_pos hlen]
    have hne : a ≠ b := fun hab => hlen (hab ▸ hunits)
    simp [hlen, hne]

/-- The check throws on a fresh timestamp and a signature that has the length of the digest in
code units, but not in bytes. -/
theorem verification_exact_iff (hhex : ∀ key message, IsHexDigest n (g.hmac key message)) :
    VerificationExact g now secretKey timestamp signature payload maxAgeSeconds ↔
      (IsFresh now maxAgeSeconds timestamp → utf16Length (stripVersion signature) = n →
        (stripVersion signature).toList.all isAscii = true) := by
  have hdigest : IsHexDigest n (WebhookSigningService.generateSignature g secretKey timestamp payload) :=
    hhex _ _
  by_cases hfresh : IsFresh now maxAgeSeconds timestamp
  · rw [VerificationExact, WebhookSigningService.verify_of_fresh hfresh]
    simpa only [hfresh, true_and, true_implies] using constantTimeEqual_eq hdigest
  · rw [VerificationExact, WebhookSigningService.verify_of_not_fresh hfresh]
    simp [hfresh]

def zeroSigner (n : Nat) : Signer String where
  hmac _ _ := String.ofList (List.replicate n '0')
  stringify text := text

theorem zeroSigner_isHexDigest (n : Nat) (key message : String) :
    IsHexDigest n ((zeroSigner n).hmac key message) := by
  simp [zeroSigner, IsHexDigest, isLowerHex]

theorem verification_exact_iff_plain :
    VerificationExact (zeroSigner 64) 1000 "whsec" "1000" "v1=é" (.text "paid") 300 ↔
      (IsFresh 1000 300 "1000" → utf16Length (stripVersion "v1=é") = 64 →
        (stripVersion "v1=é").toList.all isAscii = true) :=
  verification_exact_iff (zeroSigner_isHexDigest 64)

/-- Sixty-three zeros and an `é`. -/
theorem verification_throws :
    ¬ ∀ (g : Signer String) (n : Nat), (∀ key message, IsHexDigest n (g.hmac key message)) →
      ∀ (now : Time) (secretKey timestamp signature : String) (payload : Payload String) (maxAgeSeconds : Nat),
        VerificationExact g now secretKey timestamp signature payload maxAgeSeconds := by
  intro h
  have hexact := h (zeroSigner 64) 64 (zeroSigner_isHexDigest 64) 1000 "whsec" "1000"
    (String.ofList (List.replicate 63 '0' ++ ['é'])) (.text "paid") 300
  obtain ⟨answer, hanswer, _⟩ := hexact
  have hthrows : WebhookSigningService.verifyWebhookSignature (zeroSigner 64) 1000 "whsec" "1000"
      (String.ofList (List.replicate 63 '0' ++ ['é'])) (.text "paid") 300 = none := by
    decide +kernel
  rw [hthrows] at hanswer
  cases hanswer

end Throws

section Separator

variable {J : Type} {g : Signer J} {now signedAt : Time} {secretKey : String} {payload : Payload J}
  {maxAgeSeconds : Nat}

def Signer.payloadString (g : Signer J) : Payload J → String
  | .text value => value
  | .object value => g.stringify value

/-- What the check accepts under the headers of a payload is that payload at that time. -/
def Authenticates (g : Signer J) (secretKey : String) (signedAt now : Time) (maxAgeSeconds : Nat)
    (payload : Payload J) : Prop :=
  let headers := WebhookSigningService.generateWebhookHeaders g signedAt secretKey payload
  ∀ timestamp' payload',
    WebhookSigningService.verifyWebhookSignature g now secretKey timestamp' headers.signature payload'
        maxAgeSeconds = some true →
      timestamp' = headers.timestamp ∧ g.payloadString payload' = g.payloadString payload

theorem WebhookSigningService.generateSignature_eq (g : Signer J) (secretKey timestamp : String)
    (payload : Payload J) :
    generateSignature g secretKey timestamp payload =
      g.hmac secretKey (timestamp ++ "." ++ g.payloadString payload) := by
  cases payload <;> rfl

theorem append_cons_eq {xs ys xs' ys' : List Char} {a : Char} (hxs : a ∉ xs)
    (h : xs' ++ a :: ys' = xs ++ a :: ys) :
    xs' = xs ∧ ys' = ys ∨ ∃ zs, xs' = xs ++ a :: zs ∧ ys = zs ++ a :: ys' := by
  induction xs generalizing xs' with
  | nil =>
    cases xs' with
    | nil => exact .inl ⟨rfl, (List.cons.inj h).2⟩
    | cons x xs' =>
      obtain ⟨rfl, htail⟩ := List.cons.inj h
      exact .inr ⟨xs', rfl, htail.symm⟩
  | cons x xs ih =>
    cases xs' with
    | nil =>
      obtain ⟨rfl, _⟩ := List.cons.inj h
      exact absurd List.mem_cons_self hxs
    | cons x' xs' =>
      obtain ⟨rfl, htail⟩ := List.cons.inj h
      rcases ih (fun ha => hxs (List.mem_cons_of_mem _ ha)) htail with ⟨rfl, hys⟩ | ⟨zs, rfl, hys⟩
      · exact .inl ⟨rfl, hys⟩
      · exact .inr ⟨zs, rfl, hys⟩

theorem dot_notMem_toString (n : Nat) : '.' ∉ (toString n).toList := by
  rw [toList_toString]
  intro hdot
  have hdigit := Nat.isDigit_of_mem_toDigits (by decide) (by decide) hdot
  exact absurd hdigit (by decide)

theorem message_eq {g : Signer J} {timestamp timestamp' : String} {payload payload' : Payload J}
    (hhmac : Function.Injective (g.hmac secretKey))
    (h : WebhookSigningService.generateSignature g secretKey timestamp' payload' =
      WebhookSigningService.generateSignature g secretKey timestamp payload) :
    timestamp'.toList ++ '.' :: (g.payloadString payload').toList =
      timestamp.toList ++ '.' :: (g.payloadString payload).toList := by
  rw [WebhookSigningService.generateSignature_eq, WebhookSigningService.generateSignature_eq] at h
  have hmessage := congrArg String.toList (hhmac h)
  simpa using hmessage

/-- What is accepted is the signed pair, or the payload cut at one of its points. -/
theorem accepted_split {timestamp' : String} {payload' : Payload J}
    (hhmac : Function.Injective (g.hmac secretKey))
    (h : WebhookSigningService.verifyWebhookSignature g now secretKey timestamp'
      (WebhookSigningService.generateWebhookHeaders g signedAt secretKey payload).signature payload'
      maxAgeSeconds = some true) :
    ((now : Int) - signedAt).natAbs ≤ maxAgeSeconds * 1000 ∧
      (timestamp' = toString signedAt ∧ g.payloadString payload' = g.payloadString payload ∨
        '.' ∈ (g.payloadString payload).toList) := by
  have hfresh : IsFresh now maxAgeSeconds timestamp' := by
    by_contra hnot
    rw [WebhookSigningService.verify_of_not_fresh hnot] at h
    cases h
  rw [WebhookSigningService.verify_of_fresh hfresh] at h
  have hsame := constantTimeEqual_true h
  have hsignature : stripVersion
      (WebhookSigningService.generateWebhookHeaders g signedAt secretKey payload).signature =
        WebhookSigningService.generateSignature g secretKey (toString signedAt) payload := stripVersion_append _
  have hmessage := message_eq hhmac (hsame.symm.trans hsignature)
  obtain ⟨moment, hmoment, hage⟩ := hfresh
  rcases append_cons_eq (dot_notMem_toString signedAt) hmessage with ⟨htime, hpayload⟩ | ⟨zs, htime, hpayload⟩
  · have htimestamp : timestamp' = toString signedAt := String.toList_inj.mp htime
    rw [htimestamp, parseInt_toString] at hmoment
    obtain rfl := Option.some.inj hmoment
    exact ⟨hage, .inl ⟨htimestamp, String.toList_inj.mp hpayload⟩⟩
  · have hlist : timestamp'.toList = Nat.toDigits 10 signedAt ++ '.' :: zs := by
      rw [htime, toList_toString]
    rw [parseInt_of_toDigits hlist (by simp)] at hmoment
    obtain rfl := Option.some.inj hmoment
    exact ⟨hage, .inr (by simp [hpayload])⟩

/-- A signature that is fresh enough stands for the signed pair alone just when the payload has
no point in it. -/
theorem authenticates_iff (hhmac : Function.Injective (g.hmac secretKey)) :
    Authenticates g secretKey signedAt now maxAgeSeconds payload ↔
      (((now : Int) - signedAt).natAbs ≤ maxAgeSeconds * 1000 → '.' ∉ (g.payloadString payload).toList) := by
  constructor
  · intro h hage hdot
    obtain ⟨zs, ys, hsplit⟩ := List.append_of_mem hdot
    have hlist : (toString signedAt ++ "." ++ String.ofList zs).toList =
        Nat.toDigits 10 signedAt ++ '.' :: zs := by
      simp
    have hfresh : IsFresh now maxAgeSeconds (toString signedAt ++ "." ++ String.ofList zs) :=
      ⟨signedAt, parseInt_of_toDigits hlist (by simp), hage⟩
    have hmessage : toString signedAt ++ "." ++ String.ofList zs ++ "." ++ String.ofList ys =
        toString signedAt ++ "." ++ g.payloadString payload := by
      rw [← String.toList_inj]
      simp [hsplit]
    have hsame : WebhookSigningService.generateSignature g secretKey
          (toString signedAt ++ "." ++ String.ofList zs) (.text (String.ofList ys)) =
        WebhookSigningService.generateSignature g secretKey (toString signedAt) payload := by
      rw [WebhookSigningService.generateSignature_eq, WebhookSigningService.generateSignature_eq]
      exact congrArg (g.hmac secretKey) hmessage
    have haccepted : WebhookSigningService.verifyWebhookSignature g now secretKey
        (toString signedAt ++ "." ++ String.ofList zs)
        (WebhookSigningService.generateWebhookHeaders g signedAt secretKey payload).signature
        (.text (String.ofList ys)) maxAgeSeconds = some true := by
      rw [WebhookSigningService.verify_of_fresh hfresh, hsame]
      exact (congrArg (constantTimeEqual · _) (stripVersion_append _)).trans (constantTimeEqual_self _)
    have htimestamp := congrArg (fun text => text.toList.length) (h _ _ haccepted).1
    have htoString : (WebhookSigningService.generateWebhookHeaders g signedAt secretKey payload).timestamp =
        toString signedAt := rfl
    simp [htoString] at htimestamp
  · intro h timestamp' payload' haccepted
    obtain ⟨hage, hpair | hdot⟩ := accepted_split hhmac haccepted
    · exact hpair
    · exact absurd hdot (h hage)

def namingSigner : Signer String where
  hmac key message := key ++ message
  stringify text := text

theorem authenticates_iff_plain :
    Authenticates namingSigner "whsec" 1000 1000 300 (.text "10.50") ↔
      ((((1000 : Nat) : Int) - (1000 : Nat)).natAbs ≤ 300 * 1000 →
        '.' ∉ (namingSigner.payloadString (.text "10.50")).toList) :=
  authenticates_iff fun a b h => by simpa [namingSigner] using h

/-- The first digits of the amount are moved into the timestamp. -/
theorem signature_reused :
    ¬ ∀ (g : Signer String) (secretKey : String), Function.Injective (g.hmac secretKey) →
      ∀ (signedAt now : Time) (maxAgeSeconds : Nat) (payload : Payload String),
        Authenticates g secretKey signedAt now maxAgeSeconds payload := by
  intro h
  have hinjective : Function.Injective (namingSigner.hmac "whsec") := fun a b hab => by
    simpa [namingSigner] using hab
  have haccepted : WebhookSigningService.verifyWebhookSignature namingSigner 1000 "whsec" "1000.10"
      (WebhookSigningService.generateWebhookHeaders namingSigner 1000 "whsec" (.text "10.50")).signature
      (.text "50") 300 = some true := by
    decide +kernel
  have hpair := h namingSigner "whsec" hinjective 1000 1000 300 (.text "10.50") "1000.10" (.text "50") haccepted
  exact absurd hpair.1 (by decide)

end Separator

end WebhookEngine
