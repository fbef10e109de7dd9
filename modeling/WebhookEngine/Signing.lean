import Mathlib.Algebra.GroupWithZero.Nat
import Mathlib.Data.List.TakeWhile
import WebhookEngine.Executor

/-! Signatures: what the executor puts into the headers of a request, and the check a
receiver makes of them. -/

namespace WebhookEngine

structure Envelope where
  id : Nat
  type : String
  version : String
  createdAt : Time
  data : String
  deriving DecidableEq, Repr

/-- A text, or one of the values of `J`; the engine signs envelopes. -/
inductive Payload (J : Type := Envelope) where
  | text (value : String)
  | object (value : J)
  deriving DecidableEq, Repr

/-- `hmac` is the keyed digest in hexadecimal, `stringify` the JSON text of a value. -/
structure Signer (J : Type := Envelope) where
  hmac : String → String → String
  stringify : J → String

structure WebhookSignature where
  timestamp : String
  signature : String
  deriving DecidableEq, Repr

structure WebhookHeaders where
  timestamp : String
  signature : String
  signaturePrevious : Option String
  deriving DecidableEq, Repr

/-- `parseInt(text, 10)`, where `none` is `NaN`. -/
def parseInt (text : String) : Option Int :=
  let digits := fun (sign : Int) (cs : List Char) =>
    let ds := cs.takeWhile Char.isDigit
    if ds = [] then none else some (sign * (Nat.ofDigitChars 10 ds 0 : Int))
  match text.toList.dropWhile isJsSpace with
  | '-' :: cs => digits (-1) cs
  | '+' :: cs => digits 1 cs
  | cs => digits 1 cs

/-- `timingSafeEqual` throws on buffers of different lengths. -/
def constantTimeEqual (a b : String) : Option Bool :=
  if utf16Length a ≠ utf16Length b then some false
  else if a.utf8ByteSize ≠ b.utf8ByteSize then none
  else some (a == b)

def stripVersion (signature : String) : String :=
  if "v1=".toList.isPrefixOf signature.toList then String.ofList (signature.toList.drop 3)
  else signature

namespace WebhookSigningService

variable {J : Type} (g : Signer J)

def generateSignature (secretKey timestamp : String) (payload : Payload J) : String :=
  let payloadString :=
    match payload with
    | .text value => value
    | .object value => g.stringify value
  g.hmac secretKey (timestamp ++ "." ++ payloadString)

def generateWebhookSignature (now : Time) (secretKey : String) (payload : Payload J) : WebhookSignature :=
  let timestamp := toString now
  ⟨timestamp, "v1=" ++ generateSignature g secretKey timestamp payload⟩

def generateWebhookHeaders (now : Time) (secretKey : String) (payload : Payload J) : WebhookHeaders :=
  let s := generateWebhookSignature g now secretKey payload
  ⟨s.timestamp, s.signature, none⟩

def verifyWebhookSignature (now : Time) (secretKey timestamp signature : String) (payload : Payload J)
    (maxAgeSeconds : Nat) : Option Bool :=
  match parseInt timestamp with
  | none => some false
  | some timestampNum =>
    if maxAgeSeconds * 1000 < ((now : Int) - timestampNum).natAbs then some false
    else constantTimeEqual (stripVersion signature) (generateSignature g secretKey timestamp payload)

end WebhookSigningService

def DispatchableDelivery.envelope (delivery : DispatchableDelivery) : Envelope :=
  ⟨delivery.row.eventId, delivery.event.type, "1", delivery.event.createdAt, delivery.event.payload⟩

/-- The headers of a request. The clock is read once for the timestamp and again for the
comparison with the end of the previous secret. -/
def DispatchableDelivery.securityHeaders (g : Signer) (signedAt comparedAt : Time)
    (delivery : DispatchableDelivery) : WebhookHeaders :=
  let headers :=
    WebhookSigningService.generateWebhookHeaders g signedAt delivery.endpoint.secretKey (.object delivery.envelope)
  match delivery.endpoint.previousSecretKey, delivery.endpoint.previousSecretExpiresAt with
  | some previous, some expiresAt =>
    if previous ≠ "" ∧ expiresAt > comparedAt then
      { headers with
        signaturePrevious :=
          some ("v1=" ++
            WebhookSigningService.generateSignature g previous headers.timestamp (.object delivery.envelope)) }
    else headers
  | _, _ => headers

/-- A receiver that takes either signature. -/
def WebhookHeaders.accepted (g : Signer) (now : Time) (secretKey : String) (payload : Payload)
    (maxAgeSeconds : Nat) (h : WebhookHeaders) : Bool :=
  (h.signature :: h.signaturePrevious.toList).any fun signature =>
    WebhookSigningService.verifyWebhookSignature g now secretKey h.timestamp signature payload maxAgeSeconds ==
      some true

/-- The request verifies under the secret, at every clock its timestamp is fresh enough for. -/
def DispatchableDelivery.Verifies (g : Signer) (signedAt comparedAt : Time) (delivery : DispatchableDelivery)
    (secretKey : String) : Prop :=
  ∀ (now : Time) (maxAgeSeconds : Nat), ((now : Int) - signedAt).natAbs ≤ maxAgeSeconds * 1000 →
    (delivery.securityHeaders g signedAt comparedAt).accepted g now secretKey (.object delivery.envelope)
      maxAgeSeconds = true

theorem isJsSpace_of_isDigit {c : Char} (h : c.isDigit = true) : isJsSpace c = false := by
  simp only [Char.isDigit, Bool.and_eq_true, decide_eq_true_eq, UInt32.le_iff_toNat_le] at h
  have hlow : 48 ≤ c.toNat := h.1
  have hhigh : c.toNat ≤ 57 := h.2
  simp only [isJsSpace, List.contains_eq_mem, List.mem_cons, List.not_mem_nil, or_false, Bool.or_eq_false_iff,
    Bool.and_eq_false_iff, decide_eq_false_iff_not]
  omega

theorem parseInt_of_toDigits {n : Nat} {text : String} {rest : List Char}
    (htext : text.toList = Nat.toDigits 10 n ++ rest) (hrest : ∀ c ∈ rest.head?, c.isDigit = false) :
    parseInt text = some (n : Int) := by
  have hdigits : ∀ c ∈ Nat.toDigits 10 n, c.isDigit = true := fun c hc =>
    Nat.isDigit_of_mem_toDigits (by decide) (by decide) hc
  have hstop : rest.takeWhile Char.isDigit = [] := by
    cases rest with
    | nil => rfl
    | cons c rest => simp [hrest c rfl]
  have htake : (Nat.toDigits 10 n ++ rest).takeWhile Char.isDigit = Nat.toDigits 10 n := by
    rw [List.takeWhile_append_of_pos hdigits, hstop, List.append_nil]
  have hvalue : Nat.ofDigitChars 10 (Nat.toDigits 10 n) 0 = n := Nat.ofDigitChars_ten_toDigits
  have hnil : Nat.toDigits 10 n ≠ [] := Nat.toDigits_ne_nil
  simp only [parseInt, htext]
  cases hd : Nat.toDigits 10 n with
  | nil => exact absurd hd hnil
  | cons c cs =>
    have hc : c.isDigit = true := hdigits c (by simp [hd])
    rw [hd] at htake hvalue
    rw [List.cons_append, List.dropWhile_cons_of_neg (by simp [isJsSpace_of_isDigit hc])]
    rw [List.cons_append] at htake
    split
    · rename_i heq
      cases heq
      exact absurd hc (by decide)
    · rename_i heq
      cases heq
      exact absurd hc (by decide)
    · simp [htake, hvalue]

theorem toList_toString (n : Nat) : (toString n).toList = Nat.toDigits 10 n := Nat.toList_repr

theorem parseInt_toString (n : Nat) : parseInt (toString n) = some (n : Int) := by
  have htext : (toString n).toList = Nat.toDigits 10 n ++ [] := by
    rw [List.append_nil, toList_toString]
  exact parseInt_of_toDigits htext (by simp)

@[simp] theorem constantTimeEqual_self (a : String) : constantTimeEqual a a = some true := by
  simp [constantTimeEqual]

@[simp] theorem stripVersion_append (signature : String) : stripVersion ("v1=" ++ signature) = signature := by
  simp [stripVersion]

theorem WebhookSigningService.verify_generated {J : Type} (g : Signer J) {now signedAt : Time}
    (secretKey : String) (payload : Payload J) {maxAgeSeconds : Nat}
    (hage : ((now : Int) - signedAt).natAbs ≤ maxAgeSeconds * 1000) :
    verifyWebhookSignature g now secretKey (toString signedAt)
      ("v1=" ++ generateSignature g secretKey (toString signedAt) payload) payload maxAgeSeconds =
        some true := by
  simp only [verifyWebhookSignature, parseInt_toString, stripVersion_append, constantTimeEqual_self]
  rw [if_neg (by omega)]

namespace DispatchableDelivery

variable (g : Signer) (signedAt comparedAt : Time) (delivery : DispatchableDelivery)

theorem securityHeaders_signed :
    (delivery.securityHeaders g signedAt comparedAt).timestamp = toString signedAt ∧
      (delivery.securityHeaders g signedAt comparedAt).signature =
        "v1=" ++ WebhookSigningService.generateSignature g delivery.endpoint.secretKey (toString signedAt)
          (.object delivery.envelope) := by
  simp only [securityHeaders]
  split
  · split <;> exact ⟨rfl, rfl⟩
  · exact ⟨rfl, rfl⟩

theorem verifies_secretKey : delivery.Verifies g signedAt comparedAt delivery.endpoint.secretKey := by
  intro now maxAgeSeconds hage
  obtain ⟨htimestamp, hsignature⟩ := delivery.securityHeaders_signed g signedAt comparedAt
  refine List.any_eq_true.mpr ⟨_, List.mem_cons_self, ?_⟩
  rw [htimestamp, hsignature, WebhookSigningService.verify_generated g _ _ hage]
  rfl

theorem verifies_previous {previous : String} {expiresAt : Time}
    (hkey : delivery.endpoint.previousSecretKey = some previous)
    (hend : delivery.endpoint.previousSecretExpiresAt = some expiresAt) (hne : previous ≠ "")
    (hlt : comparedAt < expiresAt) : delivery.Verifies g signedAt comparedAt previous := by
  intro now maxAgeSeconds hage
  obtain ⟨htimestamp, _⟩ := delivery.securityHeaders_signed g signedAt comparedAt
  have hprevious : (delivery.securityHeaders g signedAt comparedAt).signaturePrevious =
      some ("v1=" ++ WebhookSigningService.generateSignature g previous (toString signedAt)
        (.object delivery.envelope)) := by
    simp only [securityHeaders, hkey, hend]
    rw [if_pos ⟨hne, hlt⟩]
    rfl
  rw [WebhookHeaders.accepted, hprevious, htimestamp]
  refine List.any_eq_true.mpr ⟨_, List.mem_cons_of_mem _ List.mem_cons_self, ?_⟩
  rw [WebhookSigningService.verify_generated g _ _ hage]
  rfl

end DispatchableDelivery

end WebhookEngine
