import WebhookEngine.Backoff
import WebhookEngine.JsonReading
import WebhookEngine.SignedRequests

/-! What a request's signature is made of: the moment of the signing and the JSON text of the
envelope, from which both can be read back. -/

namespace WebhookEngine

open JsonText

/-- The members of an envelope that have texts or JSON values of their own. -/
structure EnvelopeTexts (ν : Type) where
  numberText : ν → String
  id : Nat → String
  toISOString : Time → String
  payload : String → Json ν

/-- Different values are written differently; dates as far as there are dates. -/
structure EnvelopeTexts.Faithful {ν : Type} (f : EnvelopeTexts ν) : Prop where
  numerals : Numerals f.numberText
  id : Function.Injective f.id
  toISOString : Set.InjOn f.toISOString {t | t ≤ maxDate}
  payload : Function.Injective f.payload

namespace Envelope

variable {ν : Type} (f : EnvelopeTexts ν) (e : Envelope)

def json : Json ν :=
  .object
    [("id", .string (f.id e.id)), ("type", .string e.type), ("version", .string e.version),
      ("createdAt", .string (f.toISOString e.createdAt)), ("data", f.payload e.data)]

variable {f}

theorem json_inj (hf : f.Faithful) {e e' : Envelope} (he : e.createdAt ≤ maxDate) (he' : e'.createdAt ≤ maxDate)
    (h : e.json f = e'.json f) : e = e' := by
  obtain ⟨id, type, version, createdAt, data⟩ := e
  obtain ⟨id', type', version', createdAt', data'⟩ := e'
  simp only [json, Json.object.injEq, List.cons.injEq, Prod.mk.injEq, Json.string.injEq, true_and, and_true] at h
  obtain ⟨hid, rfl, rfl, hcreatedAt, hdata⟩ := h
  obtain rfl := hf.id hid
  obtain rfl := hf.toISOString he he' hcreatedAt
  obtain rfl := hf.payload hdata
  rfl

end Envelope

def EnvelopeTexts.signer {ν : Type} (f : EnvelopeTexts ν) (hmac : String → String → String) : Signer where
  hmac := hmac
  stringify e := stringify f.numberText (e.json f)

section Requests

variable {ν : Type} {f : EnvelopeTexts ν} {hmac : String → String → String}

theorem repr_injective : Function.Injective Nat.repr := by
  intro n m h
  have hparsed : parseInt (toString n) = parseInt (toString m) := congrArg parseInt h
  rwa [parseInt_toString, parseInt_toString, Option.some.injEq, Nat.cast_inj] at hparsed

/-- A text that begins with a clock reading and a point begins with no other. -/
theorem timestamp_append_inj {signedAt signedAt' : Time} {a b : String}
    (h : toString signedAt ++ "." ++ a = toString signedAt' ++ "." ++ b) : signedAt = signedAt' ∧ a = b := by
  have hchars : (toString signedAt').toList ++ '.' :: b.toList = (toString signedAt).toList ++ '.' :: a.toList := by
    simpa using congrArg String.toList h.symm
  rcases append_cons_eq (dot_notMem_toString signedAt) hchars with ⟨htime, hrest⟩ | ⟨zs, htime, _⟩
  · exact ⟨repr_injective (String.toList_inj.mp htime.symm), String.toList_inj.mp hrest.symm⟩
  · exact absurd (htime ▸ by simp) (dot_notMem_toString signedAt')

/-- The text whose digest a request is signed with. -/
def DispatchableDelivery.signedText (f : EnvelopeTexts ν) (delivery : DispatchableDelivery) (signedAt : Time) :
    String :=
  toString signedAt ++ "." ++ stringify f.numberText (delivery.envelope.json f)

/-- The moment of the signing and the envelope can be read back from the signed text. -/
theorem signedText_inj (hf : f.Faithful) {delivery delivery' : DispatchableDelivery} {signedAt signedAt' : Time}
    (hdate : delivery.event.createdAt ≤ maxDate) (hdate' : delivery'.event.createdAt ≤ maxDate) :
    delivery.signedText f signedAt = delivery'.signedText f signedAt' ↔
      signedAt = signedAt' ∧ delivery.envelope = delivery'.envelope := by
  constructor
  · intro h
    obtain ⟨htime, htext⟩ := timestamp_append_inj h
    exact ⟨htime, Envelope.json_inj hf hdate hdate' (stringify_injective hf.numerals htext)⟩
  · rintro ⟨rfl, henvelope⟩
    rw [DispatchableDelivery.signedText, henvelope, DispatchableDelivery.signedText]

theorem signature_eq (delivery : DispatchableDelivery) (signedAt comparedAt : Time) :
    (delivery.securityHeaders (f.signer hmac) signedAt comparedAt).signature =
      "v1=" ++ hmac delivery.endpoint.secretKey (delivery.signedText f signedAt) := by
  rw [(delivery.securityHeaders_signed (f.signer hmac) signedAt comparedAt).2]
  rfl

end Requests

def plainTexts : EnvelopeTexts Nat := ⟨Nat.repr, Nat.repr, Nat.repr, .string⟩

theorem plainTexts_faithful : plainTexts.Faithful where
  numerals :=
    { injective := repr_injective
      ne_empty := by
        intro n h
        have hnil : Nat.toDigits 10 n = [] := by
          rw [← Nat.toList_repr]
          exact congrArg String.toList h
        exact Nat.toDigits_ne_nil hnil
      numeral := by
        intro n c hc
        rw [plainTexts, Nat.toList_repr] at hc
        have hdigit : c.isDigit = true := Nat.isDigit_of_mem_toDigits (by decide) (by decide) hc
        simp [isNumeral, hdigit] }
  id := repr_injective
  toISOString := repr_injective.injOn
  payload := fun _ _ => Json.string.inj

end WebhookEngine
