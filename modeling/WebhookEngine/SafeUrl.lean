import WebhookEngine.Execution

/-! The check of an endpoint's URL and the request that follows it. Each looks the host up for
itself, and the resolver need not answer the second time what it answered the first. -/

namespace WebhookEngine

open Effects

/-- The parts of a parsed URL; `href` is its text. -/
structure Url where
  protocol : String
  username : String
  password : String
  hostname : String
  href : String
  deriving DecidableEq, Repr

/-- `Number` on the part of an address, where `none` is `NaN`. -/
def decimal (part : List Char) : Option Nat :=
  if part.all Char.isDigit then some (Nat.ofDigitChars 10 part 0) else none

def isPrivateAddress (address : String) : Bool :=
  if address == "::1" || "fc".toList.isPrefixOf address.toList || "fd".toList.isPrefixOf address.toList then
    true
  else if "fe80:".toList.isPrefixOf address.toList then true
  else
    match (address.toList.splitOn '.').map decimal with
    | [a, b, _, _] =>
      a == some 10 || a == some 127 || (a == some 169 && b == some 254) ||
        (a == some 172 && b.any fun n => 16 ≤ n && n ≤ 31) || (a == some 192 && b == some 168)
    | _ => false

/-- A URL's hostname keeps the brackets of an IPv6 address. -/
def unbracket (hostname : String) : String :=
  match hostname.toList with
  | '[' :: cs => String.ofList cs.dropLast
  | _ => hostname

/-- The exceptions of the check, as the executor reads them. -/
def badRequest (message : String) : SendError where
  responseStatus := none
  responseData := none
  status := some 400
  message := some message

inductive NetworkCall where
  | lookup (hostname : String)
  | connect (address : String)
  deriving DecidableEq, Repr

/-- The world around one `send`. `lookup n` is the answer to its `n`th lookup, `dial` the
addresses the client tries of those it has, `respond` what a request over them comes to. -/
structure Network (J : Type) where
  parse : String → Option Url
  isIP : String → Bool
  lookup : Nat → String → Except SendError (List String)
  dial : List String → List String
  respond : String → Envelope → WebhookHeaders → Except SendError (Nat × Payload J)
  stringify : J → String
  isIP_bare : ∀ hostname, isIP hostname = true → unbracket hostname = hostname
  mem_of_mem_dial : ∀ addresses, ∀ a ∈ dial addresses, a ∈ addresses

section Adapter

variable {J : Type} (net : Network J)

def Network.resolve (n : Nat) (hostname : String) : Run SendError NetworkCall (List String) :=
  if net.isIP hostname then pure [hostname] else Run.call (.lookup hostname) (net.lookup n hostname)

def assertSafeWebhookUrl (n : Nat) (rawUrl : String) (allowLocalUrls : Bool) : Run SendError NetworkCall String :=
  match net.parse rawUrl with
  | none => throw (badRequest "Endpoint URL is invalid")
  | some url =>
    if !(["http:", "https:"].contains url.protocol) || url.username != "" || url.password != "" then
      throw (badRequest "Endpoint URL must be HTTP(S) without credentials")
    else if allowLocalUrls then pure url.href
    else if url.protocol != "https:" then throw (badRequest "Production endpoint URLs must use HTTPS")
    else do
      let addresses ← net.resolve n url.hostname
      if addresses.any isPrivateAddress then
        throw (badRequest "Private or loopback endpoint URLs are forbidden")
      else pure url.href

/-- `axios.post` without redirects: it connects to the host itself when that is an address, else
to addresses of a lookup of its own. -/
def Network.post (n : Nat) (rawUrl : String) (payload : Envelope) (headers : WebhookHeaders) :
    Run SendError NetworkCall (Nat × Payload J) :=
  match net.parse rawUrl with
  | none => throw ⟨none, none, none, some "Invalid URL"⟩
  | some url => do
    let addresses ← net.resolve n (unbracket url.hostname)
    ⟨(net.dial addresses).map .connect, net.respond rawUrl payload headers⟩

def HttpDeliveryChannelAdapter.send (isProduction : Bool) (url : String) (payload : Envelope)
    (headers : WebhookHeaders) : Run SendError NetworkCall DeliveryResult := do
  let _ ← assertSafeWebhookUrl net 0 url (!isProduction)
  let (status, data) ← net.post 1 url payload headers
  match data with
  | .text value => pure ⟨status, value⟩
  | .object value => pure ⟨status, net.stringify value⟩

end Adapter

def Url.secure (url : Url) : Bool :=
  url.protocol == "https:" && url.username == "" && url.password == ""

/-- No connection that a request of the production service opens leads inside. -/
def NeverInternal {J : Type} (net : Network J) (url : String) (payload : Envelope) (headers : WebhookHeaders) :
    Prop :=
  ∀ a, .connect a ∈ (HttpDeliveryChannelAdapter.send net true url payload headers).calls →
    isPrivateAddress a = false

/-- The lookup of the check answers public addresses only, and the client is about to try a
private one. -/
structure Network.Rebinds {J : Type} (net : Network J) (url : Url) : Prop where
  named : net.isIP url.hostname = false
  checked : ∃ addresses, net.lookup 0 url.hostname = .ok addresses ∧
    ∀ a ∈ addresses, isPrivateAddress a = false
  dialled : ∃ addresses, (net.resolve 1 (unbracket url.hostname)).result = .ok addresses ∧
    ∃ a ∈ net.dial addresses, isPrivateAddress a = true

section Requests

variable {J : Type} {net : Network J} {n : Nat} {rawUrl : String} {hostname a : String} {url : Url}
  {payload : Envelope} {headers : WebhookHeaders}

theorem Url.secure_iff : url.secure = true ↔
    url.protocol = "https:" ∧ url.username = "" ∧ url.password = "" := by
  simp [Url.secure, and_assoc]

theorem Network.connect_notMem_resolve : .connect a ∉ (net.resolve n hostname).calls := by
  unfold Network.resolve
  by_cases hip : net.isIP hostname = true <;> simp [hip]

theorem Network.result_resolve_literal (hip : net.isIP hostname = true) :
    (net.resolve n hostname).result = .ok [hostname] := by
  simp [Network.resolve, hip]

theorem Network.result_resolve_named (hip : net.isIP hostname = false) :
    (net.resolve n hostname).result = net.lookup n hostname := by
  simp [Network.resolve, hip]

theorem assertSafeWebhookUrl_secure (hparse : net.parse rawUrl = some url) (hsecure : url.secure = true) :
    assertSafeWebhookUrl net n rawUrl false = (net.resolve n url.hostname >>= fun addresses =>
      if addresses.any isPrivateAddress then
        throw (badRequest "Private or loopback endpoint URLs are forbidden")
      else pure url.href) := by
  obtain ⟨hprotocol, husername, hpassword⟩ := Url.secure_iff.mp hsecure
  simp [assertSafeWebhookUrl, hparse, hprotocol, husername, hpassword]

theorem assertSafeWebhookUrl_insecure (hparse : net.parse rawUrl = some url) (hsecure : url.secure = false) :
    ∃ e, assertSafeWebhookUrl net n rawUrl false = throw e := by
  by_cases hparts : (!(["http:", "https:"].contains url.protocol) || url.username != "" || url.password != "") = true
  · exact ⟨_, by rw [assertSafeWebhookUrl, hparse]; exact if_pos hparts⟩
  · have hprotocol : url.protocol ≠ "https:" := by
      intro hhttps
      rw [Bool.not_eq_true] at hparts
      simp_all [Url.secure]
    refine ⟨badRequest "Production endpoint URLs must use HTTPS", ?_⟩
    rw [assertSafeWebhookUrl, hparse]
    simp only [if_neg hparts, Bool.false_eq_true, if_false, bne_iff_ne, ne_eq, hprotocol, not_false_eq_true,
      if_true]

theorem assertSafeWebhookUrl_cases (net : Network J) (n : Nat) (rawUrl : String) :
    (∃ e, assertSafeWebhookUrl net n rawUrl false = throw e) ∧
      (∀ url, net.parse rawUrl = some url → url.secure = false) ∨
    ∃ url, net.parse rawUrl = some url ∧ url.secure = true ∧
      assertSafeWebhookUrl net n rawUrl false = (net.resolve n url.hostname >>= fun addresses =>
        if addresses.any isPrivateAddress then
          throw (badRequest "Private or loopback endpoint URLs are forbidden")
        else pure url.href) := by
  cases hparse : net.parse rawUrl with
  | none => exact .inl ⟨⟨_, by rw [assertSafeWebhookUrl, hparse]⟩, by simp⟩
  | some url =>
    cases hsecure : url.secure with
    | false => exact .inl ⟨assertSafeWebhookUrl_insecure hparse hsecure, by simpa using hsecure⟩
    | true => exact .inr ⟨url, rfl, hsecure, assertSafeWebhookUrl_secure hparse hsecure⟩

theorem assertSafeWebhookUrl_eq_ok {href : String} :
    (assertSafeWebhookUrl net n rawUrl false).result = .ok href ↔
      ∃ url, net.parse rawUrl = some url ∧ url.secure = true ∧ url.href = href ∧
        ∃ addresses, (net.resolve n url.hostname).result = .ok addresses ∧
          ∀ a ∈ addresses, isPrivateAddress a = false := by
  rcases assertSafeWebhookUrl_cases net n rawUrl with ⟨⟨e, he⟩, hinsecure⟩ | ⟨url, hparse, hsecure, heq⟩
  · rw [he]
    refine iff_of_false (by simp) ?_
    rintro ⟨url, hparse, hsecure, _⟩
    rw [hinsecure url hparse] at hsecure
    cases hsecure
  · rw [heq, Run.result_bind_eq_ok]
    constructor
    · intro ⟨addresses, hresolve, hresult⟩
      by_cases hprivate : addresses.any isPrivateAddress = true
      · rw [if_pos hprivate] at hresult
        cases hresult
      · rw [if_neg hprivate] at hresult
        refine ⟨url, hparse, hsecure, Except.ok.inj hresult, addresses, hresolve, ?_⟩
        simpa using hprivate
    · intro ⟨url', hsame, _, hhref, addresses, hresolve, hpublic⟩
      rw [hparse, Option.some.injEq] at hsame
      subst hsame
      have hprivate : ¬ addresses.any isPrivateAddress = true := by simpa using hpublic
      exact ⟨addresses, hresolve, by rw [if_neg hprivate, Run.result_pure, hhref]⟩

theorem connect_notMem_assertSafeWebhookUrl :
    .connect a ∉ (assertSafeWebhookUrl net n rawUrl false).calls := by
  rcases assertSafeWebhookUrl_cases net n rawUrl with ⟨⟨e, he⟩, _⟩ | ⟨url, _, _, heq⟩
  · simp [he]
  · rw [heq, Run.mem_calls_bind]
    rintro (hresolve | ⟨addresses, _, hafter⟩)
    · exact Network.connect_notMem_resolve hresolve
    · by_cases hprivate : addresses.any isPrivateAddress = true
      · simp [hprivate] at hafter
      · simp [hprivate] at hafter

theorem Network.connect_mem_post (hparse : net.parse rawUrl = some url) :
    .connect a ∈ (net.post n rawUrl payload headers).calls ↔
      ∃ addresses, (net.resolve n (unbracket url.hostname)).result = .ok addresses ∧ a ∈ net.dial addresses := by
  simp only [Network.post, hparse, Run.mem_calls_bind, Network.connect_notMem_resolve, false_or, List.mem_map,
    NetworkCall.connect.injEq, exists_eq_right]

/-- A connection comes after a check that went through. -/
theorem HttpDeliveryChannelAdapter.connect_mem_send :
    .connect a ∈ (send net true rawUrl payload headers).calls ↔
      ∃ url, net.parse rawUrl = some url ∧ url.secure = true ∧
        (∃ addresses, (net.resolve 0 url.hostname).result = .ok addresses ∧
          ∀ b ∈ addresses, isPrivateAddress b = false) ∧
        ∃ addresses, (net.resolve 1 (unbracket url.hostname)).result = .ok addresses ∧
          a ∈ net.dial addresses := by
  have hposted : .connect a ∈ (send net true rawUrl payload headers).calls ↔
      ∃ href, (assertSafeWebhookUrl net 0 rawUrl false).result = .ok href ∧
        .connect a ∈ (net.post 1 rawUrl payload headers).calls := by
    rw [send, Run.mem_calls_bind, Bool.not_true]
    simp only [connect_notMem_assertSafeWebhookUrl, false_or, Run.mem_calls_bind]
    refine exists_congr fun href => and_congr_right fun _ => ?_
    constructor
    · rintro (hpost | ⟨⟨status, data⟩, _, hdata⟩)
      · exact hpost
      · cases data <;> simp at hdata
    · exact .inl
  rw [hposted]
  simp only [assertSafeWebhookUrl_eq_ok]
  constructor
  · rintro ⟨_, ⟨url, hparse, hsecure, rfl, hchecked⟩, hpost⟩
    exact ⟨url, hparse, hsecure, hchecked, (Network.connect_mem_post hparse).mp hpost⟩
  · rintro ⟨url, hparse, hsecure, hchecked, hdialled⟩
    exact ⟨_, ⟨url, hparse, hsecure, rfl, hchecked⟩, (Network.connect_mem_post hparse).mpr hdialled⟩

/-- A host that is an address has nothing to look up, so what is checked is what is dialled. -/
theorem Network.dialled_literal (hip : net.isIP url.hostname = true) (m : Nat)
    (hdialled : ∃ addresses, (net.resolve m (unbracket url.hostname)).result = .ok addresses ∧
      a ∈ net.dial addresses) : a = url.hostname := by
  obtain ⟨addresses, hresolve, ha⟩ := hdialled
  rw [net.isIP_bare _ hip, Network.result_resolve_literal hip] at hresolve
  obtain rfl := Except.ok.inj hresolve
  exact List.mem_singleton.mp (net.mem_of_mem_dial _ _ ha)

theorem Network.not_rebinds_of_stable (hbare : unbracket url.hostname = url.hostname)
    (hstable : net.lookup 1 url.hostname = net.lookup 0 url.hostname) : ¬ net.Rebinds url := by
  intro ⟨hnamed, ⟨checked, hlookup, hpublic⟩, ⟨dialled, hresolve, a, ha, hprivate⟩⟩
  rw [hbare, Network.result_resolve_named hnamed, hstable, hlookup] at hresolve
  obtain rfl := Except.ok.inj hresolve
  rw [hpublic a (net.mem_of_mem_dial _ _ ha)] at hprivate
  cases hprivate

/-- An execution over this channel gives up on a URL that the check refuses. -/
theorem refused_deadLettered {cfg : Config} {p : ExecutorPorts} {id expectedAttempt : Nat} {message : String}
    {delivery : DispatchableDelivery}
    (hport : p.send = fun url payload headers => (HttpDeliveryChannelAdapter.send net true url payload headers).result)
    (hclaim : p.claimForProcessing id expectedAttempt = .ok (some delivery))
    (hheaders : p.securityHeaders delivery = .ok headers)
    (hrefused : (assertSafeWebhookUrl net 0 delivery.endpoint.url false).result = .error (badRequest message)) :
    .write delivery.id (.deadLetter 400 (failureSnippet cfg (badRequest message))) ∈
      (DeliveryExecutorService.execute cfg p id expectedAttempt).calls := by
  have hsend : p.send delivery.endpoint.url delivery.envelope headers = .error (badRequest message) := by
    rw [hport]
    simp only [HttpDeliveryChannelAdapter.send, Bool.not_true, Run.bind_of_error _ hrefused]
  have hwrite : outcomeWrite cfg delivery (p.nextAttemptAt delivery (badRequest message))
      (.rejected (badRequest message)) = .deadLetter 400 (failureSnippet cfg (badRequest message)) := by
    have hstatus : (badRequest message).statusCode = 400 := rfl
    have hretryable : isRetryable 400 = false := by decide
    simp [outcomeWrite, hstatus, hretryable]
  rw [← hwrite]
  exact DeliveryExecutorService.rejected_writes hclaim hheaders hsend

/-- A request stays outside just when the host's address does not move between the two lookups. -/
theorem never_internal_iff (net : Network J) (rawUrl : String) (payload : Envelope) (headers : WebhookHeaders) :
    NeverInternal net rawUrl payload headers ↔
      ∀ url, net.parse rawUrl = some url → url.secure = true → ¬ net.Rebinds url := by
  constructor
  · intro h url hparse hsecure ⟨hnamed, ⟨checked, hlookup, hpublic⟩, ⟨dialled, hresolve, a, ha, hprivate⟩⟩
    have hresolved : (net.resolve 0 url.hostname).result = .ok checked := by
      rw [Network.result_resolve_named hnamed, hlookup]
    have hconnected : .connect a ∈ (HttpDeliveryChannelAdapter.send net true rawUrl payload headers).calls :=
      HttpDeliveryChannelAdapter.connect_mem_send.mpr
        ⟨url, hparse, hsecure, ⟨checked, hresolved, hpublic⟩, dialled, hresolve, ha⟩
    rw [h a hconnected] at hprivate
    cases hprivate
  · intro h a hconnected
    obtain ⟨url, hparse, hsecure, ⟨checked, hchecked, hpublic⟩, hdialled⟩ :=
      HttpDeliveryChannelAdapter.connect_mem_send.mp hconnected
    cases hnamed : net.isIP url.hostname with
    | true =>
      rw [Network.result_resolve_literal hnamed] at hchecked
      obtain rfl := Except.ok.inj hchecked
      rw [Network.dialled_literal hnamed 1 hdialled]
      exact hpublic _ List.mem_cons_self
    | false =>
      rw [Network.result_resolve_named hnamed] at hchecked
      obtain ⟨dialled, hresolve, ha⟩ := hdialled
      by_contra hprivate
      exact h url hparse hsecure
        ⟨hnamed, ⟨checked, hchecked, hpublic⟩, dialled, hresolve, a, ha, by simpa using hprivate⟩

end Requests

/-- A name that is public while it is checked and the loopback when it is dialled. -/
def rebindingNetwork : Network String where
  parse text := if text = "https://hooks.example/" then some ⟨"https:", "", "", "hooks.example", text⟩ else none
  isIP _ := false
  lookup n _ := .ok [if n = 0 then "93.184.216.34" else "127.0.0.1"]
  dial := id
  respond _ _ _ := .ok (200, .text "OK")
  stringify := id
  isIP_bare _ h := by cases h
  mem_of_mem_dial _ _ h := h

theorem rebinding_reaches_loopback : ¬ ∀ (net : Network String) (url : String) (payload : Envelope)
    (headers : WebhookHeaders), NeverInternal net url payload headers := by
  intro h
  have hconnected : .connect "127.0.0.1" ∈ (HttpDeliveryChannelAdapter.send rebindingNetwork true
      "https://hooks.example/" ⟨0, "order.created", "1", 0, "{}"⟩ ⟨"0", "v1=", none⟩).calls := by decide +kernel
  have hpublic := h _ _ _ _ _ hconnected
  have hprivate : isPrivateAddress "127.0.0.1" = true := by decide +kernel
  rw [hprivate] at hpublic
  cases hpublic

end WebhookEngine
