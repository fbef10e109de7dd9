import WebhookEngine.Executor
import WebhookEngine.JsonText
import WebhookEngine.Masking

/-! What `redact` leaves of a JSON text: the value of a secret member is hidden up to its
first comma, brace or space, and what follows there is read as text of its own. -/

namespace WebhookEngine

open JsonText Masking

/-! ### The pattern -/

def isHidden (c : Char) : Bool := c != ',' && c != '\x7d' && !isJsSpace c

def IsQuote (quote : List Char) : Prop := quote = [] ∨ quote = ['"']

/-- What the group of the pattern matches. -/
inductive KeptText : List Char → Prop where
  | intro {quote key quote' space space' : List Char} {sep : Char} : IsQuote quote →
      key.map Char.toLower ∈ secretKeys → IsQuote quote' → (∀ c ∈ space, isJsSpace c) →
      (sep = ':' ∨ sep = '=') → (∀ c ∈ space', isJsSpace c) →
      KeptText (quote ++ (key ++ (quote' ++ (space ++ sep :: space'))))

variable {s t rest key kept : List Char} {z : Char}

theorem secretKeys_prefix_free : ∀ a ∈ secretKeys, ∀ b ∈ secretKeys, a <+: b → a = b := by
  decide +kernel

theorem toLower_ne_quote : ∀ k ∈ secretKeys, '"' ∉ k := by decide +kernel

theorem matchKey_eq_some : matchKey s = some (key, rest) ↔
    s = key ++ rest ∧ key.map Char.toLower ∈ secretKeys := by
  constructor
  · intro h
    obtain ⟨k, hk, hfound⟩ := List.exists_of_findSome?_eq_some h
    split at hfound
    · next hlower =>
      simp only [Option.some.injEq, Prod.mk.injEq] at hfound
      obtain ⟨rfl, rfl⟩ := hfound
      exact ⟨(List.take_append_drop ..).symm, by rwa [hlower]⟩
    · cases hfound
  · rintro ⟨rfl, hkey⟩
    obtain ⟨found, hfound⟩ : ∃ found, matchKey (key ++ rest) = some found := by
      rw [← Option.isSome_iff_exists, matchKey, List.findSome?_isSome_iff]
      exact ⟨_, hkey, by simp⟩
    obtain ⟨k, hk, hsome⟩ := List.exists_of_findSome?_eq_some hfound
    split at hsome
    · next hlower =>
      -- one of the two keys is a prefix of the other
      have hprefix : k <+: key.map Char.toLower ∨ key.map Char.toLower <+: k := by
        have hmap : (key ++ rest).map Char.toLower =
            key.map Char.toLower ++ rest.map Char.toLower := List.map_append
        have hk' : k <+: (key ++ rest).map Char.toLower := by
          rw [← hlower]
          exact (List.take_prefix _ _).map _
        exact List.prefix_or_prefix_of_prefix hk' (hmap ▸ List.prefix_append _ _)
      have heq : k = key.map Char.toLower := by
        rcases hprefix with hp | hp
        · exact secretKeys_prefix_free _ hk _ hkey hp
        · exact (secretKeys_prefix_free _ hkey _ hk hp).symm
      rw [hfound, ← hsome, heq, List.length_map, List.take_left, List.drop_left]
    · cases hsome

theorem takeQuote_spec (s : List Char) : IsQuote (takeQuote s).1 ∧
    s = (takeQuote s).1 ++ (takeQuote s).2 := by
  unfold takeQuote
  split
  · exact ⟨.inr rfl, rfl⟩
  · exact ⟨.inl rfl, rfl⟩

theorem takeQuote_append {quote : List Char} (hquote : IsQuote quote) (hs : s.head? ≠ some '"') :
    takeQuote (quote ++ s) = (quote, s) := by
  obtain rfl | rfl := hquote
  · unfold takeQuote
    split
    · next he =>
      rw [List.nil_append] at he
      exact absurd (by rw [he]; rfl) hs
    · rfl
  · rfl

theorem head_secretKey (hkey : key.map Char.toLower ∈ secretKeys) :
    (key ++ s).head? ≠ some '"' := by
  cases key with
  | nil => exact absurd hkey (by decide +kernel)
  | cons c key =>
    rintro ⟨⟩
    exact toLower_ne_quote _ hkey (by simp)

theorem spaces_append (hs : ∀ c ∈ s, isJsSpace c) (hz : isJsSpace z = false) :
    (s ++ z :: t).takeWhile isJsSpace = s ∧ (s ++ z :: t).dropWhile isJsSpace = z :: t := by
  rw [List.takeWhile_append_of_pos hs, List.dropWhile_append_of_pos hs,
    List.takeWhile_cons_of_neg (by simp [hz]), List.dropWhile_cons_of_neg (by simp [hz])]
  exact ⟨List.append_nil s, rfl⟩

theorem matchSecret_eq (s : List Char) : matchSecret s =
    (matchKey (takeQuote s).2).bind fun found =>
      let (quote', s') := takeQuote found.2
      match s'.dropWhile isJsSpace with
      | [] => none
      | sep :: s'' =>
        if sep = ':' ∨ sep = '=' then
          match s''.dropWhile isJsSpace with
          | [] => none
          | c :: t =>
            if isHidden c then
              some ((takeQuote s).1 ++ found.1 ++ quote' ++ s'.takeWhile isJsSpace ++ [sep] ++
                s''.takeWhile isJsSpace, t.dropWhile isHidden)
            else none
        else none := rfl

theorem matchSecret_eq_some : matchSecret s = some (kept, rest) ↔
    ∃ h t, KeptText kept ∧ isHidden h ∧ s = kept ++ h :: t ∧ rest = t.dropWhile isHidden := by
  constructor
  · intro h
    rw [matchSecret_eq, Option.bind_eq_some_iff] at h
    obtain ⟨⟨key, s₁⟩, hkey, h⟩ := h
    obtain ⟨hs₀, hlower⟩ := matchKey_eq_some.mp hkey
    obtain ⟨hquote, hs⟩ := takeQuote_spec s
    obtain ⟨hquote', hs₁⟩ := takeQuote_spec s₁
    have hs₂ := List.takeWhile_append_dropWhile (p := isJsSpace) (l := (takeQuote s₁).2)
    dsimp only at h
    split at h
    · cases h
    · next sep s₃ hsep =>
      have hs₃ := List.takeWhile_append_dropWhile (p := isJsSpace) (l := s₃)
      split at h
      · next hcolon =>
        split at h
        · cases h
        · next c t hc =>
          split at h
          · next hhidden =>
            simp only [Option.some.injEq, Prod.mk.injEq] at h
            obtain ⟨rfl, rfl⟩ := h
            have hkept := KeptText.intro hquote hlower hquote'
              (fun c => List.mem_takeWhile_imp (l := (takeQuote s₁).2)) hcolon
              (fun c => List.mem_takeWhile_imp (l := s₃))
            refine ⟨c, t, by simpa only [List.append_assoc, List.singleton_append] using hkept,
              hhidden, ?_, rfl⟩
            rw [hsep] at hs₂
            rw [hc] at hs₃
            conv_lhs => rw [hs, hs₀, hs₁, ← hs₂, ← hs₃]
            simp only [List.append_assoc, List.cons_append, List.nil_append]
          · cases h
      · cases h
  · rintro ⟨h, t, hkept, hh, rfl, rfl⟩
    obtain ⟨hquote, hlower, hquote', hspace, hsep, hspace'⟩ := hkept
    rename_i quote key quote' space space' sep
    have hsepSpace : isJsSpace sep = false := by
      rcases hsep with rfl | rfl <;> rfl
    have hhSpace : isJsSpace h = false := by
      simp only [isHidden, Bool.and_eq_true, Bool.not_eq_true'] at hh
      exact hh.2
    have hfirst := takeQuote_append (s := key ++ (quote' ++ (space ++ sep :: (space' ++ h :: t))))
      hquote (head_secretKey hlower)
    have hmatch : matchKey (key ++ (quote' ++ (space ++ sep :: (space' ++ h :: t)))) =
        some (key, quote' ++ (space ++ sep :: (space' ++ h :: t))) :=
      matchKey_eq_some.mpr ⟨rfl, hlower⟩
    have hsecond : takeQuote (quote' ++ (space ++ sep :: (space' ++ h :: t))) =
        (quote', space ++ sep :: (space' ++ h :: t)) := by
      refine takeQuote_append hquote' ?_
      cases space with
      | nil => rcases hsep with rfl | rfl <;> simp
      | cons c space =>
        have hc := hspace c List.mem_cons_self
        rintro ⟨⟩
        cases hc
    obtain ⟨htake, hdrop⟩ := spaces_append (t := space' ++ h :: t) hspace hsepSpace
    obtain ⟨htake', hdrop'⟩ := spaces_append (t := t) hspace' hhSpace
    have hassoc : quote ++ (key ++ (quote' ++ (space ++ sep :: space'))) ++ h :: t =
        quote ++ (key ++ (quote' ++ (space ++ sep :: (space' ++ h :: t)))) := by
      simp only [List.append_assoc, List.cons_append]
    rw [hassoc, matchSecret_eq, hfirst]
    dsimp only
    rw [hmatch, Option.bind_some]
    dsimp only
    rw [hsecond]
    dsimp only
    rw [hdrop, htake]
    dsimp only
    rw [if_pos hsep, hdrop', htake']
    simp only [hh, if_true, List.append_assoc, List.cons_append, List.nil_append]

theorem notMem_kept (hquote : z ≠ '"') (hkey : ∀ k ∈ secretKeys, z.toLower ∉ k)
    (hspace : isJsSpace z = false) (hsep : z ≠ ':' ∧ z ≠ '=') (hk : KeptText kept) : z ∉ kept := by
  have hnotQuote {quote : List Char} (hq : IsQuote quote) : z ∉ quote := by
    rcases hq with rfl | rfl
    · exact List.not_mem_nil
    · simpa using hquote
  have hnotSpace {space : List Char} (hs : ∀ c ∈ space, isJsSpace c) : z ∉ space := by
    intro hz
    rw [hs z hz] at hspace
    cases hspace
  cases hk with
  | @intro quote key quote' space space' sep hq hlower hq' hs hcolon hs' =>
    have hnotKey : z ∉ key := fun hz => hkey _ hlower (List.mem_map_of_mem hz)
    have hnotSep : z ≠ sep := by
      rcases hcolon with rfl | rfl
      · exact hsep.1
      · exact hsep.2
    simp only [List.mem_append, List.mem_cons, not_or]
    exact ⟨hnotQuote hq, hnotKey, hnotQuote hq', hnotSpace hs, hnotSep, hnotSpace hs'⟩

def redaction : Pattern Char where
  matchAt := matchSecret
  Kept := KeptText
  hidden := isHidden
  matchAt_eq_some := matchSecret_eq_some

theorem redaction_edge (hz : z ∈ ['[', ',', '\x7b', '\x7d']) : redaction.Edge z := by
  simp only [List.mem_cons, List.not_mem_nil, or_false] at hz
  intro kept hk
  rcases hz with rfl | rfl | rfl | rfl <;>
    exact notMem_kept (by decide) (by decide +kernel) (by decide) (by decide) hk

def redacted : Mark redaction where
  head := '['
  tail := "REDACTED]".toList
  hidden_head := by decide
  edge_head := redaction_edge (by simp)

theorem redacted_text : redacted.text = "[REDACTED]".toList := by decide +kernel

theorem redactChars_eq_maskWith (fuel : Nat) (s : List Char) :
    redactChars fuel s = maskWith redaction redacted fuel s := by
  induction fuel generalizing s with
  | zero => rfl
  | succ fuel ih =>
    cases s with
    | nil => rfl
    | cons c s =>
      rw [redactChars, maskWith, redacted_text]
      cases hm : matchSecret (c :: s) with
      | none =>
        have hnone : redaction.matchAt (c :: s) = none := hm
        simp only [hnone, ih]
      | some found =>
        have hsome : redaction.matchAt (c :: s) = some found := hm
        simp only [hsome, ih]

theorem redact_eq_mask (s : List Char) :
    redact (String.ofList s) = String.ofList (mask redaction redacted s) := by
  simp only [redact, String.toList_ofList, redactChars_eq_maskWith, mask]

/-! ### JSON texts -/

def protectedKeys : List String := ["password", "secret", "token", "api_key", "authorization"]

/-- What is left of a value, with its closing quote, from the first symbol the pattern does
not hide. -/
def pastStop (value : String) : List Char := (escaped value ++ ['"']).dropWhile isHidden

variable {ν : Type} {numberText : ν → String} {u v : String} {x y : Json ν}

theorem escaped_protectedKey : ∀ key ∈ protectedKeys,
    escaped key = key.toList ∧ key.toList.map Char.toLower ∈ secretKeys := by decide +kernel

theorem isHidden_protectedKey :
    ∀ key ∈ protectedKeys, (quote key ++ [':']).all isHidden := by decide +kernel

theorem keptText_protectedKey {key : String} (hkey : key ∈ protectedKeys) :
    KeptText (quote key ++ [':']) := by
  obtain ⟨hescaped, hlower⟩ := escaped_protectedKey key hkey
  have hnoSpace : ∀ c ∈ ([] : List Char), isJsSpace c := by simp
  have hkept := KeptText.intro (.inr rfl) hlower (.inr rfl) hnoSpace (.inl rfl) hnoSpace
  simpa only [quote, hescaped, List.cons_append, List.nil_append, List.append_assoc] using hkept

theorem mask_around (pre post : List Char) {key : String} {a b : Char}
    (ha : a = '\x7b' ∨ a = ',') (hb : b = ',' ∨ b = '\x7d') (hkey : key ∈ protectedKeys) :
    ∃ P Q, ∀ value, mask redaction redacted
      (pre ++ a :: (quote key ++ ':' :: (quote value ++ b :: post))) =
        P ++ (mask redaction redacted (pastStop value) ++ Q) := by
  have hedge : redaction.Edge a := redaction_edge (by rcases ha with rfl | rfl <;> simp)
  have hedge' : redaction.Edge b := redaction_edge (by rcases hb with rfl | rfl <;> simp)
  have hstop : isHidden b = false := by rcases hb with rfl | rfl <;> rfl
  obtain ⟨P, hP⟩ := mask_append_kept redacted (pre ++ [a])
    (by simpa using hedge) (keptText_protectedKey hkey) (List.all_eq_true.mp (isHidden_protectedKey key hkey))
  refine ⟨P, mask redaction redacted (b :: post), fun value => ?_⟩
  calc mask redaction redacted (pre ++ a :: (quote key ++ ':' :: (quote value ++ b :: post)))
      = mask redaction redacted (pre ++ [a] ++
          (quote key ++ [':'] ++ '"' :: ((escaped value ++ ['"']) ++ b :: post))) := by
        simp only [quote, List.append_assoc, List.cons_append, List.nil_append]
    _ = P ++ mask redaction redacted (((escaped value ++ ['"']) ++ b :: post).dropWhile
          isHidden) := hP _ _ rfl
    _ = P ++ mask redaction redacted (pastStop value ++ b :: post) := by
        rw [dropWhile_append_of_stop hstop]
        rfl
    _ = P ++ (mask redaction redacted (pastStop value) ++
          mask redaction redacted (b :: post)) := by
        rw [mask_append_of_stop hedge' hstop]

theorem redact_eq_iff (h : DifferAt protectedKeys u v x y) :
    redact (stringify numberText x) = redact (stringify numberText y) ↔
      SameOutside redaction (pastStop u) (pastStop v) := by
  obtain ⟨pre, a, key, b, post, ha, hb, hkey, hx, hy⟩ := h.chars_around numberText
  obtain ⟨P, Q, hmask⟩ := mask_around pre post ha hb hkey
  rw [stringify, stringify, redact_eq_mask, redact_eq_mask, String.ofList_inj, hx, hy, hmask,
    hmask, List.append_cancel_left_eq, List.append_cancel_right_eq, mask_eq_iff]

/-- Values without a comma, a closing brace or an unescaped space are hidden altogether. -/
theorem redact_eq_of_isHidden (h : DifferAt protectedKeys u v x y)
    (hu : ∀ c ∈ escaped u, isHidden c) (hv : ∀ c ∈ escaped v, isHidden c) :
    redact (stringify numberText x) = redact (stringify numberText y) := by
  have hpast {value : String} (hvalue : ∀ c ∈ escaped value, isHidden c) : pastStop value = [] := by
    rw [pastStop, List.dropWhile_append_of_pos hvalue]
    rfl
  rw [redact_eq_iff h, hpast hu, hpast hv]
  exact .nil

theorem stringify_ne_empty (numberText : ν → String) (h : DifferAt protectedKeys u v x y) :
    stringify numberText x ≠ "" ∧ stringify numberText y ≠ "" := by
  obtain ⟨pre, a, key, b, post, _, _, _, hx, hy⟩ := h.chars_around numberText
  simp [stringify, hx, hy]

/-- Nothing that is made of the texts for the delivery row tells them apart. -/
structure StoredAlike (s t : String) : Prop where
  redacted : redact s = redact t
  success (cfg : Config) (status : Nat) : successSnippet cfg status s = successSnippet cfg status t
  failure (cfg : Config) (e : SendError) :
    failureSnippet cfg { e with responseData := some s } =
      failureSnippet cfg { e with responseData := some t }

theorem StoredAlike.of_redact_eq {s t : String} (hs : s ≠ "") (ht : t ≠ "")
    (h : redact s = redact t) : StoredAlike s t where
  redacted := h
  success cfg status := by simp only [successSnippet, h]
  failure cfg e := by
    simp only [failureSnippet, SendError.responseText, orText, hs, ht, if_false, h]
    rfl

/-- What `redact` shows of a secret is its text from the first comma, brace or space on, but
for the secrets that are found in there. -/
theorem secrets_hidden_iff (numberText : ν → String) (h : DifferAt protectedKeys u v x y) :
    StoredAlike (stringify numberText x) (stringify numberText y) ↔
      SameOutside redaction (pastStop u) (pastStop v) := by
  constructor
  · intro halike
    exact (redact_eq_iff h).mp halike.redacted
  · intro hsame
    obtain ⟨hx, hy⟩ := stringify_ne_empty numberText h
    exact .of_redact_eq hx hy ((redact_eq_iff h).mpr hsame)

/-- An account with a secret, one level down. -/
def account (secret : String) : Json Nat :=
  .object [("id", .number 7), ("credentials", .object [("token", .string secret)])]

theorem account_differAt (u v : String) : DifferAt protectedKeys u v (account u) (account v) :=
  .member [("id", .number 7)] [] "credentials" (.held [] [] (by decide))

theorem secrets_hidden_iff_account :
    StoredAlike (stringify toString (account "a\"b")) (stringify toString (account "c")) :=
  (secrets_hidden_iff toString (account_differAt _ _)).mpr (by
    have hu : pastStop "a\"b" = [] := by decide +kernel
    have hv : pastStop "c" = [] := by decide +kernel
    rw [hu, hv]
    exact .nil)

theorem comma_shows : ¬ ∀ (u v : String) (x y : Json Nat), DifferAt protectedKeys u v x y →
    StoredAlike (stringify toString x) (stringify toString y) := by
  intro h
  have halike := h "a,b" "a,c" (.object [("password", .string "a,b")])
    (.object [("password", .string "a,c")]) (.held [] [] (by decide))
  exact absurd halike.redacted (by decide +kernel)

end WebhookEngine
