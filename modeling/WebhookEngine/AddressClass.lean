import WebhookEngine.IpAddress
import WebhookEngine.SafeUrl

/-! Which addresses the check of a URL takes for private: it reads their texts, and the
networks are sets of numbers. -/

namespace WebhookEngine

open IpAddress

def privateNetworks : List (V4 × Nat) :=
  [(⟨127, 0, 0, 0⟩, 8), (⟨10, 0, 0, 0⟩, 8), (⟨172, 16, 0, 0⟩, 12), (⟨192, 168, 0, 0⟩, 16), (⟨169, 254, 0, 0⟩, 16)]

def Internal4 (x : V4) : Prop := ∃ n ∈ privateNetworks, x.InNetwork n.1 n.2

/-- The loopback address, the link-local and the unique local addresses, and the internal
addresses of the other family. -/
def Internal6 (x : V6) : Prop :=
  x.value = 1 ∨ x.InNetwork 0xfe80 10 ∨ x.InNetwork 0xfc00 7 ∨ ∃ y, Internal4 y ∧ x.groups = (V6.mapped y).groups

inductive Address where
  | v4 (x : V4)
  | v6 (x : V6)

def Address.text : Address → String
  | .v4 x => String.ofList x.chars
  | .v6 x => String.ofList x.chars

def Address.Internal : Address → Prop
  | .v4 x => Internal4 x
  | .v6 x => Internal6 x

/-- The first groups that begin like a unique local one and are shorter, the link-local ones after
the first, and the internal addresses in mapped form. -/
def Address.Misread : Address → Prop
  | .v4 _ => False
  | .v6 x => (∃ g gs, x.groups = g :: gs ∧
      ((0xfc ≤ g ∧ g ≤ 0xfd) ∨ (0xfc0 ≤ g ∧ g ≤ 0xfdf) ∨ (0xfe81 ≤ g ∧ g ≤ 0xfebf))) ∨
    ∃ y, Internal4 y ∧ x.groups = (V6.mapped y).groups

section Texts

variable {cs pre : List Char} {x : V4}

theorem decimal_toDigits (n : Nat) : decimal (Nat.toDigits 10 n) = some n := by
  have hdigits : (Nat.toDigits 10 n).all Char.isDigit = true := by
    rw [List.all_eq_true]
    exact fun c hc => isDigit_of_mem_decimal hc
  rw [decimal, if_pos hdigits, Nat.ofDigitChars_ten_toDigits]

theorem decimal_of_colon {part : List Char} (h : ':' ∈ part) : decimal part = none := by
  have hdigits : ¬ part.all Char.isDigit = true := by
    rw [List.all_eq_true]
    exact fun hall => absurd (hall ':' h) (by decide)
  rw [decimal, if_neg hdigits]

theorem splitOn_of_colon (hpre : '.' ∉ pre) (cs : List Char) :
    ∃ part parts, (pre ++ ':' :: cs).splitOn '.' = part :: parts ∧ ':' ∈ part := by
  by_cases hdot : '.' ∈ cs
  · obtain ⟨before, after, rfl, hbefore⟩ := List.eq_append_cons_of_mem hdot
    have hnot : '.' ∉ pre ++ ':' :: before := by
      simp [hpre, hbefore]
    refine ⟨pre ++ ':' :: before, after.splitOn '.', ?_, by simp⟩
    rw [← List.cons_append, ← List.append_assoc, List.splitOn_append_cons_self_of_not_mem hnot]
  · have hnot : '.' ∉ pre ++ ':' :: cs := by
      simp [hpre, hdot]
    exact ⟨_, [], List.splitOn_eq_singleton hnot, by simp⟩

theorem internal4_iff (x : V4) : Internal4 x ↔ x.a.1 = 127 ∨ x.a.1 = 10 ∨ x.a.1 = 172 ∧ x.b.1 / 16 = 1 ∨
    x.a.1 = 192 ∧ x.b.1 = 168 ∨ x.a.1 = 169 ∧ x.b.1 = 254 := by
  simp only [Internal4, privateNetworks, List.mem_cons, List.not_mem_nil, or_false, exists_eq_or_imp, exists_eq_left,
    V4.inNetwork_iff (show 8 ≤ 16 by decide), V4.inNetwork_iff (show 12 ≤ 16 by decide), V4.inNetwork_iff le_rfl]
  have ha := x.a.2
  have hb := x.b.2
  have height : (x.a.1 * 256 + x.b.1) / 2 ^ (16 - 8) = x.a.1 := by omega
  have htwelve : (x.a.1 * 256 + x.b.1) / 2 ^ (16 - 12) = 172 * 16 + 1 ↔ x.a.1 = 172 ∧ x.b.1 / 16 = 1 := by omega
  have hsixteen (a b : Nat) (hlt : b < 256) :
      (x.a.1 * 256 + x.b.1) / 2 ^ (16 - 16) = a * 256 + b ↔ x.a.1 = a ∧ x.b.1 = b := by omega
  rw [height]
  exact or_congr_right (or_congr_right (or_congr htwelve
    (or_congr (hsixteen 192 168 (by decide)) (hsixteen 169 254 (by decide)))))

def privateParts (cs : List Char) : Bool :=
  match (cs.splitOn '.').map decimal with
  | [a, b, _, _] =>
    a == some 10 || a == some 127 || (a == some 169 && b == some 254) ||
      (a == some 172 && b.any fun n => 16 ≤ n && n ≤ 31) || (a == some 192 && b == some 168)
  | _ => false

theorem isPrivateAddress_iff : isPrivateAddress (String.ofList cs) = true ↔ cs = [':', ':', '1'] ∨
    ['f', 'c'] <+: cs ∨ ['f', 'd'] <+: cs ∨ ['f', 'e', '8', '0', ':'] <+: cs ∨ privateParts cs = true := by
  have hloopback : String.ofList cs = "::1" ↔ cs = [':', ':', '1'] := by
    rw [← String.toList_inj, String.toList_ofList]
    rfl
  have htests : isPrivateAddress (String.ofList cs) =
      if String.ofList cs == "::1" || ['f', 'c'].isPrefixOf cs || ['f', 'd'].isPrefixOf cs then true
      else if ['f', 'e', '8', '0', ':'].isPrefixOf cs then true else privateParts cs := by
    simp only [isPrivateAddress, String.toList_ofList]
    rfl
  rw [htests]
  simp only [← List.isPrefixOf_iff_prefix, ← hloopback, Bool.if_true_left, Bool.or_eq_true, decide_eq_true_eq,
    beq_iff_eq, or_assoc]

theorem privateParts_v4 (x : V4) : privateParts x.chars = true ↔ Internal4 x := by
  rw [privateParts, x.splitOn_chars, internal4_iff]
  simp only [V4.parts, List.map_cons, List.map_nil, decimal_toDigits, Bool.or_eq_true, Bool.and_eq_true, beq_iff_eq,
    Option.some.injEq, Option.any_some, decide_eq_true_eq]
  omega

theorem isPrivateAddress_v4 (x : V4) : isPrivateAddress (String.ofList x.chars) = true ↔ Internal4 x := by
  obtain ⟨c, cs, hchars, hdigit⟩ := x.chars_head
  have hhead {d : Char} (hd : d.isDigit = false) (ds : List Char) : ¬ d :: ds <+: x.chars := by
    rw [hchars, List.cons_prefix_cons]
    rintro ⟨rfl, _⟩
    rw [hdigit] at hd
    cases hd
  have hloopback : x.chars ≠ [':', ':', '1'] := by
    intro h
    exact hhead (d := ':') (by decide) [':', '1'] (h ▸ List.prefix_refl _)
  simp only [isPrivateAddress_iff, hloopback, hhead (d := 'f') (by decide), false_or, privateParts_v4]

theorem privateParts_colon {pre : List Char} (hpre : '.' ∉ pre) (cs : List Char) :
    privateParts (pre ++ ':' :: cs) = false := by
  obtain ⟨part, parts, hsplit, hcolon⟩ := splitOn_of_colon hpre cs
  rw [privateParts, hsplit, List.map_cons, decimal_of_colon hcolon]
  split
  · rename_i h
    obtain ⟨rfl, _⟩ := List.cons.inj h
    rfl
  · rfl

theorem unique_local_prefix {g : Nat} (hlt : g < 65536) (cs : List Char) :
    (['f', 'c'] <+: V6.hex g ++ ':' :: cs ∨ ['f', 'd'] <+: V6.hex g ++ ':' :: cs) ↔
      (0xfc ≤ g ∧ g ≤ 0xfd) ∨ (0xfc0 ≤ g ∧ g ≤ 0xfdf) ∨ (0xfc00 ≤ g ∧ g ≤ 0xfdff) := by
  rcases V6.hex_cases hlt with ⟨hg, hdigits⟩ | ⟨hlow, hhigh, hdigits⟩ | ⟨hlow, hhigh, hdigits⟩ | ⟨hlow, hdigits⟩
  all_goals
    rw [hdigits]
    simp [List.cons_prefix_cons]
    omega

theorem link_local_prefix {g : Nat} (hlt : g < 65536) (cs : List Char) :
    ['f', 'e', '8', '0', ':'] <+: V6.hex g ++ ':' :: cs ↔ g = 0xfe80 := by
  rcases V6.hex_cases hlt with ⟨hg, hdigits⟩ | ⟨hlow, hhigh, hdigits⟩ | ⟨hlow, hhigh, hdigits⟩ | ⟨hlow, hdigits⟩
  all_goals
    rw [hdigits]
    simp [List.cons_prefix_cons]
    omega

theorem isPrivateAddress_v6 {x : V6} {g : Nat} {gs : List Nat} (hgroups : x.groups = g :: gs) :
    isPrivateAddress (String.ofList x.chars) = true ↔ x.groups = [0, 0, 0, 0, 0, 0, 0, 1] ∨
      (0xfc ≤ g ∧ g ≤ 0xfd) ∨ (0xfc0 ≤ g ∧ g ≤ 0xfdf) ∨ (0xfc00 ≤ g ∧ g ≤ 0xfdff) ∨ g = 0xfe80 := by
  have hlt := V6.first_lt hgroups
  rw [isPrivateAddress_iff, x.chars_eq_loopback]
  rcases x.chars_cases with ⟨length, hrun⟩ | ⟨g', gs', cs, hgroups', hchars⟩
  · obtain ⟨_, hzero⟩ := V6.first_of_zeroRun hrun
    obtain rfl : 0 = g := by
      rw [hzero] at hgroups
      exact (List.cons.inj hgroups).1
    have hparts : privateParts (':' :: ':' :: x.afterRun 0 length) = false :=
      privateParts_colon List.not_mem_nil _
    rw [V6.chars_of_zeroRun hrun, hparts]
    simp
  · obtain rfl : g' = g := by
      rw [hgroups] at hgroups'
      exact (List.cons.inj hgroups').1.symm
    rw [hchars, privateParts_colon (V6.dot_notMem_hex g') cs, link_local_prefix hlt cs, ← or_assoc (a := _ <+: _),
      unique_local_prefix hlt cs]
    simp only [Bool.false_eq_true, or_false, or_assoc]

theorem internal6_iff {x : V6} {g : Nat} {gs : List Nat} (hgroups : x.groups = g :: gs) :
    Internal6 x ↔ x.groups = [0, 0, 0, 0, 0, 0, 0, 1] ∨ (0xfe80 ≤ g ∧ g ≤ 0xfebf) ∨ (0xfc00 ≤ g ∧ g ≤ 0xfdff) ∨
      ∃ y, Internal4 y ∧ x.groups = (V6.mapped y).groups := by
  have hlink : g / 2 ^ (16 - 10) = 0xfe80 / 2 ^ (16 - 10) ↔ 0xfe80 ≤ g ∧ g ≤ 0xfebf := by omega
  have hunique : g / 2 ^ (16 - 7) = 0xfc00 / 2 ^ (16 - 7) ↔ 0xfc00 ≤ g ∧ g ≤ 0xfdff := by omega
  rw [Internal6, V6.value_eq_one, V6.inNetwork_iff hgroups (by decide), V6.inNetwork_iff hgroups (by decide), hlink,
    hunique]

end Texts

/-- The check is right about an address just when it does not misread it. -/
theorem private_address_exact_iff (address : Address) :
    (isPrivateAddress address.text = true ↔ address.Internal) ↔ ¬ address.Misread := by
  cases address with
  | v4 x => exact iff_of_true (isPrivateAddress_v4 x) id
  | v6 x =>
    obtain ⟨g, g', gs, hgroups⟩ := x.groups_cons
    have hfirst : (∃ h hs, x.groups = h :: hs ∧
        ((0xfc ≤ h ∧ h ≤ 0xfd) ∨ (0xfc0 ≤ h ∧ h ≤ 0xfdf) ∨ (0xfe81 ≤ h ∧ h ≤ 0xfebf))) ↔
        (0xfc ≤ g ∧ g ≤ 0xfd) ∨ (0xfc0 ≤ g ∧ g ≤ 0xfdf) ∨ (0xfe81 ≤ g ∧ g ≤ 0xfebf) := by
      simp [hgroups]
    have hloopback (h : x.groups = [0, 0, 0, 0, 0, 0, 0, 1]) : g = 0 := by
      rw [hgroups] at h
      exact (List.cons.inj h).1
    have hmapped (h : ∃ y, Internal4 y ∧ x.groups = (V6.mapped y).groups) :
        g = 0 ∧ x.groups ≠ [0, 0, 0, 0, 0, 0, 0, 1] := by
      obtain ⟨y, _, hy⟩ := h
      have hzero := hy
      rw [hgroups] at hzero
      refine ⟨(List.cons.inj hzero).1, ?_⟩
      rw [hy]
      simp [V6.mapped]
    rw [Address.text, isPrivateAddress_v6 hgroups, Address.Internal, internal6_iff hgroups, Address.Misread, hfirst]
    by_cases hinside : ∃ y, Internal4 y ∧ x.groups = (V6.mapped y).groups
    · obtain ⟨hzero, hne⟩ := hmapped hinside
      simp [hinside, hne, hzero]
    · by_cases hone : x.groups = [0, 0, 0, 0, 0, 0, 0, 1]
      · have hzero := hloopback hone
        simp only [hinside, or_false]
        exact iff_of_true (iff_of_true (.inl hone) (.inl hone)) (by omega)
      · simp only [hinside, hone, or_false, false_or]
        omega

/-- The loopback address of the other family in its own form. -/
theorem mapped_loopback_public :
    ¬ ∀ address : Address, isPrivateAddress address.text = true ↔ address.Internal := by
  intro h
  have hloopback : Internal4 ⟨127, 0, 0, 1⟩ := (internal4_iff _).mpr (.inl rfl)
  have hexact := (h (.v6 (V6.mapped ⟨127, 0, 0, 1⟩))).mpr (.inr (.inr (.inr ⟨_, hloopback, rfl⟩)))
  have hpublic : isPrivateAddress (Address.v6 (V6.mapped ⟨127, 0, 0, 1⟩)).text = false := by decide +kernel
  rw [hpublic] at hexact
  cases hexact

end WebhookEngine
