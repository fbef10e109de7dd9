import Mathlib.Algebra.GroupWithZero.Nat
import Mathlib.Data.List.Basic
import Mathlib.Tactic.IntervalCases

/-! Internet addresses: their numbers, the networks they lie in, and the texts a resolver
writes them in. -/

namespace IpAddress

/-- The two numbers of `width` bits agree in the first `length` of them. -/
def SharePrefix (width length value base : Nat) : Prop :=
  value / 2 ^ (width - length) = base / 2 ^ (width - length)

instance (width length value base : Nat) : Decidable (SharePrefix width length value base) :=
  inferInstanceAs (Decidable (_ = _))

/-- The numerals of an octet are read with it. -/
instance neZero_octet : NeZero 256 := ⟨by decide⟩

structure V4 where
  a : Fin 256
  b : Fin 256
  c : Fin 256
  d : Fin 256
  deriving DecidableEq, Repr

structure V6 where
  groups : List Nat
  length_eq : groups.length = 8
  lt : ∀ g ∈ groups, g < 65536

namespace V4

def value (x : V4) : Nat := ((x.a.1 * 256 + x.b.1) * 256 + x.c.1) * 256 + x.d.1

def ofValue (n : Nat) : V4 :=
  ⟨Fin.ofNat 256 (n / 16777216), Fin.ofNat 256 (n / 65536), Fin.ofNat 256 (n / 256), Fin.ofNat 256 n⟩

def parts (x : V4) : List (List Char) :=
  [x.a.1, x.b.1, x.c.1, x.d.1].map (Nat.toDigits 10)

def chars (x : V4) : List Char := ['.'].intercalate x.parts

def InNetwork (x network : V4) (length : Nat) : Prop := SharePrefix 32 length x.value network.value

end V4

namespace V6

def value (x : V6) : Nat := x.groups.foldl (fun n g => n * 65536 + g) 0

def mapped (x : V4) : V6 where
  groups := [0, 0, 0, 0, 0, 0xffff, x.a.1 * 256 + x.b.1, x.c.1 * 256 + x.d.1]
  length_eq := rfl
  lt g hg := by
    have ha := x.a.2
    have hb := x.b.2
    have hc := x.c.2
    have hd := x.d.2
    simp only [List.mem_cons, List.not_mem_nil, or_false] at hg
    omega

/-- The network's other groups are zero. -/
def InNetwork (x : V6) (first length : Nat) : Prop := SharePrefix 128 length x.value (first * 2 ^ 112)

/-- The first of the longest runs of zeros, if it has two groups at least. -/
def zeroRun (groups : List Nat) : Option (Nat × Nat) :=
  [8, 7, 6, 5, 4, 3, 2].findSome? fun length =>
    ((List.range (9 - length)).find? fun base => ((groups.drop base).take length).all (· == 0)).map (·, length)

def hex (g : Nat) : List Char := Nat.toDigits 16 g

def colons (groups : List Nat) : List Char := [':'].intercalate (groups.map hex)

/-- What is written after the zeros that are left out. -/
def afterRun (x : V6) (base length : Nat) : List Char :=
  if base = 0 ∧ length = 6 then (V4.ofValue x.value).chars
  else if base = 0 ∧ length = 5 ∧ x.groups[5]? = some 0xffff then hex 0xffff ++ ':' :: (V4.ofValue x.value).chars
  else colons (x.groups.drop (base + length))

/-- Lower case, no leading zeros, the longest run of zeros left out, and an address of the
other family in its own form. -/
def chars (x : V6) : List Char :=
  match zeroRun x.groups with
  | none => colons x.groups
  | some (base, length) => colons (x.groups.take base) ++ ':' :: ':' :: x.afterRun base length

end V6

/-! ### Texts -/

section Texts

variable {x : V4} {groups : List Nat} {g base length : Nat}

theorem isDigit_of_mem_decimal {n : Nat} {c : Char} (h : c ∈ Nat.toDigits 10 n) : c.isDigit = true :=
  Nat.isDigit_of_mem_toDigits (by decide) (by decide) h

theorem V4.dot_notMem {part : List Char} (h : part ∈ x.parts) : '.' ∉ part := by
  intro hdot
  obtain ⟨n, _, rfl⟩ := List.mem_map.mp h
  have hdigit := isDigit_of_mem_decimal hdot
  cases hdigit

theorem V4.splitOn_chars (x : V4) : x.chars.splitOn '.' = x.parts :=
  List.splitOn_intercalate '.' (fun _ h => x.dot_notMem h) (by simp [parts])

theorem V4.chars_head (x : V4) : ∃ c cs, x.chars = c :: cs ∧ c.isDigit = true := by
  obtain ⟨c, cs, hdigits⟩ := List.exists_cons_of_ne_nil (Nat.toDigits_ne_nil (n := x.a.1) (b := 10))
  let rest := ['.'].intercalate [Nat.toDigits 10 x.b.1, Nat.toDigits 10 x.c.1, Nat.toDigits 10 x.d.1]
  refine ⟨c, cs ++ '.' :: rest, ?_, ?_⟩
  · simp [chars, parts, List.intercalate, hdigits, rest]
  · exact isDigit_of_mem_decimal (hdigits ▸ List.mem_cons_self)

namespace V6

theorem mem_hex {c : Char} (h : c ∈ hex g) : ∃ d < 16, c = d.digitChar := by
  induction g using Nat.strong_induction_on with
  | _ g ih =>
    by_cases hlt : g < 16
    · rw [hex, Nat.toDigits_of_lt_base hlt, List.mem_singleton] at h
      exact ⟨g, hlt, h⟩
    · rw [hex, Nat.toDigits_of_base_le (by decide) (not_lt.mp hlt), List.mem_append, List.mem_singleton] at h
      rcases h with h | h
      · exact ih (g / 16) (by omega) h
      · exact ⟨g % 16, Nat.mod_lt _ (by decide), h⟩

theorem colon_notMem_hex (g : Nat) : ':' ∉ hex g := by
  intro h
  obtain ⟨d, hd, hc⟩ := mem_hex h
  interval_cases d <;> cases hc

theorem dot_notMem_hex (g : Nat) : '.' ∉ hex g := by
  intro h
  obtain ⟨d, hd, hc⟩ := mem_hex h
  interval_cases d <;> cases hc

theorem hex_cons (g : Nat) : ∃ c cs, hex g = c :: cs ∧ c ≠ ':' := by
  obtain ⟨c, cs, hdigits⟩ := List.exists_cons_of_ne_nil (Nat.toDigits_ne_nil (n := g) (b := 16))
  refine ⟨c, cs, hdigits, ?_⟩
  rintro rfl
  have hmem : ':' ∈ Nat.toDigits 16 g := hdigits ▸ List.mem_cons_self
  exact colon_notMem_hex g hmem

theorem hex_of_lt (h : g < 16) : hex g = [g.digitChar] := Nat.toDigits_of_lt_base h

theorem hex_of_le (h : 16 ≤ g) : hex g = hex (g / 16) ++ [(g % 16).digitChar] :=
  Nat.toDigits_of_base_le (by decide) h

theorem hex_two (hlow : 16 ≤ g) (hhigh : g < 256) : hex g = [(g / 16).digitChar, (g % 16).digitChar] := by
  rw [hex_of_le hlow, hex_of_lt (by omega)]
  rfl

theorem hex_three (hlow : 256 ≤ g) (hhigh : g < 4096) :
    hex g = [(g / 256).digitChar, (g / 16 % 16).digitChar, (g % 16).digitChar] := by
  rw [hex_of_le (by omega), hex_two (by omega) (by omega), Nat.div_div_eq_div_mul]
  rfl

theorem hex_four (hlow : 4096 ≤ g) (hhigh : g < 65536) :
    hex g = [(g / 4096).digitChar, (g / 256 % 16).digitChar, (g / 16 % 16).digitChar, (g % 16).digitChar] := by
  rw [hex_of_le (by omega), hex_three (by omega) (by omega), Nat.div_div_eq_div_mul, Nat.div_div_eq_div_mul]
  rfl

theorem hex_cases (hlt : g < 65536) :
    (g < 16 ∧ hex g = [g.digitChar]) ∨
    (16 ≤ g ∧ g < 256 ∧ hex g = [(g / 16).digitChar, (g % 16).digitChar]) ∨
    (256 ≤ g ∧ g < 4096 ∧ hex g = [(g / 256).digitChar, (g / 16 % 16).digitChar, (g % 16).digitChar]) ∨
    (4096 ≤ g ∧
      hex g = [(g / 4096).digitChar, (g / 256 % 16).digitChar, (g / 16 % 16).digitChar, (g % 16).digitChar]) := by
  by_cases hone : g < 16
  · exact .inl ⟨hone, hex_of_lt hone⟩
  have htwo : 16 ≤ g := by omega
  by_cases hthree : g < 256
  · exact .inr (.inl ⟨htwo, hthree, hex_two htwo hthree⟩)
  have hthree' : 256 ≤ g := by omega
  by_cases hfour : g < 4096
  · exact .inr (.inr (.inl ⟨hthree', hfour, hex_three hthree' hfour⟩))
  have hfour' : 4096 ≤ g := by omega
  exact .inr (.inr (.inr ⟨hfour', hex_four hfour' hlt⟩))

theorem hex_eq_one (h : hex g = ['1']) : g = 1 := by
  by_cases hlt : g < 16
  · rw [hex_of_lt hlt] at h
    simpa using h
  · obtain ⟨c, cs, hhead, _⟩ := hex_cons (g / 16)
    rw [hex_of_le (not_lt.mp hlt), hhead] at h
    simp at h

theorem colons_singleton (g : Nat) : colons [g] = hex g := by
  simp [colons, List.intercalate]

theorem colons_cons_cons (g h : Nat) (gs : List Nat) : colons (g :: h :: gs) = hex g ++ ':' :: colons (h :: gs) := by
  simp [colons, List.intercalate]

theorem colons_eq_one (h : colons groups = ['1']) : groups = [1] := by
  match groups with
  | [] => cases h
  | [g] =>
    rw [colons_singleton] at h
    rw [hex_eq_one h]
  | g :: g' :: gs =>
    rw [colons_cons_cons] at h
    have hcolon : ':' ∈ ['1'] := by
      rw [← h]
      exact List.mem_append_right _ List.mem_cons_self
    simp at hcolon

theorem zeroRun_spec (h : zeroRun groups = some (base, length)) :
    2 ≤ length ∧ base + length ≤ 8 ∧ ∀ g ∈ (groups.drop base).take length, g = 0 := by
  obtain ⟨_, hlength, hfound⟩ := List.exists_of_findSome?_eq_some h
  obtain ⟨_, hbase, hpair⟩ := Option.map_eq_some_iff.mp hfound
  obtain ⟨rfl, rfl⟩ := Prod.mk.inj hpair
  have hrange := List.mem_range.mp (List.mem_of_find?_eq_some hbase)
  have hzeros := List.find?_some hbase
  simp only [List.mem_cons, List.not_mem_nil, or_false] at hlength
  simp only [List.all_eq_true, beq_iff_eq] at hzeros
  exact ⟨by omega, by omega, hzeros⟩

theorem groups_cons (x : V6) : ∃ g g' gs, x.groups = g :: g' :: gs := by
  obtain ⟨groups, hlength, _⟩ := x
  match groups with
  | [] => cases hlength
  | [_] => cases hlength
  | g :: g' :: gs => exact ⟨g, g', gs, rfl⟩

theorem chars_of_zeroRun {x : V6} (h : zeroRun x.groups = some (0, length)) :
    x.chars = ':' :: ':' :: x.afterRun 0 length := by
  simp only [chars, h]
  rfl

/-- An IPv6 text starts with its first group and a colon, unless that is one of the zeros left out. -/
theorem chars_cases (x : V6) : (∃ length, zeroRun x.groups = some (0, length)) ∨
    ∃ g gs cs, x.groups = g :: gs ∧ x.chars = hex g ++ ':' :: cs := by
  obtain ⟨g, g', gs, hgroups⟩ := x.groups_cons
  cases hrun : zeroRun x.groups with
  | none =>
    refine .inr ⟨g, g' :: gs, colons (g' :: gs), hgroups, ?_⟩
    rw [← colons_cons_cons, ← hgroups]
    simp only [chars, hrun]
  | some run =>
    obtain ⟨base, length⟩ := run
    have hchars : x.chars = colons (x.groups.take base) ++ ':' :: ':' :: x.afterRun base length := by
      simp only [chars, hrun]
    rw [hgroups] at hchars
    match base with
    | 0 => exact .inl ⟨length, rfl⟩
    | 1 =>
      rw [List.take_succ_cons, List.take_zero, colons_singleton] at hchars
      exact .inr ⟨g, g' :: gs, _, hgroups, hchars⟩
    | base + 2 =>
      rw [List.take_succ_cons, List.take_succ_cons, colons_cons_cons, List.append_assoc, List.cons_append] at hchars
      exact .inr ⟨g, g' :: gs, _, hgroups, hchars⟩

theorem first_of_zeroRun {x : V6} (h : zeroRun x.groups = some (0, length)) : ∃ gs, x.groups = 0 :: gs := by
  obtain ⟨g, g', gs, hgroups⟩ := x.groups_cons
  obtain ⟨htwo, _, hzeros⟩ := zeroRun_spec h
  obtain ⟨n, rfl⟩ := Nat.exists_eq_add_of_le' (Nat.lt_of_lt_of_le Nat.zero_lt_two htwo)
  rw [hgroups] at hzeros
  exact ⟨g' :: gs, by rw [hgroups, hzeros g (by simp)]⟩

theorem afterRun_eq_one {x : V6} (h : x.afterRun 0 length = ['1']) :
    x.groups.drop length = [1] := by
  unfold afterRun at h
  split at h
  · have hparts := (V4.ofValue x.value).splitOn_chars
    rw [h, List.splitOn_eq_singleton (by decide)] at hparts
    have hlength : 1 = 4 := congrArg List.length hparts
    omega
  · split at h
    · cases h
    · rw [Nat.zero_add] at h
      exact colons_eq_one h

theorem chars_eq_loopback (x : V6) : x.chars = [':', ':', '1'] ↔ x.groups = [0, 0, 0, 0, 0, 0, 0, 1] := by
  constructor
  · intro h
    rcases x.chars_cases with ⟨length, hrun⟩ | ⟨g, gs, cs, _, hchars⟩
    · obtain ⟨_, _, hzeros⟩ := zeroRun_spec hrun
      rw [chars_of_zeroRun hrun, List.cons.injEq, List.cons.injEq] at h
      have hdrop := afterRun_eq_one h.2.2
      have hseven : length = 7 := by
        have hlen := congrArg List.length hdrop
        rw [List.length_drop, x.length_eq, List.length_singleton] at hlen
        omega
      subst hseven
      have htake : x.groups.take 7 = List.replicate 7 0 := by
        rw [List.eq_replicate_iff, List.length_take, x.length_eq]
        exact ⟨rfl, hzeros⟩
      rw [← List.take_append_drop 7 x.groups, htake, hdrop]
      rfl
    · obtain ⟨c, cs', hhex, hne⟩ := hex_cons g
      rw [hchars, hhex, List.cons_append, List.cons.injEq] at h
      exact absurd h.1 hne
  · intro h
    have hrun : zeroRun x.groups = some (0, 7) := by
      rw [h]
      decide
    rw [chars_of_zeroRun hrun, afterRun, h]
    rfl

end V6

end Texts

/-! ### Networks -/

section Networks

variable {g length : Nat} {gs : List Nat}

/-- A network of sixteen bits at most is settled by the first two octets. -/
theorem V4.inNetwork_iff {x network : V4} (hlength : length ≤ 16) : x.InNetwork network length ↔
    (x.a.1 * 256 + x.b.1) / 2 ^ (16 - length) = (network.a.1 * 256 + network.b.1) / 2 ^ (16 - length) := by
  have hpow : 2 ^ (32 - length) = 65536 * 2 ^ (16 - length) := by
    rw [show 65536 = 2 ^ 16 from rfl, ← Nat.pow_add]
    congr 1
    omega
  have hfirst (y : V4) : y.value / 65536 = y.a.1 * 256 + y.b.1 := by
    have hc := y.c.2
    have hd := y.d.2
    rw [V4.value]
    omega
  rw [InNetwork, SharePrefix, hpow, ← Nat.div_div_eq_div_mul, ← Nat.div_div_eq_div_mul, hfirst, hfirst]

theorem V6.first_lt {x : V6} (h : x.groups = g :: gs) : g < 65536 :=
  x.lt g (by rw [h]; exact List.mem_cons_self)

theorem V6.value_eq {x : V6} (h : x.groups = g :: gs) : ∃ rest < 2 ^ 112, x.value = g * 2 ^ 112 + rest := by
  obtain ⟨groups, hlength, hlt⟩ := x
  obtain rfl : groups = g :: gs := h
  match gs with
  | [g₁, g₂, g₃, g₄, g₅, g₆, g₇] =>
    simp only [List.mem_cons, List.not_mem_nil, or_false, forall_eq_or_imp, forall_eq] at hlt
    refine ⟨((((((g₁ * 65536 + g₂) * 65536 + g₃) * 65536 + g₄) * 65536 + g₅) * 65536 + g₆) * 65536 + g₇), ?_, ?_⟩
    · omega
    · simp only [V6.value, List.foldl_cons, List.foldl_nil]
      omega

/-- A network of sixteen bits at most is settled by the first group. -/
theorem V6.inNetwork_iff {x : V6} (h : x.groups = g :: gs) {first : Nat} (hlength : length ≤ 16) :
    x.InNetwork first length ↔ g / 2 ^ (16 - length) = first / 2 ^ (16 - length) := by
  obtain ⟨rest, hrest, hvalue⟩ := x.value_eq h
  have hpow : 2 ^ (128 - length) = 2 ^ 112 * 2 ^ (16 - length) := by
    rw [← Nat.pow_add]
    congr 1
    omega
  have hfirst : x.value / 2 ^ 112 = g := by omega
  rw [InNetwork, SharePrefix, hpow, ← Nat.div_div_eq_div_mul, ← Nat.div_div_eq_div_mul, hfirst,
    Nat.mul_div_cancel _ (by decide)]

theorem V6.value_eq_one {x : V6} : x.value = 1 ↔ x.groups = [0, 0, 0, 0, 0, 0, 0, 1] := by
  obtain ⟨groups, hlength, hlt⟩ := x
  match groups with
  | [g₀, g₁, g₂, g₃, g₄, g₅, g₆, g₇] =>
    simp only [V6.value, List.foldl_cons, List.foldl_nil, List.cons.injEq, and_true]
    omega

end Networks

end IpAddress
