import Mathlib.Algebra.GroupWithZero.Nat
import Mathlib.Data.List.Basic

/-! Texts as JavaScript counts and cuts them, in UTF-16 code units. -/

namespace WebhookEngine

def utf16Units (c : Char) : Nat := if c.toNat < 0x10000 then 1 else 2

/-- The length of a text as JavaScript counts it, in UTF-16 code units. -/
def utf16Length (text : String) : Nat := (text.toList.map utf16Units).sum

/-- The first `n` code units. Half of a pair has no UTF-8, and is written as U+FFFD. -/
def utf16Take : Nat → List Char → List Char
  | _, [] => []
  | n, c :: cs =>
    if utf16Units c ≤ n then c :: utf16Take (n - utf16Units c) cs
    else if n = 0 then [] else ['\uFFFD']

/-- `text.substring(0, n)` and `text.slice(0, n)`, as they are stored. -/
def utf16Prefix (n : Nat) (text : String) : String := String.ofList (utf16Take n text.toList)

theorem utf16Take_cases (n : Nat) (cs : List Char) :
    (∃ k, utf16Take n cs = cs.take k) ∨
      ∃ front c back, cs = front ++ c :: back ∧ 0x10000 ≤ c.toNat ∧ utf16Take n cs = front ++ ['\uFFFD'] := by
  induction cs generalizing n with
  | nil => exact .inl ⟨0, rfl⟩
  | cons c cs ih =>
    simp only [utf16Take]
    split
    · rcases ih (n - utf16Units c) with ⟨k, hk⟩ | ⟨front, c', back, hcs, hpair, hcut⟩
      · exact .inl ⟨k + 1, by rw [hk, List.take_succ_cons]⟩
      · exact .inr ⟨c :: front, c', back, by rw [hcs, List.cons_append], hpair, by rw [hcut, List.cons_append]⟩
    · rename_i hlong
      split
      · exact .inl ⟨0, rfl⟩
      · refine .inr ⟨[], c, cs, rfl, ?_, rfl⟩
        simp only [utf16Units] at hlong
        split at hlong <;> omega

theorem utf16Length_prefix_le (n : Nat) (text : String) : utf16Length (utf16Prefix n text) ≤ n := by
  rw [utf16Length, utf16Prefix, String.toList_ofList]
  generalize text.toList = cs
  induction cs generalizing n with
  | nil => exact Nat.zero_le n
  | cons c cs ih =>
    simp only [utf16Take]
    split
    · rename_i hfits
      have hrest := ih (n - utf16Units c)
      simp only [List.map_cons, List.sum_cons]
      omega
    · split
      · simp
      · rename_i hpos
        have hone : utf16Units '\uFFFD' = 1 := rfl
        simp only [List.map_cons, List.map_nil, List.sum_cons, List.sum_nil, hone]
        omega

end WebhookEngine
