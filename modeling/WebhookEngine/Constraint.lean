import WebhookEngine.Table

/-! Unique indexes and foreign keys: what they say of the rows of a table, and when a
statement keeps them. -/

namespace Relational

namespace Table

variable {ρ σ κ : Type*}

/-- A unique index holds: no two rows have one key. -/
def Unique (t : Table ρ) (key : ρ → κ) : Prop :=
  ∀ i j r q, t.row i = some r → t.row j = some q → key r = key q → i = j

/-- A foreign key holds: what a row refers to is there. -/
def References (t : Table ρ) (key : ρ → Nat) (parent : Table σ) : Prop :=
  ∀ i r, t.row i = some r → (parent.row (key r)).isSome = true

section Unique

variable {t t' : Table ρ} {key : ρ → κ}

theorem unique_empty (key : ρ → κ) : (empty : Table ρ).Unique key := by
  intro i j r q hr
  cases hr

theorem unique_iff_allDistinct : t.Unique key ↔ t.AllDistinct fun _ r => key r :=
  allDistinct_iff.symm

instance decidableUnique [DecidableEq κ] (t : Table ρ) (key : ρ → κ) : Decidable (t.Unique key) :=
  decidable_of_iff _ unique_iff_allDistinct.symm

/-- Rows that are rewritten keep their keys, and new rows bring new ones. -/
theorem Unique.becomes {keep : ρ → Bool} {f : Nat → ρ → ρ} {new : List ρ} (h : t.Unique key)
    (hb : t.Becomes t' keep f new) (hf : ∀ i r, t.row i = some r → key (f i r) = key r)
    (hnew : (new.map key).Nodup) (hfree : ∀ r ∈ new, ∀ i q, t.row i = some q → key q ≠ key r) :
    t'.Unique key := by
  intro i j r q hr hq hkey
  rcases hb.origin hr with ⟨r₀, hr₀, _, rfl⟩ | ⟨hi, hri⟩
  · rw [hf i r₀ hr₀] at hkey
    rcases hb.origin hq with ⟨q₀, hq₀, _, rfl⟩ | ⟨_, hqj⟩
    · rw [hf j q₀ hq₀] at hkey
      exact h i j r₀ q₀ hr₀ hq₀ hkey
    · exact absurd hkey (hfree q (List.mem_of_getElem? hqj) i r₀ hr₀)
  · rcases hb.origin hq with ⟨q₀, hq₀, _, rfl⟩ | ⟨hj, hqj⟩
    · rw [hf j q₀ hq₀] at hkey
      exact absurd hkey.symm (hfree r (List.mem_of_getElem? hri) j q₀ hq₀)
    · obtain ⟨hli, hgi⟩ := List.getElem?_eq_some_iff.mp hri
      obtain ⟨hlj, hgj⟩ := List.getElem?_eq_some_iff.mp hqj
      have hmi : i - t.next < (new.map key).length := by simpa using hli
      have hmj : j - t.next < (new.map key).length := by simpa using hlj
      have hsame : (new.map key)[i - t.next] = (new.map key)[j - t.next] := by
        simp only [List.getElem_map, hgi, hgj, hkey]
      have hindex := hnew.getElem_inj_iff.mp hsame
      omega

theorem Unique.insertAll {new : List ρ} (h : t.Unique key) (hnew : (new.map key).Nodup)
    (hfree : ∀ r ∈ new, ∀ i q, t.row i = some q → key q ≠ key r) : (t.insertAll new).Unique key := by
  have hself : t.Becomes t (fun _ => true) (fun _ r => r) [] := becomes_self fun _ _ _ => rfl
  exact h.becomes (hself.insertAll new) (fun _ _ _ => rfl) hnew hfree

theorem Unique.insert {r : ρ} (h : t.Unique key) (hfree : ∀ i q, t.row i = some q → key q ≠ key r) :
    (t.insert r).Unique key := by
  have hall : (t.insertAll [r]).Unique key := h.insertAll (List.nodup_singleton _) fun r' hr' => by
    rw [List.mem_singleton.mp hr']
    exact hfree
  exact hall

theorem Unique.modify {k : Nat} {f : ρ → ρ} (h : t.Unique key)
    (hfree : ∀ r, t.row k = some r → ∀ j q, j ≠ k → t.row j = some q → key q ≠ key (f r)) :
    (t.modify k f).Unique key := by
  have horigin : ∀ j q, (t.modify k f).row j = some q →
      (j = k ∧ ∃ r, t.row k = some r ∧ q = f r) ∨ j ≠ k ∧ t.row j = some q := by
    intro j q hq
    by_cases hj : j = k
    · subst j
      rw [modify_row_self, Option.map_eq_some_iff] at hq
      obtain ⟨r, hr, rfl⟩ := hq
      exact .inl ⟨rfl, r, hr, rfl⟩
    · rw [modify_row_of_ne t f hj] at hq
      exact .inr ⟨hj, hq⟩
  intro i j r q hr hq hkey
  rcases horigin i r hr with ⟨rfl, r₀, hr₀, rfl⟩ | ⟨hi, hr'⟩
  · rcases horigin j q hq with ⟨rfl, _⟩ | ⟨hj, hq'⟩
    · rfl
    · exact absurd hkey.symm (hfree r₀ hr₀ j q hj hq')
  · rcases horigin j q hq with ⟨rfl, q₀, hq₀, rfl⟩ | ⟨_, hq'⟩
    · exact absurd hkey (hfree q₀ hq₀ i r hi hr')
    · exact h i j r q hr' hq' hkey

end Unique

section References

variable {t t' : Table ρ} {key : ρ → Nat} {parent parent' : Table σ}

theorem references_empty (key : ρ → Nat) (parent : Table σ) : (empty : Table ρ).References key parent := by
  intro i r hr
  cases hr

theorem references_iff_select : t.References key parent ↔
    ∀ x ∈ t.select fun _ _ => true, (parent.row (key x.2)).isSome = true := by
  constructor
  · intro h x hx
    exact h x.1 x.2 (mem_select.mp hx).1
  · intro h i r hr
    exact h (i, r) (mem_select.mpr ⟨hr, rfl⟩)

instance decidableReferences (t : Table ρ) (key : ρ → Nat) (parent : Table σ) :
    Decidable (t.References key parent) :=
  decidable_of_iff _ references_iff_select.symm

/-- Rows that stay keep what they refer to, and new rows refer to what is there. -/
theorem References.becomes {keep : ρ → Bool} {f : Nat → ρ → ρ} {new : List ρ} (h : t.References key parent)
    (hb : t.Becomes t' keep f new) (hf : ∀ i r, t.row i = some r → key (f i r) = key r)
    (hparent : ∀ i r, t.row i = some r → keep r = true → (parent.row (key r)).isSome = true →
      (parent'.row (key r)).isSome = true)
    (hnew : ∀ r ∈ new, (parent'.row (key r)).isSome = true) : t'.References key parent' := by
  intro i r hr
  rcases hb.origin hr with ⟨r₀, hr₀, hkeep, rfl⟩ | ⟨_, hri⟩
  · rw [hf i r₀ hr₀]
    exact hparent i r₀ hr₀ hkeep (h i r₀ hr₀)
  · exact hnew r (List.mem_of_getElem? hri)

theorem References.insertAll {new : List ρ} (h : t.References key parent)
    (hparent : ∀ k, (parent.row k).isSome = true → (parent'.row k).isSome = true)
    (hnew : ∀ r ∈ new, (parent'.row (key r)).isSome = true) : (t.insertAll new).References key parent' := by
  have hself : t.Becomes t (fun _ => true) (fun _ r => r) [] := becomes_self fun _ _ _ => rfl
  exact h.becomes (hself.insertAll new) (fun _ _ _ => rfl) (fun _ _ _ _ => hparent _) hnew

theorem References.modify {k : Nat} {f : ρ → ρ} (h : t.References key parent)
    (hf : ∀ r, t.row k = some r → key (f r) = key r) : (t.modify k f).References key parent := by
  intro j q hq
  rw [modify_row_eq_map, Option.map_eq_some_iff] at hq
  obtain ⟨r, hr, rfl⟩ := hq
  split
  · rename_i hj
    subst hj
    rw [hf r hr]
    exact h j r hr
  · exact h j r hr

theorem References.lt_next (h : t.References key parent) {i : Nat} {r : ρ} (hr : t.row i = some r) :
    key r < parent.next := by
  obtain ⟨q, hq⟩ := Option.isSome_iff_exists.mp (h i r hr)
  exact Table.lt_next hq

end References

end Table

end Relational
