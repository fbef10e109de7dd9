import Mathlib.Logic.Function.Basic
import Mathlib.Data.List.Nodup
import Mathlib.Data.List.Range
import Mathlib.Data.List.Perm.Subperm

/-! Tables of rows under generated identifiers, with the statements a relational
store offers on them: insert, update by identifier, conditional update and
delete, and selections that are cut off after a number of rows. -/

namespace Relational

/-- Identifiers are handed out in order: no row lives at or above `next`. -/
structure Table (ρ : Type*) where
  next : Nat
  row : Nat → Option ρ
  fresh : ∀ i, next ≤ i → row i = none

namespace Table

variable {ρ : Type*}

def empty : Table ρ := ⟨0, fun _ => none, fun _ _ => rfl⟩

def insert (t : Table ρ) (r : ρ) : Table ρ where
  next := t.next + 1
  row := Function.update t.row t.next (some r)
  fresh i hi := by
    rw [Function.update_of_ne (by omega)]
    exact t.fresh i (by omega)

def insertAll (t : Table ρ) : List ρ → Table ρ
  | [] => t
  | r :: rs => (t.insert r).insertAll rs

def modify (t : Table ρ) (i : Nat) (f : ρ → ρ) : Table ρ where
  next := t.next
  row := Function.update t.row i ((t.row i).map f)
  fresh j hj := by
    by_cases h : j = i
    · subst j
      simp [t.fresh i hj]
    · rw [Function.update_of_ne h]
      exact t.fresh j hj

/-- Every row passes through `f`; a conditional update leaves the others alone in `f`. -/
def updateAll (t : Table ρ) (f : ρ → ρ) : Table ρ where
  next := t.next
  row i := (t.row i).map f
  fresh i hi := by simp [t.fresh i hi]

def deleteWhere (t : Table ρ) (p : ρ → Bool) : Table ρ where
  next := t.next
  row i := (t.row i).filter (fun r => !p r)
  fresh i hi := by simp [t.fresh i hi]

def select (t : Table ρ) (p : Nat → ρ → Bool) : List (Nat × ρ) :=
  (List.range t.next).filterMap fun i =>
    match t.row i with
    | some r => if p i r then some (i, r) else none
    | none => none

theorem lt_next {t : Table ρ} {i : Nat} {r : ρ} (h : t.row i = some r) : i < t.next := by
  by_contra hle
  have := t.fresh i (by omega)
  rw [h] at this
  cases this

/-- The rows of `t'` under identifiers that `t` had not handed out. -/
def added (t t' : Table ρ) : List ρ :=
  (List.range' t.next (t'.next - t.next)).filterMap t'.row

theorem added_self (t : Table ρ) : t.added t = [] := by
  simp [added]

@[simp] theorem insert_next (t : Table ρ) (r : ρ) : (t.insert r).next = t.next + 1 := rfl

theorem insert_row (t : Table ρ) (r : ρ) (i : Nat) :
    (t.insert r).row i = if i = t.next then some r else t.row i := by
  simp [insert, Function.update_apply]

theorem added_insert (t : Table ρ) (r : ρ) : t.added (t.insert r) = [r] := by
  simp [added, insert_row]

@[simp] theorem modify_next (t : Table ρ) (i : Nat) (f : ρ → ρ) : (t.modify i f).next = t.next := rfl

theorem modify_row (t : Table ρ) (i j : Nat) (f : ρ → ρ) :
    (t.modify i f).row j = if j = i then (t.row i).map f else t.row j := by
  simp [modify, Function.update_apply]

@[simp] theorem modify_row_self (t : Table ρ) (i : Nat) (f : ρ → ρ) :
    (t.modify i f).row i = (t.row i).map f := by
  simp [modify_row]

theorem modify_row_of_ne (t : Table ρ) {i j : Nat} (f : ρ → ρ) (h : j ≠ i) :
    (t.modify i f).row j = t.row j := by
  simp [modify_row, h]

theorem modify_row_eq_map (t : Table ρ) (i j : Nat) (f : ρ → ρ) :
    (t.modify i f).row j = (t.row j).map fun r => if j = i then f r else r := by
  by_cases h : j = i
  · subst j
    simp
  · simp [modify_row, h]

@[simp] theorem updateAll_row (t : Table ρ) (f : ρ → ρ) (i : Nat) :
    (t.updateAll f).row i = (t.row i).map f := rfl

theorem deleteWhere_row (t : Table ρ) (p : ρ → Bool) (i : Nat) :
    (t.deleteWhere p).row i = (t.row i).filter (fun r => !p r) := rfl

theorem deleteWhere_row_eq_some {t : Table ρ} {p : ρ → Bool} {i : Nat} {r : ρ} :
    (t.deleteWhere p).row i = some r ↔ t.row i = some r ∧ p r = false := by
  simp [deleteWhere_row, Option.filter_eq_some_iff]

theorem mem_select {t : Table ρ} {p : Nat → ρ → Bool} {i : Nat} {r : ρ} :
    (i, r) ∈ t.select p ↔ t.row i = some r ∧ p i r = true := by
  simp only [select, List.mem_filterMap, List.mem_range]
  constructor
  · rintro ⟨j, _, hj⟩
    cases hr : t.row j with
    | none => simp [hr] at hj
    | some q =>
      by_cases hp : p j q = true
      · simp only [hr, hp, if_true, Option.some.injEq, Prod.mk.injEq] at hj
        obtain ⟨rfl, rfl⟩ := hj
        exact ⟨hr, hp⟩
      · simp [hr, hp] at hj
  · rintro ⟨hr, hp⟩
    exact ⟨i, lt_next hr, by simp [hr, hp]⟩

theorem select_ids_nodup (t : Table ρ) (p : Nat → ρ → Bool) : ((t.select p).map Prod.fst).Nodup := by
  have hself : ∀ i x, x ∈ (match t.row i with
      | some r => if p i r then some (i, r) else none
      | none => none) → x.1 = i := by
    intro i x hx
    split at hx
    · split at hx <;> cases hx
      rfl
    · cases hx
  rw [select, List.map_filterMap]
  refine List.Nodup.filterMap (fun i j x hi hj => ?_) List.nodup_range
  obtain ⟨y, hy, rfl⟩ := Option.map_eq_some_iff.mp hi
  obtain ⟨z, hz, hyz⟩ := Option.map_eq_some_iff.mp hj
  rw [← hself i y hy, ← hself j z hz, hyz]

theorem select_fst (t : Table ρ) (p : Nat → ρ → Bool) :
    (t.select p).map Prod.fst = (List.range t.next).filter fun i => (t.row i).any (p i) := by
  rw [select, List.map_filterMap, ← List.filterMap_eq_filter]
  refine List.filterMap_congr fun i _ => ?_
  cases hr : t.row i with
  | none => simp [hr, Option.guard]
  | some r =>
    by_cases hp : p i r = true
    · simp [hr, hp, Option.guard]
    · simp [hr, hp, Option.guard]

theorem select_length_le_next (t : Table ρ) (p : Nat → ρ → Bool) : (t.select p).length ≤ t.next := by
  have hle : (t.select p).length ≤ (List.range t.next).length := List.length_filterMap_le _ _
  simpa using hle

section Count

variable {t t' : Table ρ} {p p' : Nat → ρ → Bool}

theorem select_length_le
    (h : ∀ i r', t'.row i = some r' → p' i r' = true → ∃ r, t.row i = some r ∧ p i r = true) :
    (t'.select p').length ≤ (t.select p).length := by
  have hsub : (t'.select p').map Prod.fst ⊆ (t.select p).map Prod.fst := by
    intro i hi
    obtain ⟨⟨j, r'⟩, hm, rfl⟩ := List.mem_map.mp hi
    obtain ⟨hr', hp'⟩ := mem_select.mp hm
    obtain ⟨r, hr, hp⟩ := h j r' hr' hp'
    exact List.mem_map.mpr ⟨(j, r), mem_select.mpr ⟨hr, hp⟩, rfl⟩
  have hle := (List.subperm_of_subset (t'.select_ids_nodup p') hsub).length_le
  simpa using hle

theorem select_length_lt
    (h : ∀ i r', t'.row i = some r' → p' i r' = true → ∃ r, t.row i = some r ∧ p i r = true)
    {i : Nat} {r : ρ} (hr : t.row i = some r) (hp : p i r = true)
    (hnot : ∀ r', t'.row i = some r' → p' i r' = false) :
    (t'.select p').length < (t.select p).length := by
  have hmem : i ∈ (t.select p).map Prod.fst := List.mem_map.mpr ⟨(i, r), mem_select.mpr ⟨hr, hp⟩, rfl⟩
  have hsub : (t'.select p').map Prod.fst ⊆ ((t.select p).map Prod.fst).erase i := by
    intro j hj
    obtain ⟨⟨k, r'⟩, hm, rfl⟩ := List.mem_map.mp hj
    obtain ⟨hr', hp'⟩ := mem_select.mp hm
    obtain ⟨q, hq, hpq⟩ := h k r' hr' hp'
    have hne : k ≠ i := by
      rintro rfl
      rw [hnot r' hr'] at hp'
      cases hp'
    exact (List.mem_erase_of_ne hne).mpr (List.mem_map.mpr ⟨(k, q), mem_select.mpr ⟨hq, hpq⟩, rfl⟩)
  have hle := (List.subperm_of_subset (t'.select_ids_nodup p') hsub).length_le
  rw [List.length_erase_of_mem hmem] at hle
  have hpos : 0 < ((t.select p).map Prod.fst).length := List.length_pos_of_mem hmem
  simp only [List.length_map] at hle hpos
  omega

end Count

theorem insertAll_next (t : Table ρ) (rs : List ρ) : (t.insertAll rs).next = t.next + rs.length := by
  induction rs generalizing t with
  | nil => rfl
  | cons r rs ih =>
    simp only [insertAll, ih, insert_next, List.length_cons]
    omega

theorem insertAll_row (t : Table ρ) (rs : List ρ) (i : Nat) :
    (t.insertAll rs).row i = if i < t.next then t.row i else rs[i - t.next]? := by
  induction rs generalizing t with
  | nil =>
    by_cases hi : i < t.next
    · simp [insertAll, hi]
    · simp [insertAll, hi, t.fresh i (by omega)]
  | cons r rs ih =>
    rw [insertAll, ih, insert_next, insert_row]
    by_cases hi : i < t.next
    · simp [hi, show i < t.next + 1 by omega, show i ≠ t.next by omega]
    · by_cases he : i = t.next
      · simp [he]
      · have hs : i - t.next = (i - (t.next + 1)) + 1 := by omega
        simp [show ¬ i < t.next + 1 by omega, hi, hs]

theorem insertAll_row_cases (t : Table ρ) (rs : List ρ) (i : Nat) :
    (t.insertAll rs).row i = t.row i ∨
      ∃ r ∈ rs, t.row i = none ∧ (t.insertAll rs).row i = some r := by
  rw [insertAll_row]
  by_cases hi : i < t.next
  · exact .inl (if_pos hi)
  · rw [if_neg hi, t.fresh i (by omega)]
    cases hr : rs[i - t.next]? with
    | none => exact .inl rfl
    | some r => exact .inr ⟨r, List.mem_of_getElem? hr, rfl, rfl⟩

theorem insertAll_unique (t : Table ρ) {rs : List ρ} (hrs : rs.Nodup) {r : ρ} (hr : r ∈ rs) :
    ∃! i, t.row i = none ∧ (t.insertAll rs).row i = some r := by
  obtain ⟨k, hk, rfl⟩ := List.mem_iff_getElem.mp hr
  refine ⟨t.next + k, ⟨t.fresh _ (by omega), ?_⟩, fun i hi => ?_⟩
  · rw [insertAll_row, if_neg (by omega), Nat.add_sub_cancel_left]
    exact List.getElem?_eq_getElem hk
  · obtain ⟨hnone, hrow⟩ := hi
    rw [insertAll_row] at hrow
    by_cases hlt : i < t.next
    · rw [if_pos hlt, hnone] at hrow
      cases hrow
    · rw [if_neg hlt] at hrow
      obtain ⟨hk', heq⟩ := List.getElem?_eq_some_iff.mp hrow
      have hsame := (hrs.getElem_inj_iff).mp heq
      omega

/-! Statements that change the columns of a table. -/

def mapRows {σ : Type*} (t : Table ρ) (f : Nat → ρ → σ) : Table σ where
  next := t.next
  row i := (t.row i).map (f i)
  fresh i hi := by simp [t.fresh i hi]

def filterRows (t : Table ρ) (p : ρ → Bool) : Table ρ := t.deleteWhere fun r => !p r

/-- A column that takes its values from `f` and may not be empty. -/
def traverse {σ : Type*} (t : Table ρ) (f : Nat → ρ → Option σ) : Option (Table σ) :=
  if (t.select fun i r => (f i r).isNone) = [] then
    some
      { next := t.next
        row := fun i => (t.row i).bind (f i)
        fresh := fun i hi => by simp [t.fresh i hi] }
  else none

/-- A unique index on the key can be built. -/
def AllDistinct {κ : Type*} (t : Table ρ) (key : Nat → ρ → κ) : Prop :=
  ((t.select fun _ _ => true).map fun x => key x.1 x.2).Nodup

instance {κ : Type*} [DecidableEq κ] (t : Table ρ) (key : Nat → ρ → κ) : Decidable (t.AllDistinct key) :=
  inferInstanceAs (Decidable (List.Nodup _))

section Columns

variable {σ κ : Type*} {t : Table ρ}

@[simp] theorem mapRows_next (f : Nat → ρ → σ) : (t.mapRows f).next = t.next := rfl

@[simp] theorem mapRows_row (f : Nat → ρ → σ) (i : Nat) : (t.mapRows f).row i = (t.row i).map (f i) := rfl

theorem filterRows_row_eq_some {p : ρ → Bool} {i : Nat} {r : ρ} :
    (t.filterRows p).row i = some r ↔ t.row i = some r ∧ p r = true := by
  simp [filterRows, deleteWhere_row_eq_some]

theorem traverse_eq_some {f : Nat → ρ → Option σ} {t' : Table σ} :
    t.traverse f = some t' ↔ (∀ i r, t.row i = some r → (f i r).isSome = true) ∧
      t'.next = t.next ∧ ∀ i, t'.row i = (t.row i).bind (f i) := by
  have hfull : (t.select fun i r => (f i r).isNone) = [] ↔
      ∀ i r, t.row i = some r → (f i r).isSome = true := by
    rw [List.eq_nil_iff_forall_not_mem]
    constructor
    · intro hnone i r hr
      by_contra hno
      exact hnone (i, r) (mem_select.mpr ⟨hr, by simpa using hno⟩)
    · rintro hall ⟨i, r⟩ hmem
      obtain ⟨hr, hno⟩ := mem_select.mp hmem
      have := hall i r hr
      simp_all
  rw [← hfull, traverse]
  split
  · rename_i hall
    simp only [Option.some.injEq]
    constructor
    · rintro rfl
      exact ⟨hall, rfl, fun _ => rfl⟩
    · rintro ⟨_, hnext, hrow⟩
      cases t' with
      | mk next row fresh =>
        obtain rfl : next = t.next := hnext
        obtain rfl : row = fun i => (t.row i).bind (f i) := funext hrow
        rfl
  · rename_i hno
    simp only [reduceCtorEq, false_iff]
    exact fun h => hno h.1

theorem exists_traverse {f : Nat → ρ → Option σ} (h : ∀ i r, t.row i = some r → (f i r).isSome = true) :
    ∃ t', t.traverse f = some t' :=
  ⟨⟨t.next, fun i => (t.row i).bind (f i), fun i hi => by simp [t.fresh i hi]⟩,
    traverse_eq_some.mpr ⟨h, rfl, fun _ => rfl⟩⟩

theorem allDistinct_iff {key : Nat → ρ → κ} :
    t.AllDistinct key ↔ ∀ i j r q, t.row i = some r → t.row j = some q → key i r = key j q → i = j := by
  have hids := t.select_ids_nodup fun _ _ => true
  rw [AllDistinct, List.nodup_map_iff_inj_on hids.of_map]
  constructor
  · intro h i j r q hr hq hkey
    exact congrArg Prod.fst (h (i, r) (mem_select.mpr ⟨hr, rfl⟩) (j, q) (mem_select.mpr ⟨hq, rfl⟩) hkey)
  · rintro h ⟨i, r⟩ hi ⟨j, q⟩ hj hkey
    have hr := (mem_select.mp hi).1
    have hq := (mem_select.mp hj).1
    obtain rfl : i = j := h i j r q hr hq hkey
    rw [hr, Option.some.injEq] at hq
    rw [hq]

end Columns

/-- What a statement makes of a table: rows that `keep` rejects go, the others are
rewritten in place, and the rows of `new` are appended in order. -/
structure Becomes (t t' : Table ρ) (keep : ρ → Bool) (f : Nat → ρ → ρ) (new : List ρ) : Prop where
  next : t'.next = t.next + new.length
  row : ∀ i, t'.row i =
    if i < t.next then ((t.row i).filter keep).map (f i) else new[i - t.next]?

theorem Becomes.of_row {t t' : Table ρ} {keep : ρ → Bool} {f : Nat → ρ → ρ}
    (hn : t'.next = t.next) (hr : ∀ i, t'.row i = ((t.row i).filter keep).map (f i)) :
    t.Becomes t' keep f [] where
  next := hn
  row i := by
    by_cases hi : i < t.next
    · simp [hi, hr]
    · simp [hi, hr, t.fresh i (by omega)]

theorem becomes_self {t : Table ρ} {f : Nat → ρ → ρ}
    (hf : ∀ i r, t.row i = some r → f i r = r) : t.Becomes t (fun _ => true) f [] := by
  refine .of_row rfl fun i => ?_
  cases hr : t.row i with
  | none => rfl
  | some r => simp [Option.filter, hf i r hr]

theorem becomes_modify {t : Table ρ} {i : Nat} {g : ρ → ρ} {f : Nat → ρ → ρ}
    (hi : ∀ r, t.row i = some r → f i r = g r)
    (hne : ∀ j r, j ≠ i → f j r = r) : t.Becomes (t.modify i g) (fun _ => true) f [] := by
  refine .of_row rfl fun j => ?_
  rw [modify_row_eq_map]
  cases hr : t.row j with
  | none => rfl
  | some r =>
    by_cases hj : j = i
    · subst j
      simp [Option.filter, hi r hr]
    · simp [Option.filter, hj, hne j r hj]

theorem becomes_deleteWhere {t : Table ρ} {p keep : ρ → Bool} (hp : ∀ r, keep r = !p r) :
    t.Becomes (t.deleteWhere p) keep (fun _ r => r) [] := by
  refine .of_row rfl fun i => ?_
  simp [deleteWhere_row, show keep = fun r => !p r from funext hp]

theorem Becomes.insertAll {t t' : Table ρ} {keep : ρ → Bool} {f : Nat → ρ → ρ}
    (h : t.Becomes t' keep f []) (new : List ρ) : t.Becomes (t'.insertAll new) keep f new where
  next := by simp [insertAll_next, h.next]
  row i := by
    rw [insertAll_row, h.row, h.next]
    by_cases hi : i < t.next <;> simp [hi]

section Becomes

variable {t t' : Table ρ} {keep : ρ → Bool} {f : Nat → ρ → ρ} {new : List ρ}

theorem Becomes.kept (h : t.Becomes t' keep f new) {i : Nat} {r : ρ} (hr : t.row i = some r)
    (hk : keep r = true) : t'.row i = some (f i r) := by
  simp [h.row, lt_next hr, hr, hk]

theorem Becomes.gone (h : t.Becomes t' keep f new) {i : Nat} {r : ρ} (hr : t.row i = some r)
    (hk : keep r = false) : t'.row i = none := by
  simp [h.row, lt_next hr, hr, hk]

theorem Becomes.origin (h : t.Becomes t' keep f new) {i : Nat} {r' : ρ} (hr : t'.row i = some r') :
    (∃ r, t.row i = some r ∧ keep r = true ∧ r' = f i r) ∨
      t.next ≤ i ∧ new[i - t.next]? = some r' := by
  rw [h.row] at hr
  by_cases hi : i < t.next
  · simp only [hi, if_true, Option.map_eq_some_iff, Option.filter_eq_some_iff] at hr
    obtain ⟨r, ⟨ho, hk⟩, he⟩ := hr
    exact .inl ⟨r, ho, hk, he.symm⟩
  · exact .inr ⟨by omega, by simpa [hi] using hr⟩

theorem Becomes.new_row (h : t.Becomes t' keep f new) {k : Nat} {r : ρ} (hr : new[k]? = some r) :
    t'.row (t.next + k) = some r := by
  simp [h.row, hr]

theorem Becomes.next_le (h : t.Becomes t' keep f new) : t.next ≤ t'.next := by
  have := h.next
  omega

end Becomes

section Agreement

/-- The two tables have the same rows with the property, under the same identifiers. -/
def AgreeOn (q : ρ → Prop) (t t' : Table ρ) : Prop :=
  ∀ i r, q r → (t.row i = some r ↔ t'.row i = some r)

variable {q : ρ → Prop} {t t' : Table ρ}

theorem AgreeOn.refl (q : ρ → Prop) (t : Table ρ) : t.AgreeOn q t := fun _ _ _ => Iff.rfl

theorem agreeOn_modify {k : Nat} {f : ρ → ρ} (h : ∀ r, t.row k = some r → ¬q r ∧ ¬q (f r)) :
    t.AgreeOn q (t.modify k f) := by
  intro i r hr
  by_cases hi : i = k
  · subst hi
    rw [modify_row_self]
    constructor
    · intro hrow
      exact absurd hr (h r hrow).1
    · intro hrow
      obtain ⟨r₀, hold, rfl⟩ := Option.map_eq_some_iff.mp hrow
      exact absurd hr (h r₀ hold).2
  · rw [modify_row_of_ne t f hi]

theorem agreeOn_insertAll {rs : List ρ} (h : ∀ r ∈ rs, ¬q r) : t.AgreeOn q (t.insertAll rs) := by
  intro i r hr
  rcases t.insertAll_row_cases rs i with hsame | ⟨r', hmem, hnone, hrow⟩
  · rw [hsame]
  · rw [hnone, hrow]
    constructor
    · intro hold
      cases hold
    · intro hnew
      rw [Option.some.injEq] at hnew
      exact absurd (hnew ▸ hr) (h r' hmem)

theorem agreeOn_insert {r : ρ} (h : ¬q r) : t.AgreeOn q (t.insert r) :=
  show t.AgreeOn q (t.insertAll [r]) from
    agreeOn_insertAll fun _ hr => List.mem_singleton.mp hr ▸ h

/-- A selection does not depend on how far the identifiers have got. -/
theorem select_eq_filterMap (t : Table ρ) (p : Nat → ρ → Bool) {n : Nat} (hn : t.next ≤ n) :
    t.select p = (List.range n).filterMap fun i => ((t.row i).filter (p i)).map (Prod.mk i) := by
  obtain ⟨k, rfl⟩ := Nat.exists_eq_add_of_le hn
  have hnone : ((List.range k).map (t.next + ·)).filterMap
      (fun i => ((t.row i).filter (p i)).map (Prod.mk i)) = [] := by
    rw [List.filterMap_eq_nil_iff]
    intro i hi
    obtain ⟨j, _, rfl⟩ := List.mem_map.mp hi
    simp [t.fresh (t.next + j) (Nat.le_add_right _ _)]
  rw [List.range_add, List.filterMap_append, hnone, List.append_nil, select]
  refine List.filterMap_congr fun i _ => ?_
  cases hr : t.row i with
  | none => rfl
  | some r => by_cases hp : p i r = true <;> simp [hp, Option.filter_some]

theorem select_congr {p p' : Nat → ρ → Bool}
    (h : ∀ i r, t.row i = some r ∧ p i r = true ↔ t'.row i = some r ∧ p' i r = true) :
    t.select p = t'.select p' := by
  rw [t.select_eq_filterMap p (le_max_left t.next t'.next),
    t'.select_eq_filterMap p' (le_max_right t.next t'.next)]
  refine List.filterMap_congr fun i _ => congrArg _ (Option.ext fun r => ?_)
  simp only [Option.filter_eq_some_iff]
  exact h i r

/-- A query about rows with the property cannot tell the tables apart. -/
theorem AgreeOn.select (h : t.AgreeOn q t') {p p' : Nat → ρ → Bool}
    (hp : ∀ i r, t.row i = some r → p i r = true → q r ∧ p' i r = true)
    (hp' : ∀ i r, t'.row i = some r → p' i r = true → q r ∧ p i r = true) : t.select p = t'.select p' := by
  refine select_congr fun i r => ⟨fun ⟨hr, hpr⟩ => ?_, fun ⟨hr, hpr⟩ => ?_⟩
  · obtain ⟨hq, hpr'⟩ := hp i r hr hpr
    exact ⟨(h i r hq).mp hr, hpr'⟩
  · obtain ⟨hq, hpr'⟩ := hp' i r hr hpr
    exact ⟨(h i r hq).mpr hr, hpr'⟩

end Agreement

/-- The orders a query may answer in when it asks for the latest `key` first. -/
def Ordered (t : Table ρ) (p : Nat → ρ → Bool) (key : ρ → Nat) (rows : List (Nat × ρ)) : Prop :=
  rows.Perm (t.select p) ∧ rows.Pairwise fun a b => key b.2 ≤ key a.2

/-- A selection cut off after `take` rows answers with any `take` of the matching
rows, or with all of them when there are fewer. -/
def Answers (t : Table ρ) (p : Nat → ρ → Bool) (take : Nat) (ids : List Nat) : Prop :=
  ids.Nodup ∧ ids ⊆ (t.select p).map Prod.fst ∧ ids.length = min take (t.select p).length

instance (t : Table ρ) (p : Nat → ρ → Bool) (take : Nat) (ids : List Nat) :
    Decidable (t.Answers p take ids) :=
  inferInstanceAs (Decidable (_ ∧ (∀ x ∈ ids, x ∈ (t.select p).map Prod.fst) ∧ _))

theorem exists_answers (t : Table ρ) (p : Nat → ρ → Bool) (take : Nat) : ∃ ids, t.Answers p take ids := by
  refine ⟨((t.select p).map Prod.fst).take take, ?_, List.take_subset _ _, by simp⟩
  exact (t.select_ids_nodup p).sublist (List.take_sublist _ _)

/-- A row that meets the condition can be the first of an answer. -/
theorem exists_answers_cons {t : Table ρ} {p : Nat → ρ → Bool} (take : Nat) {i : Nat} {r : ρ} (hr : t.row i = some r)
    (hp : p i r = true) : ∃ ids, t.Answers p (take + 1) (i :: ids) := by
  let all := (t.select p).map Prod.fst
  have hmem : i ∈ all := List.mem_map.mpr ⟨(i, r), mem_select.mpr ⟨hr, hp⟩, rfl⟩
  have hnodup : all.Nodup := t.select_ids_nodup p
  have hpos : 0 < all.length := List.length_pos_of_mem hmem
  refine ⟨(all.erase i).take take, ?_, ?_, ?_⟩
  · refine List.nodup_cons.mpr ⟨fun hi => ?_, (hnodup.erase i).sublist (List.take_sublist _ _)⟩
    exact hnodup.not_mem_erase (List.mem_of_mem_take hi)
  · refine List.cons_subset.mpr ⟨hmem, fun j hj => ?_⟩
    exact List.mem_of_mem_erase (List.mem_of_mem_take hj)
  · have hall : all.length = (t.select p).length := List.length_map ..
    rw [List.length_cons, List.length_take, List.length_erase_of_mem hmem]
    omega

theorem exists_first_answers (t : Table ρ) (p : Nat → ρ → Bool) (take : Nat) (key : ρ → Nat) :
    ∃ ids, t.Answers p take ids ∧
      (ids.filterMap t.row).Pairwise (fun a b => key a ≤ key b) ∧
      ∀ x ∈ t.select p, x.1 ∉ ids → ∀ r ∈ ids.filterMap t.row, key r ≤ key x.2 := by
  let le : Nat × ρ → Nat × ρ → Bool := fun a b => key a.2 ≤ key b.2
  let l := (t.select p).mergeSort le
  have hperm : l.Perm (t.select p) := List.mergeSort_perm _ _
  have hsorted : l.Pairwise fun a b => key a.2 ≤ key b.2 := by
    have hpair : l.Pairwise fun a b => le a b = true :=
      List.pairwise_mergeSort (fun a b c hab hbc => by simp only [le, decide_eq_true_eq] at *; omega)
        (fun a b => by simp only [le, Bool.or_eq_true, decide_eq_true_eq]; omega) _
    exact hpair.imp fun h => by simpa [le] using h
  have hrow : ∀ x ∈ l, t.row x.1 = some x.2 := fun x hx => (mem_select.mp (hperm.subset hx)).1
  have hrows : ∀ l' : List (Nat × ρ), l' ⊆ l → (l'.map Prod.fst).filterMap t.row = l'.map Prod.snd := by
    intro l' hl'
    rw [List.filterMap_map, ← List.filterMap_eq_map]
    exact List.filterMap_congr fun x hx => hrow x (hl' hx)
  have htake : (((l.take take).map Prod.fst).filterMap t.row) = (l.take take).map Prod.snd :=
    hrows _ (List.take_subset _ _)
  refine ⟨(l.take take).map Prod.fst, ⟨?_, ?_, ?_⟩, ?_, ?_⟩
  · have hnodup : (l.map Prod.fst).Nodup := (hperm.map _).nodup_iff.mpr (t.select_ids_nodup p)
    exact hnodup.sublist ((List.take_sublist _ _).map _)
  · exact List.map_subset _ fun x hx => hperm.subset (List.take_subset _ _ hx)
  · simp [hperm.length_eq]
  · rw [htake, List.pairwise_map]
    exact hsorted.sublist (List.take_sublist _ _)
  · intro x hx hno r hr
    rw [htake] at hr
    obtain ⟨y, hy, rfl⟩ := List.mem_map.mp hr
    have hx' : x ∈ l.take take ++ l.drop take := by
      rw [List.take_append_drop]
      exact hperm.symm.subset hx
    rcases List.mem_append.mp hx' with htaken | hdropped
    · exact absurd (List.mem_map.mpr ⟨x, htaken, rfl⟩) hno
    · rw [← List.take_append_drop take l, List.pairwise_append] at hsorted
      exact hsorted.2.2 y hy x hdropped

theorem Answers.complete {t : Table ρ} {p : Nat → ρ → Bool} {take : Nat} {ids : List Nat}
    (h : t.Answers p take ids) (hlt : ids.length < take) {i : Nat} {r : ρ} (hr : t.row i = some r)
    (hp : p i r = true) : i ∈ ids := by
  have hlen : ids.length = ((t.select p).map Prod.fst).length := by
    have := h.2.2
    simp only [List.length_map]
    omega
  have hperm : ids.Perm ((t.select p).map Prod.fst) :=
    (List.subperm_of_subset h.1 h.2.1).perm_of_length_le hlen.ge
  exact hperm.mem_iff.mpr (List.mem_map.mpr ⟨(i, r), mem_select.mpr ⟨hr, hp⟩, rfl⟩)

theorem Answers.row {t : Table ρ} {p : Nat → ρ → Bool} {take : Nat} {ids : List Nat}
    (h : t.Answers p take ids) {i : Nat} (hi : i ∈ ids) : ∃ r, t.row i = some r ∧ p i r = true := by
  obtain ⟨⟨j, r⟩, hm, rfl⟩ := List.mem_map.mp (h.2.1 hi)
  exact ⟨r, mem_select.mp hm⟩

section Renaming

/-! A table whose rows are passed through a function is changed as the table is. -/

variable {ρ σ : Type*} {f : ρ → ρ} {f' : σ → σ} (g : ρ → σ) (t : Table ρ)

theorem eq_of_rows {t t' : Table σ} (hnext : t.next = t'.next) (hrow : ∀ i, t.row i = t'.row i) : t = t' := by
  obtain ⟨next, row, fresh⟩ := t
  obtain ⟨next', row', fresh'⟩ := t'
  obtain rfl : next = next' := hnext
  obtain rfl : row = row' := funext hrow
  rfl

theorem mapRows_modify (h : ∀ r, g (f r) = f' (g r)) (i : Nat) :
    (t.modify i f).mapRows (fun _ => g) = (t.mapRows fun _ => g).modify i f' := by
  refine eq_of_rows rfl fun j => ?_
  rw [mapRows_row, modify_row_eq_map, modify_row_eq_map, mapRows_row, Option.map_map, Option.map_map]
  refine congrFun (congrArg Option.map (funext fun r => ?_)) (t.row j)
  by_cases hj : j = i
  · simp only [hj, if_true, Function.comp_apply, h]
  · simp only [hj, if_false, Function.comp_apply]

theorem mapRows_updateAll (h : ∀ r, g (f r) = f' (g r)) :
    (t.updateAll f).mapRows (fun _ => g) = (t.mapRows fun _ => g).updateAll f' := by
  refine eq_of_rows rfl fun j => ?_
  simp only [mapRows_row, updateAll_row, Option.map_map]
  exact congrFun (congrArg Option.map (funext h)) (t.row j)

theorem mapRows_insert (r : ρ) : (t.insert r).mapRows (fun _ => g) = (t.mapRows fun _ => g).insert (g r) := by
  refine eq_of_rows rfl fun j => ?_
  rw [mapRows_row, insert_row, insert_row, mapRows_row, mapRows_next]
  split <;> rfl

theorem mapRows_insertAll (rs : List ρ) :
    (t.insertAll rs).mapRows (fun _ => g) = (t.mapRows fun _ => g).insertAll (rs.map g) := by
  induction rs generalizing t with
  | nil => rfl
  | cons r rs ih => rw [insertAll, ih, mapRows_insert, List.map_cons, insertAll]

theorem select_mapRows (p : Nat → σ → Bool) :
    (t.mapRows fun _ => g).select p = (t.select fun i r => p i (g r)).map fun q => (q.1, g q.2) := by
  simp only [select, mapRows_next, mapRows_row, List.map_filterMap]
  refine List.filterMap_congr fun i _ => ?_
  cases t.row i with
  | none => rfl
  | some r =>
    simp only [Option.map_some]
    split <;> rfl

theorem select_fst_mapRows (p : Nat → σ → Bool) :
    ((t.mapRows fun _ => g).select p).map Prod.fst = (t.select fun i r => p i (g r)).map Prod.fst := by
  rw [select_mapRows, List.map_map]
  rfl

theorem Ordered.mapRows {p : Nat → σ → Bool} {key : ρ → Nat} {key' : σ → Nat} {rows : List (Nat × ρ)}
    {t : Table ρ} (hkey : ∀ r, key' (g r) = key r) (h : t.Ordered (fun i r => p i (g r)) key rows) :
    (t.mapRows fun _ => g).Ordered p key' (rows.map fun q => (q.1, g q.2)) := by
  refine ⟨?_, ?_⟩
  · rw [select_mapRows]
    exact h.1.map _
  · rw [List.pairwise_map]
    exact h.2.imp fun hle => by rwa [hkey, hkey]

end Renaming

end Table

end Relational
