import Mathlib.Data.List.TakeWhile

/-! Masking what a pattern finds in a text, from the left: a mark is put in the place of the
hidden symbols that follow a kept text. Two texts are masked alike exactly when they are the
same outside the symbols that are hidden in them. -/

namespace Masking

variable {α : Type}

/-- A pattern that keeps a text and hides the symbols after it, one at least and then as
many as there are. -/
structure Pattern (α : Type) where
  matchAt : List α → Option (List α × List α)
  Kept : List α → Prop
  hidden : α → Bool
  matchAt_eq_some {s kept rest : List α} : matchAt s = some (kept, rest) ↔
    ∃ h t, Kept kept ∧ hidden h ∧ s = kept ++ h :: t ∧ rest = t.dropWhile hidden

variable {p : Pattern α} {s t kept : List α} {h z : α}

def Pattern.Edge (p : Pattern α) (z : α) : Prop := ∀ kept, p.Kept kept → z ∉ kept

/-- What is put in the place of the hidden symbols. It would be hidden itself, and the end
of the kept text before it can be seen. -/
structure Mark (p : Pattern α) where
  head : α
  tail : List α
  hidden_head : p.hidden head
  edge_head : p.Edge head

def Mark.text (mark : Mark p) : List α := mark.head :: mark.tail

namespace Pattern

theorem matchAt_masked (hk : p.Kept kept) (hh : p.hidden h) :
    p.matchAt (kept ++ h :: t) = some (kept, t.dropWhile p.hidden) :=
  p.matchAt_eq_some.mpr ⟨h, t, hk, hh, rfl, rfl⟩

theorem matchAt_eq_none : p.matchAt s = none ↔
    ∀ kept h t, p.Kept kept → p.hidden h → s ≠ kept ++ h :: t := by
  constructor
  · rintro hn kept h t hk hh rfl
    rw [matchAt_masked hk hh] at hn
    cases hn
  · intro hn
    cases hm : p.matchAt s with
    | none => rfl
    | some found =>
      obtain ⟨h, t, hk, hh, he, _⟩ := p.matchAt_eq_some.mp hm
      exact absurd he (hn _ h t hk hh)

/-- A text is read as masking reads it, symbol by symbol and match by match. -/
theorem induction (p : Pattern α) {motive : List α → Prop} (nil : motive [])
    (literal : ∀ c s, p.matchAt (c :: s) = none → motive s → motive (c :: s))
    (masked : ∀ kept h t, p.Kept kept → p.hidden h → motive (t.dropWhile p.hidden) →
      motive (kept ++ h :: t)) (s : List α) : motive s := by
  induction hn : s.length using Nat.strong_induction_on generalizing s with
  | _ n ih =>
    subst hn
    cases s with
    | nil => exact nil
    | cons c s =>
      cases hm : p.matchAt (c :: s) with
      | none => exact literal c s hm (ih _ (by simp) s rfl)
      | some found =>
        obtain ⟨h, t, hk, hh, he, _⟩ := p.matchAt_eq_some.mp hm
        rw [he]
        have hle := (List.dropWhile_sublist (l := t) p.hidden).length_le
        refine masked _ h t hk hh (ih _ ?_ _ rfl)
        rw [he]
        simp only [List.length_append, List.length_cons]
        omega

end Pattern

def maskWith (p : Pattern α) (mark : Mark p) : Nat → List α → List α
  | 0, s => s
  | _, [] => []
  | fuel + 1, c :: s =>
    match p.matchAt (c :: s) with
    | some (kept, rest) => kept ++ mark.text ++ maskWith p mark fuel rest
    | none => c :: maskWith p mark fuel s

def mask (p : Pattern α) (mark : Mark p) (s : List α) : List α := maskWith p mark s.length s

/-- The texts are the same but for the symbols that are hidden in them. -/
inductive SameOutside (p : Pattern α) : List α → List α → Prop where
  | nil : SameOutside p [] []
  | literal (c : α) {s t : List α} : p.matchAt (c :: s) = none → p.matchAt (c :: t) = none →
      SameOutside p s t → SameOutside p (c :: s) (c :: t)
  | masked {s t kept s' t' : List α} : p.matchAt s = some (kept, s') →
      p.matchAt t = some (kept, t') → SameOutside p s' t' → SameOutside p s t

variable {mark : Mark p}

theorem maskWith_fuel (mark : Mark p) {fuel fuel' : Nat} (hs : s.length ≤ fuel) (hs' : s.length ≤ fuel') :
    maskWith p mark fuel s = maskWith p mark fuel' s := by
  induction s using p.induction generalizing fuel fuel' with
  | nil => cases fuel <;> cases fuel' <;> rfl
  | literal c s hm ih =>
    cases fuel with
    | zero => simp at hs
    | succ fuel =>
      cases fuel' with
      | zero => simp at hs'
      | succ fuel' =>
        have hrest := ih (Nat.le_of_succ_le_succ hs) (Nat.le_of_succ_le_succ hs')
        simp only [maskWith, hm, hrest]
  | masked kept h t hk hh ih =>
    have hle := (List.dropWhile_sublist (l := t) p.hidden).length_le
    have hm := p.matchAt_masked (t := t) hk hh
    obtain ⟨c, s, he⟩ : ∃ c s, kept ++ h :: t = c :: s := List.exists_cons_of_ne_nil (by simp)
    simp only [List.length_append, List.length_cons] at hs hs'
    rw [he] at hm ⊢
    cases fuel with
    | zero => omega
    | succ fuel =>
      cases fuel' with
      | zero => omega
      | succ fuel' =>
        have hrest := ih (show _ ≤ fuel by omega) (show _ ≤ fuel' by omega)
        simp only [maskWith, hm, hrest]

@[simp] theorem mask_nil : mask p mark [] = [] := rfl

theorem mask_literal {c : α} (hm : p.matchAt (c :: s) = none) :
    mask p mark (c :: s) = c :: mask p mark s := by
  simp only [mask, List.length_cons, maskWith, hm]

theorem mask_masked (hk : p.Kept kept) (hh : p.hidden h) : mask p mark (kept ++ h :: t) =
    kept ++ mark.text ++ mask p mark (t.dropWhile p.hidden) := by
  have hm := p.matchAt_masked (t := t) hk hh
  have hle := (List.dropWhile_sublist (l := t) p.hidden).length_le
  have hlength : t.length < (kept ++ h :: t).length := by simp; omega
  obtain ⟨c, s, he⟩ : ∃ c s, kept ++ h :: t = c :: s := List.exists_cons_of_ne_nil (by simp)
  rw [he] at hm hlength ⊢
  have hrest : (t.dropWhile p.hidden).length ≤ s.length := by
    simp only [List.length_cons] at hlength
    omega
  have hfuel := maskWith_fuel mark hrest le_rfl
  simp only [mask, List.length_cons, maskWith, hm, hfuel]

/-! ### What the mask tells -/

theorem append_cons_inj {d e : List α} (hd : z ∉ d) (he : z ∉ e)
    (h : d ++ z :: s = e ++ z :: t) : d = e ∧ s = t := by
  induction d generalizing e with
  | nil =>
    cases e with
    | nil => simpa using h
    | cons y e =>
      have hzy : z = y := (List.cons.inj h).1
      exact absurd (List.mem_cons.mpr (.inl hzy)) he
  | cons x d ih =>
    cases e with
    | nil =>
      have hxz : x = z := (List.cons.inj h).1
      exact absurd (List.mem_cons.mpr (.inl hxz.symm)) hd
    | cons y e =>
      simp only [List.cons_append, List.cons.injEq] at h
      obtain ⟨hde, hst⟩ := ih (List.not_mem_of_not_mem_cons hd) (List.not_mem_of_not_mem_cons he) h.2
      exact ⟨by rw [h.1, hde], hst⟩

/-- Where the mark stands in the result a hidden symbol stands in the text. -/
theorem hidden_of_mask {d : List α} (hd : mark.head ∉ d)
    (h : mask p mark s = d ++ mark.head :: t) : ∃ c s', s = d ++ c :: s' ∧ p.hidden c := by
  induction d generalizing s with
  | nil =>
    cases s using p.induction with
    | nil => simp at h
    | literal c s hm _ =>
      rw [mask_literal hm, List.nil_append, List.cons.injEq] at h
      exact ⟨c, s, rfl, h.1 ▸ mark.hidden_head⟩
    | masked kept c s hk hc _ =>
      rw [mask_masked hk hc, List.append_assoc] at h
      obtain ⟨rfl, _⟩ := append_cons_inj (mark.edge_head _ hk) hd h
      exact ⟨c, s, rfl, hc⟩
  | cons x d ih =>
    cases s using p.induction with
    | nil => simp at h
    | literal c s hm _ =>
      rw [mask_literal hm, List.cons_append, List.cons.injEq] at h
      obtain ⟨b, s', rfl, hb⟩ := ih (List.not_mem_of_not_mem_cons hd) h.2
      exact ⟨b, s', by rw [h.1, List.cons_append], hb⟩
    | masked kept c s hk hc _ =>
      rw [mask_masked hk hc, List.append_assoc] at h
      obtain ⟨rfl, _⟩ := append_cons_inj (mark.edge_head _ hk) hd h
      exact ⟨c, s, rfl, hc⟩

theorem mask_of_matchAt {rest : List α} (hm : p.matchAt s = some (kept, rest)) :
    mask p mark s = kept ++ mark.text ++ mask p mark rest := by
  obtain ⟨h, t, hk, hh, rfl, rfl⟩ := p.matchAt_eq_some.mp hm
  exact mask_masked hk hh

theorem matchAt_of_mask (hk : p.Kept kept) (h : mask p mark s = kept ++ (mark.text ++ t)) :
    ∃ rest, p.matchAt s = some (kept, rest) := by
  obtain ⟨c, s', rfl, hc⟩ := hidden_of_mask (mark.edge_head _ hk) h
  exact ⟨_, p.matchAt_masked hk hc⟩

theorem mask_eq_iff : mask p mark s = mask p mark t ↔ SameOutside p s t := by
  constructor
  · intro h
    induction s using p.induction generalizing t with
    | nil =>
      cases t using p.induction with
      | nil => exact .nil
      | literal c t hm _ => simp [mask_literal hm] at h
      | masked kept c t hk hc _ => simp [mask_masked hk hc, Mark.text] at h
    | literal c s hm ih =>
      cases t using p.induction with
      | nil => simp [mask_literal hm] at h
      | literal c' t hm' _ =>
        rw [mask_literal hm, mask_literal hm', List.cons.injEq] at h
        obtain ⟨rfl, ht⟩ := h
        exact .literal c hm hm' (ih ht)
      | masked kept c' t hk hc _ =>
        rw [mask_masked hk hc, List.append_assoc] at h
        obtain ⟨rest, hsome⟩ := matchAt_of_mask hk h
        rw [hm] at hsome
        cases hsome
    | masked kept c s hk hc ih =>
      have hmask := h.symm
      rw [mask_masked hk hc, List.append_assoc] at hmask
      obtain ⟨rest, hsome⟩ := matchAt_of_mask hk hmask
      rw [mask_of_matchAt hsome, List.append_assoc] at hmask
      have hrest := List.append_cancel_left (List.append_cancel_left hmask)
      exact .masked (p.matchAt_masked hk hc) hsome (ih hrest.symm)
  · intro h
    induction h with
    | nil => rfl
    | literal c hs ht _ ih => rw [mask_literal hs, mask_literal ht, ih]
    | masked hs ht _ ih => rw [mask_of_matchAt hs, mask_of_matchAt ht, ih]

/-! ### A text inside another -/

theorem match_before_edge {X S : List α} (hz : z ∉ kept) (he : X ++ z :: S = kept ++ h :: t) :
    (X = kept ∧ z = h) ∨ ∃ t', X = kept ++ h :: t' := by
  rcases List.append_eq_append_iff.mp he with ⟨d, hkept, hs⟩ | ⟨d, hX, hs⟩
  · cases d with
    | nil => exact .inl ⟨by simpa using hkept.symm, (List.cons.inj hs).1⟩
    | cons x d =>
      have hx : z = x := (List.cons.inj hs).1
      exact absurd (by simp [hkept, hx]) hz
  · cases d with
    | nil => exact .inl ⟨by simpa using hX, (List.cons.inj hs).1.symm⟩
    | cons x d =>
      have hx : h = x := (List.cons.inj hs).1
      exact .inr ⟨d, by rw [hX, hx]⟩

/-- Whether a text that ends in an edge has a match at its head does not depend on what
comes after it. -/
theorem matchAt_append_of_edge {X S : List α} (hz : p.Edge z)
    (hm : p.matchAt (X ++ [z]) = none) : p.matchAt (X ++ z :: S) = none := by
  rw [Pattern.matchAt_eq_none] at hm ⊢
  intro kept h t hk hh he
  rcases match_before_edge (hz kept hk) he with ⟨rfl, rfl⟩ | ⟨t', rfl⟩
  · exact hm X z [] hk hh rfl
  · exact hm kept h (t' ++ [z]) hk hh (by simp)

theorem matchAt_append_of_stop {X S : List α} (hz : p.Edge z) (hstop : p.hidden z = false)
    (hm : p.matchAt X = none) : p.matchAt (X ++ z :: S) = none := by
  rw [Pattern.matchAt_eq_none] at hm ⊢
  intro kept h t hk hh he
  rcases match_before_edge (hz kept hk) he with ⟨_, rfl⟩ | ⟨t', rfl⟩
  · rw [hstop] at hh
    cases hh
  · exact hm kept h t' hk hh rfl

theorem dropWhile_append_of_stop {hidden : α → Bool} {X S : List α} (hstop : hidden z = false) :
    (X ++ z :: S).dropWhile hidden = X.dropWhile hidden ++ z :: S := by
  rw [List.dropWhile_append, List.dropWhile_cons_of_neg (by simp [hstop])]
  split
  · next he => rw [List.isEmpty_iff.mp he, List.nil_append]
  · rfl

/-- Behind a symbol that is neither kept nor hidden the text is masked on its own. -/
theorem mask_append_of_stop {X S : List α} (hz : p.Edge z) (hstop : p.hidden z = false) :
    mask p mark (X ++ z :: S) = mask p mark X ++ mask p mark (z :: S) := by
  induction X using p.induction with
  | nil => rfl
  | literal c X hm ih =>
    have hnone := matchAt_append_of_stop (S := S) hz hstop hm
    rw [List.cons_append] at hnone ⊢
    rw [mask_literal hnone, mask_literal hm, ih, List.cons_append]
  | masked kept h X hk hh ih =>
    rw [List.append_assoc, List.cons_append, mask_masked hk hh, mask_masked hk hh,
      dropWhile_append_of_stop hstop, ih]
    simp only [List.append_assoc]

/-- A kept text of hidden symbols is masked behind a text that ends in an edge, or its value
is hidden with it. Either way what comes before the rest of the value is the same for all
values. -/
theorem mask_append_kept (mark : Mark p) (X : List α) (hX : ∀ z ∈ X.getLast?, p.Edge z) (hk : p.Kept kept)
    (hhidden : ∀ c ∈ kept, p.hidden c) : ∃ P, ∀ h w, p.hidden h →
      mask p mark (X ++ (kept ++ h :: w)) = P ++ mask p mark (w.dropWhile p.hidden) := by
  induction X using p.induction with
  | nil => exact ⟨kept ++ mark.text, fun h w hh => mask_masked hk hh⟩
  | literal c X hm ih =>
    obtain ⟨Y, z, hY⟩ : ∃ Y z, c :: X = Y ++ [z] :=
      ⟨_, _, (List.dropLast_concat_getLast (List.cons_ne_nil c X)).symm⟩
    have hz : p.Edge z := hX z (by rw [hY]; simp)
    have hnone (S : List α) : p.matchAt (c :: (X ++ S)) = none := by
      rw [← List.cons_append, hY, List.append_assoc, List.singleton_append]
      exact matchAt_append_of_edge hz (hY ▸ hm)
    obtain ⟨P, hP⟩ := ih fun z hz => hX z (by
      rw [List.getLast?_cons, Option.mem_def.mp hz]
      rfl)
    refine ⟨c :: P, fun h w hh => ?_⟩
    rw [List.cons_append, mask_literal (hnone _), hP h w hh, List.cons_append]
  | masked kept' h' X hk' hh' ih =>
    by_cases hall : ∀ c ∈ X, p.hidden c
    · refine ⟨kept' ++ mark.text, fun h w hh => ?_⟩
      rw [List.append_assoc, List.cons_append, mask_masked hk' hh',
        List.dropWhile_append_of_pos hall, List.dropWhile_append_of_pos hhidden,
        List.dropWhile_cons_of_pos hh]
    · have hne : X.dropWhile p.hidden ≠ [] := fun he => hall (List.dropWhile_eq_nil_iff.mp he)
      obtain ⟨P, hP⟩ := ih fun z hz => hX z (by
        obtain ⟨Y, hY⟩ := List.dropWhile_suffix (l := X) p.hidden
        have hlast : X.getLast? = some z := by
          rw [← hY, List.getLast?_append, Option.mem_def.mp hz, Option.some_or]
        rw [List.getLast?_append, List.getLast?_cons, hlast]
        rfl)
      refine ⟨kept' ++ mark.text ++ P, fun h w hh => ?_⟩
      have hdrop : (X ++ (kept ++ h :: w)).dropWhile p.hidden =
          X.dropWhile p.hidden ++ (kept ++ h :: w) := by
        rw [List.dropWhile_append, if_neg (by simpa using hne)]
      rw [List.append_assoc, List.cons_append, mask_masked hk' hh', hdrop, hP h w hh]
      simp only [List.append_assoc]

/-! ### What the mask leaves -/

/-- Wherever a kept text stands, the symbols hidden after it are the mark, or its beginning where
the text ends. -/
def Covered (mark : Mark p) (s : List α) : Prop :=
  ∀ pre kept value post, s = pre ++ (kept ++ (value ++ post)) → p.Kept kept → value ≠ [] →
    (∀ c ∈ value, p.hidden c = true) → (∀ c ∈ post.head?, p.hidden c = false) →
    value = mark.text ∨ post = [] ∧ value <+: mark.text

/-- The pattern finds nothing in what it keeps, and the mark is hidden to its end, which can be seen. -/
structure Apart (mark : Mark p) : Prop where
  kept : ∀ {kept kept' pre t : List α} {h : α}, p.Kept kept → p.Kept kept' → p.hidden h = true →
    kept' ≠ pre ++ (kept ++ h :: t)
  inside : ∀ {kept : List α}, p.Kept kept → ¬kept <:+: mark.text
  last : ∀ z ∈ mark.text.getLast?, p.Edge z
  hidden : ∀ c ∈ mark.text, p.hidden c = true

/-- What stands before the first mark has stood there before, with a hidden symbol after it if there
is one now. -/
theorem origin_of_mask {d : List α} (hd : mark.head ∉ d) (h : mask p mark s = d ++ z :: t) :
    ∃ c s', s = d ++ c :: s' ∧ (p.hidden z = true → p.hidden c = true) := by
  induction d generalizing s with
  | nil =>
    cases s using p.induction with
    | nil => simp at h
    | literal c s hm _ =>
      rw [mask_literal hm, List.nil_append, List.cons.injEq] at h
      exact ⟨c, s, rfl, fun hz => h.1 ▸ hz⟩
    | masked kept c s hk hc _ =>
      cases kept with
      | nil => exact ⟨c, s, rfl, fun _ => hc⟩
      | cons k kept =>
        rw [mask_masked hk hc, List.nil_append, List.cons_append, List.cons_append, List.cons.injEq] at h
        exact ⟨k, kept ++ c :: s, rfl, fun hz => h.1 ▸ hz⟩
  | cons x d ih =>
    cases s using p.induction with
    | nil => simp at h
    | literal c s hm _ =>
      rw [mask_literal hm, List.cons_append, List.cons.injEq] at h
      obtain ⟨b, s', rfl, hb⟩ := ih (List.not_mem_of_not_mem_cons hd) h.2
      exact ⟨b, s', by rw [h.1, List.cons_append], hb⟩
    | masked kept c s hk hc _ =>
      rw [mask_masked hk hc, List.append_assoc] at h
      rcases List.append_eq_append_iff.mp h with ⟨e, hxd, hrest⟩ | ⟨e, hkept, hrest⟩
      · cases e with
        | nil => exact ⟨c, s, by rw [hxd, List.append_nil], fun _ => hc⟩
        | cons y e =>
          have hy : mark.head = y := (List.cons.inj hrest).1
          exact absurd (by rw [hxd, hy]; simp) hd
      · cases e with
        | nil => exact ⟨c, s, by rw [hkept, List.append_nil], fun _ => hc⟩
        | cons y e =>
          have hy : z = y := (List.cons.inj hrest).1
          exact ⟨y, e ++ c :: s, by simp [hkept], fun hz => hy ▸ hz⟩

theorem hidden_head_of_mask (h : ∀ c ∈ s.head?, p.hidden c = false) :
    ∀ c ∈ (mask p mark s).head?, p.hidden c = false := by
  intro z hz
  obtain ⟨t, ht⟩ := List.head?_eq_some_iff.mp hz
  obtain ⟨c, s', rfl, hc⟩ := origin_of_mask (d := []) List.not_mem_nil ht
  rw [← Bool.not_eq_true]
  intro hhidden
  have hshown := h c rfl
  rw [hc hhidden] at hshown
  cases hshown

/-- A kept text with a hidden symbol after it is one that masking has met, and the mark follows. -/
theorem value_of_mask (ha : Apart mark) {pre : List α} (h : mask p mark s = pre ++ (kept ++ z :: t))
    (hk : p.Kept kept) (hz : p.hidden z = true) :
    ∃ rest, z :: t = mark.text ++ rest ∧ ∀ c ∈ rest.head?, p.hidden c = false := by
  induction s using p.induction generalizing pre with
  | nil => simp at h
  | literal c s hm ih =>
    cases pre with
    | nil =>
      obtain ⟨b, s', hs, hb⟩ := origin_of_mask (mark.edge_head _ hk) h
      exact absurd hs (Pattern.matchAt_eq_none.mp hm _ b s' hk (hb hz))
    | cons x pre =>
      rw [mask_literal hm, List.cons_append, List.cons.injEq] at h
      exact ih h.2
  | masked kept' h' s hk' hh' ih =>
    have hshown : ∀ c ∈ (mask p mark (s.dropWhile p.hidden)).head?, p.hidden c = false :=
      hidden_head_of_mask fun c hc => by
        have hstop := List.head?_dropWhile_not p.hidden s
        rwa [Option.mem_def.mp hc] at hstop
    rw [mask_masked hk' hh', List.append_assoc] at h
    rcases List.append_eq_append_iff.mp h with ⟨d, hpre, hd⟩ | ⟨d, hkept', hd⟩
    · -- the kept text begins behind the one that was met: after the mark, or in it
      rcases List.append_eq_append_iff.mp hd with ⟨e, _, he⟩ | ⟨e, hmark, he⟩
      · exact ih he
      · cases e with
        | nil =>
          have he' : mask p mark (s.dropWhile p.hidden) = [] ++ (kept ++ z :: t) := he.symm
          exact ih he'
        | cons y e =>
          rcases List.append_eq_append_iff.mp he with ⟨f, hf, _⟩ | ⟨f, hf, _⟩
          · exact absurd ⟨d, f, by rw [hmark, hf, List.append_assoc]⟩ (ha.inside hk)
          · obtain ⟨z', hz'⟩ := Option.isSome_iff_exists.mp (List.getLast?_isSome.mpr (List.cons_ne_nil y e))
            have hlast : mark.text.getLast? = some z' := by
              rw [hmark, List.getLast?_append, hz', Option.some_or]
            have hin : z' ∈ kept := by
              rw [hf]
              exact List.mem_append_left f (List.mem_of_getLast? hz')
            exact absurd hin (ha.last z' hlast kept hk)
    · -- the kept text begins in the one that was met
      rcases List.append_eq_append_iff.mp hd with ⟨e, hd', he⟩ | ⟨e, hkept, he⟩
      · cases e with
        | nil => exact ⟨_, he, hshown⟩
        | cons y e =>
          have hy : z = y := (List.cons.inj he).1
          have hinside : kept' = pre ++ (kept ++ z :: e) := by rw [hkept', hd', hy]
          exact absurd hinside (ha.kept hk hk' hz)
      · cases e with
        | nil => exact ⟨_, he.symm, hshown⟩
        | cons y e =>
          have hy : mark.head = y := (List.cons.inj he).1
          exact absurd (by rw [hkept, hy]; simp) (mark.edge_head kept hk)

theorem takeWhile_of_stop {hidden : α → Bool} {v w : List α} (hv : ∀ c ∈ v, hidden c = true)
    (hw : ∀ c ∈ w.head?, hidden c = false) : (v ++ w).takeWhile hidden = v := by
  rw [List.takeWhile_append_of_pos hv]
  cases w with
  | nil => simp
  | cons c w => simp [hw c rfl]

theorem covered_mask (ha : Apart mark) (s : List α) : Covered mark (mask p mark s) := by
  intro pre kept value post h hk hne hvalue hpost
  obtain ⟨z, v, rfl⟩ := List.exists_cons_of_ne_nil hne
  obtain ⟨rest, hrest, hstop⟩ := value_of_mask ha h hk (hvalue z List.mem_cons_self)
  have hsame : z :: v ++ post = mark.text ++ rest := hrest
  have hmark := takeWhile_of_stop ha.hidden hstop
  rw [← hsame, takeWhile_of_stop hvalue hpost] at hmark
  exact .inl hmark

/-- What ends in a hidden symbol that the mark does not have may end in any other hidden symbol. -/
theorem Covered.replace_last {front back : List α} {c z : α} (h : Covered mark (front ++ c :: back))
    (hc : p.hidden c = true) (hz : p.hidden z = true) (hmark : c ∉ mark.text) : Covered mark (front ++ [z]) := by
  intro pre kept value post he hk hne hvalue hpost
  rcases List.eq_nil_or_concat post with rfl | ⟨post, z', rfl⟩
  · obtain ⟨value, z', rfl⟩ := (List.eq_nil_or_concat value).resolve_left hne
    have hsplit : front ++ [z] = pre ++ (kept ++ value) ++ [z'] := by
      rw [he]
      simp
    obtain ⟨hfront, -⟩ := List.append_inj' hsplit rfl
    have hrest := List.takeWhile_append_dropWhile (p := p.hidden) (l := back)
    have hall : ∀ x ∈ value ++ c :: back.takeWhile p.hidden, p.hidden x = true := by
      intro x hx
      rcases List.mem_append.mp hx with hx | hx
      · exact hvalue x (by simp [hx])
      · rcases List.mem_cons.mp hx with rfl | hx
        · exact hc
        · exact List.mem_takeWhile_imp hx
    have hstop : ∀ x ∈ (back.dropWhile p.hidden).head?, p.hidden x = false := fun x hx => by
      have hfirst := List.head?_dropWhile_not p.hidden back
      rwa [Option.mem_def.mp hx] at hfirst
    have hwhole : front ++ c :: back =
        pre ++ (kept ++ ((value ++ c :: back.takeWhile p.hidden) ++ back.dropWhile p.hidden)) := by
      rw [hfront]
      simp [hrest]
    have hin : c ∈ mark.text := by
      rcases h pre kept _ _ hwhole hk (by simp) hall hstop with hsame | ⟨_, hprefix⟩
      · rw [← hsame]
        simp
      · exact hprefix.subset (by simp)
    exact absurd hin hmark
  · have hsplit : front ++ [z] = pre ++ (kept ++ (value ++ post)) ++ [z'] := by
      rw [he]
      simp
    obtain ⟨hfront, hlast⟩ := List.append_inj' hsplit rfl
    cases post with
    | nil =>
      obtain rfl : z = z' := (List.cons.inj hlast).1
      rw [hpost z (by simp)] at hz
      cases hz
    | cons y post =>
      have hwhole : front ++ c :: back = pre ++ (kept ++ (value ++ (y :: post ++ c :: back))) := by
        rw [hfront]
        simp
      rcases h pre kept value _ hwhole hk hne hvalue (by simpa using hpost) with hsame | ⟨hnil, _⟩
      · exact .inl hsame
      · cases hnil

theorem Covered.take (hc : Covered mark s) (n : ℕ) : Covered mark (s.take n) := by
  intro pre kept value post h hk hne hvalue hpost
  have hs : s = pre ++ (kept ++ (value ++ (post ++ s.drop n))) := by
    calc s = s.take n ++ s.drop n := (List.take_append_drop n s).symm
      _ = pre ++ (kept ++ (value ++ (post ++ s.drop n))) := by rw [h]; simp only [List.append_assoc]
  cases post with
  | cons c post =>
    rcases hc pre kept value (c :: post ++ s.drop n) hs hk hne hvalue hpost with hmark | ⟨hnil, _⟩
    · exact .inl hmark
    · cases hnil
  | nil =>
    have hrest := List.takeWhile_append_dropWhile (p := p.hidden) (l := s.drop n)
    have hwhole : s = pre ++ (kept ++ (value ++ (s.drop n).takeWhile p.hidden ++ (s.drop n).dropWhile p.hidden)) := by
      rw [List.append_assoc, hrest]
      simpa using hs
    have hall : ∀ c ∈ value ++ (s.drop n).takeWhile p.hidden, p.hidden c = true := fun c hmem =>
      (List.mem_append.mp hmem).elim (hvalue c) List.mem_takeWhile_imp
    have hstop : ∀ c ∈ ((s.drop n).dropWhile p.hidden).head?, p.hidden c = false := fun c hmem => by
      have hfirst := List.head?_dropWhile_not p.hidden (s.drop n)
      rwa [Option.mem_def.mp hmem] at hfirst
    right
    refine ⟨rfl, ?_⟩
    have hprefix := List.prefix_append value ((s.drop n).takeWhile p.hidden)
    rcases hc pre kept _ _ hwhole hk (by simp [hne]) hall hstop with hmark | ⟨_, hmark⟩
    · exact hmark ▸ hprefix
    · exact hprefix.trans hmark

end Masking
