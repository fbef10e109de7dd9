import Mathlib.Data.List.Perm.Basic
import Mathlib.Data.List.Sort
import Mathlib.Tactic.MkIffOfInductiveProp

/-! Rows listed page by page, the greatest key first. Rows of one key may come in any order,
and in another order in every listing that is made. -/

namespace Listings

variable {α κ : Type} [LinearOrder κ] {key : α → κ} {rows s : List α} {limit : Nat}

@[mk_iff] structure Listing (key : α → κ) (rows s : List α) : Prop where
  perm : s.Perm rows
  ordered : s.Pairwise fun a b => key b ≤ key a

def page (limit k : Nat) (s : List α) : List α := (s.drop (k * limit)).take limit

def pages (limit n : Nat) (answers : Nat → List α) : List α :=
  (List.range n).flatMap fun k => page limit k (answers k)

/-- How many rows come before those of the key in every listing. -/
def before (key : α → κ) (rows : List α) (v : κ) : Nat := rows.countP fun r => v < key r

/-- How many rows come before those of a smaller key. -/
def upTo (key : α → κ) (rows : List α) (v : κ) : Nat := rows.countP fun r => v ≤ key r

/-- Rows of one key stand on both sides of the position. -/
def SplitsTie (key : α → κ) (rows : List α) (m : Nat) : Prop :=
  ∃ r ∈ rows, before key rows (key r) < m ∧ m < upTo key rows (key r)

instance : Decidable (SplitsTie key rows limit) :=
  inferInstanceAs (Decidable (∃ r ∈ rows, _ ∧ _))

theorem exists_listing (key : α → κ) (rows : List α) : ∃ s, Listing key rows s := by
  have htrans (a b c : α) (hab : decide (key b ≤ key a) = true) (hbc : decide (key c ≤ key b) = true) :
      decide (key c ≤ key a) = true := by
    rw [decide_eq_true_eq] at *
    exact hbc.trans hab
  have htotal (a b : α) : (decide (key b ≤ key a) || decide (key a ≤ key b)) = true := by
    simpa using le_total (key b) (key a)
  have hsorted := List.pairwise_mergeSort htrans htotal rows
  exact ⟨_, List.mergeSort_perm _ _, hsorted.imp of_decide_eq_true⟩

/-- The rows a closed predicate holds of come first. -/
theorem getElem_iff_lt_countP {p : α → Bool} {i : Nat} (hclosed : s.Pairwise fun a b => p b → p a)
    (hi : i < s.length) : p s[i] ↔ i < s.countP p := by
  induction s generalizing i with
  | nil => cases hi
  | cons a s ih =>
    have hpair := List.pairwise_cons.mp hclosed
    by_cases ha : p a
    · rw [List.countP_cons_of_pos ha]
      cases i with
      | zero => simp [ha]
      | succ i =>
        have htail := ih hpair.2 (Nat.lt_of_succ_lt_succ hi)
        rw [List.getElem_cons_succ, htail, Nat.add_lt_add_iff_right]
    · have hnone : s.countP p = 0 := by
        rw [List.countP_eq_zero]
        exact fun b hb hpb => ha (hpair.1 b hb hpb)
      rw [List.countP_cons_of_neg ha, hnone]
      have hnot : ¬ p (a :: s)[i] := by
        cases i with
        | zero => exact ha
        | succ i => exact fun hp => ha (hpair.1 _ (List.getElem_mem _) hp)
      simp [hnot]

namespace Listing

theorem lt_getElem (h : Listing key rows s) {i : Nat} (hi : i < s.length) (v : κ) :
    v < key s[i] ↔ i < before key rows v := by
  have hclosed : s.Pairwise fun a b => decide (v < key b) → decide (v < key a) := by
    refine h.ordered.imp fun hle hlt => ?_
    simp only [decide_eq_true_eq] at *
    exact hlt.trans_le hle
  have hiff := getElem_iff_lt_countP hclosed hi
  rwa [decide_eq_true_eq, h.perm.countP_eq] at hiff

theorem le_getElem (h : Listing key rows s) {i : Nat} (hi : i < s.length) (v : κ) :
    v ≤ key s[i] ↔ i < upTo key rows v := by
  have hclosed : s.Pairwise fun a b => decide (v ≤ key b) → decide (v ≤ key a) := by
    refine h.ordered.imp fun hle hlt => ?_
    simp only [decide_eq_true_eq] at *
    exact hlt.trans hle
  have hiff := getElem_iff_lt_countP hclosed hi
  rwa [decide_eq_true_eq, h.perm.countP_eq] at hiff

/-- Where no tie is split, every listing has the same rows before the position. -/
theorem take_eq_filter (h : Listing key rows s) {m : Nat} (hm : ¬ SplitsTie key rows m) :
    s.take m = s.filter fun r => upTo key rows (key r) ≤ m := by
  have hfirst : ∀ r ∈ s.take m, upTo key rows (key r) ≤ m := by
    intro r hr
    obtain ⟨i, hi, rfl⟩ := List.mem_take_iff_getElem.mp hr
    have hlen : i < s.length := by omega
    have hbefore : before key rows (key s[i]) ≤ i := by
      by_contra hlt
      exact lt_irrefl _ ((h.lt_getElem hlen _).mpr (not_le.mp hlt))
    by_contra hsplit
    exact hm ⟨s[i], h.perm.subset (List.getElem_mem hlen), by omega, not_le.mp hsplit⟩
  have hlast : ∀ r ∈ s.drop m, ¬ upTo key rows (key r) ≤ m := by
    intro r hr
    obtain ⟨i, hi, rfl⟩ := List.mem_drop_iff_getElem.mp hr
    have hlen : m + i < s.length := by omega
    have hupto := (h.le_getElem hlen _).mp le_rfl
    omega
  conv_rhs => rw [← List.take_append_drop m s]
  rw [List.filter_append, List.filter_eq_self.mpr (by simpa using hfirst),
    List.filter_eq_nil_iff.mpr (by simpa using hlast), List.append_nil]

/-- Across a split position stand two neighbours of one key. -/
theorem exists_tie (h : Listing key rows s) {m : Nat} (hsplit : SplitsTie key rows m) :
    ∃ front x y back, s = front ++ x :: y :: back ∧ front.length + 1 = m ∧ key x = key y := by
  obtain ⟨r, _, hbefore, hupto⟩ := hsplit
  have hrows : upTo key rows (key r) ≤ s.length := by
    rw [h.perm.length_eq]
    exact List.countP_le_length
  have htie {i : Nat} (hi : i < s.length) (hlow : before key rows (key r) ≤ i) (hhigh : i < upTo key rows (key r)) :
      key s[i] = key r := by
    have hle := (h.le_getElem hi _).mpr hhigh
    have hge := mt (h.lt_getElem hi _).mp (not_lt.mpr hlow)
    exact le_antisymm (not_lt.mp hge) hle
  have hfirst : m - 1 < s.length := by omega
  have hsecond : m < s.length := by omega
  refine ⟨s.take (m - 1), s[m - 1], s[m], s.drop (m + 1), ?_, ?_, ?_⟩
  · conv_lhs => rw [← List.take_append_drop (m - 1) s, List.drop_eq_getElem_cons hfirst]
    have hnext : m - 1 + 1 = m := by omega
    rw [hnext, List.drop_eq_getElem_cons hsecond]
  · rw [List.length_take]
    omega
  · rw [htie hfirst (by omega) (by omega), htie hsecond (by omega) hupto]

theorem swap {front back : List α} {x y : α} (h : Listing key rows (front ++ x :: y :: back)) (hxy : key x = key y) :
    Listing key rows (front ++ y :: x :: back) where
  perm := ((List.Perm.swap x y back).append_left front).trans h.perm
  ordered := by
    have hordered := h.ordered
    simp only [List.pairwise_append, List.pairwise_cons, List.mem_cons, forall_eq_or_imp] at hordered ⊢
    obtain ⟨hfront, ⟨⟨hle, hx⟩, hy, hback⟩, hacross⟩ := hordered
    refine ⟨hfront, ⟨⟨hxy.le, hy⟩, hx, hback⟩, fun a ha => ?_⟩
    obtain ⟨hax, hay, hrest⟩ := hacross a ha
    exact ⟨hay, hax, hrest⟩

end Listing

theorem take_succ_mul (limit k : Nat) (s : List α) :
    s.take ((k + 1) * limit) = s.take (k * limit) ++ page limit k s := by
  rw [Nat.succ_mul, List.take_add, page]

theorem pages_succ (limit n : Nat) (answers : Nat → List α) :
    pages limit (n + 1) answers = pages limit n answers ++ page limit n (answers n) := by
  rw [pages, List.range_succ, List.flatMap_append, List.flatMap_singleton, pages]

theorem pages_const (limit n : Nat) (s : List α) : pages limit n (fun _ => s) = s.take (n * limit) := by
  induction n with
  | zero => simp [pages]
  | succ n ih => rw [pages_succ, ih, take_succ_mul]

theorem page_perm {t : List α} (hs : Listing key rows s) (ht : Listing key rows t) {k : Nat}
    (hlow : ¬ SplitsTie key rows (k * limit)) (hhigh : ¬ SplitsTie key rows ((k + 1) * limit)) :
    (page limit k s).Perm (page limit k t) := by
  have htake {m : Nat} (hm : ¬ SplitsTie key rows m) : (s.take m).Perm (t.take m) := by
    rw [hs.take_eq_filter hm, ht.take_eq_filter hm]
    exact (hs.perm.trans ht.perm.symm).filter _
  have hboth := htake hhigh
  rw [take_succ_mul, take_succ_mul] at hboth
  exact (List.perm_append_left_iff _).mp (hboth.trans ((htake hlow).symm.append_right _))

theorem pages_perm {n : Nat} {answers : Nat → List α} (hn : rows.length ≤ n * limit)
    (hanswers : ∀ k, Listing key rows (answers k)) (hties : ∀ k, ¬ SplitsTie key rows (k * limit)) :
    (pages limit n answers).Perm rows := by
  obtain ⟨s, hs⟩ := exists_listing key rows
  have hsame : (pages limit n answers).Perm (pages limit n fun _ => s) :=
    List.Perm.flatMap_left _ fun k _ => page_perm (hanswers k) hs (hties k) (hties (k + 1))
  rw [pages_const, List.take_of_length_le (hs.perm.length_eq.trans_le hn)] at hsame
  exact hsame.trans hs.perm

theorem getElem_mem_page {i k : Nat} (hi : i < s.length) (hlow : k * limit ≤ i) (hhigh : i < (k + 1) * limit) :
    s[i] ∈ page limit k s := by
  rw [Nat.succ_mul] at hhigh
  rw [page, List.mem_take_iff_getElem]
  have hlen : i - k * limit < min limit (s.drop (k * limit)).length := by
    rw [List.length_drop]
    omega
  refine ⟨i - k * limit, hlen, ?_⟩
  simp only [List.getElem_drop, Nat.add_sub_cancel' hlow]

/-- Where a tie is split, a row of it can be listed on both sides. -/
theorem exists_pages_repeated {j n : Nat} (hlimit : 0 < limit) (hn : rows.length ≤ n * limit)
    (hsplit : SplitsTie key rows ((j + 1) * limit)) :
    ∃ answers, (∀ k, Listing key rows (answers k)) ∧ ¬ (pages limit n answers).Nodup := by
  obtain ⟨s, hs⟩ := exists_listing key rows
  obtain ⟨front, x, y, back, rfl, hlength, hxy⟩ := hs.exists_tie hsplit
  let answers : Nat → List α := fun k => if k ≤ j then front ++ x :: y :: back else front ++ y :: x :: back
  refine ⟨answers, fun k => ?_, fun hnodup => ?_⟩
  · by_cases hk : k ≤ j
    · simpa only [answers, if_pos hk] using hs
    · simpa only [answers, if_neg hk] using hs.swap hxy
  · have hends : (j + 1) * limit < (j + 1 + 1) * limit := Nat.mul_lt_mul_of_pos_right (Nat.lt_succ_self _) hlimit
    have hstart : j * limit + limit = (j + 1) * limit := (Nat.succ_mul j limit).symm
    have hfirst : x ∈ page limit j (answers j) := by
      have hlen : front.length < (front ++ x :: y :: back).length := by simp
      have hmem : (front ++ x :: y :: back)[front.length] ∈ page limit j (front ++ x :: y :: back) :=
        getElem_mem_page hlen (by omega) (by omega)
      simpa [answers] using hmem
    have hsecond : x ∈ page limit (j + 1) (answers (j + 1)) := by
      have hlen : front.length + 1 < (front ++ y :: x :: back).length := by simp
      have hmem : (front ++ y :: x :: back)[front.length + 1] ∈ page limit (j + 1) (front ++ y :: x :: back) :=
        getElem_mem_page hlen (by omega) (by omega)
      have hanswer : answers (j + 1) = front ++ y :: x :: back := if_neg (by omega)
      rw [hanswer]
      simpa [List.getElem_append_right] using hmem
    have hlater : j + 1 < n := by
      have htotal := hs.perm.length_eq
      simp only [List.length_append, List.length_cons] at htotal
      exact Nat.lt_of_mul_lt_mul_right (a := limit) (by omega)
    have hapart := List.pairwise_iff_getElem.mp (List.nodup_flatMap.mp hnodup).2 j (j + 1) (by simp; omega)
      (by simpa using hlater) (Nat.lt_succ_self j)
    simp only [List.getElem_range] at hapart
    exact hapart hfirst hsecond

/-- The pages hold every row once, whatever the listings they are cut from, just when no tie
is split by a page's end. -/
theorem pages_perm_iff {n : Nat} (hlimit : 0 < limit) (hnodup : rows.Nodup) (hn : rows.length ≤ n * limit) :
    (∀ answers, (∀ k, Listing key rows (answers k)) → (pages limit n answers).Perm rows) ↔
      ∀ k, ¬ SplitsTie key rows (k * limit) := by
  constructor
  · intro h k hsplit
    cases k with
    | zero =>
      obtain ⟨r, _, hbefore, _⟩ := hsplit
      omega
    | succ j =>
      obtain ⟨answers, hanswers, hrepeated⟩ := exists_pages_repeated hlimit hn hsplit
      exact hrepeated ((h answers hanswers).nodup_iff.mpr hnodup)
  · exact fun hties answers hanswers => pages_perm hn hanswers hties

end Listings
