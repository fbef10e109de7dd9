import Mathlib.Data.List.TakeWhile
import WebhookEngine.JsonText

/-! A JSON text is the text of one value: what `JSON.stringify` writes can be read back in one
way only, whatever follows it. -/

namespace JsonText

variable {ν : Type} {numberText : ν → String} {u v s t : List Char} {c d : Char}

def isNumeral (c : Char) : Bool := c.isDigit || ['-', '+', '.', 'e'].contains c

/-- Different numbers have different texts, made of the characters numbers are written with. -/
structure Numerals (numberText : ν → String) : Prop where
  injective : Function.Injective numberText
  ne_empty : ∀ n, numberText n ≠ ""
  numeral : ∀ n, ∀ c ∈ (numberText n).toList, isNumeral c = true

/-! ### Strings -/

def hexValue (c : Char) : Nat := if c.toNat < 58 then c.toNat - 48 else c.toNat - 87

/-- The character an escape stands for, and what follows it. -/
def unescape : List Char → Option (Char × List Char)
  | '\\' :: 'u' :: '0' :: '0' :: h :: l :: s => some (Char.ofNat (hexValue h * 16 + hexValue l), s)
  | '\\' :: c :: s =>
    (([('"', '"'), ('\\', '\\'), ('b', Char.ofNat 8), ('t', '\t'), ('n', '\n'), ('f', Char.ofNat 12),
      ('r', '\r')].find? fun p => p.1 = c).map fun p => (p.2, s))
  | '\\' :: [] => none
  | c :: s => some (c, s)
  | [] => none

theorem hexValue_hexDigit : ∀ n < 32,
    Char.ofNat (hexValue (hexDigit (n / 16)) * 16 + hexValue (hexDigit (n % 16))) = Char.ofNat n := by
  decide

theorem unescape_escape (c : Char) (s : List Char) : unescape (escape c ++ s) = some (c, s) := by
  have hofNat : ∀ n, c.toNat = n → c = Char.ofNat n := by
    rintro n rfl
    exact (Char.ofNat_toNat c).symm
  simp only [escape]
  split
  · subst c
    rfl
  rename_i hquote
  split
  · subst c
    rfl
  rename_i hbackslash
  split
  · rename_i h
    rw [hofNat 8 h]
    rfl
  split
  · subst c
    rfl
  split
  · subst c
    rfl
  split
  · rename_i h
    rw [hofNat 12 h]
    rfl
  split
  · subst c
    rfl
  split
  · rename_i hcontrol
    simp only [List.cons_append, List.nil_append, unescape, hexValue_hexDigit _ hcontrol, Char.ofNat_toNat]
  · simp only [List.cons_append, List.nil_append]
    unfold unescape
    split <;> simp_all

theorem escape_append_inj (h : escape c ++ u = escape d ++ v) : c = d ∧ u = v := by
  have hread := congrArg unescape h
  rw [unescape_escape, unescape_escape] at hread
  simpa using hread

theorem head_escape (c : Char) : ∃ a s, escape c = a :: s ∧ a ≠ '"' := by
  simp only [escape]
  repeat' split
  all_goals first | exact ⟨_, _, rfl, by decide⟩ | exact ⟨_, _, rfl, by assumption⟩

/-- The quotation mark that ends a string is the first one that is not escaped. -/
theorem escaped_append_inj (h : s.flatMap escape ++ '"' :: u = t.flatMap escape ++ '"' :: v) : s = t ∧ u = v := by
  induction s generalizing t with
  | nil =>
    cases t with
    | nil => exact ⟨rfl, (List.cons.inj h).2⟩
    | cons d t =>
      obtain ⟨a, r, ha, hne⟩ := head_escape d
      simp only [List.flatMap_cons, ha, List.flatMap_nil, List.nil_append, List.cons_append, List.cons.injEq] at h
      exact absurd h.1.symm hne
  | cons c s ih =>
    cases t with
    | nil =>
      obtain ⟨a, r, ha, hne⟩ := head_escape c
      simp only [List.flatMap_cons, ha, List.flatMap_nil, List.nil_append, List.cons_append, List.cons.injEq] at h
      exact absurd h.1 hne
    | cons d t =>
      simp only [List.flatMap_cons, List.append_assoc] at h
      obtain ⟨rfl, hrest⟩ := escape_append_inj h
      obtain ⟨rfl, huv⟩ := ih hrest
      exact ⟨rfl, huv⟩

theorem quote_append_inj {a b : String} (h : quote a ++ u = quote b ++ v) : a = b ∧ u = v := by
  simp only [quote, escaped, List.cons_append, List.append_assoc, List.nil_append, List.cons.injEq, true_and] at h
  obtain ⟨hab, huv⟩ := escaped_append_inj h
  exact ⟨String.toList_inj.mp hab, huv⟩

/-! ### Numbers -/

/-- A number does not go on into the text. -/
def Stops (s : List Char) : Prop := ∀ c ∈ s.head?, isNumeral c = false

theorem Numerals.append_inj (hn : Numerals numberText) {n m : ν} (hu : Stops u) (hv : Stops v)
    (h : (numberText n).toList ++ u = (numberText m).toList ++ v) : n = m ∧ u = v := by
  have hstop : ∀ {w : List Char}, Stops w → w.takeWhile isNumeral = [] := by
    intro w hw
    cases w with
    | nil => rfl
    | cons c w => simp [hw c rfl]
  have htake := congrArg (List.takeWhile isNumeral) h
  rw [List.takeWhile_append_of_pos (hn.numeral n), List.takeWhile_append_of_pos (hn.numeral m), hstop hu, hstop hv,
    List.append_nil, List.append_nil] at htake
  rw [htake] at h
  exact ⟨hn.injective (String.toList_inj.mp htake), List.append_cancel_left h⟩

/-! ### Values -/

/-- Which kind of value a text begins, by its first character. -/
def kindOf (c : Char) : Nat :=
  if c = 'n' then 0
  else if c = 't' ∨ c = 'f' then 1
  else if c = '"' then 2
  else if c = '[' then 3
  else if c = '\x7b' then 4
  else if isNumeral c then 5
  else 6

def Json.kind : Json ν → Nat
  | .null => 0
  | .bool _ => 1
  | .string _ => 2
  | .array _ => 3
  | .object _ => 4
  | .number _ => 5

theorem kindOf_numeral (hc : isNumeral c = true) : kindOf c = 5 := by
  have hne : ∀ d, isNumeral d = false → c ≠ d := by
    rintro d hd rfl
    rw [hc] at hd
    cases hd
  simp [kindOf, hc, hne 'n' (by decide), hne 't' (by decide), hne 'f' (by decide), hne '"' (by decide),
    hne '[' (by decide), hne '\x7b' (by decide)]

theorem head_chars (hn : Numerals numberText) (x : Json ν) :
    ∃ c s, chars numberText x = c :: s ∧ kindOf c = x.kind := by
  cases x with
  | null => exact ⟨_, _, rfl, rfl⟩
  | bool b => cases b <;> exact ⟨_, _, rfl, rfl⟩
  | number n =>
    cases htext : (numberText n).toList with
    | nil => exact absurd (String.toList_inj.mp htext) (hn.ne_empty n)
    | cons c s => exact ⟨c, s, htext, kindOf_numeral (hn.numeral n c (htext ▸ List.mem_cons_self))⟩
  | string s => exact ⟨_, _, rfl, rfl⟩
  | array items =>
    rw [chars]
    exact ⟨_, _, rfl, rfl⟩
  | object members =>
    rw [chars]
    exact ⟨_, _, rfl, rfl⟩

theorem kind_eq (hn : Numerals numberText) {x y : Json ν} (h : chars numberText x ++ u = chars numberText y ++ v) :
    x.kind = y.kind := by
  obtain ⟨c, s, hx, hc⟩ := head_chars hn x
  obtain ⟨d, t, hy, hd⟩ := head_chars hn y
  rw [hx, hy, List.cons_append, List.cons_append, List.cons.injEq] at h
  rw [← hc, ← hd, h.1]

/-- What follows the first item, up to the bracket. -/
def itemsTail (numberText : ν → String) (items : List (Json ν)) : List Char :=
  (itemTexts numberText items).flatMap (',' :: ·) ++ [']']

def membersTail (numberText : ν → String) (members : List (String × Json ν)) : List Char :=
  (memberTexts numberText members).flatMap (',' :: ·) ++ ['\x7d']

theorem stops_itemsTail (items : List (Json ν)) : Stops (itemsTail numberText items ++ u) := by
  cases items with
  | nil =>
    rintro c ⟨⟩
    rfl
  | cons x items =>
    rintro c ⟨⟩
    rfl

theorem stops_membersTail (members : List (String × Json ν)) : Stops (membersTail numberText members ++ u) := by
  cases members with
  | nil =>
    rintro c ⟨⟩
    rfl
  | cons x members =>
    rintro c ⟨⟩
    rfl

theorem chars_array_cons (x : Json ν) (items : List (Json ν)) : chars numberText (.array (x :: items)) =
    '[' :: (chars numberText x ++ itemsTail numberText items) := by
  simp only [chars, itemTexts, intercalate_cons_flatMap, itemsTail, List.append_assoc]

theorem chars_object_cons (key : String) (x : Json ν) (members : List (String × Json ν)) :
    chars numberText (.object ((key, x) :: members)) =
      '\x7b' :: (quote key ++ ':' :: (chars numberText x ++ membersTail numberText members)) := by
  simp only [chars, memberTexts, intercalate_cons_flatMap, membersTail, List.append_assoc, List.cons_append]

theorem itemsTail_cons (x : Json ν) (items : List (Json ν)) : itemsTail numberText (x :: items) =
    ',' :: (chars numberText x ++ itemsTail numberText items) := by
  simp only [itemsTail, itemTexts, List.flatMap_cons, List.append_assoc, List.cons_append]

theorem membersTail_cons (key : String) (x : Json ν) (members : List (String × Json ν)) :
    membersTail numberText ((key, x) :: members) =
      ',' :: (quote key ++ ':' :: (chars numberText x ++ membersTail numberText members)) := by
  simp only [membersTail, memberTexts, List.flatMap_cons, List.append_assoc, List.cons_append]

theorem head_ne (hn : Numerals numberText) {x : Json ν} {c : Char} (hc : kindOf c = 6)
    (h : c :: u = chars numberText x ++ v) : False := by
  obtain ⟨d, s, hx, hd⟩ := head_chars hn x
  rw [hx, List.cons_append, List.cons.injEq] at h
  rw [← h.1, hc] at hd
  cases x <;> cases hd

mutual

/-- Nothing can be taken for the value but the value. -/
theorem chars_append_inj (hn : Numerals numberText) (x y : Json ν) {u v : List Char} (hu : Stops u) (hv : Stops v)
    (h : chars numberText x ++ u = chars numberText y ++ v) : x = y ∧ u = v := by
  have hkind := kind_eq hn h
  cases x with
  | null =>
    cases y with
    | null => exact ⟨rfl, List.append_cancel_left h⟩
    | _ => cases hkind
  | bool a =>
    cases y with
    | bool b =>
      cases a <;> cases b
      · exact ⟨rfl, List.append_cancel_left h⟩
      · cases h
      · cases h
      · exact ⟨rfl, List.append_cancel_left h⟩
    | _ => cases hkind
  | number n =>
    cases y with
    | number m =>
      simp only [chars] at h
      obtain ⟨rfl, huv⟩ := hn.append_inj hu hv h
      exact ⟨rfl, huv⟩
    | _ => cases hkind
  | string a =>
    cases y with
    | string b =>
      simp only [chars] at h
      obtain ⟨rfl, huv⟩ := quote_append_inj h
      exact ⟨rfl, huv⟩
    | _ => cases hkind
  | array items =>
    cases y with
    | array items' =>
      match items, items' with
      | [], [] => exact ⟨rfl, by simpa [chars] using h⟩
      | [], y :: items' =>
        rw [chars_array_cons] at h
        simp only [chars, itemTexts, List.intercalate_nil, List.nil_append, List.cons_append, List.append_assoc,
          List.cons.injEq, true_and] at h
        exact (head_ne hn (by decide) h).elim
      | x :: items, [] =>
        rw [chars_array_cons] at h
        simp only [chars, itemTexts, List.intercalate_nil, List.nil_append, List.cons_append, List.append_assoc,
          List.cons.injEq, true_and] at h
        exact (head_ne hn (by decide) h.symm).elim
      | x :: items, y :: items' =>
        rw [chars_array_cons, chars_array_cons] at h
        simp only [List.cons_append, List.append_assoc, List.cons.injEq, true_and] at h
        obtain ⟨rfl, htail⟩ := chars_append_inj hn x y (stops_itemsTail items) (stops_itemsTail items') h
        obtain ⟨rfl, huv⟩ := itemsTail_append_inj hn items items' htail
        exact ⟨rfl, huv⟩
    | _ => cases hkind
  | object members =>
    cases y with
    | object members' =>
      match members, members' with
      | [], [] => exact ⟨rfl, by simpa [chars] using h⟩
      | [], (key, y) :: members' =>
        rw [chars_object_cons] at h
        simp [chars, memberTexts, quote] at h
      | (key, x) :: members, [] =>
        rw [chars_object_cons] at h
        simp [chars, memberTexts, quote] at h
      | (key, x) :: members, (key', y) :: members' =>
        rw [chars_object_cons, chars_object_cons] at h
        simp only [List.cons_append, List.append_assoc, List.cons.injEq, true_and] at h
        obtain ⟨rfl, hvalue⟩ := quote_append_inj h
        obtain ⟨rfl, htail⟩ := chars_append_inj hn x y (stops_membersTail members) (stops_membersTail members')
          (List.cons.inj hvalue).2
        obtain ⟨rfl, huv⟩ := membersTail_append_inj hn members members' htail
        exact ⟨rfl, huv⟩
    | _ => cases hkind

theorem itemsTail_append_inj (hn : Numerals numberText) (items items' : List (Json ν)) {u v : List Char}
    (h : itemsTail numberText items ++ u = itemsTail numberText items' ++ v) : items = items' ∧ u = v := by
  match items, items' with
  | [], [] => exact ⟨rfl, List.append_cancel_left h⟩
  | [], y :: items' =>
    rw [itemsTail_cons] at h
    cases h
  | x :: items, [] =>
    rw [itemsTail_cons] at h
    cases h
  | x :: items, y :: items' =>
    rw [itemsTail_cons, itemsTail_cons] at h
    simp only [List.cons_append, List.append_assoc, List.cons.injEq, true_and] at h
    obtain ⟨rfl, htail⟩ := chars_append_inj hn x y (stops_itemsTail items) (stops_itemsTail items') h
    obtain ⟨rfl, huv⟩ := itemsTail_append_inj hn items items' htail
    exact ⟨rfl, huv⟩

theorem membersTail_append_inj (hn : Numerals numberText) (members members' : List (String × Json ν))
    {u v : List Char} (h : membersTail numberText members ++ u = membersTail numberText members' ++ v) :
    members = members' ∧ u = v := by
  match members, members' with
  | [], [] => exact ⟨rfl, List.append_cancel_left h⟩
  | [], (key, y) :: members' =>
    rw [membersTail_cons] at h
    cases h
  | (key, x) :: members, [] =>
    rw [membersTail_cons] at h
    cases h
  | (key, x) :: members, (key', y) :: members' =>
    rw [membersTail_cons, membersTail_cons] at h
    simp only [List.cons_append, List.append_assoc, List.cons.injEq, true_and] at h
    obtain ⟨rfl, hvalue⟩ := quote_append_inj h
    obtain ⟨rfl, htail⟩ := chars_append_inj hn x y (stops_membersTail members) (stops_membersTail members')
      (List.cons.inj hvalue).2
    obtain ⟨rfl, huv⟩ := membersTail_append_inj hn members members' htail
    exact ⟨rfl, huv⟩

end

theorem stringify_injective (hn : Numerals numberText) : Function.Injective (stringify numberText) := by
  intro x y h
  have hstops : Stops [] := by rintro c ⟨⟩
  have htexts : chars numberText x ++ [] = chars numberText y ++ [] := by
    rw [List.append_nil, List.append_nil]
    exact String.ofList_inj.mp h
  exact (chars_append_inj hn x y hstops hstops htexts).1

end JsonText
