import Mathlib.Data.List.Induction

/-! JSON values and the text `JSON.stringify` writes for them, without indentation. -/

namespace JsonText

/-- The members of an object stand in the order they are enumerated in. -/
inductive Json (ν : Type) where
  | null
  | bool (b : Bool)
  | number (n : ν)
  | string (s : String)
  | array (items : List (Json ν))
  | object (members : List (String × Json ν))

variable {ν : Type}

def hexDigit (n : Nat) : Char := Char.ofNat (if n < 10 then 48 + n else 87 + n)

/-- The two-character escapes, the escape of the other control characters, and the rest as
they are. -/
def escape (c : Char) : List Char :=
  if c = '"' then ['\\', '"']
  else if c = '\\' then ['\\', '\\']
  else if c.toNat = 8 then ['\\', 'b']
  else if c = '\t' then ['\\', 't']
  else if c = '\n' then ['\\', 'n']
  else if c.toNat = 12 then ['\\', 'f']
  else if c = '\r' then ['\\', 'r']
  else if c.toNat < 32 then ['\\', 'u', '0', '0', hexDigit (c.toNat / 16), hexDigit (c.toNat % 16)]
  else [c]

def escaped (s : String) : List Char := s.toList.flatMap escape

def quote (s : String) : List Char := '"' :: (escaped s ++ ['"'])

mutual

def chars (numberText : ν → String) : Json ν → List Char
  | .null => "null".toList
  | .bool b => if b then "true".toList else "false".toList
  | .number n => (numberText n).toList
  | .string s => quote s
  | .array items => '[' :: ([','].intercalate (itemTexts numberText items) ++ [']'])
  | .object members => '\x7b' :: ([','].intercalate (memberTexts numberText members) ++ ['\x7d'])

def itemTexts (numberText : ν → String) : List (Json ν) → List (List Char)
  | [] => []
  | x :: items => chars numberText x :: itemTexts numberText items

def memberTexts (numberText : ν → String) : List (String × Json ν) → List (List Char)
  | [] => []
  | (key, x) :: members =>
    (quote key ++ ':' :: chars numberText x) :: memberTexts numberText members

end

def stringify (numberText : ν → String) (x : Json ν) : String :=
  String.ofList (chars numberText x)

/-- The values differ only in the string one member holds, somewhere inside, under one of
the keys. -/
inductive DifferAt (keys : List String) (u v : String) : Json ν → Json ν → Prop where
  | held (before after : List (String × Json ν)) {key : String} : key ∈ keys →
      DifferAt keys u v (.object (before ++ (key, .string u) :: after))
        (.object (before ++ (key, .string v) :: after))
  | item (before after : List (Json ν)) {x y : Json ν} : DifferAt keys u v x y →
      DifferAt keys u v (.array (before ++ x :: after)) (.array (before ++ y :: after))
  | member (before after : List (String × Json ν)) (key : String) {x y : Json ν} :
      DifferAt keys u v x y →
      DifferAt keys u v (.object (before ++ (key, x) :: after))
        (.object (before ++ (key, y) :: after))

variable {numberText : ν → String}

theorem itemTexts_append (xs ys : List (Json ν)) :
    itemTexts numberText (xs ++ ys) = itemTexts numberText xs ++ itemTexts numberText ys := by
  induction xs with
  | nil => rfl
  | cons x xs ih => simp only [List.cons_append, itemTexts, ih]

theorem memberTexts_append (xs ys : List (String × Json ν)) :
    memberTexts numberText (xs ++ ys) =
      memberTexts numberText xs ++ memberTexts numberText ys := by
  induction xs with
  | nil => rfl
  | cons x xs ih =>
    obtain ⟨key, x⟩ := x
    simp only [List.cons_append, memberTexts, ih]

theorem intercalate_cons_flatMap (text : List Char) (texts : List (List Char)) :
    [','].intercalate (text :: texts) = text ++ texts.flatMap (',' :: ·) := by
  induction texts generalizing text with
  | nil => simp
  | cons t texts ih =>
    rw [List.intercalate_cons_cons, ih t]
    simp

theorem intercalate_append_cons (before : List (List Char)) (text : List Char)
    (after : List (List Char)) : [','].intercalate (before ++ text :: after) =
      before.flatMap (· ++ [',']) ++ (text ++ after.flatMap (',' :: ·)) := by
  induction before with
  | nil => exact intercalate_cons_flatMap text after
  | cons t before ih =>
    have hne : before ++ text :: after ≠ [] := by simp
    rw [List.cons_append, List.intercalate_cons_of_ne_nil hne, ih]
    simp

/-- What stands around one of the texts in brackets does not depend on it. -/
theorem enclosed_around (first last : Char) (before after : List (List Char)) :
    ∃ pre a b post, (a = first ∨ a = ',') ∧ (b = ',' ∨ b = last) ∧ ∀ text,
      first :: ([','].intercalate (before ++ text :: after) ++ [last]) =
        pre ++ a :: (text ++ b :: post) := by
  obtain ⟨pre, a, ha, hpre⟩ : ∃ pre a, (a = first ∨ a = ',') ∧
      first :: before.flatMap (· ++ [',']) = pre ++ [a] := by
    cases before using List.reverseRecOn with
    | nil => exact ⟨[], first, .inl rfl, rfl⟩
    | append_singleton before t =>
      exact ⟨first :: (before.flatMap (· ++ [',']) ++ t), ',', .inr rfl, by simp⟩
  obtain ⟨b, post, hb, hpost⟩ : ∃ b post, (b = ',' ∨ b = last) ∧
      after.flatMap (',' :: ·) ++ [last] = b :: post := by
    cases after with
    | nil => exact ⟨last, [], .inr rfl, rfl⟩
    | cons t after =>
      exact ⟨',', t ++ (after.flatMap (',' :: ·) ++ [last]), .inl rfl, by simp⟩
  refine ⟨pre, a, b, post, ha, hb, fun text => ?_⟩
  calc first :: ([','].intercalate (before ++ text :: after) ++ [last])
      = first :: before.flatMap (· ++ [',']) ++ (text ++ (after.flatMap (',' :: ·) ++ [last])) := by
        rw [intercalate_append_cons]
        simp only [List.append_assoc, List.cons_append]
    _ = pre ++ a :: (text ++ b :: post) := by
        rw [hpre, hpost]
        simp only [List.append_assoc, List.singleton_append]

/-- The texts of two values that differ in one string are the same around it. A comma or the
bracket of an object stands before the key and after the string. -/
theorem DifferAt.chars_around (numberText : ν → String) {keys : List String} {u v : String}
    {x y : Json ν} (h : DifferAt keys u v x y) : ∃ pre a key b post,
      (a = '\x7b' ∨ a = ',') ∧ (b = ',' ∨ b = '\x7d') ∧ key ∈ keys ∧
      chars numberText x = pre ++ a :: (quote key ++ ':' :: (quote u ++ b :: post)) ∧
      chars numberText y = pre ++ a :: (quote key ++ ':' :: (quote v ++ b :: post)) := by
  induction h with
  | held before after hkey =>
    obtain ⟨pre, a, b, post, ha, hb, htext⟩ := enclosed_around '\x7b' '\x7d'
      (memberTexts numberText before) (memberTexts numberText after)
    refine ⟨pre, a, _, b, post, ha, hb, hkey, ?_, ?_⟩ <;>
      simp only [chars, memberTexts_append, memberTexts, htext, List.append_assoc,
        List.cons_append]
  | item before after _ ih =>
    obtain ⟨pre, a, key, b, post, ha, hb, hkey, hx, hy⟩ := ih
    obtain ⟨pre', a', b', post', _, _, htext⟩ := enclosed_around '[' ']'
      (itemTexts numberText before) (itemTexts numberText after)
    refine ⟨pre' ++ a' :: pre, a, key, b, post ++ b' :: post', ha, hb, hkey, ?_, ?_⟩
    · simp only [chars, itemTexts_append, itemTexts, htext, hx, List.append_assoc,
        List.cons_append]
    · simp only [chars, itemTexts_append, itemTexts, htext, hy, List.append_assoc,
        List.cons_append]
  | member before after name _ ih =>
    obtain ⟨pre, a, key, b, post, ha, hb, hkey, hx, hy⟩ := ih
    obtain ⟨pre', a', b', post', _, _, htext⟩ := enclosed_around '\x7b' '\x7d'
      (memberTexts numberText before) (memberTexts numberText after)
    refine ⟨pre' ++ a' :: (quote name ++ ':' :: pre), a, key, b, post ++ b' :: post', ha, hb,
      hkey, ?_, ?_⟩
    · simp only [chars, memberTexts_append, memberTexts, htext, hx, List.append_assoc,
        List.cons_append]
    · simp only [chars, memberTexts_append, memberTexts, htext, hy, List.append_assoc,
        List.cons_append]

end JsonText
