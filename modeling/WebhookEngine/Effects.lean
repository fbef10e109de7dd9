import Mathlib.Data.List.Forall2

/-! Programs that make calls and may throw: the calls made so far, and a value or what was
thrown. A call that throws has been made. -/

namespace Effects

section Exceptions

variable {ε α β : Type}

theorem map_map {γ : Type} {x : Except ε α} (f : α → β) (g : β → γ) :
    Except.map g (Except.map f x) = Except.map (g ∘ f) x := by
  cases x <;> rfl

theorem map_eq_ok {x : Except ε α} {f : α → β} {b : β} :
    Except.map f x = .ok b ↔ ∃ a, x = .ok a ∧ f a = b := by
  cases x <;> simp [Except.map]

theorem bind_eq_ok {x : Except ε α} {f : α → Except ε β} {b : β} :
    x >>= f = .ok b ↔ ∃ a, x = .ok a ∧ f a = .ok b := by
  cases x <;> simp [bind, Except.bind]

theorem bind_eq_error {x : Except ε α} {f : α → Except ε β} {e : ε} :
    x >>= f = .error e ↔ x = .error e ∨ ∃ a, x = .ok a ∧ f a = .error e := by
  cases x <;> simp [bind, Except.bind]

theorem mapM_eq_ok {f : α → Except ε β} {as : List α} {bs : List β} :
    as.mapM f = .ok bs ↔ List.Forall₂ (fun a b => f a = .ok b) as bs := by
  induction as generalizing bs with
  | nil => cases bs <;> simp [pure, Except.pure]
  | cons a as ih =>
    rw [List.mapM_cons]
    constructor
    · intro h
      obtain ⟨b, hb, hrest⟩ := bind_eq_ok.mp h
      obtain ⟨cs, hcs, hcons⟩ := bind_eq_ok.mp hrest
      obtain rfl := Except.ok.inj hcons
      exact .cons hb (ih.mp hcs)
    · intro h
      cases h with
      | @cons _ b _ cs hb hcs => exact bind_eq_ok.mpr ⟨b, hb, bind_eq_ok.mpr ⟨cs, ih.mpr hcs, rfl⟩⟩

end Exceptions

structure Run (ε ω α : Type) where
  calls : List ω
  result : Except ε α

namespace Run

variable {ε ω α β : Type}

def done (a : α) : Run ε ω α := ⟨[], .ok a⟩

def compute (result : Except ε α) : Run ε ω α := ⟨[], result⟩

def call (c : ω) (answer : Except ε α) : Run ε ω α := ⟨[c], answer⟩

def andThen (m : Run ε ω α) (f : α → Run ε ω β) : Run ε ω β :=
  match m.result with
  | .ok a => ⟨m.calls ++ (f a).calls, (f a).result⟩
  | .error e => ⟨m.calls, .error e⟩

def handle (m : Run ε ω α) (handler : ε → Run ε ω α) : Run ε ω α :=
  match m.result with
  | .ok a => ⟨m.calls, .ok a⟩
  | .error e => ⟨m.calls ++ (handler e).calls, (handler e).result⟩

instance : Monad (Run ε ω) where
  pure := done
  bind := andThen

instance : MonadExceptOf ε (Run ε ω) where
  throw e := compute (.error e)
  tryCatch := handle

@[simp] theorem calls_call (c : ω) (answer : Except ε α) : (call c answer).calls = [c] := rfl

@[simp] theorem result_call (c : ω) (answer : Except ε α) : (call c answer).result = answer := rfl

@[simp] theorem calls_compute (result : Except ε α) : (compute result : Run ε ω α).calls = [] := rfl

@[simp] theorem result_compute (result : Except ε α) : (compute result : Run ε ω α).result = result := rfl

@[simp] theorem calls_pure (a : α) : (pure a : Run ε ω α).calls = [] := rfl

@[simp] theorem result_pure (a : α) : (pure a : Run ε ω α).result = .ok a := rfl

@[simp] theorem calls_throw (e : ε) : (throw e : Run ε ω α).calls = [] := rfl

@[simp] theorem result_throw (e : ε) : (throw e : Run ε ω α).result = .error e := rfl

theorem bind_of_ok {m : Run ε ω α} {a : α} (f : α → Run ε ω β) (h : m.result = .ok a) :
    m >>= f = ⟨m.calls ++ (f a).calls, (f a).result⟩ := by
  simp only [bind, andThen, h]

theorem bind_of_error {m : Run ε ω α} {e : ε} (f : α → Run ε ω β) (h : m.result = .error e) :
    m >>= f = ⟨m.calls, .error e⟩ := by
  simp only [bind, andThen, h]

theorem mem_calls_bind {m : Run ε ω α} {f : α → Run ε ω β} {c : ω} :
    c ∈ (m >>= f).calls ↔ c ∈ m.calls ∨ ∃ a, m.result = .ok a ∧ c ∈ (f a).calls := by
  cases h : m.result with
  | ok a => simp [bind_of_ok f h]
  | error e => simp [bind_of_error f h]

theorem result_bind_eq_ok {m : Run ε ω α} {f : α → Run ε ω β} {b : β} :
    (m >>= f).result = .ok b ↔ ∃ a, m.result = .ok a ∧ (f a).result = .ok b := by
  cases h : m.result with
  | ok a => simp [bind_of_ok f h]
  | error e => simp [bind_of_error f h]

theorem tryCatch_of_ok {m : Run ε ω α} {a : α} (handler : ε → Run ε ω α) (h : m.result = .ok a) :
    tryCatch m handler = m := by
  obtain ⟨calls, result⟩ := m
  cases h
  rfl

theorem tryCatch_of_error {m : Run ε ω α} {e : ε} (handler : ε → Run ε ω α) (h : m.result = .error e) :
    tryCatch m handler = ⟨m.calls ++ (handler e).calls, (handler e).result⟩ := by
  simp only [tryCatch, tryCatchThe, MonadExceptOf.tryCatch, handle, h]

theorem mem_calls_tryCatch {m : Run ε ω α} {handler : ε → Run ε ω α} {c : ω} :
    c ∈ (tryCatch m handler).calls ↔ c ∈ m.calls ∨ ∃ e, m.result = .error e ∧ c ∈ (handler e).calls := by
  cases h : m.result with
  | ok a => simp [tryCatch_of_ok handler h]
  | error e => simp [tryCatch_of_error handler h]

end Run

end Effects
