import Mathlib.Logic.Basic

/-! Programs that perform operations and may throw, one operation at a time: what is left of
one is a program again, so that others can act in between. -/

namespace Interaction

/-- At its end, or before an operation with what follows every answer to it, a throw included. -/
inductive Program (ε : Type) (ω : Type) (ρ : ω → Type) (α : Type) where
  | ended (result : Except ε α)
  | perform (op : ω) (next : Except ε (ρ op) → Program ε ω ρ α)

namespace Program

variable {ε ω α β : Type} {ρ : ω → Type}

def call (op : ω) : Program ε ω ρ (ρ op) := .perform op .ended

def andThen (m : Program ε ω ρ α) (f : α → Program ε ω ρ β) : Program ε ω ρ β :=
  match m with
  | .ended (.ok a) => f a
  | .ended (.error e) => .ended (.error e)
  | .perform op next => .perform op fun answer => (next answer).andThen f

def handle (m : Program ε ω ρ α) (handler : ε → Program ε ω ρ α) : Program ε ω ρ α :=
  match m with
  | .ended (.ok a) => .ended (.ok a)
  | .ended (.error e) => handler e
  | .perform op next => .perform op fun answer => (next answer).handle handler

instance : Monad (Program ε ω ρ) where
  pure a := .ended (.ok a)
  bind := andThen

instance : MonadExceptOf ε (Program ε ω ρ) where
  throw e := .ended (.error e)
  tryCatch := handle

end Program

/-- An operation with the answer it got. -/
structure Event (ε ω : Type) (ρ : ω → Type) where
  op : ω
  answer : Except ε (ρ op)

/-- Which operations may come next, which answers they can get, and where these lead. -/
structure Protocol (ε ω : Type) (ρ : ω → Type) (σ : Type) where
  permits : σ → ω → Prop
  possible : (op : ω) → Except ε (ρ op) → Prop
  after : σ → (op : ω) → Except ε (ρ op) → σ

/-- A counted operation has to be paid for from what is left. -/
def Protocol.affords {ε ω : Type} {ρ : ω → Type} (counted : ω → Bool)
    (possible : (op : ω) → Except ε (ρ op) → Prop) : Protocol ε ω ρ Nat where
  permits n op := counted op = true → 0 < n
  possible := possible
  after n op _ := if counted op then n - 1 else n

namespace Program

variable {ε ω α β σ : Type} {ρ : ω → Type}

/-- The program keeps to the protocol, and every end it can come to meets `post`. -/
def Follows (P : Protocol ε ω ρ σ) (m : Program ε ω ρ α) (post : σ → Except ε α → Prop) (s : σ) : Prop :=
  match m with
  | .ended result => post s result
  | .perform op next =>
    P.permits s op ∧ ∀ answer, P.possible op answer → (next answer).Follows P post (P.after s op answer)

variable {P : Protocol ε ω ρ σ} {post : σ → Except ε α → Prop} {s : σ}

@[simp] theorem follows_pure {a : α} : (pure a : Program ε ω ρ α).Follows P post s ↔ post s (.ok a) := Iff.rfl

@[simp] theorem follows_call {op : ω} {post : σ → Except ε (ρ op) → Prop} : (call op).Follows P post s ↔
    P.permits s op ∧ ∀ answer, P.possible op answer → post (P.after s op answer) answer := Iff.rfl

@[simp] theorem follows_bind {m : Program ε ω ρ β} {f : β → Program ε ω ρ α} : (m >>= f).Follows P post s ↔
    m.Follows P (fun s result =>
      match result with
      | .ok b => (f b).Follows P post s
      | .error e => post s (.error e)) s := by
  induction m generalizing s with
  | ended result => cases result <;> rfl
  | perform op next ih => exact and_congr_right fun _ => forall₂_congr fun answer _ => ih answer

@[simp] theorem follows_tryCatch {m : Program ε ω ρ α} {handler : ε → Program ε ω ρ α} :
    (tryCatch m handler).Follows P post s ↔
      m.Follows P (fun s result =>
        match result with
        | .ok a => post s (.ok a)
        | .error e => (handler e).Follows P post s) s := by
  induction m generalizing s with
  | ended result => cases result <;> rfl
  | perform op next ih => exact and_congr_right fun _ => forall₂_congr fun answer _ => ih answer

theorem Follows.mono {post' : σ → Except ε α → Prop} {m : Program ε ω ρ α} (h : m.Follows P post s)
    (hpost : ∀ s result, post s result → post' s result) : m.Follows P post' s := by
  induction m generalizing s with
  | ended result => exact hpost s result h
  | perform op next ih => exact ⟨h.1, fun answer ha => ih answer (h.2 answer ha)⟩

section Trace

/-! The operations of a program as they were performed, and what is left of it after them. -/

inductive Trace : Program ε ω ρ α → List (Event ε ω ρ) → Program ε ω ρ α → Prop
  | nil (m : Program ε ω ρ α) : Trace m [] m
  | cons {op : ω} {next : Except ε (ρ op) → Program ε ω ρ α} {answer : Except ε (ρ op)} {events : List (Event ε ω ρ)}
      {m : Program ε ω ρ α} (h : Trace (next answer) events m) :
      Trace (.perform op next) (⟨op, answer⟩ :: events) m

variable {m m' m'' : Program ε ω ρ α} {events events' : List (Event ε ω ρ)}

theorem Trace.append (h : m.Trace events m') (h' : m'.Trace events' m'') : m.Trace (events ++ events') m'' := by
  induction h with
  | nil => exact h'
  | cons _ ih => exact .cons (ih h')

theorem Trace.of_eq (h : m.Trace events m') (he : m' = m'') : m.Trace events m'' := he ▸ h

theorem Trace.bind {f : α → Program ε ω ρ β} (h : m.Trace events m') : (m >>= f).Trace events (m' >>= f) := by
  induction h with
  | nil => exact .nil _
  | cons _ ih => exact .cons ih

theorem Trace.countP_le {counted : ω → Bool} {possible : (op : ω) → Except ε (ρ op) → Prop}
    {post : Nat → Except ε α → Prop} {n : Nat} (h : m.Trace events m')
    (hf : m.Follows (.affords counted possible) post n) (hp : ∀ e ∈ events, possible e.op e.answer) :
    events.countP (fun e => counted e.op) ≤ n := by
  induction h generalizing n with
  | nil => exact Nat.zero_le _
  | @cons op next answer events m _ ih =>
    have hrest := ih (hf.2 answer (hp _ List.mem_cons_self)) fun e he => hp e (List.mem_cons_of_mem _ he)
    have hpaid : counted op = true → 0 < n := hf.1
    simp only [Protocol.affords] at hrest
    rw [List.countP_cons]
    split at hrest
    · rename_i hcounted
      have hpos := hpaid hcounted
      rw [if_pos hcounted]
      omega
    · rename_i hcounted
      rw [if_neg hcounted]
      omega

end Trace

end Program

end Interaction
