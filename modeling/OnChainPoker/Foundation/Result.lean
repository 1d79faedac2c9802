import Mathlib.Control.Basic
import Mathlib.Logic.Basic

/-!
# Fallible computations

Handlers return `Except`.  A handler is written as a sequence of guards and
fallible calls, and the lemmas below turn "the handler accepted" into the
conjunction of what each guard and each call established.  Proofs about a
handler never unfold the monad.
-/

namespace OnChainPoker.Foundation

universe u

variable {ε ε' : Type*} {α β : Type u}

/-- A guard: fail with `error` when the condition holds. -/
def rejectIf (condition : Prop) [Decidable condition] (error : ε) : Except ε Unit :=
  if condition then .error error else .ok ()

def require (value : Option α) (error : ε) : Except ε α :=
  match value with
  | none => .error error
  | some a => .ok a

variable {condition : Prop} {error : ε} {a value : α} {first : Except ε α} {next : α → Except ε β}

@[simp] theorem rejectIf_eq_ok [Decidable condition] {u : Unit} :
    rejectIf condition error = .ok u ↔ ¬ condition := by
  unfold rejectIf
  split <;> simp [*]

@[simp] theorem rejectIf_of_not [Decidable condition] (h : ¬ condition) :
    rejectIf condition error = .ok () := by
  simp [h]

@[simp] theorem require_eq_ok {value : Option α} :
    require value error = .ok a ↔ value = some a := by
  cases value <;> simp [require]

@[simp] theorem bind_ok_iff {result : β} :
    (first >>= next) = .ok result ↔ ∃ middle, first = .ok middle ∧ next middle = .ok result := by
  constructor
  · intro h
    cases first with
    | error e => cases h
    | ok middle => exact ⟨middle, rfl, h⟩
  · rintro ⟨middle, rfl, hnext⟩
    exact hnext

@[simp] theorem pure_ok_iff {result : α} :
    (pure value : Except ε α) = .ok result ↔ value = result := by
  constructor
  · intro h
    exact Except.ok.inj h
  · rintro rfl
    rfl

@[simp] theorem map_eq_ok {x : Except ε α} {f : α → β} {b : β} :
    (f <$> x) = .ok b ↔ ∃ a, x = .ok a ∧ f a = b := by
  cases x with
  | error e | ok a => simp [Functor.map, Except.map]

@[simp] theorem mapError_ok_iff {result : Except ε α} {wrap : ε → ε'} :
    result.mapError wrap = .ok value ↔ result = .ok value := by
  cases result with
  | error e | ok a => simp [Except.mapError]

/-- The rules for an accepted handler, as one `simp` set. -/
theorem ok_iff : (∀ {ε α β : Type} {first : Except ε α} {next : α → Except ε β} {result : β},
      (first >>= next) = .ok result ↔ ∃ middle, first = .ok middle ∧ next middle = .ok result) ∧
    (∀ {ε α : Type} {value result : α}, (pure value : Except ε α) = .ok result ↔ value = result) ∧
    (∀ {ε : Type} {condition : Prop} [Decidable condition] {error : ε} {u : Unit},
      rejectIf condition error = .ok u ↔ ¬ condition) ∧
    (∀ {ε α : Type} {value : Option α} {error : ε} {a : α},
      require value error = .ok a ↔ value = some a) ∧
    ∀ {ε ε' α : Type} {result : Except ε α} {wrap : ε → ε'} {value : α},
      result.mapError wrap = .ok value ↔ result = .ok value :=
  ⟨bind_ok_iff, pure_ok_iff, rejectIf_eq_ok, require_eq_ok, mapError_ok_iff⟩

@[simp] theorem ok_bind (a : α) (f : α → Except ε β) : ((.ok a : Except ε α) >>= f) = f a := rfl

theorem rejectIf_bind {α : Type} [Decidable condition] {next : Unit → Except ε α}
    (h : ¬ condition) : (rejectIf condition error >>= next) = next () := by
  rw [rejectIf_of_not h, ok_bind]

@[simp] theorem error_bind (e : ε) (f : α → Except ε β) :
    ((.error e : Except ε α) >>= f) = .error e := rfl

theorem bind_congr_ok {next' : α → Except ε β} (hsame : ∀ a, first = .ok a → next a = next' a) :
    (first >>= next) = (first >>= next') := by
  cases first with
  | error e => rfl
  | ok a => exact hsame a rfl

theorem toOption_eq_some {x : Except ε α} : x.toOption = some a ↔ x = .ok a := by
  cases x with
  | error e | ok b => simp [Except.toOption]

theorem isOk_iff {ε α : Type*} {x : Except ε α} : x.isOk = true ↔ ∃ a, x = .ok a := by
  cases x with
  | error e | ok a => simp [Except.isOk, Except.toBool]

end OnChainPoker.Foundation
