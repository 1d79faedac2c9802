import OnChainPoker.Foundation.Result

/-!
# Bisimulation of fallible systems

Two computations agree when both fail, or both succeed with related results; what an
error says is not compared.  A relation between states is a bisimulation for a handler
when related states answer every allowed message in agreement.

Agreement is proved by following the code: the rules below go through a sequence of
guards and calls one step at a time.
-/

namespace OnChainPoker.Foundation

universe u

/-! ## Agreement of two computations -/

section Agreement

variable {ε : Type*} {α β γ δ : Type u}

/-- Both fail, or both succeed with related results. -/
def Agree (R : α → β → Prop) : Except ε α → Except ε β → Prop
  | .ok a, .ok b => R a b
  | .error _, .error _ => True
  | _, _ => False

variable {R : γ → δ → Prop}

variable {Q : α → β → Prop} {x : Except ε γ} {f : α → Except ε γ} {y : Except ε δ}

theorem Agree.bind {x : Except ε α} {y : Except ε β} {g : β → Except ε δ}
    (hfirst : Agree Q x y) (hrest : ∀ a b, x = .ok a → Q a b → Agree R (f a) (g b)) :
    Agree R (x >>= f) (y >>= g) := by
  cases x with
  | error e =>
    cases y with
    | error e' => trivial
    | ok b => exact hfirst.elim
  | ok a =>
    cases y with
    | error e' => exact hfirst.elim
    | ok b => exact hrest a b rfl hfirst

theorem Agree.rfl {x : Except ε α} : Agree Eq x x := by
  cases x with
  | error e => trivial
  | ok a => exact Eq.refl a

theorem Agree.bind_same {x : Except ε α} {g : α → Except ε δ}
    (hrest : ∀ a, x = .ok a → Agree R (f a) (g a)) :
    Agree R (x >>= f) (x >>= g) := by
  apply Agree.bind Agree.rfl
  rintro a b hx hab
  cases hab
  exact hrest a hx

theorem Agree.mapError {ε' : Type*} {wrap : ε → ε'} (h : Agree R x y) :
    Agree R (x.mapError wrap) (y.mapError wrap) := by
  cases x <;> cases y <;> exact h

theorem Agree.mono {R' : γ → δ → Prop} (h : Agree R x y)
    (himp : ∀ c d, x = .ok c → y = .ok d → R c d → R' c d) :
    Agree R' x y := by
  cases x <;> cases y <;> first | exact h | exact himp _ _ (Eq.refl _) (Eq.refl _) h

theorem Agree.of_fails (hx : ∀ c, x ≠ .ok c) (hy : ∀ d, y ≠ .ok d) : Agree R x y := by
  cases x with
  | ok c => exact absurd (Eq.refl _) (hx c)
  | error e =>
    cases y with
    | ok d => exact absurd (Eq.refl _) (hy d)
    | error e' => trivial

theorem Agree.rejectIf {p q : Prop} [Decidable p] [Decidable q] {e e' : ε}
    (hiff : p ↔ q) : Agree Eq (rejectIf p e) (Foundation.rejectIf q e') := by
  by_cases hp : p
  · simp [Foundation.rejectIf, hp, hiff.mp hp, Agree]
  · simp [Foundation.rejectIf, hp, hiff.not.mp hp, Agree]

theorem Agree.foldlM {σ : Type*} {f : α → σ → Except ε α} {g : β → σ → Except ε β}
    (hpass : ∀ a b x, Q a b → Agree Q (f a x) (g b x)) (l : List σ) {a : α} {b : β} (h : Q a b) :
    Agree Q (l.foldlM f a) (l.foldlM g b) := by
  induction l generalizing a b with
  | nil => exact h
  | cons x rest ih =>
    apply Agree.bind (hpass a b x h)
    intro a' b' _ h'
    exact ih h'

theorem Agree.isOk_iff (h : Agree R x y) : x.isOk = true ↔ y.isOk = true := by
  cases x <;> cases y <;> simp_all [Agree, Except.isOk, Except.toBool]

end Agreement

/-! ## Bisimilar states -/

section System

variable {ε : Type*} {State : Type u} {Message : Type*}

/-- Related states accept the same allowed messages and stay related. -/
def IsBisimulation (handle : State → Message → Except ε State) (allowed : Message → Prop)
    (R : State → State → Prop) : Prop :=
  ∀ s s' m, R s s' → allowed m → Agree R (handle s m) (handle s' m)

/-- No sequence of allowed messages tells the two states apart. -/
def Bisimilar (handle : State → Message → Except ε State) (allowed : Message → Prop)
    (s s' : State) : Prop :=
  ∃ R, IsBisimulation handle allowed R ∧ R s s'

theorem Bisimilar.isOk_iff {handle : State → Message → Except ε State} {allowed : Message → Prop}
    {s s' : State} (h : Bisimilar handle allowed s s') {m : Message} (hm : allowed m) :
    (handle s m).isOk = true ↔ (handle s' m).isOk = true := by
  obtain ⟨R, hR, hrel⟩ := h
  exact (hR s s' m hrel hm).isOk_iff

end System

end OnChainPoker.Foundation
