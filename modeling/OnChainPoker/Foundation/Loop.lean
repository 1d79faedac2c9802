import Mathlib.Algebra.BigOperators.Group.Finset.Basic
import Mathlib.Algebra.BigOperators.Pi
import Mathlib.Data.List.Forall2
import OnChainPoker.Foundation.Result

/-!
# Loops over a family of cells

A loop of the source over a fixed set of cells is a `foldlM` over their list.
The rules below say what such a loop establishes: an invariant of every pass
holds at its end, and a loop that rewrites each cell once rewrites exactly the
listed cells.  Sums over a family change by the changed cell only.
-/

namespace OnChainPoker.Foundation

universe u

variable {ε : Type*} {α ι σ : Type u} {cells xs : List α}

variable {step : σ → α → Except ε σ} {s : σ} {next : σ → α → σ} {β : Type u}
  {f : α → Except ε β} {ys : List β}

theorem foldlM_invariant (Inv : σ → Prop)
    (hstep : ∀ a ∈ cells, ∀ s s', Inv s → step s a = .ok s' → Inv s') {s' : σ}
    (hs : Inv s) (hloop : cells.foldlM step s = .ok s') : Inv s' := by
  induction cells generalizing s with
  | nil =>
    cases hloop
    exact hs
  | cons a rest ih =>
    rw [List.foldlM_cons, bind_ok_iff] at hloop
    obtain ⟨middle, hfirst, hrest⟩ := hloop
    have hmiddle := hstep a (by simp) s middle hs hfirst
    exact ih (fun b hb => hstep b (by simp [hb])) hmiddle hrest

theorem foldl_invariant (Inv : σ → Prop)
    (hstep : ∀ a ∈ cells, ∀ s, Inv s → Inv (next s a)) (hs : Inv s) :
    Inv (cells.foldl next s) := by
  induction cells generalizing s with
  | nil => exact hs
  | cons a rest ih =>
    apply ih fun b hb => hstep b (by simp [hb])
    exact hstep a (by simp) s hs

theorem le_foldl_max (value : α → Nat) (start : Nat) :
    start ≤ cells.foldl (fun m a => max m (value a)) start ∧
      ∀ a ∈ cells, value a ≤ cells.foldl (fun m a => max m (value a)) start := by
  induction cells generalizing start with
  | nil => exact ⟨Nat.le_refl _, by simp⟩
  | cons a rest ih =>
    obtain ⟨hstart, hrest⟩ := ih (max start (value a))
    constructor
    · exact (Nat.le_max_left _ _).trans hstart
    · intro b hb
      rcases List.mem_cons.mp hb with rfl | hb
      · exact (Nat.le_max_right _ _).trans hstart
      · exact hrest b hb

/-- A loop every pass of which succeeds and keeps the invariant succeeds. -/
theorem foldlM_succeeds (Inv : σ → Prop)
    (hstep : ∀ a ∈ cells, ∀ s, Inv s → ∃ s', step s a = .ok s' ∧ Inv s') (hs : Inv s) :
    ∃ s', cells.foldlM step s = .ok s' ∧ Inv s' := by
  induction cells generalizing s with
  | nil => exact ⟨s, rfl, hs⟩
  | cons a rest ih =>
    obtain ⟨middle, hfirst, hmiddle⟩ := hstep a (by simp) s hs
    obtain ⟨last, hrest, hlast⟩ := ih (fun b hb => hstep b (by simp [hb])) hmiddle
    refine ⟨last, ?_, hlast⟩
    rw [List.foldlM_cons, hfirst]
    exact hrest

theorem foldlM_eq_foldl (hstep : ∀ a ∈ cells, ∀ s, step s a = .ok (next s a)) (s : σ) :
    cells.foldlM step s = .ok (cells.foldl next s) := by
  induction cells generalizing s with
  | nil => rfl
  | cons a rest ih =>
    rw [List.foldlM_cons, hstep a (by simp), ok_bind, List.foldl_cons]
    exact ih (fun b hb => hstep b (by simp [hb])) _

theorem foldlM_add {M : Type u} [AddCommMonoid M] (summand : α → M) {step : M → α → Except ε M}
    (hstep : ∀ a ∈ cells, ∀ s s', step s a = .ok s' → s' = s + summand a) {s s' : M}
    (hloop : cells.foldlM step s = .ok s') :
    s' = s + (cells.map summand).sum := by
  induction cells generalizing s with
  | nil =>
    cases hloop
    simp
  | cons a rest ih =>
    rw [List.foldlM_cons, bind_ok_iff] at hloop
    obtain ⟨middle, hfirst, hrest⟩ := hloop
    have hmiddle := hstep a (by simp) s middle hfirst
    have hlast := ih (fun b hb => hstep b (by simp [hb])) hrest
    rw [hlast, hmiddle, List.map_cons, List.sum_cons, add_assoc]

theorem mapM_eq_ok_iff : xs.mapM f = .ok ys ↔ List.Forall₂ (fun x y => f x = .ok y) xs ys := by
  induction xs generalizing ys with
  | nil => rw [List.mapM_nil, pure_ok_iff, List.forall₂_nil_left_iff, eq_comm]
  | cons x rest ih =>
    simp only [List.mapM_cons, bind_ok_iff, pure_ok_iff, List.forall₂_cons_left_iff, ih]
    constructor
    · rintro ⟨y, hfirst, tail, hrest, rfl⟩
      exact ⟨y, tail, hfirst, hrest, rfl⟩
    · rintro ⟨y, tail, hfirst, hrest, rfl⟩
      exact ⟨y, hfirst, tail, hrest, rfl⟩

theorem mapM_getElem? (hok : xs.mapM f = .ok ys) {i : Nat} {x : α} (hx : xs[i]? = some x) :
    ∃ y, ys[i]? = some y ∧ f x = .ok y := by
  have hall := mapM_eq_ok_iff.mp hok
  induction hall generalizing i with
  | nil => simp at hx
  | cons hhead hrest ih =>
    cases i with
    | zero =>
      cases hx
      exact ⟨_, rfl, hhead⟩
    | succ i => exact ih (mapM_eq_ok_iff.mpr hrest) hx

theorem mapM_mem (hok : xs.mapM f = .ok ys) {y : β} (hy : y ∈ ys) : ∃ x ∈ xs, f x = .ok y := by
  have hall := mapM_eq_ok_iff.mp hok
  induction hall with
  | nil => cases hy
  | cons hhead hrest ih =>
    rcases List.mem_cons.mp hy with rfl | htail
    · exact ⟨_, by simp, hhead⟩
    · obtain ⟨x, hx, hfx⟩ := ih (mapM_eq_ok_iff.mpr hrest) htail
      exact ⟨x, by simp [hx], hfx⟩

theorem mapM_succeeds (heach : ∀ x ∈ xs, ∃ y, f x = .ok y) : ∃ ys, xs.mapM f = .ok ys := by
  induction xs with
  | nil => exact ⟨[], rfl⟩
  | cons x rest ih =>
    obtain ⟨y, hfirst⟩ := heach x (by simp)
    obtain ⟨ys, hrest⟩ := ih fun x' hx' => heach x' (by simp [hx'])
    refine ⟨y :: ys, ?_⟩
    rw [List.mapM_cons, hfirst, ok_bind, hrest]
    rfl

section Update

variable [DecidableEq ι]

/-- A loop that rewrites cell `i` to `next i (f i)` on pass `i`. -/
theorem foldlM_update (next : ι → α → α) {step : (ι → α) → ι → Except ε (ι → α)}
    (hstep : ∀ f i f', step f i = .ok f' → f' = Function.update f i (next i (f i))) {cells : List ι}
    (hnodup : cells.Nodup) {f f' : ι → α} (hloop : cells.foldlM step f = .ok f') (i : ι) :
    f' i = if i ∈ cells then next i (f i) else f i := by
  induction cells generalizing f with
  | nil =>
    cases hloop
    simp
  | cons a rest ih =>
    rw [List.foldlM_cons, bind_ok_iff] at hloop
    obtain ⟨middle, hfirst, hrest⟩ := hloop
    obtain ⟨hfresh, hnodup⟩ := List.nodup_cons.mp hnodup
    have hcell := ih hnodup hrest
    rw [hstep f a middle hfirst] at hcell
    by_cases hia : i = a
    · subst hia
      simpa [hfresh] using hcell
    · simpa [hia] using hcell

variable [Fintype ι] {M : Type*} [AddCommMonoid M]

theorem sum_update_exchange (weight : α → M) (f : ι → α) (i : ι) (value : α) :
    (∑ x, weight (Function.update f i value x)) + weight (f i) =
      (∑ x, weight (f x)) + weight value := by
  have hcells : (fun x => weight (Function.update f i value x)) =
      Function.update (fun x => weight (f x)) i (weight value) := by
    funext x
    by_cases hx : x = i
    · subst hx
      simp
    · simp [hx]
  rw [hcells, Finset.sum_update_of_mem (Finset.mem_univ i), ← Finset.add_sum_erase _ (fun x =>
    weight (f x)) (Finset.mem_univ i), Finset.sdiff_singleton_eq_erase]
  ac_rfl

end Update

end OnChainPoker.Foundation
