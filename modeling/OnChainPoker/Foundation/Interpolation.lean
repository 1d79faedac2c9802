import Mathlib.LinearAlgebra.Lagrange

/-!
# Interpolation at zero

A polynomial of degree below the number of nodes is determined at zero by its
values at the nodes, with coefficients that depend on the nodes alone.  The same
combination recovers `f 0 • p` from the shares `f (node i) • p` in any vector
space, so a secret in the exponent is recovered without learning it.
-/

namespace OnChainPoker.Foundation

open Polynomial

variable {F : Type*} [Field F]

/-- The coefficient of node `i` in the value at zero. -/
def weightAtZero {ι : Type*} [DecidableEq ι] (s : Finset ι) (node : ι → F)
    (i : ι) : F :=
  (∏ j ∈ s.erase i, -node j) / ∏ j ∈ s.erase i, (node i - node j)

section Weights

variable {ι : Type*} [DecidableEq ι] {s : Finset ι} {node : ι → F}

theorem eval_basis_zero (i : ι) : (Lagrange.basis s node i).eval 0 = weightAtZero s node i := by
  simp only [Lagrange.basis, Lagrange.basisDivisor, eval_prod, eval_mul, eval_C, eval_sub, eval_X,
    zero_sub, weightAtZero, div_eq_mul_inv, Finset.prod_mul_distrib, Finset.prod_inv_distrib]
  ring

theorem eval_zero_eq_sum (hinj : Set.InjOn node s) {f : F[X]} (hdegree : f.degree < s.card) :
    f.eval 0 = ∑ i ∈ s, weightAtZero s node i * f.eval (node i) := by
  conv_lhs => rw [Lagrange.eq_interpolate hinj hdegree]
  simp only [Lagrange.interpolate_apply, eval_finsetSum, eval_mul, eval_C, eval_basis_zero]
  exact Finset.sum_congr rfl fun i _ => mul_comm _ _

/-- Recovery in the exponent: shares of `f` at the nodes combine to `f 0`. -/
theorem sum_weight_smul {M : Type*} [AddCommGroup M] [Module F M]
    (hinj : Set.InjOn node s) {f : F[X]} (hdegree : f.degree < s.card) (p : M) :
    ∑ i ∈ s, weightAtZero s node i • f.eval (node i) • p = f.eval 0 • p := by
  rw [eval_zero_eq_sum hinj hdegree, Finset.sum_smul]
  exact Finset.sum_congr rfl fun i _ => smul_smul _ _ _

end Weights

/-- Values at fewer nodes than the degree allows are compatible with every value at
zero. -/
theorem exists_eval_zero [DecidableEq F] {nodes : Finset F} (hzero : 0 ∉ nodes) {t : ℕ}
    (hcard : nodes.card < t) (values : F → F) (z : F) :
    ∃ g : F[X], g.degree < t ∧ (∀ x ∈ nodes, g.eval x = values x) ∧ g.eval 0 = z := by
  have hinj : Set.InjOn (id : F → F) (insert 0 nodes : Finset F) := Function.injective_id.injOn
  refine ⟨Lagrange.interpolate (insert 0 nodes) id (Function.update values 0 z), ?_, ?_, ?_⟩
  · apply (Lagrange.degree_interpolate_lt _ hinj).trans_le
    rw [Finset.card_insert_of_notMem hzero]
    exact_mod_cast hcard
  · intro x hx
    have hne : x ≠ 0 := fun h => hzero (h ▸ hx)
    have hnode := Lagrange.eval_interpolate_at_node (Function.update values 0 z) hinj
      (Finset.mem_insert_of_mem hx)
    rwa [Function.update_of_ne hne] at hnode
  · have hnode := Lagrange.eval_interpolate_at_node (Function.update values 0 z) hinj
      (Finset.mem_insert_self 0 nodes)
    rwa [Function.update_self] at hnode

/-! ## Polynomials given by their coefficients -/

/-- The polynomial with these coefficients, constant term first. -/
noncomputable def polyOfCoeffs : List F → F[X]
  | [] => 0
  | c :: rest => C c + X * polyOfCoeffs rest

theorem polyOfCoeffs_degree_lt (coeffs : List F) :
    (polyOfCoeffs coeffs).degree < coeffs.length := by
  induction coeffs with
  | nil => exact (degree_zero (R := F)).trans_lt (WithBot.bot_lt_coe 0)
  | cons c rest ih =>
    have hshift : (X * polyOfCoeffs rest).degree < ((rest.length + 1 : ℕ) : WithBot ℕ) := by
      rw [degree_mul, degree_X, add_comm, Nat.cast_add]
      exact WithBot.add_lt_add_right (by simp) ih
    have hconst : (C c).degree < ((rest.length + 1 : ℕ) : WithBot ℕ) :=
      degree_C_le.trans_lt (by exact_mod_cast Nat.succ_pos _)
    exact (degree_add_le _ _).trans_lt (max_lt hconst hshift)

@[simp] theorem eval_polyOfCoeffs_cons (c : F) (rest : List F) (x : F) :
    (polyOfCoeffs (c :: rest)).eval x = c + x * (polyOfCoeffs rest).eval x := by
  simp [polyOfCoeffs]

theorem foldl_powers_smul {M : Type*} [AddCommGroup M] [Module F M] (p : M)
    (x : F) (coeffs : List F) (acc : M) (pow : F) :
    ((coeffs.map (· • p)).foldl (fun (state : M × F) c => (state.1 + state.2 • c, state.2 * x))
        (acc, pow)).1 =
      acc + (pow * (polyOfCoeffs coeffs).eval x) • p := by
  induction coeffs generalizing acc pow with
  | nil => simp [polyOfCoeffs]
  | cons c rest ih =>
    simp only [List.map_cons, List.foldl_cons, ih, eval_polyOfCoeffs_cons,
      smul_smul, add_assoc, ← add_smul]
    congr 2
    ring

end OnChainPoker.Foundation
