import OnChainPoker.Foundation.Loop
import OnChainPoker.Crypto.Proofs

/-!
# Secret sharing in the exponent

`lagrangeAtZero` computes the interpolation weights at zero, and evaluating
commitments at an index evaluates the committed polynomial there.  Both are
stated for polynomials over the scalar field; every point has a logarithm, so
every vector of points commits to one.
-/

namespace OnChainPoker.Crypto.Suite

open Foundation Polynomial

variable {S : Suite}

/-! ## Logarithms -/

theorem smul_base_injective : Function.Injective fun x : S.Scalar => x • S.base := by
  intro x y hxy
  have hzero : (x - y) • S.base = 0 := by
    rw [sub_smul, sub_eq_zero]
    exact hxy
  rcases smul_eq_zero.mp hzero with hscalar | hbase
  · exact sub_eq_zero.mp hscalar
  · exact absurd hbase S.base_ne_zero

noncomputable def log (p : S.Point) : S.Scalar := (S.exists_log p).choose

@[simp] theorem log_smul_base (p : S.Point) : log p • S.base = p := (S.exists_log p).choose_spec

noncomputable def committedPoly (commitments : List S.Point) : S.Scalar[X] :=
  polyOfCoeffs (commitments.map log)

theorem committedPoly_degree_lt (commitments : List S.Point) :
    (committedPoly commitments).degree < commitments.length := by
  have hdegree := polyOfCoeffs_degree_lt (commitments.map (log (S := S)))
  rwa [List.length_map] at hdegree

theorem evalPowers_eq (commitments : List S.Point) (x : S.Scalar) :
    S.evalPowers commitments x = (committedPoly commitments).eval x • S.base := by
  have hpoints : (commitments.map log).map (· • S.base) = commitments := by simp [Function.comp_def]
  have hloop := foldl_powers_smul S.base x (commitments.map log) 0 1
  rw [hpoints, zero_add, one_mul] at hloop
  exact hloop

theorem committedPoly_eval_zero (c : S.Point) (rest : List S.Point) :
    (committedPoly (c :: rest)).eval 0 • S.base = c := by
  simp [committedPoly]

/-! ## Lagrange coefficients -/

variable {indices : List Nat} {lambdas : List S.Scalar}

theorem checkIndices_eq_ok {seen : List Nat} {u : Unit} :
    checkIndices seen indices = .ok u ↔ (∀ i ∈ indices, i ≠ 0 ∧ i ∉ seen) ∧ indices.Nodup := by
  induction indices generalizing seen with
  | nil => simp [checkIndices]
  | cons idx rest ih =>
    simp only [checkIndices, ok_iff, ih, List.mem_cons, not_or, List.nodup_cons]
    constructor
    · rintro ⟨-, hzero, -, hseen, hrest, hnodup⟩
      refine ⟨?_, fun hmem => (hrest idx hmem).2.1 rfl, hnodup⟩
      rintro i (rfl | hi)
      · exact ⟨hzero, hseen⟩
      · exact ⟨(hrest i hi).1, (hrest i hi).2.2⟩
    · rintro ⟨hall, hfresh, hnodup⟩
      refine ⟨(), (hall idx (.inl rfl)).1, (), (hall idx (.inl rfl)).2, fun i hi => ?_, hnodup⟩
      refine ⟨(hall i (.inr hi)).1, ?_, (hall i (.inr hi)).2⟩
      rintro rfl
      exact hfresh hi

private theorem lagrangeFraction_fold (indices : List Nat) (xi : Nat) (num den : S.Scalar) :
    indices.foldl (fun (num, den) xj =>
        if xj = xi then (num, den)
        else (num * -S.scalarFromUint64 xj,
          den * (S.scalarFromUint64 xi - S.scalarFromUint64 xj))) (num, den) =
      (num * ((indices.filter (· ≠ xi)).map fun j : ℕ => -(j : S.Scalar)).prod,
        den * ((indices.filter (· ≠ xi)).map fun j : ℕ => (xi : S.Scalar) - j).prod) := by
  induction indices generalizing num den with
  | nil => simp
  | cons idx rest ih =>
    rw [List.foldl_cons]
    by_cases hself : idx = xi
    · simp only [hself, if_true, ih]
      simp
    · simp only [hself, if_false, ih]
      simp [hself, scalarFromUint64, mul_assoc]

theorem lagrangeFraction_eq (hnodup : indices.Nodup) (xi : Nat) : S.lagrangeFraction indices xi =
      (∏ j ∈ indices.toFinset.erase xi, -(j : S.Scalar),
        ∏ j ∈ indices.toFinset.erase xi, ((xi : S.Scalar) - j)) := by
  have hset : indices.toFinset.erase xi = (indices.filter (· ≠ xi)).toFinset := by
    ext j
    simp [and_comm]
  have hfilter := hnodup.filter (p := (· ≠ xi))
  rw [hset, List.prod_toFinset _ hfilter, List.prod_toFinset _ hfilter]
  have hfold := lagrangeFraction_fold (S := S) indices xi 1 1
  rw [one_mul, one_mul] at hfold
  exact hfold

def IndicesDistinct (S : Suite) (indices : List Nat) : Prop :=
  Set.InjOn (fun i : ℕ => (i : S.Scalar)) {i | i ∈ indices}

theorem indicesDistinct_of_lt (hlt : ∀ i ∈ indices, i < S.order) : IndicesDistinct S indices := by
  intro i hi j hj hij
  have hmod := (ZMod.natCast_eq_natCast_iff' i j S.order).mp hij
  rwa [Nat.mod_eq_of_lt (hlt i hi), Nat.mod_eq_of_lt (hlt j hj)] at hmod

theorem lagrangeAtZero_spec (hok : S.lagrangeAtZero indices = .ok lambdas) :
    indices.Nodup ∧ IndicesDistinct S indices ∧
      lambdas = indices.map (weightAtZero indices.toFinset fun i : ℕ => (i : S.Scalar)) := by
  simp only [lagrangeAtZero, ok_iff, checkIndices_eq_ok, mapM_eq_ok_iff, scalarInv] at hok
  obtain ⟨-, -, -, ⟨-, hnodup⟩, hmap⟩ := hok
  simp only [lagrangeFraction_eq hnodup] at hmap
  refine ⟨hnodup, ?_, ?_⟩
  · -- A repeated node would make a denominator vanish.
    intro i hi j hj hij
    by_contra hne
    obtain ⟨k, hk, rfl⟩ := List.mem_iff_getElem.mp hi
    have hentry := (List.forall₂_iff_get.mp hmap).2 k hk (by rw [← hmap.length_eq]; exact hk)
    obtain ⟨-, ⟨-, hden, -⟩, -⟩ := hentry
    refine hden (Finset.prod_eq_zero (i := j) ?_ (sub_eq_zero.mpr hij))
    simp only [Finset.mem_erase, List.mem_toFinset]
    exact ⟨fun h => hne h.symm, hj⟩
  · have heach : List.Forall₂ Eq (indices.map
        (weightAtZero indices.toFinset fun i : ℕ => (i : S.Scalar))) lambdas := by
      rw [List.forall₂_map_left_iff]
      refine hmap.imp ?_
      rintro xi lambda ⟨-, ⟨-, hden, rfl⟩, rfl⟩
      rw [weightAtZero, div_eq_mul_inv, inv_eq_of_mul_eq_one_right (S.mul_invert hden)]
    rw [List.forall₂_eq_eq_eq] at heach
    exact heach.symm

theorem lagrangeAtZero_succeeds (hsome : indices ≠ []) (hzero : ∀ i ∈ indices, i ≠ 0)
    (hnodup : indices.Nodup) (hdistinct : IndicesDistinct S indices) :
    ∃ lambdas, S.lagrangeAtZero indices = .ok lambdas := by
  have hcoefficient : ∀ xi ∈ indices, ∃ lambda, (do
      let (num, den) := S.lagrangeFraction indices xi
      let denInv ← S.scalarInv den
      pure (num * denInv)) = .ok lambda := by
    intro xi hxi
    have hden : ∏ j ∈ indices.toFinset.erase xi, ((xi : S.Scalar) - j) ≠ 0 := by
      refine Finset.prod_ne_zero_iff.mpr fun j hj hvanish => ?_
      simp only [Finset.mem_erase, List.mem_toFinset] at hj
      exact hj.1 (hdistinct hxi hj.2 (sub_eq_zero.mp hvanish)).symm
    rw [lagrangeFraction_eq hnodup]
    simp only [scalarInv]
    rw [rejectIf_of_not hden]
    exact ⟨_, rfl⟩
  obtain ⟨lambdas, hmap⟩ := mapM_succeeds hcoefficient
  have hchecked : checkIndices [] indices = .ok () :=
    checkIndices_eq_ok.mpr ⟨fun i hi => ⟨hzero i hi, List.not_mem_nil⟩, hnodup⟩
  refine ⟨lambdas, ?_⟩
  unfold lagrangeAtZero
  rw [rejectIf_bind hsome, hchecked, ok_bind]
  exact hmap

theorem lagrangeAtZero_combine (hok : S.lagrangeAtZero indices = .ok lambdas)
    {f : S.Scalar[X]} (hdegree : f.degree < indices.length) (p : S.Point) :
    (List.zipWith (fun lambda (i : ℕ) => lambda • f.eval (i : S.Scalar) • p)
      lambdas indices).sum = f.eval 0 • p := by
  obtain ⟨hnodup, hdistinct, rfl⟩ := lagrangeAtZero_spec hok
  rw [← List.toFinset_card_of_nodup hnodup] at hdegree
  have hinj : Set.InjOn (fun i : ℕ => (i : S.Scalar)) indices.toFinset := by
    rw [List.coe_toFinset]
    exact hdistinct
  rw [← sum_weight_smul hinj hdegree p, List.sum_toFinset _ hnodup,
    List.zipWith_map_left, List.zipWith_self]

end OnChainPoker.Crypto.Suite
